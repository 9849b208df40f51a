import Pageweave.Config.Basic
import Pageweave.Failure.Report
import Pageweave.Toml.Parser

/-!
# Reading configurations

A configuration is the table `view` of a TOML text, or the defaults if there is no such table. The
table knows no other keys than the options; anything outside it only has to be legible. In place of
a table there may be an array with the values of the options in their order, of which the last ones
may be missing; what follows the last option is not looked at.
-/

namespace Pageweave

namespace Toml.Value

/-- The text of a value that is one. -/
def text? : Value → Option Text
  | string text => some text
  | _ => none

/-- The truth value of a value that is one. -/
def boolean? : Value → Option Bool
  | boolean value => some value
  | _ => none

/-- The number of a value that is an integer from zero on with at most 64 bits. -/
def count? : Value → Option Nat
  | integer value => if 0 ≤ value && value < (Nat.pow 2 64 : Nat) then some value.toNat else none
  | _ => none

/-- The texts of a value that is an array of nothing else. -/
def texts? : Value → Option (List Text)
  | array items => items.mapM text?
  | _ => none

end Toml.Value

namespace Config

/-- The names of the options in their order. -/
def optionNames : List String :=
  ["root", "preloads", "minify", "context_anchor", "client_variable", "max_substitutions"]

/-- The configuration with the option of the given name set. -/
def setOption? (config : Config) (name : String) (value : Toml.Value) : Option Config :=
  match name with
  | "root" => value.text?.map fun root => { config with root := ⟨root⟩ }
  | "preloads" => value.texts?.map fun preloads => { config with preloads }
  | "minify" => value.boolean?.map fun minify => { config with minify }
  | "context_anchor" => value.text?.map fun contextAnchor => { config with contextAnchor }
  | "client_variable" => value.text?.map fun clientVariable => { config with clientVariable }
  | "max_substitutions" =>
      value.count?.map fun maxSubstitutions => { config with maxSubstitutions }
  | _ => none

/-- The configuration with the given values and defaults for the rest. -/
def ofOptions? (options : List (String × Toml.Value)) : Option Config :=
  options.foldlM (fun config (name, value) => config.setOption? name value) {}

/-- The configuration that a value stands for. -/
def ofValue? : Toml.Value → Option Config
  | .table _ members => ofOptions? (members.map fun (key, value) => (String.ofList key, value))
  | .array items => ofOptions? (optionNames.zip items)
  | _ => none

/-- The configuration in a text that has the right format. -/
def ofToml? (text : Text) : Option Config := do
  let table ← Toml.read? text
  guard (Toml.Value.membersLegible (table.filter fun (key, _) => key ≠ "view".toList))
  match table.find? "view".toList with
  | none => some {}
  | some value => ofValue? value

/-- The configuration in a text, if there is nothing wrong with it. -/
def read (text : Text) : Except Cause Config :=
  match ofToml? text with
  | none => .error (.malformed .toml)
  | some config =>
      match config.fault? with
      | some fault => .error (.view (.config fault))
      | none => .ok config

end Config

end Pageweave

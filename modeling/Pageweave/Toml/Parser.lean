import Pageweave.Toml.Quoted
import Pageweave.Toml.Unquoted

/-!
# Reading TOML

A text is read line by line: a line is blank, or a header, or assigns a value to a key; a value in
brackets or braces may go on over several lines. The lines then build the table that the text
stands for. At most eighty brackets and braces may be open at a time, and a key has at most eighty
parts.
-/

namespace Pageweave.Toml

/-- A character of a key without marks. -/
def inBareKey (c : Char) : Bool :=
  c.isAlphanum || c = '_' || c = '-'

/-- The part of a dotted key at the start of a text. -/
def simpleKey? (text : Text) : Option (Found Text text) :=
  let bare := text.takeWhile inBareKey
  if h : 0 < bare.length then
    some ⟨bare, text.drop bare.length, by
      have : bare.length ≤ text.length := (List.takeWhile_prefix inBareKey).length_le
      simp only [List.length_drop]
      omega⟩
  else singleLine? text

/-- A key: the path before its last part, and that part. -/
structure KeyPath where
  /-- The parts before the last one. -/
  path : List Text
  /-- The last part. -/
  key : Text

/-- The number of parts that a key may have. -/
def partLimit : Nat := 80

/-- The dotted key at the start of a text, with the blanks around it; `before` are the parts read
so far. -/
def keyPath? (before : List Text) (text : Text) : Option (Found KeyPath text) :=
  match simpleKey? (skipBlanks text) with
  | none => none
  | some ⟨key, rest, shorter⟩ =>
      have within : rest.length < text.length :=
        Nat.lt_of_lt_of_le shorter (length_skipBlanks_le text)
      match next : skipBlanks rest with
      | '.' :: rest =>
          have := Nat.lt_trans (length_lt_of_skipBlanks next) within
          (keyPath? (before ++ [key]) rest).map (·.widen (Nat.le_of_lt this))
      | _ =>
          if before.length < partLimit then
            some ⟨⟨before, key⟩, skipBlanks rest,
              Nat.lt_of_le_of_lt (length_skipBlanks_le rest) within⟩
          else none
termination_by text.length

/-- The items of an array after its opening bracket, given how to read one; `read` holds the items
so far, latest first. -/
def items? (item? : (text : Text) → Option (Found Value text)) (read : List Value)
    (text : Text) : Option (Found (List Value) text) :=
  match ended : skipLines text with
  | ']' :: rest => some ⟨read.reverse, rest, length_lt_of_skipLines ended⟩
  | _ =>
      match item? (skipLines text) with
      | none => none
      | some ⟨item, rest, shorter⟩ =>
          have within : rest.length < text.length :=
            Nat.lt_of_lt_of_le shorter (length_skipLines_le text)
          match next : skipLines rest with
          | ',' :: rest =>
              have := Nat.lt_trans (length_lt_of_skipLines next) within
              (items? item? (item :: read) rest).map (·.widen (Nat.le_of_lt this))
          | ']' :: rest =>
              some ⟨(item :: read).reverse, rest,
                Nat.lt_trans (length_lt_of_skipLines next) within⟩
          | _ => none
termination_by text.length

/-- The key and value at the start of a text, given the spacing around the equals sign and how to
read a value. -/
def keyValue? (spacing : Spacing) (value? : (text : Text) → Option (Found Value text))
    (text : Text) : Option (Found (KeyPath × Value) text) :=
  match keyPath? [] text with
  | none => none
  | some ⟨key, rest, shorter⟩ =>
      match equals : spacing.skip rest with
      | '=' :: rest =>
          have within := Nat.lt_trans (Spacing.length_lt_of_skip equals) shorter
          (value? (spacing.skip rest)).map fun found =>
            (found.map (key, ·)).widen
              (Nat.le_of_lt (Nat.lt_of_le_of_lt (spacing.length_skip_le rest) within))
      | _ => none

/-- The members of a table after its opening brace, given how to read a value; `read` is the table
so far. -/
def members? (value? : (text : Text) → Option (Found Value text)) (read : Table)
    (text : Text) : Option (Found Table text) :=
  match ended : skipLines text with
  | '\x7d' :: rest => some ⟨read, rest, length_lt_of_skipLines ended⟩
  | _ =>
      match keyValue? .lines value? (skipLines text) with
      | none => none
      | some ⟨(key, value), rest, shorter⟩ =>
          have within : rest.length < text.length :=
            Nat.lt_of_lt_of_le shorter (length_skipLines_le text)
          match Table.assign key.path key.key value .braces read with
          | none => none
          | some read =>
              match next : skipLines rest with
              | ',' :: rest =>
                  have := Nat.lt_trans (length_lt_of_skipLines next) within
                  (members? value? read rest).map (·.widen (Nat.le_of_lt this))
              | '\x7d' :: rest =>
                  some ⟨read, rest, Nat.lt_trans (length_lt_of_skipLines next) within⟩
              | _ => none
termination_by text.length

/-- The value at the start of a text, in which at most `nesting` brackets and braces may be open at
a time. -/
def value? (nesting : Nat) (text : Text) : Option (Found Value text) :=
  match nesting, text with
  | nesting + 1, '[' :: rest =>
      (items? (value? nesting) [] rest).map fun found =>
        (found.map Value.array).widen (by simp)
  | nesting + 1, '\x7b' :: rest =>
      (members? (value? nesting) [] rest).map fun found =>
        (found.map (Value.table .braces)).widen (by simp)
  | _, text =>
      match quoted? text with
      | some found => some (found.map Value.string)
      | none => unquoted? text

/-- The number of brackets and braces that may be open at a time. -/
def nestingLimit : Nat := 80

/-- A line. -/
inductive Line where
  /-- Nothing but blanks and perhaps a comment. -/
  | blank
  /-- The header of a table. -/
  | table (key : KeyPath)
  /-- The header of an element of an array of tables. -/
  | element (key : KeyPath)
  /-- A value for a key. -/
  | keyValue (key : KeyPath) (value : Value)

/-- The content of the line at the start of a text that is not blank. -/
def content? (text : Text) : Option (Found Line text) :=
  match text with
  | '[' :: '[' :: rest =>
      match keyPath? [] rest with
      | some ⟨key, ']' :: ']' :: rest, shorter⟩ =>
          some ⟨.element key, rest, by simp only [List.length_cons] at shorter ⊢; omega⟩
      | _ => none
  | '[' :: rest =>
      match keyPath? [] rest with
      | some ⟨key, ']' :: rest, shorter⟩ =>
          some ⟨.table key, rest, by simp only [List.length_cons] at shorter ⊢; omega⟩
      | _ => none
  | text =>
      (keyValue? .blanks (value? nestingLimit) text).map
        (·.map fun (key, value) => .keyValue key value)

/-- The line at the start of a text that is not empty. -/
def line? (text : Text) : Option (Found Line text) :=
  if nonempty : 0 < text.length then
    match skipMargin text, length_skipMargin_le text with
    | [], _ => some ⟨.blank, [], nonempty⟩
    | c :: rest, le =>
        match newline? (c :: rest) with
        | some found => some ((found.map fun _ => .blank).widen le)
        | none =>
            match content? (c :: rest) with
            | none => none
            | some ⟨line, rest, shorter⟩ =>
                (lineEnd? rest).map fun ⟨rest, rest_le⟩ => ⟨line, rest, by omega⟩
  else none

/-- The lines of a text. -/
def lines? (text : Text) : Option (List Line) :=
  if text = [] then some []
  else
    match line? text with
    | none => none
    | some ⟨line, rest, _shorter⟩ => (lines? rest).map (line :: ·)
termination_by text.length

/-- The table read so far, and the path of the header that the next keys belong to. -/
structure Reading where
  /-- The table. -/
  table : Table := []
  /-- The path of the last header. -/
  place : List Text := []

/-- What has been read after one more line. -/
def Reading.add (reading : Reading) : Line → Option Reading
  | .blank => some reading
  | .table key => do
      let table ← reading.table.openTable key.path key.key
      return ⟨table, key.path ++ [key.key]⟩
  | .element key => do
      let table ← reading.table.openElement key.path key.key
      return ⟨table, key.path ++ [key.key]⟩
  | .keyValue key value => do
      let assign := Table.assign key.path key.key value
      let table ← Table.alter false assign reading.place .header reading.table
      return { reading with table }

/-- The text without the byte order mark at its start. -/
def dropMark : Text → Text
  | '\ufeff' :: rest => rest
  | text => text

/-- The table that a TOML text stands for. -/
def read? (text : Text) : Option Table := do
  let lines ← lines? (dropMark text)
  let reading ← lines.foldlM Reading.add {}
  return reading.table

end Pageweave.Toml

import Pageweave.Json.Token
import Pageweave.Toml.Layout

/-!
# Quoted texts

The four ways of quoting a text: between quotation marks with escapes, or between apostrophes as
it is; on one line, or between three marks on several. In a text of several lines a line end right
after the opening marks does not count, line ends are kept as they are written, and up to two marks
may stand right before the closing ones.
-/

namespace Pageweave.Toml

/-- The character written by `count` hexadecimal digits at the start of a text. -/
def codePoint? (count : Nat) (text : Text) : Option (Found Char text) := do
  let values ← (text.take count).mapM Json.hexValue?
  let code := values.foldl (fun n value => 16 * n + value) 0
  if h : 0 < count ∧ count ≤ text.length ∧ code.isValidChar then
    some ⟨Char.ofNat code, text.drop count, by simp only [List.length_drop]; omega⟩
  else none

/-- The character that a one-letter escape stands for. -/
def simpleEscape? (c : Char) : Option Char :=
  match c with
  | 'b' => some '\x08'
  | 't' => some '\t'
  | 'n' => some '\n'
  | 'f' => some '\x0c'
  | 'r' => some '\r'
  | 'e' => some '\x1b'
  | '\x22' => some '\x22'
  | '\\' => some '\\'
  | _ => none

/-- The number of hexadecimal digits in an escape that begins with a letter. -/
def codeLength? (c : Char) : Option Nat :=
  match c with
  | 'x' => some 2
  | 'u' => some 4
  | 'U' => some 8
  | _ => none

/-- The character that an escape stands for, given what follows the backslash. -/
def escape? (text : Text) : Option (Found Char text) :=
  match text with
  | [] => none
  | c :: rest =>
      match simpleEscape? c, codeLength? c with
      | some character, _ => some ⟨character, rest, Nat.lt_succ_self _⟩
      | none, some count => (codePoint? count rest).map (·.widen (Nat.le_succ _))
      | none, none => none

/-- A text of one line with escapes, after its opening mark; `read` holds the characters so far,
latest first. -/
def basic? (read : Text) (text : Text) : Option (Found Text text) :=
  match text with
  | [] => none
  | c :: rest =>
      if c = '\x22' then some ⟨read.reverse, rest, by simp⟩
      else if c = '\\' then
        match escape? rest with
        | none => none
        | some ⟨character, rest, shorter⟩ =>
            (basic? (character :: read) rest).map
              (·.widen (by simp only [List.length_cons]; omega))
      else if isVisible c then (basic? (c :: read) rest).map (·.widen (by simp))
      else none
termination_by text.length
decreasing_by all_goals simp only [List.length_cons]; omega

/-- A text of one line without escapes, after its opening mark. -/
def literal? (text : Text) : Option (Found Text text) :=
  match h : text.dropWhile fun c => c ≠ '\x27' && isVisible c with
  | '\x27' :: rest =>
      some ⟨text.takeWhile fun c => c ≠ '\x27' && isVisible c, rest, by
        have := length_dropWhile_le (fun c => c ≠ '\x27' && isVisible c) text
        simp only [h, List.length_cons] at this
        omega⟩
  | _ => none

/-- The marks that close a text of several lines, if at least three stand at the start of the
text: those of the marks that belong to the text. -/
def closing? (mark : Char) (text : Text) : Option (Found Text text) :=
  let count := min 5 (text.takeWhile (· = mark)).length
  if h : 3 ≤ count ∧ count ≤ text.length then
    some ⟨List.replicate (count - 3) mark, text.drop count, by
      simp only [List.length_drop]; omega⟩
  else none

/-- The text without the blanks and line ends at its start. -/
def skipEmptyLines (text : Text) : Text :=
  match newline? (skipBlanks text) with
  | none => skipBlanks text
  | some ⟨_, rest, _shorter⟩ => skipEmptyLines rest
termination_by text.length
decreasing_by exact Nat.lt_of_lt_of_le _shorter (length_skipBlanks_le text)

theorem length_skipEmptyLines_le (text : Text) :
    (skipEmptyLines text).length ≤ text.length := by
  fun_induction skipEmptyLines text with
  | case1 text _ => exact length_skipBlanks_le text
  | case2 text _ rest shorter _ ih =>
      have := length_skipBlanks_le text
      omega

/-- The rest after the blanks and line ends that a backslash at the end of a line takes away; the
text is what follows the backslash. -/
def continuation? (text : Text) : Option { rest : Text // rest.length ≤ text.length } :=
  (newline? (skipBlanks text)).map fun found =>
    ⟨skipEmptyLines found.rest,
      Nat.le_trans (length_skipEmptyLines_le found.rest)
        (Nat.le_trans (Nat.le_of_lt found.shorter) (length_skipBlanks_le text))⟩

/-- A text of several lines, after its opening marks; `read` holds the characters so far, latest
first. Escapes count only between quotation marks. -/
def several? (mark : Char) (escapes : Bool) (read : Text) (text : Text) :
    Option (Found Text text) :=
  match closing? mark text with
  | some found => some (found.map (read.reverse ++ ·))
  | none =>
      match newline? text with
      | some ⟨lineEnd, rest, shorter⟩ =>
          (several? mark escapes (lineEnd.reverse ++ read) rest).map
            (·.widen (Nat.le_of_lt shorter))
      | none =>
          match text with
          | [] => none
          | c :: rest =>
              if escapes && c = '\\' then
                match continuation? rest with
                | some ⟨rest, le⟩ =>
                    (several? mark escapes read rest).map
                      (·.widen (by simp only [List.length_cons]; omega))
                | none =>
                    match escape? rest with
                    | some ⟨character, rest, shorter⟩ =>
                        (several? mark escapes (character :: read) rest).map
                          (·.widen (by simp only [List.length_cons]; omega))
                    | none => none
              else if isVisible c then
                (several? mark escapes (c :: read) rest).map (·.widen (by simp))
              else none
termination_by text.length
decreasing_by all_goals first | exact shorter | (simp only [List.length_cons]; omega)

/-- The text in marks of one line at the start of a text. -/
def singleLine? (text : Text) : Option (Found Text text) :=
  match text with
  | '\x22' :: rest => (basic? [] rest).map (·.widen (by simp))
  | '\x27' :: rest => (literal? rest).map (·.widen (by simp))
  | _ => none

/-- The text in marks at the start of a text. -/
def quoted? (text : Text) : Option (Found Text text) :=
  match text with
  | '\x22' :: '\x22' :: '\x22' :: rest =>
      (several? '\x22' true [] (dropNewline rest)).map
        (·.widen (by have := length_dropNewline_le rest; simp only [List.length_cons]; omega))
  | '\x27' :: '\x27' :: '\x27' :: rest =>
      (several? '\x27' false [] (dropNewline rest)).map
        (·.widen (by have := length_dropNewline_le rest; simp only [List.length_cons]; omega))
  | text => singleLine? text

end Pageweave.Toml

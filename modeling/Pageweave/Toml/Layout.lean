import Pageweave.Text.Found

/-!
# Blanks, comments and line ends

What may stand between the parts of a TOML text. Blanks are spaces and tabs. A comment runs to the
end of its line and holds no control characters but tabs. A line ends at a line feed, perhaps after
a carriage return.
-/

namespace Pageweave.Toml

/-- A space or a tab. -/
def isBlank (c : Char) : Bool :=
  c = ' ' || c = '\t'

/-- A character that may stand within a line of a comment or of an unescaped text. -/
def isVisible (c : Char) : Bool :=
  c = '\t' || (0x20 ≤ c.toNat && c.toNat ≠ 0x7f)

/-- The text without the blanks at its start. -/
def skipBlanks (text : Text) : Text :=
  text.dropWhile isBlank

theorem length_dropWhile_le {α : Type} (p : α → Bool) (l : List α) :
    (l.dropWhile p).length ≤ l.length :=
  (List.dropWhile_suffix p).length_le

theorem length_skipBlanks_le (text : Text) : (skipBlanks text).length ≤ text.length :=
  length_dropWhile_le isBlank text

/-- If blanks are followed by a character, what comes after that is shorter than the whole. -/
theorem length_lt_of_skipBlanks {text rest : Text} {c : Char} (h : skipBlanks text = c :: rest) :
    rest.length < text.length := by
  have le := length_skipBlanks_le text
  rw [h, List.length_cons] at le
  omega

/-- The text without the comment at its start, up to the first character that no comment holds. -/
def skipComment : Text → Text
  | '#' :: rest => rest.dropWhile isVisible
  | text => text

theorem length_skipComment_le (text : Text) : (skipComment text).length ≤ text.length := by
  unfold skipComment
  split
  · next rest =>
      have := length_dropWhile_le isVisible rest
      simp only [List.length_cons]
      omega
  · exact Nat.le_refl _

/-- The line end at the start of a text. -/
def newline? (text : Text) : Option (Found Text text) :=
  match text with
  | '\n' :: rest => some ⟨['\n'], rest, by simp⟩
  | '\r' :: '\n' :: rest => some ⟨['\r', '\n'], rest, by simp only [List.length_cons]; omega⟩
  | _ => none

/-- The text without the line end at its start, if there is one. -/
def dropNewline (text : Text) : Text :=
  match newline? text with
  | some found => found.rest
  | none => text

theorem length_dropNewline_le (text : Text) : (dropNewline text).length ≤ text.length := by
  unfold dropNewline
  split
  · next found _ => exact Nat.le_of_lt found.shorter
  · exact Nat.le_refl _

/-- The text without blanks and a comment at its start. -/
def skipMargin (text : Text) : Text :=
  skipComment (skipBlanks text)

theorem length_skipMargin_le (text : Text) : (skipMargin text).length ≤ text.length :=
  Nat.le_trans (length_skipComment_le _) (length_skipBlanks_le text)

/-- The rest after the end of the line at the start of a text: blanks, perhaps a comment, and a
line end or the end of the text. -/
def lineEnd? (text : Text) : Option { rest : Text // rest.length ≤ text.length } :=
  if skipMargin text = [] then some ⟨[], Nat.zero_le _⟩
  else
    (newline? (skipMargin text)).map fun found =>
      ⟨found.rest, Nat.le_trans (Nat.le_of_lt found.shorter) (length_skipMargin_le text)⟩

/-- The text without blanks, comments and line ends at its start. -/
def skipLines (text : Text) : Text :=
  match newline? (skipMargin text) with
  | none => skipMargin text
  | some ⟨_, rest, _shorter⟩ => skipLines rest
termination_by text.length
decreasing_by exact Nat.lt_of_lt_of_le _shorter (length_skipMargin_le text)

theorem length_skipLines_le (text : Text) : (skipLines text).length ≤ text.length := by
  fun_induction skipLines text with
  | case1 text _ => exact length_skipMargin_le text
  | case2 text _ rest shorter _ ih =>
      have := length_skipMargin_le text
      omega

/-- If blanks, comments and line ends are followed by a character, what comes after that is shorter
than the whole. -/
theorem length_lt_of_skipLines {text rest : Text} {c : Char} (h : skipLines text = c :: rest) :
    rest.length < text.length := by
  have le := length_skipLines_le text
  rw [h, List.length_cons] at le
  omega

/-- What may stand between two parts. -/
inductive Spacing where
  /-- Blanks only, so that the parts stand in one line. -/
  | blanks
  /-- Blanks, comments and line ends. -/
  | lines
deriving DecidableEq, Repr

/-- The text without the spacing at its start. -/
def Spacing.skip : Spacing → Text → Text
  | blanks, text => skipBlanks text
  | lines, text => skipLines text

theorem Spacing.length_skip_le (spacing : Spacing) (text : Text) :
    (spacing.skip text).length ≤ text.length := by
  cases spacing with
  | blanks => exact length_skipBlanks_le text
  | lines => exact length_skipLines_le text

/-- If spacing is followed by a character, what comes after that is shorter than the whole. -/
theorem Spacing.length_lt_of_skip {spacing : Spacing} {text rest : Text} {c : Char}
    (h : spacing.skip text = c :: rest) : rest.length < text.length := by
  have le := spacing.length_skip_le text
  rw [h, List.length_cons] at le
  omega

end Pageweave.Toml

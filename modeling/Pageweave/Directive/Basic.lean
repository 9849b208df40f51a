import Pageweave.Text.Blank

/-!
# Template directives

A tag is a colon between an opening parenthesis and a body without colons and closing parentheses,
and a colon between the body and the closing parenthesis. A directive is a tag whose body is an
indicator, a space and a payload: `=` asks for a value, `include` for another view. Any other tag
has no meaning.
-/

namespace Pageweave

/-- A character that may stand in the body of a tag. -/
def Tag.inBody (c : Char) : Bool :=
  c ≠ ':' && c ≠ ')'

/-- A text is a tag when it is a body without colons and closing parentheses between `(:` and
`:)`. -/
def IsTag (text : Text) : Prop :=
  ∃ body, (∀ c ∈ body, Tag.inBody c = true) ∧ text = ['(', ':'] ++ body ++ [':', ')']

/-- The tag at the start of a text, and the text after it. -/
def Tag.atStart? : Text → Option (Text × Text)
  | '(' :: ':' :: rest =>
      match rest.dropWhile inBody with
      | ':' :: ')' :: after => some (['(', ':'] ++ rest.takeWhile inBody ++ [':', ')'], after)
      | _ => none
  | _ => none

theorem Tag.append_of_atStart? {text tag rest : Text} (h : atStart? text = some (tag, rest)) :
    text = tag ++ rest := by
  unfold atStart? at h
  split at h
  · next body =>
      split at h
      · next after body_eq =>
          cases h
          have := List.takeWhile_append_dropWhile (p := inBody) (l := body)
          rw [body_eq] at this
          simpa using this.symm
      · simp at h
  · simp at h

theorem Tag.length_of_atStart? {text tag rest : Text} (h : atStart? text = some (tag, rest)) :
    4 ≤ tag.length := by
  unfold atStart? at h
  split at h
  · split at h
    · cases h
      simp
    · simp at h
  · simp at h

/-- The first tag of a text: the text before it, the tag and the text after it. -/
def Tag.first? (text : Text) : Option (Text × Text × Text) :=
  Text.search atStart? text

theorem Tag.append_of_first? {text before tag rest : Text}
    (h : first? text = some (before, tag, rest)) : text = before ++ tag ++ rest := by
  obtain ⟨place, text_eq, found⟩ := Text.search_eq_some h
  rw [text_eq, append_of_atStart? found, List.append_assoc]

theorem Tag.length_rest_lt_of_first? {text before tag rest : Text}
    (h : first? text = some (before, tag, rest)) : rest.length < text.length := by
  obtain ⟨place, text_eq, found⟩ := Text.search_eq_some h
  have := length_of_atStart? found
  rw [append_of_first? h]
  simp
  omega

/-- A directive with the exact tag it was written as. -/
inductive Directive where
  /-- The value at a key path is wanted in place of the tag. -/
  | substitution (tag keyPath : Text)
  /-- The view at a path is wanted in place of the tag. -/
  | inclusion (tag path : Text)
deriving DecidableEq, Repr

namespace Directive

/-- The indicator of a substitution. -/
def substitutionIndicator : Text :=
  ['=']

/-- The indicator of an inclusion. -/
def inclusionIndicator : Text :=
  "include".toList

/-- The tag of a directive. -/
def tag : Directive → Text
  | substitution tag _ | inclusion tag _ => tag

/-- The text between `(:` and `:)`. -/
def body? (tag : Text) : Option Text := do
  let inner ← Text.after? ['(', ':'] tag
  let reversed ← Text.after? [')', ':'] inner.reverse
  return reversed.reverse

/-- The directive that a tag stands for. The indicator ends at the first space, and the payload is
what follows, without the blanks around it; a tag without a payload stands for nothing. -/
def ofTag? (tag : Text) : Option Directive := do
  let body ← body? tag
  let indicator := body.takeWhile (· ≠ ' ')
  let payload := Text.trim (body.dropWhile (· ≠ ' '))
  if payload = [] then none
  else if indicator = substitutionIndicator then some (.substitution tag payload)
  else if indicator = inclusionIndicator then some (.inclusion tag payload)
  else none

end Directive

end Pageweave

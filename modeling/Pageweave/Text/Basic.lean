/-!
# Texts

A text is the list of its characters. This file holds the operations on texts that the whole
library shares: searching for the first place where a recogniser succeeds, replacing every
occurrence of a pattern, and cutting a text at a separator.

The recogniser of a search looks at the text from a place onwards and says what it found there;
`search_eq_some` states that a search then gives a decomposition of the text it was given.
-/

namespace Pageweave

/-- A text, as the list of its characters. -/
abbrev Text := List Char

namespace Text

/-- The first place, from left to right, where `found?` recognises something: the text before
the place, and what was recognised there. -/
def search {α : Type} (found? : Text → Option α) (text : Text) : Option (Text × α) :=
  go [] text
where
  /-- Continues the search at `rest`, with the characters passed so far, latest first. -/
  go (passed : Text) (rest : Text) : Option (Text × α) :=
    match found? rest with
    | some found => some (passed.reverse, found)
    | none =>
      match rest with
      | [] => none
      | c :: rest => go (c :: passed) rest

theorem search.go_eq_some {α : Type} {found? : Text → Option α} {passed rest before : Text}
    {found : α} (h : search.go found? passed rest = some (before, found)) :
    ∃ skipped place, before = passed.reverse ++ skipped ∧ rest = skipped ++ place ∧
      found? place = some found := by
  induction rest generalizing passed with
  | nil =>
      rw [search.go] at h
      split at h
      · next value recognised =>
          cases h
          exact ⟨[], [], by simp, by simp, recognised⟩
      · simp at h
  | cons c rest ih =>
      rw [search.go] at h
      split at h
      · next value recognised =>
          cases h
          exact ⟨[], c :: rest, by simp, by simp, recognised⟩
      · obtain ⟨skipped, place, before_eq, rest_eq, recognised⟩ := ih h
        exact ⟨c :: skipped, place, by simpa using before_eq, by simp [rest_eq], recognised⟩

/-- A successful search splits the text at a place where the recogniser succeeds. -/
theorem search_eq_some {α : Type} {found? : Text → Option α} {text before : Text} {found : α}
    (h : search found? text = some (before, found)) :
    ∃ place, text = before ++ place ∧ found? place = some found := by
  obtain ⟨skipped, place, before_eq, text_eq, recognised⟩ := search.go_eq_some h
  exact ⟨place, by simpa [before_eq] using text_eq, recognised⟩

/-- What follows `pattern` at the start of a text, if the text starts with it. -/
def after? : (pattern text : Text) → Option Text
  | [], text => some text
  | _ :: _, [] => none
  | p :: pattern, c :: text => if p = c then after? pattern text else none

theorem after?_eq_some_iff {pattern text rest : Text} :
    after? pattern text = some rest ↔ text = pattern ++ rest := by
  induction pattern generalizing text with
  | nil => simp [after?]
  | cons p pattern ih =>
      cases text with
      | nil => simp [after?]
      | cons c text =>
          simp only [after?, List.cons_append, List.cons.injEq]
          split
          · next same => simp [ih, same]
          · next differ => simp [Ne.symm differ]

/-- Whether a text starts with `pattern`. -/
def startsWith (pattern text : Text) : Bool :=
  (after? pattern text).isSome

/-- The text with `replacement` put in place of every occurrence of a non-empty pattern; the
occurrences are taken from left to right and do not overlap. -/
def replaceOccurrences (pattern replacement : Text) (nonempty : pattern ≠ []) (text : Text) :
    Text :=
  match _h : search (after? pattern) text with
  | none => text
  | some (before, rest) =>
      before ++ replacement ++ replaceOccurrences pattern replacement nonempty rest
termination_by text.length
decreasing_by
  obtain ⟨place, text_eq, found⟩ := search_eq_some _h
  have place_eq := after?_eq_some_iff.mp found
  have := List.length_pos_iff.mpr nonempty
  simp [text_eq, place_eq]
  omega

/-- The text with `replacement` put in place of every occurrence of `pattern`. The empty pattern
occurs before every character and at the end. -/
def replaceAll (pattern replacement text : Text) : Text :=
  if h : pattern = [] then
    replacement ++ text.flatMap fun c => c :: replacement
  else replaceOccurrences pattern replacement h text

/-- The pieces of a text between the occurrences of `separator`; there is always one more piece
than there are separators. -/
def splitOn (separator : Char) : Text → List Text
  | [] => [[]]
  | c :: text =>
      if c = separator then [] :: splitOn separator text
      else
        match splitOn separator text with
        | [] => [[c]]
        | piece :: pieces => (c :: piece) :: pieces

/-- The text before the first occurrence of `separator` and the text after it, if there is one. -/
def splitOnce (separator : Char) (text : Text) : Option (Text × Text) :=
  match text.dropWhile (· ≠ separator) with
  | [] => none
  | _ :: rest => some (text.takeWhile (· ≠ separator), rest)

/-- The order of texts by their characters' code points, which is also the order of their UTF-8
bytes. -/
def precedes : (first second : Text) → Bool
  | [], [] => false
  | [], _ :: _ => true
  | _ :: _, [] => false
  | a :: first, b :: second =>
      if a = b then precedes first second else a.toNat < b.toNat

/-- The decimal digits of a number. -/
def ofNat (n : Nat) : Text :=
  Nat.toDigits 10 n

/-- The number that a non-empty run of decimal digits stands for. -/
def toNat? (digits : Text) : Option Nat :=
  if digits ≠ [] ∧ digits.all Char.isDigit then
    some (digits.foldl (fun n c => 10 * n + (c.toNat - '0'.toNat)) 0)
  else none

/-- The number of bytes of the UTF-8 encoding of a text. -/
def utf8Size (text : Text) : Nat :=
  text.foldl (fun size c => size + c.utf8Size) 0

end Text

end Pageweave

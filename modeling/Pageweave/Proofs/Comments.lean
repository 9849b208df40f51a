import Pageweave.Proofs.Seams
import Pageweave.Snapshot

/-!
# Comments of a page

A comment is `<!--` with all that follows up to the first `-->`. `Strips` says what is left of a
content, in parts, when its comments are taken out from left to right; there is one such list of
parts for each content (`exists_strips_iff`), and `removeComments` gives its text
(`Strips.flatten_eq`). No part but the last has a `<!--` in it, and the last part has no comment, so
a comment in their text begins across a seam.
-/

namespace Pageweave

namespace Text

/-! ## Searching -/

section Search

variable {α : Type} {found? : Text → Option α} {text before : Text} {found : α}

theorem search_eq_none_iff :
    search found? text = none ↔ ∀ place, place <:+ text → found? place = none := by
  constructor
  · intro nowhere place place_suffix
    exact none_of_search nowhere place_suffix
  · intro nowhere
    induction text with
    | nil => exact search_nil_of_none (nowhere [] List.suffix_rfl)
    | cons c text ih =>
        rw [search_cons_of_none (nowhere _ List.suffix_rfl), ih, Option.map_none]
        intro place place_suffix
        exact nowhere place (place_suffix.trans (List.suffix_cons c text))

theorem search_eq_some_iff : search found? text = some (before, found) ↔
    ∃ place, text = before ++ place ∧ found? place = some found ∧
      ∀ later, later <:+ before → later ≠ [] → found? (later ++ place) = none := by
  constructor
  · intro first
    rcases search_eq_some first with ⟨place, rfl, here⟩
    exact ⟨place, rfl, here, fun later => none_before_search first⟩
  · rintro ⟨place, rfl, here, earlier⟩
    rw [search_append_of_none earlier, search_of_some here]
    simp

theorem after?_eq_none_iff {pattern : Text} : after? pattern text = none ↔ ¬pattern <+: text := by
  constructor
  · rintro nothing ⟨rest, rfl⟩
    rw [after?_eq_some_iff.mpr rfl] at nothing
    cases nothing
  · exact Tag.after?_eq_none

/-- Where a text begins in an occurrence of it, the end of that occurrence is not needed. -/
theorem prefix_append_iff {pattern later rest : Text} (apart : later ≠ []) :
    pattern <+: later ++ (pattern ++ rest) ↔ pattern <+: later ++ pattern.dropLast := by
  have shorter : later ++ pattern.dropLast <+: later ++ (pattern ++ rest) := by
    rw [List.prefix_append_right_inj]
    exact (List.dropLast_prefix pattern).trans (List.prefix_append pattern rest)
  have long : pattern.length ≤ (later ++ pattern.dropLast).length := by
    have := List.length_pos_iff.mpr apart
    simp
    omega
  constructor
  · intro here
    exact List.prefix_of_prefix_length_le here shorter long
  · intro here
    exact here.trans shorter

/-- A search for a text finds its first occurrence, which does not meet an earlier one. -/
theorem search_after?_eq_some_iff {pattern rest : Text} (nonempty : pattern ≠ []) :
    search (after? pattern) text = some (before, rest) ↔
      text = before ++ (pattern ++ rest) ∧ ¬pattern <:+: before ++ pattern.dropLast := by
  rw [search_eq_some_iff]
  constructor
  · rintro ⟨place, rfl, here, earlier⟩
    obtain rfl := after?_eq_some_iff.mp here
    refine ⟨rfl, ?_⟩
    rintro ⟨front, back, same⟩
    rw [List.append_assoc] at same
    have short : (pattern ++ back).length > pattern.dropLast.length := by
      have := List.length_pos_iff.mpr nonempty
      simp
      omega
    rcases List.append_eq_append_iff.mp same with ⟨later, rfl, inside⟩ | ⟨later, -, inside⟩
    · rcases later with _ | ⟨c, later⟩
      · rw [← List.nil_append pattern.dropLast, ← inside] at short
        exact absurd short (lt_irrefl _)
      · have nothing := earlier (c :: later) (List.suffix_append _ _) (by simp)
        rw [after?_eq_none_iff, prefix_append_iff (by simp)] at nothing
        exact nothing ⟨back, inside⟩
    · simp only [inside, List.length_append] at short
      omega
  · rintro ⟨rfl, first⟩
    refine ⟨_, rfl, after?_eq_some_iff.mpr rfl, ?_⟩
    intro later later_suffix later_nonempty
    rw [after?_eq_none_iff, prefix_append_iff later_nonempty]
    intro here
    rcases later_suffix with ⟨front, rfl⟩
    apply first
    rw [List.append_assoc]
    exact here.isInfix.trans (List.suffix_append _ _).isInfix

end Search

end Text

namespace Snapshot

/-! ## Comments -/

/-- What a comment begins with. -/
def commentOpening : Text :=
  "<!--".toList

/-- What a comment ends with. -/
def commentClosing : Text :=
  "-->".toList

/-- A comment goes on from its opening to the first closing behind that. -/
def IsComment (text : Text) : Prop :=
  ∃ body, text = commentOpening ++ (body ++ commentClosing) ∧
    ¬commentClosing <:+: body ++ commentClosing.dropLast

/-- An opening is followed later by a closing. -/
def HasComment (text : Text) : Prop :=
  ∃ before after, text = before ++ (commentOpening ++ after) ∧ commentClosing <:+: after

/-- No comment begins with the first text where the second follows it. -/
def BeginsNone (before place : Text) : Prop :=
  ∀ later, later <:+ before → later ≠ [] → ∀ comment, IsComment comment →
    ¬comment <+: later ++ place

/-- What is left of a content, in parts, when its comments are taken out from left to right. -/
inductive Strips : (content : Text) → (kept : List Text) → Prop
  | none {content : Text} (absent : ¬HasComment content) : Strips content [content]
  | comment {before comment rest : Text} {kept : List Text} (isComment : IsComment comment)
      (first : BeginsNone before (comment ++ rest)) (later : Strips rest kept) :
      Strips (before ++ (comment ++ rest)) (before :: kept)

section Comments

variable {text before comment rest content : Text} {kept kept' : List Text}

theorem afterComment?_eq_some_iff :
    afterComment? text = some rest ↔ ∃ comment, IsComment comment ∧ text = comment ++ rest := by
  have search_iff : ∀ {body before}, Text.search (Text.after? "-->".toList) body =
      some (before, rest) ↔ body = before ++ (commentClosing ++ rest) ∧
        ¬commentClosing <:+: before ++ commentClosing.dropLast :=
    Text.search_after?_eq_some_iff (by decide)
  simp only [afterComment?, Option.bind_eq_bind, Option.bind_eq_some_iff, Option.pure_def,
    Option.some.injEq, Prod.exists]
  constructor
  · rintro ⟨body, opened, before, _, found, rfl⟩
    rcases search_iff.mp found with ⟨rfl, first⟩
    refine ⟨_, ⟨before, rfl, first⟩, ?_⟩
    rw [Text.after?_eq_some_iff.mp opened, commentOpening]
    simp only [List.append_assoc]
  · rintro ⟨comment, ⟨body, rfl, first⟩, rfl⟩
    refine ⟨body ++ (commentClosing ++ rest), ?_, body, rest, search_iff.mpr ⟨rfl, first⟩, rfl⟩
    rw [Text.after?_eq_some_iff, commentOpening]
    simp only [List.append_assoc]

theorem afterComment?_eq_none_iff :
    afterComment? text = none ↔ ∀ comment, IsComment comment → ¬comment <+: text := by
  rw [Option.eq_none_iff_forall_ne_some]
  constructor
  · rintro nothing comment isComment ⟨rest, rfl⟩
    exact nothing rest (afterComment?_eq_some_iff.mpr ⟨comment, isComment, rfl⟩)
  · intro nothing rest found
    rcases afterComment?_eq_some_iff.mp found with ⟨comment, isComment, rfl⟩
    exact nothing comment isComment (List.prefix_append comment rest)

theorem exists_isComment (closed : commentClosing <:+: rest) :
    ∃ comment, IsComment comment ∧ comment <+: commentOpening ++ rest := by
  cases found : Text.search (Text.after? commentClosing) rest with
  | none => exact absurd closed (Text.not_infix_of_search_none found)
  | some parts =>
      rcases (Text.search_after?_eq_some_iff (by decide)).mp found with ⟨rest_eq, first⟩
      refine ⟨_, ⟨parts.1, rfl, first⟩, parts.2, ?_⟩
      rw [rest_eq]
      simp only [List.append_assoc]

theorem hasComment_iff :
    HasComment text ↔ ∃ place comment, place <:+ text ∧ IsComment comment ∧ comment <+: place := by
  constructor
  · rintro ⟨before, after, rfl, closed⟩
    rcases exists_isComment closed with ⟨comment, isComment, here⟩
    exact ⟨_, comment, List.suffix_append _ _, isComment, here⟩
  · rintro ⟨_, _, ⟨before, rfl⟩, ⟨body, rfl, -⟩, ⟨rest, rfl⟩⟩
    refine ⟨before, body ++ (commentClosing ++ rest), by simp, body, rest, by simp⟩

theorem search_afterComment?_eq_none_iff :
    Text.search afterComment? text = none ↔ ¬HasComment text := by
  rw [Text.search_eq_none_iff, hasComment_iff]
  simp only [afterComment?_eq_none_iff]
  constructor
  · rintro nothing ⟨place, comment, place_suffix, isComment, here⟩
    exact nothing place place_suffix comment isComment here
  · intro nothing place place_suffix comment isComment here
    exact nothing ⟨place, comment, place_suffix, isComment, here⟩

theorem search_afterComment?_eq_some_iff :
    Text.search afterComment? text = some (before, rest) ↔
      ∃ comment, IsComment comment ∧ text = before ++ (comment ++ rest) ∧
        BeginsNone before (comment ++ rest) := by
  rw [Text.search_eq_some_iff]
  simp only [afterComment?_eq_some_iff, afterComment?_eq_none_iff]
  constructor
  · rintro ⟨_, rfl, ⟨comment, isComment, rfl⟩, first⟩
    exact ⟨comment, isComment, rfl, first⟩
  · rintro ⟨comment, isComment, rfl, first⟩
    exact ⟨_, rfl, ⟨comment, isComment, rfl⟩, first⟩

/-! ## Taking comments out -/

theorem removeComments_of_some (found : Text.search afterComment? text = some (before, rest)) :
    removeComments text = before ++ removeComments rest := by
  rw [removeComments]
  split
  · next nothing => simp [found] at nothing
  · next found' =>
      rw [found] at found'
      cases found'
      rfl

theorem strips_iff_of_none (nothing : Text.search afterComment? content = none) :
    Strips content kept ↔ kept = [content] := by
  constructor
  · intro strips
    cases strips with
    | none absent => rfl
    | comment isComment first later =>
        rw [search_afterComment?_eq_some_iff.mpr ⟨_, isComment, rfl, first⟩] at nothing
        cases nothing
  · rintro rfl
    exact .none (search_afterComment?_eq_none_iff.mp nothing)

theorem strips_iff_of_some (found : Text.search afterComment? content = some (before, rest)) :
    Strips content kept ↔ ∃ later, Strips rest later ∧ kept = before :: later := by
  constructor
  · intro strips
    cases strips with
    | none absent =>
        rw [search_afterComment?_eq_none_iff.mpr absent] at found
        cases found
    | comment isComment first later =>
        rw [search_afterComment?_eq_some_iff.mpr ⟨_, isComment, rfl, first⟩] at found
        cases found
        exact ⟨_, later, rfl⟩
  · rintro ⟨later, strips, rfl⟩
    rcases search_afterComment?_eq_some_iff.mp found with ⟨comment, isComment, rfl, first⟩
    exact .comment isComment first strips

/-- What is left of a content is determined by it. -/
theorem exists_strips_iff (content : Text) :
    ∃ kept, ∀ kept', Strips content kept' ↔ kept' = kept := by
  fun_induction removeComments content with
  | case1 text nothing => exact ⟨[text], fun kept' => strips_iff_of_none nothing⟩
  | case2 text before rest found ih =>
      rcases ih with ⟨kept, strips_iff⟩
      refine ⟨before :: kept, fun kept' => ?_⟩
      rw [strips_iff_of_some found]
      simp [strips_iff]

theorem Strips.flatten_eq (strips : Strips content kept) :
    kept.flatten = removeComments content := by
  induction strips with
  | none absent =>
      rw [removeComments_of_none (search_afterComment?_eq_none_iff.mpr absent)]
      simp
  | comment isComment first later ih =>
      rw [removeComments_of_some (search_afterComment?_eq_some_iff.mpr ⟨_, isComment, rfl, first⟩),
        List.flatten_cons, ih]

theorem Strips.ne_nil (strips : Strips content kept) : kept ≠ [] := by
  cases strips <;> simp

/-- The part before a comment has no opening in it, since the comment would begin there. -/
theorem not_infix_of_beginsNone (isComment : IsComment comment)
    (first : BeginsNone before (comment ++ rest)) : ¬commentOpening <:+: before := by
  rintro ⟨front, back, rfl⟩
  rcases isComment with ⟨body, rfl, -⟩
  have closed : commentClosing <:+:
      back ++ (commentOpening ++ (body ++ commentClosing) ++ rest) :=
    ⟨back ++ (commentOpening ++ body), rest, by simp⟩
  rcases exists_isComment closed with ⟨other, isComment, here⟩
  apply first (commentOpening ++ back) ⟨front, by simp⟩ (by simp [commentOpening]) other isComment
  rwa [List.append_assoc]

/-- Only the last part may have an opening in it, and then there is no closing behind that. -/
theorem Strips.parts (strips : Strips content kept) :
    ∃ first last, kept = first ++ [last] ∧ (∀ part ∈ first, ¬commentOpening <:+: part) ∧
      ¬HasComment last ∧ last <:+ content := by
  induction strips with
  | @none content absent => exact ⟨[], content, rfl, by simp, absent, List.suffix_rfl⟩
  | comment isComment begins later ih =>
      rcases ih with ⟨first, last, rfl, noOpening, absent, last_suffix⟩
      refine ⟨_ :: first, last, rfl, ?_, absent, ?_⟩
      · exact List.forall_mem_cons.mpr ⟨not_infix_of_beginsNone isComment begins, noOpening⟩
      · exact last_suffix.trans ((List.suffix_append _ _).trans (List.suffix_append _ _))

end Comments

end Snapshot

end Pageweave

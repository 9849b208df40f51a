import Pageweave.Proofs.Pieces

/-!
# The tags of a text put together

The pieces that a text is put together from may have parts of tags in them, so the text may have
tags that no piece is. If it has as many tags as there are pieces that are tags, each of its tags is
one of them, since no tag reaches into another one. A scan with values that begin no tags then works
on the pieces one by one (`Scan.text_run_assemble`).
-/

namespace Pageweave

/-- The tag that a piece is. -/
def Piece.tag? : Piece → Option Text
  | literal _ => none
  | tag written => some written

/-- The tags among pieces, in their order. -/
def Piece.tags (pieces : List Piece) : List Text :=
  pieces.filterMap tag?

/-- The tags of a text, each being the first one after the one before. -/
def Tag.all (text : Text) : List Text :=
  Piece.tags (cut text)

namespace Tag

variable {tag other before front rest back : Text}

theorem cut_of_none (absent : first? front = none) : cut front = [.literal front] := by
  rw [cut.eq_def]
  split
  · rfl
  · next found => simp [absent] at found

theorem cut_of_some (found : first? front = some (before, tag, rest)) :
    cut front = .literal before :: .tag tag :: cut rest := by
  rw [cut.eq_def]
  split
  · next absent => simp [found] at absent
  · next found' =>
      rw [found] at found'
      cases found'
      rfl

theorem all_of_some (found : first? front = some (before, tag, rest)) :
    all front = tag :: all rest := by
  rw [all, cut_of_some found]
  rfl

/-- A tag that begins before another one ends before it. -/
theorem exists_of_atStart?_append {place after : Text} (isTag : IsTag tag) (nonempty : place ≠ [])
    (found : atStart? (place ++ (tag ++ back)) = some (other, after)) :
    ∃ left, place = other ++ left := by
  have isTag' := isTag_of_atStart? found
  rcases List.append_eq_append_iff.mp (append_of_atStart? found) with
    ⟨inner, other_eq, tail_eq⟩ | ⟨left, place_eq, -⟩
  · refine ⟨[], ?_⟩
    by_contra differs
    have inside : inner ≠ [] := by
      rintro rfl
      simp [other_eq] at differs
    have later : inner ≠ other := by
      intro same
      have length_eq := congrArg List.length other_eq
      rw [same, List.length_append] at length_eq
      have := List.length_pos_iff.mpr nonempty
      omega
    exact not_prefix_of_inner_suffix isTag isTag' later ⟨place, other_eq.symm⟩ inside
      ⟨back, tail_eq⟩
  · exact ⟨left, place_eq⟩

/-- If no tag begins in a text, the tag behind it is the first one. -/
theorem first?_append_of_none (isTag : IsTag tag) (absent : first? front = none) (back : Text) :
    first? (front ++ (tag ++ back)) = some (front, tag, back) := by
  rw [first?, Text.search_append_of_none, Text.search_of_some (atStart?_append isTag back)]
  · simp
  · intro place place_suffix nonempty
    cases found : atStart? (place ++ (tag ++ back)) with
    | none => rfl
    | some parts =>
        rcases exists_of_atStart?_append isTag nonempty found with ⟨left, rfl⟩
        have nothing := Text.none_of_search absent place_suffix
        rw [atStart?_append (isTag_of_atStart? found)] at nothing
        cases nothing

/-- The first tag of a text stays the first one when a tag follows the text. -/
theorem first?_append_of_some (found : first? front = some (before, tag, rest)) (back : Text) :
    first? (front ++ back) = some (before, tag, rest ++ back) := by
  have isTag := isTag_of_first? found
  have front_eq := append_of_first? found
  rw [List.append_assoc] at front_eq
  rw [front_eq, first?] at found
  rw [front_eq, List.append_assoc, List.append_assoc, first?, Text.search_append_of_none,
    Text.search_of_some (atStart?_append isTag (rest ++ back))]
  · simp
  · intro place place_suffix nonempty
    cases here : atStart? (place ++ (tag ++ (rest ++ back))) with
    | none => rfl
    | some parts =>
        rcases exists_of_atStart?_append isTag nonempty here with ⟨left, rfl⟩
        have nothing := Text.none_before_search found place_suffix nonempty
        rw [List.append_assoc, atStart?_append (isTag_of_atStart? here)] at nothing
        cases nothing

/-- A text is cut at each tag that it is put together from. -/
theorem cut_append (isTag : IsTag tag) (front back : Text) :
    cut (front ++ (tag ++ back)) = cut front ++ .tag tag :: cut back := by
  fun_induction cut front with
  | case1 front absent => rw [cut_of_some (first?_append_of_none isTag absent back)]; rfl
  | case2 front before tag' rest found ih =>
      rw [cut_of_some (first?_append_of_some found (tag ++ back)), ih]
      rfl

theorem all_append (isTag : IsTag tag) (front back : Text) :
    all (front ++ (tag ++ back)) = all front ++ tag :: all back := by
  simp [all, cut_append isTag, Piece.tags, Piece.tag?]

theorem first?_of_all_eq_nil {text : Text} (nothing : all text = []) : first? text = none := by
  cases found : first? text with
  | none => rfl
  | some parts =>
      rcases parts with ⟨before, tag, rest⟩
      rw [all_of_some found] at nothing
      cases nothing

section OpensNothing

variable {opening text : Text}

theorem first?_append_of_opensNothing (opensNothing : opening.OpensNothing) (text : Text) :
    first? (opening ++ text) =
      (first? text).map fun (before, found) => (opening ++ before, found) := by
  apply Text.search_append_of_none
  intro place place_suffix nonempty
  exact atStart?_eq_none (opensNothing.not_opening place_suffix nonempty)

theorem exists_cut (text : Text) : ∃ before pieces, cut text = .literal before :: pieces := by
  cases found : first? text with
  | none => exact ⟨text, [], cut_of_none found⟩
  | some parts =>
      rcases parts with ⟨before, tag, rest⟩
      exact ⟨before, _, cut_of_some found⟩

/-- A text in which no tag begins makes the first literal longer. -/
theorem cut_append_of_opensNothing (opensNothing : opening.OpensNothing) {pieces : List Piece}
    (cut_eq : cut text = .literal before :: pieces) :
    cut (opening ++ text) = .literal (opening ++ before) :: pieces := by
  have found_eq := first?_append_of_opensNothing opensNothing text
  cases found : first? text with
  | none =>
      rw [found] at found_eq
      rw [cut_of_none found] at cut_eq
      cases cut_eq
      rw [cut_of_none found_eq]
  | some parts =>
      rcases parts with ⟨before', tag, rest⟩
      rw [found] at found_eq
      rw [cut_of_some found] at cut_eq
      cases cut_eq
      rw [cut_of_some found_eq]

theorem all_append_of_opensNothing (opensNothing : opening.OpensNothing) (text : Text) :
    all (opening ++ text) = all text := by
  rcases exists_cut text with ⟨before, pieces, cut_eq⟩
  rw [all, all, cut_append_of_opensNothing opensNothing cut_eq, cut_eq]
  rfl

end OpensNothing

end Tag

namespace Piece

variable {context : Context} {limit : Nat} {pieces : List Piece}

@[simp]
theorem tags_nil : tags [] = [] := rfl

@[simp]
theorem tags_literal (written : Text) (pieces : List Piece) :
    tags (.literal written :: pieces) = tags pieces := rfl

@[simp]
theorem tags_tag (written : Text) (pieces : List Piece) :
    tags (.tag written :: pieces) = written :: tags pieces := rfl

/-- A text has at least the tags that it is put together from. -/
theorem length_tags_le (isTags : ∀ tag ∈ tags pieces, IsTag tag) (front : Text) :
    (tags pieces).length ≤ (Tag.all (front ++ assemble pieces)).length := by
  induction pieces generalizing front with
  | nil => exact Nat.zero_le _
  | cons piece pieces ih =>
      cases piece with
      | literal written =>
          have longer := ih isTags (front ++ written)
          rwa [List.append_assoc] at longer
      | tag written =>
          rcases List.forall_mem_cons.mp isTags with ⟨isTag, isTags'⟩
          have longer := ih isTags' []
          rw [assemble_cons, text, Tag.all_append isTag, List.length_append, List.length_cons,
            tags_tag, List.length_cons]
          rw [List.nil_append] at longer
          omega

/-- If all tags of a text are among the pieces it is put together from, the values that a scan with
`limit` substitutions finds for its tags are those for the pieces. -/
theorem assemble_substitute_cut (isTags : ∀ tag ∈ tags pieces, IsTag tag) {front : Text}
    (only : (Tag.all (front ++ assemble pieces)).length ≤ (tags pieces).length) :
    assemble (substitute context limit (Tag.cut (front ++ assemble pieces))) =
      front ++ assemble (substitute context limit pieces) := by
  induction pieces generalizing front limit with
  | nil =>
      have nothing : Tag.all front = [] := by simpa using only
      rw [assemble_nil, List.append_nil, Tag.cut_of_none (Tag.first?_of_all_eq_nil nothing)]
      simp [substitute, text]
  | cons piece pieces ih =>
      cases piece with
      | literal written =>
          rw [assemble_cons, text, ← List.append_assoc] at only ⊢
          rw [ih isTags only, substitute]
          simp [text]
      | tag written =>
          rcases List.forall_mem_cons.mp isTags with ⟨isTag, isTags'⟩
          rw [assemble_cons, text, Tag.all_append isTag, List.length_append, List.length_cons,
            tags_tag, List.length_cons] at only
          have longer := length_tags_le isTags' []
          rw [List.nil_append] at longer
          have nothing : Tag.all front = [] := by
            rw [← List.length_eq_zero_iff]
            omega
          have only' : (Tag.all ([] ++ assemble pieces)).length ≤ (tags pieces).length := by
            rw [List.nil_append]
            omega
          rw [assemble_cons, text, Tag.cut_append isTag,
            Tag.cut_of_none (Tag.first?_of_all_eq_nil nothing), List.singleton_append, substitute,
            assemble_cons, text]
          rcases exists_or_stays context limit written with ⟨limit, value, rfl, found⟩ | stays
          · have later := @ih limit isTags' [] only'
            rw [List.nil_append, List.nil_append] at later
            rw [substitute_tag_of_some found, substitute_tag_of_some found, assemble_cons,
              assemble_cons, later]
          · have later := @ih limit isTags' [] only'
            rw [List.nil_append, List.nil_append] at later
            rw [substitute_tag_of_none stays, substitute_tag_of_none stays, assemble_cons,
              assemble_cons, later]

theorem assemble_substitute_cut_append {value : Text} (opensNothing : value.OpensNothing)
    (text : Text) :
    assemble (substitute context limit (Tag.cut (value ++ text))) =
      value ++ assemble (substitute context limit (Tag.cut text)) := by
  rcases Tag.exists_cut text with ⟨before, pieces, cut_eq⟩
  rw [Tag.cut_append_of_opensNothing opensNothing cut_eq, cut_eq]
  simp [substitute, Piece.text]

theorem tags_substitute_cut_append {value : Text} (opensNothing : value.OpensNothing)
    (text : Text) :
    tags (substitute context limit (Tag.cut (value ++ text))) =
      tags (substitute context limit (Tag.cut text)) := by
  rcases Tag.exists_cut text with ⟨before, pieces, cut_eq⟩
  rw [Tag.cut_append_of_opensNothing opensNothing cut_eq, cut_eq]
  simp [substitute]

end Piece

namespace Scan

variable {context : Context} {limit : Nat} {text value : Text}

/-- A scan with values in which no tag begins puts them in the places of the tags of a text. -/
theorem text_run_cut (values : ∀ tag ∈ Tag.all text, ∀ value, context.valueFor? tag = some value →
    '(' ∉ value.interpolated) :
    (run context limit text).text =
      Piece.assemble (Piece.substitute context limit (Tag.cut text)) := by
  suffices substitutes : ∀ limit text, (∀ tag ∈ Tag.all text, ∀ value,
      context.valueFor? tag = some value → '(' ∉ value.interpolated) →
      (run context limit text).text =
        Piece.assemble (Piece.substitute context limit (Tag.cut text)) from
    substitutes limit text values
  refine run_induction context ?_ ?_ ?_
  · intro limit text absent _
    rw [run_of_none absent, Tag.cut_of_none absent]
    simp [Scan.text, Piece.substitute, Piece.text]
  · intro limit text before tag rest value keyPath missing found value_eq run_eq ih values
    rw [Tag.all_of_some found] at values
    rcases List.forall_mem_cons.mp values with ⟨here, later⟩
    have opensNothing := Text.opensNothing_of_not_mem (here value value_eq)
    rw [← Tag.all_append_of_opensNothing opensNothing] at later
    rw [run_eq, text_cons, ih later, Piece.assemble_substitute_cut_append opensNothing,
      Tag.cut_of_some found, Piece.substitute, Piece.substitute_tag_of_some value_eq]
    rfl
  · intro limit text before tag rest action found stays run_eq text_eq ih values
    rw [Tag.all_of_some found] at values
    rcases List.forall_mem_cons.mp values with ⟨-, later⟩
    rw [run_eq, text_cons, text_eq, ih later, Tag.cut_of_some found, Piece.substitute,
      Piece.substitute_tag_of_none stays]
    simp [Piece.text]

/-- A scan with values in which no tag begins puts them in the places of the pieces that are tags,
if the text put together from the pieces has no other tags. -/
theorem text_run_assemble {pieces : List Piece} (isTags : ∀ tag ∈ Piece.tags pieces, IsTag tag)
    (only : Tag.all (Piece.assemble pieces) = Piece.tags pieces)
    (values : ∀ tag ∈ Piece.tags pieces, ∀ value, context.valueFor? tag = some value →
      '(' ∉ value.interpolated) :
    (run context limit (Piece.assemble pieces)).text =
      Piece.assemble (Piece.substitute context limit pieces) := by
  rw [text_run_cut (by rwa [only])]
  exact @Piece.assemble_substitute_cut context limit pieces isTags []
    (by rw [List.nil_append, only])

end Scan

end Pageweave

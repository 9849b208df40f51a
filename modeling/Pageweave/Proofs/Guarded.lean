import Pageweave.Proofs.Loading
import Pageweave.Proofs.Pieces

/-!
# Texts that stay whole

A scan puts values in the places of tags, and afterwards views are put in the places of the tags of
inclusions. A guarded text stays whole in this, wherever it stands: a tag that begins in it is
passed over, and a tag that begins before it does not end in it.
-/

namespace Pageweave

namespace Tag

/-- Behind a place in its body, a tag has the rest of the body and the characters that close it. -/
theorem exists_of_split {first second : Text} {c : Char} (isTag : IsTag (first ++ c :: second))
    (nonempty : first ≠ []) (inside : inBody c = true) :
    ∃ body, (∀ d ∈ body, inBody d = true) ∧ c :: second = body ++ [':', ')'] := by
  rcases isTag with ⟨body, bodied, tag_eq⟩
  rcases first with _ | ⟨a, _ | ⟨b, first⟩⟩
  · exact absurd rfl nonempty
  · have colon : c = ':' := by simp at tag_eq; exact tag_eq.2.1
    simp [colon, inBody] at inside
  · simp only [List.cons_append, List.nil_append, List.cons.injEq] at tag_eq
    rcases List.append_eq_append_iff.mp tag_eq.2.2 with
      ⟨left, rfl, second_eq⟩ | ⟨left, rfl, closing⟩
    · exact ⟨left, fun d d_mem => bodied d (by simp [d_mem]), second_eq⟩
    · rcases left with _ | ⟨d, _ | ⟨e, left⟩⟩
      · exact ⟨[], by simp, closing.symm⟩
      · have parenthesis : c = ')' := by simp at closing; exact closing.2.1.symm
        simp [parenthesis, inBody] at inside
      · simp at closing

end Tag

/-- A tag that gives way neither to a value nor to a view. -/
def Context.PassesOver (context : Context) (tag : Text) : Prop :=
  context.valueFor? tag = none ∧ (Piece.tag tag).inclusion? = none

/-- A tag that begins in a text is passed over, and no tag that begins before the text ends in it;
where there are no values, a tag may begin before the text and end behind it. -/
structure Context.Guards (context : Context) (guarded : Text) : Prop where
  starts : ∃ c rest, guarded = c :: rest ∧ Tag.inBody c = true
  begins : ∀ place rest tag after, place <:+ guarded → place ≠ [] →
    Tag.atStart? (place ++ rest) = some (tag, after) → context.PassesOver tag
  ends : ((∀ c ∈ guarded, Tag.inBody c = true) ∧ ∀ tag, context.valueFor? tag = none) ∨
    ∀ rest, ¬[':', ')'] <+: (guarded ++ rest).dropWhile Tag.inBody

namespace Context.Guards

variable {context : Context} {guarded front back before tag rest : Text}

/-- A tag that begins before a guarded text and does not end before it goes around it. -/
theorem infix_of_split {start stop : Text} (guards : context.Guards guarded)
    (isTag : IsTag (start ++ stop)) (starts : start ≠ []) (stops : stop ≠ [])
    (same : guarded ++ back = stop ++ rest) :
    (∀ other, context.valueFor? other = none) ∧ guarded <:+: start ++ stop := by
  rcases guards.starts with ⟨c, guarded', guarded_eq, inside⟩
  rcases stop with _ | ⟨d, stop⟩
  · exact absurd rfl stops
  obtain rfl : c = d := by
    rw [guarded_eq] at same
    exact (List.cons.inj same).1
  rcases Tag.exists_of_split isTag starts inside with ⟨body, bodied, stop_eq⟩
  rw [stop_eq] at same ⊢
  have closing : (guarded ++ back).dropWhile Tag.inBody = ':' :: ')' :: rest := by
    rw [same, List.append_assoc]
    exact Tag.dropWhile_inBody bodied _
  rcases guards.ends with ⟨allInside, noValues⟩ | notClosed
  · refine ⟨noValues, ?_⟩
    rw [List.append_assoc] at same
    rcases List.append_eq_append_iff.mp same with ⟨left, rfl, -⟩ | ⟨left, rfl, left_eq⟩
    · exact ⟨start, left ++ [':', ')'], by simp⟩
    · cases left with
      | nil => exact ⟨start, [':', ')'], by simp⟩
      | cons e left =>
          have colon : e = ':' := by simp at left_eq; exact left_eq.1.symm
          have notInside := allInside e (by simp)
          simp [colon, Tag.inBody] at notInside
  · exact absurd (closing ▸ ⟨rest, rfl⟩) (notClosed back)

/-- A tag ends before a guarded text, or goes around it, or does not begin before it. -/
theorem position (guards : context.Guards guarded) (isTag : IsTag tag)
    (same : before ++ (tag ++ rest) = front ++ (guarded ++ back)) :
    (∃ middle, front = before ++ (tag ++ middle) ∧ rest = middle ++ (guarded ++ back)) ∨
      ((∀ other, context.valueFor? other = none) ∧ guarded <:+: tag) ∨
      ∃ passed, before = front ++ passed ∧ guarded ++ back = passed ++ (tag ++ rest) := by
  rcases List.append_eq_append_iff.mp same with ⟨start, rfl, tail_eq⟩ | ⟨passed, rfl, tail_eq⟩
  · by_cases here : start = []
    · subst here
      exact Or.inr (Or.inr ⟨[], by simp, tail_eq.symm⟩)
    rcases List.append_eq_append_iff.mp tail_eq with ⟨middle, rfl, rest_eq⟩ | ⟨stop, rfl, later_eq⟩
    · exact Or.inl ⟨middle, rfl, rest_eq⟩
    by_cases ended : stop = []
    · subst ended
      exact Or.inl ⟨[], by simp, by simpa using later_eq.symm⟩
    · exact Or.inr (Or.inl (guards.infix_of_split isTag here ended later_eq))
  · exact Or.inr (Or.inr ⟨passed, rfl, tail_eq⟩)

/-- A tag begins behind a place in a guarded text, or it is passed over. -/
theorem begins_cases {place : Text} (guards : context.Guards guarded) (isTag : IsTag tag)
    (place_suffix : place <:+ guarded) (same : place ++ back = before ++ (tag ++ rest)) :
    (∃ middle, before = place ++ middle) ∨
      context.PassesOver tag ∧ ((∃ middle, before ++ tag = place ++ middle) ∨
        ∃ place', place' <:+ guarded ∧ place = before ++ (tag ++ place') ∧
          rest = place' ++ back) := by
  rcases List.append_eq_append_iff.mp same with ⟨middle, before_eq, -⟩ | ⟨left, rfl, left_eq⟩
  · exact Or.inl ⟨middle, before_eq⟩
  by_cases nothing : left = []
  · exact Or.inl ⟨[], by simp [nothing]⟩
  right
  have left_suffix : left <:+ guarded := (List.suffix_append _ _).trans place_suffix
  constructor
  · apply guards.begins left back tag rest left_suffix nothing
    rw [← left_eq]
    exact Tag.atStart?_append isTag rest
  · rcases List.append_eq_append_iff.mp left_eq with ⟨place', rfl, rest_eq⟩ | ⟨middle, rfl, -⟩
    · exact Or.inr ⟨place', (List.suffix_append _ _).trans left_suffix, rfl, rest_eq⟩
    · exact Or.inl ⟨middle, by simp⟩

/-- A scan leaves what it passes of a guarded text. -/
theorem text_run_of_suffix (guards : context.Guards guarded) (limit : Nat) {place : Text}
    (place_suffix : place <:+ guarded) (back : Text) :
    ∃ back', (Scan.run context limit (place ++ back)).text = place ++ back' := by
  suffices leaves : ∀ limit written place back, place <:+ guarded → written = place ++ back →
      ∃ back', (Scan.run context limit written).text = place ++ back' from
    leaves limit _ place back place_suffix rfl
  refine Scan.run_induction context ?_ ?_ ?_
  · rintro limit _ absent place back - rfl
    exact ⟨back, by simp [Scan.run_of_none absent, Scan.text]⟩
  · intro limit _ before tag rest value keyPath missing found value_eq run_eq _ place back
      place_suffix rfl
    have same := Tag.append_of_first? found
    rw [List.append_assoc] at same
    rcases guards.begins_cases (Tag.isTag_of_first? found) place_suffix same with
      ⟨middle, rfl⟩ | ⟨passesOver, -⟩
    · rw [run_eq, Scan.text_cons, Step.text, List.append_assoc]
      exact ⟨_, rfl⟩
    · rw [passesOver.1] at value_eq
      cases value_eq
  · intro limit _ before tag rest action found _ run_eq text_eq ih place back place_suffix rfl
    have same := Tag.append_of_first? found
    rw [List.append_assoc] at same
    rw [run_eq, Scan.text_cons, text_eq]
    rcases guards.begins_cases (Tag.isTag_of_first? found) place_suffix same with
      ⟨middle, rfl⟩ | ⟨-, ⟨middle, tag_end⟩ | ⟨place', place'_suffix, rfl, rest_eq⟩⟩
    · rw [List.append_assoc, List.append_assoc]
      exact ⟨_, rfl⟩
    · rw [tag_end, List.append_assoc]
      exact ⟨_, rfl⟩
    · rcases ih place' back place'_suffix rest_eq with ⟨back', left⟩
      exact ⟨back', by rw [left]; simp⟩

/-- A scan leaves a guarded text. -/
theorem text_run (guards : context.Guards guarded) (limit : Nat) (front back : Text) :
    ∃ front' back', (Scan.run context limit (front ++ (guarded ++ back))).text =
      front' ++ (guarded ++ back') := by
  suffices leaves : ∀ limit written front, written = front ++ (guarded ++ back) →
      ∃ front' back', (Scan.run context limit written).text = front' ++ (guarded ++ back') from
    leaves limit _ front rfl
  refine Scan.run_induction context ?_ ?_ ?_
  · rintro limit _ absent front rfl
    exact ⟨front, back, by simp [Scan.run_of_none absent, Scan.text]⟩
  · intro limit _ before tag rest value keyPath missing found value_eq run_eq ih front rfl
    have same := Tag.append_of_first? found
    rw [List.append_assoc] at same
    rcases guards.position (Tag.isTag_of_first? found) same.symm with
      ⟨middle, rfl, rfl⟩ | ⟨noValues, -⟩ | ⟨passed, rfl, later⟩
    · rcases ih (value.interpolated ++ middle) (by simp) with ⟨front', back', left⟩
      rw [run_eq, Scan.text_cons, left]
      exact ⟨before ++ front', back', by simp [Step.text]⟩
    · rw [noValues tag] at value_eq
      cases value_eq
    · rcases guards.begins_cases (Tag.isTag_of_first? found) List.suffix_rfl later with
        ⟨middle, rfl⟩ | ⟨passesOver, -⟩
      · rw [run_eq, Scan.text_cons, Step.text]
        exact ⟨front, middle ++ _, by simp; rfl⟩
      · rw [passesOver.1] at value_eq
        cases value_eq
  · intro limit _ before tag rest action found _ run_eq text_eq ih front rfl
    have same := Tag.append_of_first? found
    rw [List.append_assoc] at same
    rw [run_eq, Scan.text_cons, text_eq]
    rcases guards.position (Tag.isTag_of_first? found) same.symm with
      ⟨middle, rfl, rfl⟩ | ⟨-, start, stop, rfl⟩ | ⟨passed, rfl, later⟩
    · rcases ih middle rfl with ⟨front', back', left⟩
      rw [left]
      exact ⟨before ++ (tag ++ front'), back', by simp⟩
    · exact ⟨before ++ start, stop ++ _, by simp; rfl⟩
    · rcases guards.begins_cases (Tag.isTag_of_first? found) List.suffix_rfl later with
        ⟨middle, rfl⟩ | ⟨-, ⟨middle, tag_end⟩ | ⟨place', place'_suffix, guarded_eq, rest_eq⟩⟩
      · exact ⟨front, middle ++ (tag ++ _), by simp; rfl⟩
      · exact ⟨front, middle ++ _, by rw [List.append_assoc front, tag_end]; simp; rfl⟩
      · rcases guards.text_run_of_suffix limit place'_suffix back with ⟨back', left⟩
        rw [rest_eq, left, guarded_eq]
        exact ⟨front, back', by simp⟩

/-- Replacing the tag of an inclusion leaves a guarded text that is not part of the tag. -/
theorem replaceOccurrences (guards : context.Guards guarded) (isTag : IsTag tag)
    (nonempty : tag ≠ []) (included : (Piece.tag tag).inclusion? ≠ none) (apart : ¬guarded <:+: tag)
    (replacement front back : Text) :
    ∃ front' back', Text.replaceOccurrences tag replacement nonempty (front ++ (guarded ++ back)) =
      front' ++ (guarded ++ back') := by
  generalize written_eq : front ++ (guarded ++ back) = written
  fun_induction Text.replaceOccurrences tag replacement nonempty written generalizing front with
  | case1 written absent => exact ⟨front, back, written_eq.symm⟩
  | case2 written before rest found ih =>
      rcases Text.search_eq_some found with ⟨place, text_eq, place_eq⟩
      rw [Text.after?_eq_some_iff.mp place_eq, ← written_eq] at text_eq
      rcases guards.position isTag text_eq.symm with
        ⟨middle, rfl, rest_eq⟩ | ⟨-, inside⟩ | ⟨passed, rfl, later⟩
      · rcases ih middle rest_eq.symm with ⟨front', back', left⟩
        rw [left]
        exact ⟨before ++ (replacement ++ front'), back', by simp⟩
      · exact absurd inside apart
      · rcases guards.begins_cases isTag List.suffix_rfl later with ⟨middle, rfl⟩ | ⟨passesOver, -⟩
        · rw [List.append_assoc, List.append_assoc, List.append_assoc]
          exact ⟨front, _, rfl⟩
        · exact absurd passesOver.2 included

/-- Splicing leaves a guarded text that is not part of the tag of an inclusion. -/
theorem splice (guards : context.Guards guarded) {load : Text → LoadM Text} {state : LoadState}
    {inclusions : List (Text × Text)} {text : Text}
    (tags : ∀ tag path, (tag, path) ∈ inclusions →
      IsTag tag ∧ (Piece.tag tag).inclusion? ≠ none ∧ ¬guarded <:+: tag)
    (succeeds : (Loader.splice load (front ++ (guarded ++ back)) inclusions).result state =
      .ok text) : ∃ front' back', text = front' ++ (guarded ++ back') := by
  induction inclusions generalizing front back state with
  | nil =>
      cases succeeds
      exact ⟨front, back, rfl⟩
  | cons inclusion inclusions ih =>
      rcases inclusion with ⟨tag, path⟩
      rw [Loader.splice_cons] at succeeds
      rcases LoadM.result_bind_eq_ok succeeds with ⟨included, -, spliced⟩
      rcases tags tag path List.mem_cons_self with ⟨isTag, isInclusion, apart⟩
      rw [Text.replaceAll, dif_neg (Tag.ne_nil isTag)] at spliced
      rcases guards.replaceOccurrences isTag (Tag.ne_nil isTag) isInclusion apart included front
        back with ⟨front', back', replaced⟩
      rw [replaced] at spliced
      exact ih (fun tag path mem => tags tag path (List.mem_cons_of_mem _ mem)) spliced

end Context.Guards

end Pageweave

import Mathlib.Data.List.Basic
import Mathlib.Data.List.Infix
import Mathlib.Data.List.TakeWhile
import Pageweave.Directive.Scan

/-!
# Where tags begin

A tag begins with `(:`, and neither a colon nor a closing parenthesis stands in its body. Hence no
tag is the start of another one and no tag begins inside another one. A quiet text has no `(:` and
no colon at its start; no tag begins in it, nor where it meets another quiet text or a tag.
Searching for tags, or for the places where one of them stands, therefore passes over whole tags
and whole quiet texts.
-/

namespace Pageweave

namespace Text

/-! ## Searching -/

section Search

variable {α : Type} {found? : Text → Option α}

theorem search_go_eq_map (passed rest : Text) :
    search.go found? passed rest =
      (search found? rest).map fun (before, found) => (passed.reverse ++ before, found) := by
  induction rest generalizing passed with
  | nil =>
      rw [search, search.go, search.go]
      cases found? [] <;> simp
  | cons c rest ih =>
      rw [search, search.go, search.go]
      cases found? (c :: rest) with
      | some found => simp
      | none =>
          simp only [ih (c :: passed), ih [c], Option.map_map]
          congr 1
          funext entry
          simp

theorem search_of_some {text : Text} {found : α} (here : found? text = some found) :
    search found? text = some ([], found) := by
  rw [search, search.go.eq_def]
  simp [here]

theorem search_cons_of_none {c : Char} {rest : Text} (here : found? (c :: rest) = none) :
    search found? (c :: rest) =
      (search found? rest).map fun (before, found) => (c :: before, found) := by
  rw [search, search.go, here]
  simpa using search_go_eq_map [c] rest

theorem search_nil_of_none (here : found? [] = none) : search found? [] = none := by
  rw [search, search.go, here]

/-- A search passes over a text if nothing is found at any place in it. -/
theorem search_append_of_none {skipped rest : Text}
    (nowhere : ∀ place, place <:+ skipped → place ≠ [] → found? (place ++ rest) = none) :
    search found? (skipped ++ rest) =
      (search found? rest).map fun (before, found) => (skipped ++ before, found) := by
  induction skipped with
  | nil => simp
  | cons c skipped ih =>
      have here : found? (c :: (skipped ++ rest)) = none :=
        nowhere (c :: skipped) List.suffix_rfl (by simp)
      rw [List.cons_append, search_cons_of_none here, ih, Option.map_map]
      · rfl
      · intro place place_suffix
        exact nowhere place (place_suffix.trans (List.suffix_cons c skipped))

/-- If a search finds nothing, there is nothing to be found at any place. -/
theorem none_of_search {text place : Text} (nowhere : search found? text = none)
    (place_suffix : place <:+ text) : found? place = none := by
  induction text with
  | nil =>
      rw [List.suffix_nil.mp place_suffix]
      cases here : found? [] with
      | none => rfl
      | some found => simp [search_of_some here] at nowhere
  | cons c text ih =>
      cases here : found? (c :: text) with
      | some found => simp [search_of_some here] at nowhere
      | none =>
          rw [search_cons_of_none here, Option.map_eq_none_iff] at nowhere
          rcases List.suffix_cons_iff.mp place_suffix with rfl | place_suffix
          · exact here
          · exact ih nowhere place_suffix

/-- Before the place that a search finds, there is nothing to be found. -/
theorem none_before_search {before rest place : Text} {found : α}
    (first : search found? (before ++ rest) = some (before, found))
    (place_suffix : place <:+ before) (nonempty : place ≠ []) : found? (place ++ rest) = none := by
  induction before with
  | nil => exact absurd (List.suffix_nil.mp place_suffix) nonempty
  | cons c before ih =>
      rw [List.cons_append] at first
      cases here : found? (c :: (before ++ rest)) with
      | some other => simp [search_of_some here] at first
      | none =>
          rcases List.suffix_cons_iff.mp place_suffix with rfl | place_suffix
          · exact here
          · rw [search_cons_of_none here, Option.map_eq_some_iff] at first
            rcases first with ⟨⟨before', found'⟩, first, same⟩
            simp only [Prod.mk.injEq, List.cons.injEq, true_and] at same
            rcases same with ⟨rfl, rfl⟩
            exact ih first place_suffix

end Search

/-- An occurrence does not begin where its first character does not stand. -/
theorem infix_of_infix_append {c : Char} {pattern front text : Text} (absent : c ∉ front)
    (inside : c :: pattern <:+: front ++ text) : c :: pattern <:+: text := by
  induction front with
  | nil => exact inside
  | cons d front ih =>
      simp only [List.mem_cons, not_or] at absent
      rcases List.infix_cons_iff.mp inside with here | later
      · exact absurd (List.cons_prefix_cons.mp here).1 absent.1
      · exact ih absent.2 later

/-! ## Replacing -/

section Replace

variable {pattern replacement : Text} {nonempty : pattern ≠ []}

theorem replaceOccurrences_of_none {text : Text}
    (nowhere : search (after? pattern) text = none) :
    replaceOccurrences pattern replacement nonempty text = text := by
  rw [replaceOccurrences]
  split
  · rfl
  · next found => simp [nowhere] at found

theorem replaceOccurrences_of_some {text before rest : Text}
    (first : search (after? pattern) text = some (before, rest)) :
    replaceOccurrences pattern replacement nonempty text =
      before ++ replacement ++ replaceOccurrences pattern replacement nonempty rest := by
  rw [replaceOccurrences]
  split
  · next found => simp [first] at found
  · next found =>
      rw [first] at found
      cases found
      rfl

/-- Replacing leaves a text alone if the pattern stands at no place in it. -/
theorem replaceOccurrences_append_of_none {skipped rest : Text}
    (nowhere : ∀ place, place <:+ skipped → place ≠ [] → after? pattern (place ++ rest) = none) :
    replaceOccurrences pattern replacement nonempty (skipped ++ rest) =
      skipped ++ replaceOccurrences pattern replacement nonempty rest := by
  have passed := search_append_of_none nowhere
  cases first : search (after? pattern) rest with
  | none =>
      rw [first, Option.map_none] at passed
      rw [replaceOccurrences_of_none passed, replaceOccurrences_of_none first]
  | some found =>
      rw [first, Option.map_some] at passed
      rw [replaceOccurrences_of_some passed, replaceOccurrences_of_some first]
      simp

theorem replaceOccurrences_cons_of_none {c : Char} {rest : Text}
    (here : after? pattern (c :: rest) = none) :
    replaceOccurrences pattern replacement nonempty (c :: rest) =
      c :: replaceOccurrences pattern replacement nonempty rest := by
  rw [← List.singleton_append, replaceOccurrences_append_of_none]
  · rfl
  · intro place place_suffix place_nonempty
    rcases List.suffix_cons_iff.mp place_suffix with rfl | place_suffix
    · exact here
    · exact absurd (List.suffix_nil.mp place_suffix) place_nonempty

theorem replaceOccurrences_append_of_start (rest : Text) :
    replaceOccurrences pattern replacement nonempty (pattern ++ rest) =
      replacement ++ replaceOccurrences pattern replacement nonempty rest := by
  have here : after? pattern (pattern ++ rest) = some rest := after?_eq_some_iff.mpr rfl
  rw [replaceOccurrences_of_some (search_of_some here), List.nil_append]

theorem replaceOccurrences_nil : replaceOccurrences pattern replacement nonempty [] = [] := by
  apply replaceOccurrences_of_none
  apply search_nil_of_none
  cases pattern with
  | nil => exact absurd rfl nonempty
  | cons c pattern => rfl

end Replace

/-! ## Quiet texts -/

/-- A text without `(:` in it and without a colon at its start. -/
def IsQuiet (text : Text) : Prop :=
  ¬['(', ':'] <:+: text ∧ text.head? ≠ some ':'

instance (text : Text) : Decidable text.IsQuiet :=
  inferInstanceAs (Decidable (_ ∧ _))

theorem isQuiet_nil : IsQuiet [] := by
  simp [IsQuiet]

/-- A place in a quiet text does not begin with `(:`, whatever follows the text. -/
theorem IsQuiet.not_opening {quiet rest place : Text} (isQuiet : quiet.IsQuiet)
    (later : rest.head? ≠ some ':') (place_suffix : place <:+ quiet) (nonempty : place ≠ []) :
    ¬['(', ':'] <+: place ++ rest := by
  intro opening
  match place, nonempty with
  | [c], _ =>
      cases rest with
      | nil => simp [List.cons_prefix_cons] at opening
      | cons d rest =>
          simp only [List.cons_append, List.nil_append, List.cons_prefix_cons] at opening
          exact later (by rw [List.head?_cons, ← opening.2.1])
  | c :: d :: place, _ =>
      simp only [List.cons_append, List.cons_prefix_cons] at opening
      rcases opening with ⟨rfl, rfl, -⟩
      rcases place_suffix with ⟨front, rfl⟩
      exact isQuiet.1 ⟨front, place, by simp⟩

/-- Where two quiet texts meet, no `(:` comes about. -/
theorem IsQuiet.append {first second : Text} (quiet : first.IsQuiet) (quiet' : second.IsQuiet) :
    IsQuiet (first ++ second) := by
  constructor
  · rintro ⟨front, back, opening⟩
    rw [List.append_assoc, List.append_eq_append_iff] at opening
    rcases opening with ⟨place, first_eq, opening⟩ | ⟨front', -, second_eq⟩
    · by_cases nonempty : place = []
      · apply quiet'.1
        exact ⟨[], back, by simpa [nonempty] using opening⟩
      · apply quiet.not_opening quiet'.2 ⟨front, first_eq.symm⟩ nonempty
        exact ⟨back, opening⟩
    · apply quiet'.1
      exact ⟨front', back, by simpa using second_eq.symm⟩
  · cases first with
    | nil => exact quiet'.2
    | cons c first => simpa using quiet.2

/-- A text in which no tag begins, whatever follows it. -/
def OpensNothing (text : Text) : Prop :=
  ¬['(', ':'] <:+: text ∧ text.getLast? ≠ some '('

instance (text : Text) : Decidable text.OpensNothing :=
  inferInstanceAs (Decidable (_ ∧ _))

theorem opensNothing_of_not_mem {text : Text} (absent : '(' ∉ text) : text.OpensNothing := by
  constructor
  · intro opening
    exact absent (opening.subset (by simp))
  · intro last
    exact absent (List.mem_of_getLast? last)

theorem OpensNothing.not_opening {text rest place : Text} (opensNothing : text.OpensNothing)
    (place_suffix : place <:+ text) (nonempty : place ≠ []) : ¬['(', ':'] <+: place ++ rest := by
  intro opening
  rcases place_suffix with ⟨front, rfl⟩
  match place, nonempty with
  | [c], _ =>
      have first := (List.cons_prefix_cons.mp opening).1
      exact opensNothing.2 (by simp [← first])
  | c :: d :: place, _ =>
      simp only [List.cons_append, List.cons_prefix_cons] at opening
      rcases opening with ⟨rfl, rfl, -⟩
      exact opensNothing.1 ⟨front, place, by simp⟩

end Text

/-! ## Tags -/

namespace Tag

variable {tag other rest : Text}

theorem takeWhile_inBody {body : Text} (inside : ∀ c ∈ body, inBody c = true) (rest : Text) :
    (body ++ ':' :: rest).takeWhile inBody = body := by
  rw [List.takeWhile_append_of_pos inside]
  simp [inBody]

theorem dropWhile_inBody {body : Text} (inside : ∀ c ∈ body, inBody c = true) (rest : Text) :
    (body ++ ':' :: rest).dropWhile inBody = ':' :: rest := by
  rw [List.dropWhile_append_of_pos inside]
  simp [inBody]

theorem atStart?_append (isTag : IsTag tag) (rest : Text) :
    atStart? (tag ++ rest) = some (tag, rest) := by
  rcases isTag with ⟨body, inside, rfl⟩
  have body_eq : ['(', ':'] ++ body ++ [':', ')'] ++ rest =
      '(' :: ':' :: (body ++ ':' :: ')' :: rest) := by simp
  rw [body_eq, atStart?, takeWhile_inBody inside, dropWhile_inBody inside]
  rfl

theorem isTag_of_atStart? {text : Text} (found : atStart? text = some (tag, rest)) : IsTag tag := by
  unfold atStart? at found
  split at found
  · next inner =>
      split at found
      · cases found
        refine ⟨inner.takeWhile inBody, ?_, by simp⟩
        intro c c_mem
        exact List.mem_takeWhile_imp c_mem
      · simp at found
  · simp at found

/-- A tag stands behind the two characters that open it if the two that close it stand behind its
body. -/
theorem atStart?_of_closing (closing : rest.dropWhile inBody = ':' :: ')' :: other) :
    atStart? ('(' :: ':' :: rest) =
      some (['(', ':'] ++ rest.takeWhile inBody ++ [':', ')'], other) := by
  have isTag : IsTag (['(', ':'] ++ rest.takeWhile inBody ++ [':', ')']) :=
    ⟨_, fun c c_mem => List.mem_takeWhile_imp c_mem, rfl⟩
  have whole := @List.takeWhile_append_dropWhile _ inBody rest
  rw [closing] at whole
  have same : '(' :: ':' :: rest =
      ['(', ':'] ++ rest.takeWhile inBody ++ [':', ')'] ++ other := by
    simp [whole]
  rw [same, atStart?_append isTag]

theorem closing_of_atStart? (found : atStart? ('(' :: ':' :: rest) = some (tag, other)) :
    rest.dropWhile inBody = ':' :: ')' :: other := by
  have same := append_of_atStart? found
  rcases isTag_of_atStart? found with ⟨body, inside, rfl⟩
  simp only [List.cons_append, List.nil_append, List.append_assoc, List.cons.injEq,
    true_and] at same
  rw [same]
  exact dropWhile_inBody inside (')' :: other)

/-- No tag is the start of another one. -/
theorem eq_of_append_eq_append {rest' : Text} (isTag : IsTag tag) (isTag' : IsTag other)
    (same : tag ++ rest = other ++ rest') : tag = other := by
  have found := atStart?_append isTag rest
  rw [same, atStart?_append isTag' rest'] at found
  cases found
  rfl

theorem begins_with_opening (isTag : IsTag tag) : ['(', ':'] <+: tag := by
  rcases isTag with ⟨body, -, rfl⟩
  exact ⟨body ++ [':', ')'], by simp⟩

theorem ne_nil (isTag : IsTag tag) : tag ≠ [] := by
  rcases isTag with ⟨body, -, rfl⟩
  simp

theorem head?_ne_colon (isTag : IsTag tag) (rest : Text) : (tag ++ rest).head? ≠ some ':' := by
  rcases isTag with ⟨body, -, rfl⟩
  simp

/-- No tag stands at a place in the body of a tag or in the characters that close it. -/
theorem not_prefix_of_suffix_closing {body place : Text} (isTag : IsTag tag)
    (inside : ∀ c ∈ body, inBody c = true) (place_suffix : place <:+ body ++ [':', ')'])
    (nonempty : place ≠ []) : ¬tag <+: place ++ rest := by
  rcases isTag with ⟨body', inside', rfl⟩
  rintro ⟨back, same⟩
  induction body with
  | nil =>
      have place_mem : place ∈ [':', ')'].tails := (List.mem_tails _ _).mpr place_suffix
      simp [List.tails, nonempty] at place_mem
      rcases place_mem with rfl | rfl <;> simp at same
  | cons c body ih =>
      rw [List.cons_append, List.suffix_cons_iff] at place_suffix
      rcases place_suffix with rfl | place_suffix
      · -- The second character is a colon only if the body ends here, and then `)` comes third.
        cases body with
        | cons d body =>
            have colon : d = ':' := by simp at same; exact same.2.1.symm
            simpa [colon, inBody] using inside d (by simp)
        | nil =>
            cases body' with
            | nil => simp at same
            | cons d body' =>
                have closing : d = ')' := by simp at same; exact same.2.1
                simpa [closing, inBody] using inside' d (by simp)
      · exact ih (fun d d_mem => inside d (by simp [d_mem])) place_suffix

/-- No tag begins inside another one, nor inside itself. -/
theorem not_prefix_of_inner_suffix {place : Text} (isTag : IsTag tag) (isTag' : IsTag other)
    (inner : place ≠ other) (place_suffix : place <:+ other) (nonempty : place ≠ []) :
    ¬tag <+: place ++ rest := by
  rcases isTag' with ⟨body, inside, other_eq⟩
  rintro ⟨back, same⟩
  have shape : other = '(' :: ':' :: (body ++ [':', ')']) := by simp [other_eq]
  rw [shape, List.suffix_cons_iff, List.suffix_cons_iff] at place_suffix
  rcases place_suffix with rfl | rfl | place_suffix
  · exact inner shape.symm
  · rcases isTag with ⟨body', -, rfl⟩
    simp at same
  · exact not_prefix_of_suffix_closing isTag inside place_suffix nonempty ⟨back, same⟩

/-- At a place in a tag stands no tag but this one at its start. -/
theorem not_prefix_of_suffix {place : Text} (isTag : IsTag tag) (isTag' : IsTag other)
    (differs : tag ≠ other) (place_suffix : place <:+ other) (nonempty : place ≠ []) :
    ¬tag <+: place ++ rest := by
  by_cases start : place = other
  · rw [start]
    rintro ⟨back, same⟩
    exact differs (eq_of_append_eq_append isTag isTag' same)
  · exact not_prefix_of_inner_suffix isTag isTag' start place_suffix nonempty

/-! ## Searching for tags -/

theorem atStart?_eq_none {text : Text} (absent : ¬['(', ':'] <+: text) : atStart? text = none := by
  cases found : atStart? text with
  | none => rfl
  | some parts =>
      have opening := begins_with_opening (isTag_of_atStart? found)
      rw [append_of_atStart? found] at absent
      exact absurd (opening.trans (List.prefix_append _ _)) absent

theorem after?_eq_none {text : Text} (absent : ¬tag <+: text) : Text.after? tag text = none := by
  cases found : Text.after? tag text with
  | none => rfl
  | some rest => exact absurd ⟨rest, (Text.after?_eq_some_iff.mp found).symm⟩ absent

/-- The first tag after a quiet text is the one that follows it. -/
theorem first?_append {quiet : Text} (isQuiet : quiet.IsQuiet) (isTag : IsTag tag) (rest : Text) :
    first? (quiet ++ (tag ++ rest)) = some (quiet, tag, rest) := by
  rw [first?, Text.search_append_of_none, Text.search_of_some (atStart?_append isTag rest)]
  · simp
  · intro place place_suffix nonempty
    apply atStart?_eq_none
    exact isQuiet.not_opening (head?_ne_colon isTag rest) place_suffix nonempty

/-- A quiet text has no tags. -/
theorem first?_eq_none {quiet : Text} (isQuiet : quiet.IsQuiet) : first? quiet = none := by
  have ended : Text.search atStart? [] = none := Text.search_nil_of_none rfl
  rw [first?, ← List.append_nil quiet, Text.search_append_of_none, ended, Option.map_none]
  intro place place_suffix nonempty
  apply atStart?_eq_none
  exact isQuiet.not_opening (by simp) place_suffix nonempty

section Replace

variable {replacement : Text} {nonempty : tag ≠ []}

/-- Replacing a tag leaves quiet texts alone. -/
theorem replaceOccurrences_quiet_append {quiet : Text} (isTag : IsTag tag)
    (isQuiet : quiet.IsQuiet) (later : rest.head? ≠ some ':') :
    Text.replaceOccurrences tag replacement nonempty (quiet ++ rest) =
      quiet ++ Text.replaceOccurrences tag replacement nonempty rest := by
  apply Text.replaceOccurrences_append_of_none
  intro place place_suffix place_nonempty
  apply after?_eq_none
  intro here
  apply isQuiet.not_opening later place_suffix place_nonempty
  exact (begins_with_opening isTag).trans here

/-- Replacing a tag leaves other tags alone. -/
theorem replaceOccurrences_tag_append (isTag : IsTag tag) (isTag' : IsTag other)
    (differs : tag ≠ other) (rest : Text) :
    Text.replaceOccurrences tag replacement nonempty (other ++ rest) =
      other ++ Text.replaceOccurrences tag replacement nonempty rest := by
  apply Text.replaceOccurrences_append_of_none
  intro place place_suffix place_nonempty
  apply after?_eq_none
  exact not_prefix_of_suffix isTag isTag' differs place_suffix place_nonempty

end Replace

end Tag

end Pageweave

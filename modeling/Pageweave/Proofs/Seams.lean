import Pageweave.Proofs.Tags

/-!
# Seams

A text that is put together has seams where its parts meet. A `Patchwork` is a text that keeps them:
each character knows whether a seam lies before it. `Bears` says that a text stands in a patchwork
and that no seam goes through it. Sewing patches together brings about nothing that a patchwork
bears (`bears_of_sew`), and after a text has been replaced, it is borne only where the replacement
bears it (`bears_of_replaceAll`).
-/

namespace Pageweave

namespace Text

variable {α : Type} {found? : Text → Option α}

/-- A text that is searched for does not stand before the place where it is found first. -/
theorem not_infix_of_search {pattern before rest : Text} {found : Text} (nonempty : pattern ≠ [])
    (first : search (after? pattern) (before ++ rest) = some (before, found)) :
    ¬pattern <:+: before := by
  rintro ⟨front, back, rfl⟩
  have place_suffix : pattern ++ back <:+ front ++ pattern ++ back := ⟨front, by simp⟩
  have nothing := none_before_search first place_suffix (by simp [nonempty])
  rw [List.append_assoc, after?_eq_some_iff.mpr rfl] at nothing
  cases nothing

theorem not_infix_of_search_none {pattern text : Text}
    (nowhere : search (after? pattern) text = none) : ¬pattern <:+: text := by
  rintro ⟨front, back, rfl⟩
  have place_suffix : pattern ++ back <:+ front ++ pattern ++ back := ⟨front, by simp⟩
  have nothing := none_of_search nowhere place_suffix
  rw [after?_eq_some_iff.mpr rfl] at nothing
  cases nothing

end Text

/-- A character of a text that was put together. -/
structure Stitch where
  /-- The character. -/
  char : Char
  /-- Whether a seam lies before it. -/
  seam : Bool
deriving DecidableEq, Repr

/-- A text with its seams. -/
abbrev Patchwork := List Stitch

namespace Patchwork

/-- The text of a patchwork. -/
def text (work : Patchwork) : Text :=
  work.map Stitch.char

/-- A text without seams. -/
def ofText (text : Text) : Patchwork :=
  text.map fun c => ⟨c, false⟩

/-- The patchwork with a seam at its start. -/
def cutOff : Patchwork → Patchwork
  | [] => []
  | stitch :: work => { stitch with seam := true } :: work

/-- Two patchworks with a seam between them. -/
def sew (first second : Patchwork) : Patchwork :=
  first ++ second.cutOff

/-- The patchwork with `replacement` sewn in for every occurrence of a non-empty pattern in its
text; the occurrences are taken from left to right and do not overlap. -/
def replaceOccurrences (pattern : Text) (replacement : Patchwork) (nonempty : pattern ≠ [])
    (work : Patchwork) : Patchwork :=
  match _h : Text.search (Text.after? pattern) work.text with
  | none => work
  | some (before, _) =>
      sew (work.take before.length) (sew replacement
        (replaceOccurrences pattern replacement nonempty
          (work.drop (before.length + pattern.length))))
termination_by work.length
decreasing_by
  obtain ⟨place, text_eq, found⟩ := Text.search_eq_some _h
  have length_eq := congrArg List.length text_eq
  have pattern_pos := List.length_pos_iff.mpr nonempty
  rw [Text.after?_eq_some_iff.mp found] at length_eq
  simp [text] at length_eq ⊢
  omega

/-- The patchwork with `replacement` sewn in for every occurrence of `pattern` in its text. The
empty pattern occurs before every character and at the end. -/
def replaceAll (pattern : Text) (replacement work : Patchwork) : Patchwork :=
  if h : pattern = [] then
    work.foldr (fun stitch rest => sew replacement (sew [stitch] rest)) replacement
  else replaceOccurrences pattern replacement h work

/-- A text stands in a patchwork and no seam goes through it. -/
def Bears (work : Patchwork) (borne : Text) : Prop :=
  ∃ front patch back, work = front ++ patch ++ back ∧ text patch = borne ∧
    ∀ stitch ∈ patch.tail, stitch.seam = false

/-! ## The text of a patchwork -/

@[simp]
theorem text_nil : text [] = [] := rfl

@[simp]
theorem text_append (first second : Patchwork) :
    text (first ++ second) = text first ++ text second :=
  List.map_append

@[simp]
theorem text_ofText (written : Text) : text (ofText written) = written := by
  simp [text, ofText, Function.comp_def]

@[simp]
theorem text_cutOff (work : Patchwork) : text work.cutOff = text work := by
  cases work <;> rfl

@[simp]
theorem text_sew (first second : Patchwork) :
    text (sew first second) = text first ++ text second := by
  simp [sew]

section Replace

variable {pattern : Text} {replacement work : Patchwork} {nonempty : pattern ≠ []}

theorem replaceOccurrences_of_none
    (nowhere : Text.search (Text.after? pattern) (text work) = none) :
    replaceOccurrences pattern replacement nonempty work = work := by
  rw [replaceOccurrences]
  split
  · rfl
  · next found => simp [nowhere] at found

theorem replaceOccurrences_of_some {before rest : Text}
    (first : Text.search (Text.after? pattern) (text work) = some (before, rest)) :
    replaceOccurrences pattern replacement nonempty work =
      sew (work.take before.length) (sew replacement
        (replaceOccurrences pattern replacement nonempty
          (work.drop (before.length + pattern.length)))) := by
  rw [replaceOccurrences]
  split
  · next found => simp [first] at found
  · next found =>
      rw [first] at found
      cases found
      rfl

/-- The parts of a patchwork before and behind the first occurrence of a pattern. -/
theorem text_take_drop {before rest : Text}
    (first : Text.search (Text.after? pattern) (text work) = some (before, rest)) :
    text work = before ++ (pattern ++ rest) ∧ text (work.take before.length) = before ∧
      text (work.drop (before.length + pattern.length)) = rest := by
  rcases Text.search_eq_some first with ⟨place, text_eq, found⟩
  rw [Text.after?_eq_some_iff] at found
  subst found
  refine ⟨text_eq, ?_, ?_⟩
  · rw [text, List.map_take, ← text, text_eq, List.take_left]
  · rw [text, List.map_drop, ← text, text_eq, ← List.append_assoc, ← List.length_append,
      List.drop_left]

theorem text_replaceOccurrences :
    text (replaceOccurrences pattern replacement nonempty work) =
      Text.replaceOccurrences pattern (text replacement) nonempty (text work) := by
  fun_induction replaceOccurrences pattern replacement nonempty work with
  | case1 work nowhere => rw [Text.replaceOccurrences_of_none nowhere]
  | case2 work before rest first ih =>
      rcases text_take_drop first with ⟨-, before_eq, rest_eq⟩
      rw [Text.replaceOccurrences_of_some first, text_sew, text_sew, ih, before_eq, rest_eq,
        List.append_assoc]

/-- Replacing in a patchwork is replacing in its text. -/
@[simp]
theorem text_replaceAll :
    text (replaceAll pattern replacement work) =
      Text.replaceAll pattern (text replacement) (text work) := by
  rw [replaceAll, Text.replaceAll]
  split
  · induction work with
    | nil => simp
    | cons stitch work ih =>
        rw [List.foldr_cons, text_sew, text_sew, ih]
        simp [text]
  · exact text_replaceOccurrences

end Replace

/-! ## What a patchwork bears -/

section Bears

variable {first second work : Patchwork} {borne : Text}

theorem Bears.infix_text (bears : work.Bears borne) : borne <:+: text work := by
  rcases bears with ⟨front, patch, back, rfl, rfl, -⟩
  exact ⟨text front, text back, by simp⟩

theorem Bears.append_right (bears : first.Bears borne) (second : Patchwork) :
    Bears (first ++ second) borne := by
  rcases bears with ⟨front, patch, back, rfl, text_eq, whole⟩
  exact ⟨front, patch, back ++ second, by simp, text_eq, whole⟩

theorem Bears.append_left (bears : second.Bears borne) (first : Patchwork) :
    Bears (first ++ second) borne := by
  rcases bears with ⟨front, patch, back, rfl, text_eq, whole⟩
  exact ⟨first ++ front, patch, back, by simp, text_eq, whole⟩

theorem Bears.of_take {n : Nat} (bears : Bears (work.take n) borne) : work.Bears borne := by
  have whole := bears.append_right (work.drop n)
  rwa [List.take_append_drop] at whole

theorem Bears.of_drop {n : Nat} (bears : Bears (work.drop n) borne) : work.Bears borne := by
  have whole := bears.append_left (work.take n)
  rwa [List.take_append_drop] at whole

theorem Bears.of_cutOff (bears : Bears work.cutOff borne) : work.Bears borne := by
  rcases bears with ⟨front, patch, back, work_eq, text_eq, whole⟩
  cases work with
  | nil => exact ⟨front, patch, back, work_eq, text_eq, whole⟩
  | cons stitch work =>
      rw [cutOff, List.append_assoc] at work_eq
      cases front with
      | cons other front =>
          rcases List.cons.inj work_eq with ⟨-, work_eq⟩
          exact ⟨stitch :: front, patch, back, by simp [work_eq], text_eq, whole⟩
      | nil =>
          cases patch with
          | nil => exact ⟨[], [], stitch :: work, rfl, text_eq, whole⟩
          | cons other patch =>
              rcases List.cons.inj work_eq with ⟨rfl, rfl⟩
              exact ⟨[], stitch :: patch, back, rfl, text_eq, whole⟩

/-- What stands in two texts that follow each other stands in one of them, or it begins in the
first one and ends in the second one. -/
theorem bears_append_cases (bears : Bears (first ++ second) borne) :
    first.Bears borne ∨ second.Bears borne ∨
      ∃ front start rest back, first = front ++ start ∧ second = rest ++ back ∧ start ≠ [] ∧
        rest ≠ [] ∧ borne = text start ++ text rest ∧
        ∀ stitch ∈ rest, stitch.seam = false := by
  rcases bears with ⟨front, patch, back, work_eq, rfl, whole⟩
  rw [List.append_assoc, List.append_eq_append_iff] at work_eq
  rcases work_eq with ⟨skipped, rfl, second_eq⟩ | ⟨start, rfl, behind⟩
  · exact Or.inr (Or.inl ⟨skipped, patch, back, by simp [second_eq], rfl, whole⟩)
  rcases List.append_eq_append_iff.mp behind with ⟨left, rfl, rfl⟩ | ⟨rest, rfl, rfl⟩
  · exact Or.inl ⟨front, patch, left, by simp, rfl, whole⟩
  by_cases noStart : start = []
  · subst noStart
    exact Or.inr (Or.inl ⟨[], rest, back, rfl, rfl, whole⟩)
  by_cases noRest : rest = []
  · subst noRest
    exact Or.inl ⟨front, start, [], by simp, by simp, by simpa using whole⟩
  refine Or.inr (Or.inr ⟨front, start, rest, back, rfl, rfl, noStart, noRest, by simp, ?_⟩)
  intro stitch stitch_mem
  apply whole
  rw [List.tail_append_of_ne_nil noStart]
  exact List.mem_append_right _ stitch_mem

/-- The seam at the start of a patchwork lies before anything else. -/
theorem eq_nil_of_cutOff_eq {patch back : Patchwork} (work_eq : work.cutOff = patch ++ back)
    (whole : ∀ stitch ∈ patch, stitch.seam = false) : patch = [] := by
  cases patch with
  | nil => rfl
  | cons stitch patch =>
      have noSeam := whole stitch List.mem_cons_self
      cases work with
      | nil => cases work_eq
      | cons other work =>
          rw [cutOff] at work_eq
          rcases List.cons.inj work_eq with ⟨rfl, -⟩
          cases noSeam

/-- Sewing brings about nothing that is borne. -/
theorem bears_of_sew (bears : Bears (sew first second) borne) :
    first.Bears borne ∨ second.Bears borne := by
  rcases bears_append_cases bears with here | there | ⟨-, -, rest, back, -, second_eq, -, nonempty,
    -, whole⟩
  · exact Or.inl here
  · exact Or.inr there.of_cutOff
  · exact absurd (eq_nil_of_cutOff_eq second_eq whole) nonempty

theorem not_bears_nil (nonempty : borne ≠ []) : ¬Bears [] borne := by
  intro bears
  exact nonempty (List.infix_nil.mp bears.infix_text)

theorem bears_of_replaceOccurrences {pattern : Text} {replacement : Patchwork}
    {nonempty : pattern ≠ []}
    (bears : Bears (replaceOccurrences pattern replacement nonempty work) borne) :
    replacement.Bears borne ∨ work.Bears borne ∧ borne ≠ pattern := by
  fun_induction replaceOccurrences pattern replacement nonempty work with
  | case1 work nowhere =>
      right
      refine ⟨bears, ?_⟩
      rintro rfl
      exact Text.not_infix_of_search_none nowhere bears.infix_text
  | case2 work before rest first ih =>
      rcases text_take_drop first with ⟨text_eq, before_eq, -⟩
      rcases bears_of_sew bears with here | bears
      · right
        refine ⟨here.of_take, ?_⟩
        rintro rfl
        have before_infix := here.infix_text
        rw [before_eq] at before_infix
        rw [text_eq] at first
        exact Text.not_infix_of_search nonempty first before_infix
      · rcases bears_of_sew bears with there | bears
        · exact Or.inl there
        · rcases ih bears with there | ⟨later, differs⟩
          · exact Or.inl there
          · exact Or.inr ⟨later.of_drop, differs⟩

/-- What is borne after a pattern was replaced is borne by the replacement, or was borne before and
is not the pattern. -/
theorem bears_of_replaceAll {pattern : Text} {replacement : Patchwork} (nonempty : pattern ≠ [])
    (bears : Bears (replaceAll pattern replacement work) borne) :
    replacement.Bears borne ∨ work.Bears borne ∧ borne ≠ pattern := by
  rw [replaceAll, dif_neg nonempty] at bears
  exact bears_of_replaceOccurrences bears

end Bears

end Patchwork

end Pageweave

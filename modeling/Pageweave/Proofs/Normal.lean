import Mathlib.Data.List.DropRight
import Pageweave.Proofs.Confinement

/-!
# Normal paths

What a normalised path is depends on the course of the path alone, and for an absolute path only on
the names that it goes down along: above the root directory there is nothing. These components are
read back from the normalised path (`components_normalize_eq_normal`), so that it has the course of
the path it came from. All laws of normalisation follow, since a relative path that is joined
continues the course.
-/

namespace Pageweave

namespace Text

/-- Characters in front that are not blank stay in front of what is trimmed. -/
theorem trim_append_of_dark {front rest : Text} (dark : ∀ c ∈ front, isBlank c = false)
    (noLeading : ∀ c, rest.head? = some c → isBlank c = false) :
    trim (front ++ rest) = front ++ trim rest := by
  have startDark : ∀ text : Text, (∀ c, text.head? = some c → isBlank c = false) →
      text.dropWhile isBlank = text := by
    intro text darkHead
    cases text with
    | nil => rfl
    | cons c text => simp [darkHead c rfl]
  have frontKept : front.reverse.dropWhile isBlank = front.reverse := by
    apply startDark
    intro c isHead
    exact dark c (List.mem_reverse.mp (List.mem_of_head? isHead))
  have wholeKept : (front ++ rest).dropWhile isBlank = front ++ rest := by
    apply startDark
    cases front with
    | nil => exact noLeading
    | cons c front =>
        intro first isHead
        cases isHead
        exact dark _ List.mem_cons_self
  rw [trim, trim, wholeKept, startDark rest noLeading, trimEnd, trimEnd, List.reverse_append,
    List.dropWhile_append]
  split
  · next allBlank =>
      rw [List.isEmpty_iff] at allBlank
      simp [frontKept, allBlank]
  · simp

end Text

namespace Path

/-- The components that normalisation leaves of a path. -/
def normal (path : Path) : List Component :=
  (if path.isAbsolute then [.root] else List.replicate path.course.up .parent) ++
    path.course.down.map .name

/-- A `..` or a name: a component that may stand anywhere in a path. -/
def Component.IsStep (component : Component) : Prop :=
  component = .parent ∨ ∃ name, IsName name ∧ component = .name name

/-- A path that is written as its components, without any `.` and with a `..` only at the start of a
relative path. -/
structure IsNormal (path : Path) : Prop where
  written : path = ofComponents path.components
  noCurrent : .current ∉ path.components
  noParent : path.isAbsolute = true → .parent ∉ path.components
  inFront : ∀ front back, path.components = front ++ .parent :: back →
    ∀ component ∈ front, component = .parent

/-! ## The components that are left -/

theorem normalizeStep_replicate (up : Nat) :
    normalizeStep (List.replicate up .parent) .parent = List.replicate (up + 1) .parent := by
  cases up <;> rfl

/-- Normalising the steps of a relative path leaves the `..` that nothing stands before, and then
the names. -/
theorem foldl_normalizeStep_relative {steps : List Component}
    (areSteps : ∀ step ∈ steps, step.IsStep) :
    steps.foldl normalizeStep [] =
      (List.replicate (steps.foldl Course.add {}).up Component.parent ++
        (steps.foldl Course.add {}).down.map Component.name).reverse := by
  induction steps using List.reverseRecOn with
  | nil => rfl
  | append_singleton steps step ih =>
      rw [List.foldl_append, List.foldl_append,
        ih fun other other_mem => areSteps other (by simp [other_mem])]
      generalize steps.foldl Course.add {} = course
      rcases course with ⟨up, down⟩
      rw [List.foldl_cons, List.foldl_nil, List.foldl_cons, List.foldl_nil]
      rcases areSteps step (by simp) with rfl | ⟨name, -, rfl⟩
      · induction down using List.reverseRecOn with
        | nil =>
            rw [Course.add, if_pos rfl]
            simpa using normalizeStep_replicate up
        | append_singleton down name _ =>
            rw [Course.add, if_neg (by simp)]
            simp [normalizeStep]
      · simp [normalizeStep, Course.add]

theorem normalize_eq_ofComponents (path : Path) :
    path.normalize = ofComponents path.normal := by
  have left : path.components.foldl normalizeStep [] = path.normal.reverse := by
    rw [normal, course_eq_foldl_steps]
    cases absolute : path.isAbsolute with
    | true =>
        have areSteps : ∀ step ∈ path.steps, step = .parent ∨ ∃ name, step = .name name :=
          fun _ => eq_parent_or_name_of_mem_steps
        rw [components_of_absolute absolute, if_pos rfl]
        simpa [normalizeStep] using foldl_normalizeStep [] areSteps
    | false =>
        have dropped : path.components.foldl normalizeStep [] =
            path.steps.foldl normalizeStep [] := by
          rcases components_of_relative absolute with components_eq | components_eq <;>
            rw [components_eq]
          rfl
        rw [dropped, if_neg Bool.false_ne_true]
        exact foldl_normalizeStep_relative fun _ => mem_steps
  rw [normalize, left, List.reverse_reverse]

namespace Component.IsStep

variable {step : Component}

theorem text_ne_current (isStep : step.IsStep) : step.text ≠ ['.'] := by
  rcases isStep with rfl | ⟨name, isName, rfl⟩
  · decide
  · exact isName.ne_current

theorem ofPiece_text (isStep : step.IsStep) : ofPiece step.text = step := by
  rcases isStep with rfl | ⟨name, isName, rfl⟩
  · rfl
  · simp [ofPiece, text, isName.ne_parent]

/-- Written by itself it is a relative path of one piece. -/
theorem pieces_text (isStep : step.IsStep) :
    isAbsolute ⟨step.text⟩ = false ∧ pieces ⟨step.text⟩ = [step.text] := by
  rcases isStep with rfl | ⟨name, isName, rfl⟩
  · exact ⟨rfl, by decide⟩
  · refine ⟨isAbsolute_of_noSlash isName.noSlash, ?_⟩
    simp [pieces, text, Text.splitOn_of_not_mem isName.noSlash, isName.nonempty]

end Component.IsStep

theorem isAbsolute_join_relative {first second : Path} (relative : second.isAbsolute = false) :
    (first.join second).isAbsolute = first.isAbsolute := by
  cases start : first.isAbsolute with
  | true => exact isAbsolute_join start second
  | false =>
      rw [isAbsolute, decide_eq_false_iff_not] at start relative
      rw [join, if_neg (by simpa [isAbsolute] using relative)]
      split
      · next ends =>
          rw [isAbsolute, decide_eq_false_iff_not]
          cases text_eq : first.text with
          | nil => simpa using relative
          | cons c text => simpa [text_eq] using start
      · next noEnd =>
          rw [isAbsolute, decide_eq_false_iff_not]
          cases text_eq : first.text with
          | nil => simp [text_eq] at noEnd
          | cons c text => simpa [text_eq] using start

theorem pieces_ofComponents {parts : List Component} (areSteps : ∀ part ∈ parts, part.IsStep) :
    (ofComponents parts).isAbsolute = false ∧
      (ofComponents parts).pieces = parts.map Component.text := by
  induction parts using List.reverseRecOn with
  | nil => exact ⟨rfl, pieces_nil⟩
  | append_singleton parts part ih =>
      rcases ih fun other other_mem => areSteps other (by simp [other_mem]) with
        ⟨relative, pieces_eq⟩
      rcases (areSteps part (by simp)).pieces_text with ⟨partRelative, piece_eq⟩
      rw [ofComponents_concat, isAbsolute_join_relative partRelative, pieces_join partRelative,
        pieces_eq, piece_eq, List.map_append]
      exact ⟨relative, rfl⟩

/-- A relative path put together from `..` and names has these components. -/
theorem components_ofComponents_relative {parts : List Component}
    (areSteps : ∀ part ∈ parts, part.IsStep) :
    (ofComponents parts).isAbsolute = false ∧ (ofComponents parts).components = parts := by
  rcases pieces_ofComponents areSteps with ⟨relative, pieces_eq⟩
  refine ⟨relative, ?_⟩
  have steps_eq : (ofComponents parts).steps = parts := by
    have allKept : (parts.map Component.text).filter (· ≠ ['.']) = parts.map Component.text := by
      simpa using fun part part_mem => (areSteps part part_mem).text_ne_current
    rw [steps_eq_map_pieces, pieces_eq, allKept, List.map_map]
    calc parts.map (Component.ofPiece ∘ Component.text)
        = parts.map id := List.map_congr_left fun part part_mem =>
          (areSteps part part_mem).ofPiece_text
      _ = parts := List.map_id parts
  have noDot : (ofComponents parts).pieces.head? ≠ some ['.'] := by
    intro dot
    rw [pieces_eq] at dot
    rcases List.mem_map.mp (List.mem_of_head? dot) with ⟨part, part_mem, text_eq⟩
    exact (areSteps part part_mem).text_ne_current text_eq
  rw [components, relative, if_neg Bool.false_ne_true]
  exact (if_neg noDot).trans steps_eq

theorem ofComponents_normal (path : Path) :
    (ofComponents path.normal).isAbsolute = path.isAbsolute ∧
      (ofComponents path.normal).components = path.normal := by
  have areNames : ∀ name ∈ path.course.down, IsName name := fun _ => isName_of_mem_down
  rw [normal]
  cases absolute : path.isAbsolute with
  | true =>
      rw [if_pos rfl, List.singleton_append]
      have components_eq := components_ofComponents areNames
      exact ⟨isAbsolute_of_root_mem (by simp [components_eq]), components_eq⟩
  | false =>
      rw [if_neg Bool.false_ne_true]
      apply components_ofComponents_relative
      intro part part_mem
      rcases List.mem_append.mp part_mem with part_mem | part_mem
      · exact Or.inl (List.eq_of_mem_replicate part_mem)
      · rcases List.mem_map.mp part_mem with ⟨name, name_mem, rfl⟩
        exact Or.inr ⟨name, areNames name name_mem, rfl⟩

/-- A normalised path starts where the path does. -/
theorem isAbsolute_normalize (path : Path) : path.normalize.isAbsolute = path.isAbsolute := by
  rw [normalize_eq_ofComponents]
  exact (ofComponents_normal path).1

/-- The components of a normalised path are those that were left. -/
theorem components_normalize_eq_normal (path : Path) :
    path.normalize.components = path.normal := by
  rw [normalize_eq_ofComponents]
  exact (ofComponents_normal path).2

theorem isNormal_normalize (path : Path) : path.normalize.IsNormal := by
  have components_eq := components_normalize_eq_normal path
  have noParent : path.isAbsolute = true → .parent ∉ path.normalize.components := by
    intro absolute
    rw [components_eq, normal, if_pos absolute]
    simp
  refine ⟨?_, ?_, isAbsolute_normalize path ▸ noParent, ?_⟩
  · rw [components_eq, normalize_eq_ofComponents]
  · rw [components_eq, normal]
    split <;> simp
  · intro front back split_eq component component_mem
    have relative : ¬path.isAbsolute = true := by
      intro absolute
      exact noParent absolute (by simp [split_eq])
    rw [components_eq, normal, if_neg relative] at split_eq
    rcases List.append_eq_append_iff.mp split_eq with ⟨names, -, down_eq⟩ | ⟨rest, up_eq, -⟩
    · have parent_mem : Component.parent ∈ path.course.down.map Component.name := by
        simp [down_eq]
      simp at parent_mem
    · exact List.eq_of_mem_replicate (up_eq ▸ List.mem_append_left rest component_mem)

/-! ## The course of a normalised path -/

theorem foldl_add_replicate (up : Nat) :
    (List.replicate up Component.parent).foldl Course.add {} = { up } := by
  induction up with
  | zero => rfl
  | succ up ih =>
      rw [List.replicate_succ', List.foldl_append, ih]
      rfl

theorem foldl_add_names (course : Course) (names : List Text) :
    (names.map Component.name).foldl Course.add course =
      { course with down := course.down ++ names } := by
  induction names generalizing course with
  | nil => simp
  | cons name names ih =>
      rw [List.map_cons, List.foldl_cons, ih]
      simp [Course.add]

/-- Normalisation keeps the course of a path, but for what goes up from the root directory. -/
theorem course_normalize (path : Path) :
    path.normalize.course =
      { up := if path.isAbsolute then 0 else path.course.up, down := path.course.down } := by
  rw [course, components_normalize_eq_normal, normal, List.foldl_append, foldl_add_names]
  split
  · rfl
  · rw [foldl_add_replicate]
    rfl

/-- A normalised path is determined by where the path starts and by its course. -/
theorem normalize_congr {path other : Path} (sameStart : path.isAbsolute = other.isAbsolute)
    (sameDown : path.course.down = other.course.down)
    (sameUp : path.isAbsolute = false → path.course.up = other.course.up) :
    path.normalize = other.normalize := by
  rw [normalize_eq_ofComponents, normalize_eq_ofComponents, normal, normal, ← sameStart, sameDown]
  cases absolute : path.isAbsolute with
  | true => rfl
  | false => rw [sameUp absolute]

theorem normalize_normalize (path : Path) : path.normalize.normalize = path.normalize := by
  apply normalize_congr
  · exact isAbsolute_normalize path
  · rw [course_normalize]
  · intro relative
    rw [isAbsolute_normalize] at relative
    simp [course_normalize, relative]

theorem course_join {second : Path} (relative : second.isAbsolute = false) (first : Path) :
    (first.join second).course = second.steps.foldl Course.add first.course := by
  rw [course_eq_foldl_steps, course_eq_foldl_steps, steps_join relative, List.foldl_append]

/-- Down which names a course leads on does not depend on how often it has gone up before. -/
theorem down_foldl_add (steps : List Component) (up other : Nat) (down : List Text) :
    (steps.foldl Course.add { up, down }).down =
      (steps.foldl Course.add { up := other, down }).down := by
  induction steps generalizing up other down with
  | nil => rfl
  | cons step steps ih =>
      rw [List.foldl_cons, List.foldl_cons]
      cases step with
      | root | current | name _ => exact ih ..
      | parent =>
          rw [Course.add, Course.add]
          split <;> exact ih ..

/-- Normalising the front of a path first makes no difference. -/
theorem normalize_join_normalize (first second : Path) :
    (first.normalize.join second).normalize = (first.join second).normalize := by
  cases absolute : second.isAbsolute with
  | true => rw [join, join, if_pos absolute, if_pos absolute]
  | false =>
      have start_eq : (first.normalize.join second).isAbsolute = first.isAbsolute := by
        rw [isAbsolute_join_relative absolute, isAbsolute_normalize]
      apply normalize_congr
      · rw [start_eq, isAbsolute_join_relative absolute]
      · rw [course_join absolute, course_join absolute, course_normalize]
        exact down_foldl_add ..
      · intro relative
        rw [start_eq] at relative
        rw [course_join absolute, course_join absolute, course_normalize, relative]
        rfl

end Path

namespace ViewRoot

/-- A view path that no blank stands before is the same whatever separators are put before it. -/
theorem relative_append {viewPath : Text} (separators : Text)
    (areSeparators : ∀ c ∈ separators, c = '/' ∨ c = '\\')
    (noBlank : ∀ c, viewPath.head? = some c → isBlank c = false) :
    relative (separators ++ viewPath) = relative viewPath := by
  have dark : ∀ c ∈ separators, isBlank c = false := by
    intro c c_mem
    rcases areSeparators c c_mem with rfl | rfl <;> decide
  rw [relative, relative, Text.trim_append_of_dark dark noBlank, List.dropWhile_append_of_pos]
  simpa using areSeparators

theorem resolve_eq_normalize (root : ViewRoot) (viewPath : Text) :
    root.resolve viewPath = (root.path.join (relative viewPath)).normalize :=
  rfl

end ViewRoot

/-- Normalising the front of a path first makes no difference, nor does normalising twice, and what
is normalised is normal. So a view path is resolved to an absolute path without `.` and `..`, which
leads down from where the view path has gone up to from the root, and separators before the view
path make no difference. -/
theorem ViewRoot.resolve_canonical {workingDirectory : Path}
    (absolute : workingDirectory.isAbsolute = true) (path : Path) :
    (∀ first second : Path,
      (first.join second).normalize = (first.normalize.join second).normalize) ∧
    (∀ written : Path, written.normalize.normalize = written.normalize ∧
      written.normalize.IsNormal ∧ written.normalize.isAbsolute = written.isAbsolute) ∧
    (∀ viewPath : Text,
      ((ofPath workingDirectory path).resolve viewPath).isAbsolute = true ∧
      .current ∉ ((ofPath workingDirectory path).resolve viewPath).components ∧
      .parent ∉ ((ofPath workingDirectory path).resolve viewPath).components ∧
      ((ofPath workingDirectory path).resolve viewPath).components =
        .root :: ((ofPath workingDirectory path).names.take
            ((ofPath workingDirectory path).names.length - (relative viewPath).course.up) ++
          (relative viewPath).course.down).map .name) ∧
    ∀ separators viewPath : Text, (∀ c ∈ separators, c = '/' ∨ c = '\\') →
      (∀ c, viewPath.head? = some c → isBlank c = false) →
      (ofPath workingDirectory path).resolve (separators ++ viewPath) =
        (ofPath workingDirectory path).resolve viewPath := by
  refine ⟨?_, ?_, ?_, ?_⟩
  · exact fun first second => (Path.normalize_join_normalize first second).symm
  · exact fun written => ⟨Path.normalize_normalize written, Path.isNormal_normalize written,
      Path.isAbsolute_normalize written⟩
  · intro viewPath
    have components_eq : ((ofPath workingDirectory path).resolve viewPath).components = _ :=
      components_resolve absolute viewPath
    refine ⟨Path.isAbsolute_of_root_mem (by simp [components_eq]), ?_, ?_, components_eq⟩
    all_goals
      rw [components_eq, List.mem_cons, List.mem_map]
      rintro (same | ⟨name, -, same⟩) <;> cases same
  · intro separators viewPath areSeparators noBlank
    rw [resolve_eq_normalize, relative_append separators areSeparators noBlank]
    rfl

/-- Separators of both kinds before a view path that leads out of the root make no difference. -/
theorem ViewRoot.resolve_canonical_views :
    Path.rootDirectory.isAbsolute = true ∧
    (∀ c ∈ "\\/".toList, c = '/' ∨ c = '\\') ∧
    (∀ c, "../../page.html".toList.head? = some c → isBlank c = false) ∧
    (ofPath Path.rootDirectory (.ofString "views")).resolve
        ("\\/".toList ++ "../../page.html".toList) =
      (ofPath Path.rootDirectory (.ofString "views")).resolve "../../page.html".toList := by
  have areSeparators : ∀ c ∈ "\\/".toList, c = '/' ∨ c = '\\' := by simp
  have noBlank : ∀ c, "../../page.html".toList.head? = some c → isBlank c = false := by
    intro c isHead
    cases isHead
    decide
  exact ⟨by decide, areSeparators, noBlank,
    (resolve_canonical (by decide) (.ofString "views")).2.2.2 _ _ areSeparators noBlank⟩

end Pageweave

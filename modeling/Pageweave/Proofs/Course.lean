import Mathlib.Data.List.Basic
import Mathlib.Data.List.Infix
import Pageweave.Path.Basic

/-!
# The course of a path

A path goes up by its `..` and down by its names. A `..` takes back the name before it, so that what
remains of a path is to go up a number of times and then down along names. `Path.course` reads this
off the components, and `components_normalize` states that normalising a path leaves just that.
-/

namespace Pageweave

namespace Text

variable {separator : Char}

theorem splitOn_ne_nil (text : Text) : splitOn separator text ≠ [] := by
  cases text with
  | nil => simp [splitOn]
  | cons c text =>
      rw [splitOn]
      split
      · simp
      · split <;> simp

theorem splitOn_append_cons (first second : Text) :
    splitOn separator (first ++ separator :: second) =
      splitOn separator first ++ splitOn separator second := by
  induction first with
  | nil => simp [splitOn]
  | cons c first ih =>
      rw [List.cons_append, splitOn, splitOn]
      split
      · simp [ih]
      · rw [ih]
        cases pieces : splitOn separator first with
        | nil => exact absurd pieces (splitOn_ne_nil first)
        | cons piece pieces => simp

theorem splitOn_of_not_mem {text : Text} (absent : separator ∉ text) :
    splitOn separator text = [text] := by
  induction text with
  | nil => rfl
  | cons c text ih =>
      rw [List.mem_cons, not_or] at absent
      rw [splitOn, if_neg (Ne.symm absent.1), ih absent.2]

theorem not_mem_of_mem_splitOn {text piece : Text} (piece_mem : piece ∈ splitOn separator text) :
    separator ∉ piece := by
  induction text generalizing piece with
  | nil => simp_all [splitOn]
  | cons c text ih =>
      rw [splitOn] at piece_mem
      split at piece_mem
      · rcases List.mem_cons.mp piece_mem with rfl | piece_mem
        · simp
        · exact ih piece_mem
      · next differ =>
          cases pieces : splitOn separator text with
          | nil => exact absurd pieces (splitOn_ne_nil text)
          | cons first rest =>
              rw [pieces] at piece_mem ih
              rcases List.mem_cons.mp piece_mem with rfl | piece_mem
              · rw [List.mem_cons, not_or]
                exact ⟨Ne.symm differ, ih (by simp)⟩
              · exact ih (by simp [piece_mem])

end Text

namespace Path

/-- What stands between the slashes of a path, without the empty pieces. -/
def pieces (path : Path) : List Text :=
  (Text.splitOn '/' path.text).filter (· ≠ [])

/-- The components of a path after the slash or the `.` at its start. -/
def steps (path : Path) : List Component :=
  (((Text.splitOn '/' path.text).filter (· ≠ [])).filter (· ≠ ['.'])).map Component.ofPiece

/-- A text that is the name of a file or directory. -/
structure IsName (name : Text) : Prop where
  nonempty : name ≠ []
  noSlash : '/' ∉ name
  ne_current : name ≠ ['.']
  ne_parent : name ≠ ['.', '.']

/-- How a path leads on from a directory: so many times up, and then down along names. -/
structure Course where
  /-- How often the path goes up. -/
  up : Nat := 0
  /-- The names that it goes down along. -/
  down : List Text := []
deriving DecidableEq, Repr

/-- The course after one more component. A `..` takes back the last name, or goes up. -/
def Course.add (course : Course) : Component → Course
  | .root | .current => course
  | .parent =>
      if course.down = [] then { course with up := course.up + 1 }
      else { course with down := course.down.dropLast }
  | .name name => { course with down := course.down ++ [name] }

/-- The course of a path. -/
def course (path : Path) : Course :=
  path.components.foldl Course.add {}

theorem components_of_absolute {path : Path} (absolute : path.isAbsolute = true) :
    path.components = .root :: path.steps := by
  rw [components, if_pos absolute]
  rfl

theorem components_of_relative {path : Path} (relative : path.isAbsolute = false) :
    path.components = path.steps ∨ path.components = .current :: path.steps := by
  rw [components, relative, if_neg Bool.false_ne_true]
  split
  · exact Or.inr rfl
  · exact Or.inl rfl

/-- The course of a path is that of its steps. -/
theorem course_eq_foldl_steps (path : Path) : path.course = path.steps.foldl Course.add {} := by
  rw [course]
  cases absolute : path.isAbsolute with
  | true =>
      rw [components_of_absolute absolute]
      rfl
  | false =>
      rcases components_of_relative absolute with components_eq | components_eq <;>
        rw [components_eq]
      rfl

/-- A step goes up, or it goes down along a name. -/
theorem mem_steps {path : Path} {step : Component} (step_mem : step ∈ path.steps) :
    step = .parent ∨ ∃ name, IsName name ∧ step = .name name := by
  simp only [steps, List.mem_map, List.mem_filter, decide_eq_true_eq] at step_mem
  rcases step_mem with ⟨piece, ⟨⟨piece_mem, nonempty⟩, ne_current⟩, rfl⟩
  rw [Component.ofPiece]
  split
  · exact Or.inl rfl
  · next ne_parent =>
      have noSlash : '/' ∉ piece := Text.not_mem_of_mem_splitOn piece_mem
      exact Or.inr ⟨piece, ⟨nonempty, noSlash, ne_current, ne_parent⟩, rfl⟩

theorem eq_parent_or_name_of_mem_steps {path : Path} {step : Component}
    (step_mem : step ∈ path.steps) : step = .parent ∨ ∃ name, step = .name name := by
  rcases mem_steps step_mem with up | ⟨name, -, down⟩
  · exact Or.inl up
  · exact Or.inr ⟨name, down⟩

theorem isAbsolute_of_root_mem {path : Path} (root_mem : .root ∈ path.components) :
    path.isAbsolute = true := by
  by_contra relative
  rw [Bool.not_eq_true] at relative
  have root_mem_steps : .root ∈ path.steps := by
    rcases components_of_relative relative with components_eq | components_eq <;>
      simpa [components_eq] using root_mem
  rcases mem_steps root_mem_steps with up | ⟨name, -, down⟩
  · cases up
  · cases down

theorem steps_eq_map_pieces (path : Path) :
    path.steps = (path.pieces.filter (· ≠ ['.'])).map Component.ofPiece :=
  rfl

theorem pieces_append_slash (first second : Text) :
    pieces ⟨first ++ '/' :: second⟩ = pieces ⟨first⟩ ++ pieces ⟨second⟩ := by
  simp [pieces, Text.splitOn_append_cons]

theorem pieces_nil : pieces ⟨[]⟩ = [] := by
  simp [pieces, Text.splitOn]

theorem isAbsolute_join {first : Path} (absolute : first.isAbsolute = true) (second : Path) :
    (first.join second).isAbsolute = true := by
  have start : first.text.head? = some '/' := by simpa [isAbsolute] using absolute
  have nonempty : first.text ≠ [] := by
    intro empty
    simp [empty] at start
  rw [join]
  split
  · assumption
  · split <;> simp [isAbsolute, List.head?_append, start]

/-- A relative path that is joined to another one continues its pieces. -/
theorem pieces_join {first second : Path} (relative : second.isAbsolute = false) :
    (first.join second).pieces = first.pieces ++ second.pieces := by
  rw [join, relative, if_neg Bool.false_ne_true]
  split
  · next ends =>
      rw [Bool.or_eq_true, decide_eq_true_eq, decide_eq_true_eq] at ends
      rcases ends with empty | slash
      · rcases first with ⟨text⟩
        subst empty
        simp [pieces_nil]
      · rcases List.getLast?_eq_some_iff.mp slash with ⟨front, text_eq⟩
        have first_eq : first.pieces = pieces ⟨front⟩ := by
          have split_eq := pieces_append_slash front []
          rw [← text_eq, pieces_nil, List.append_nil] at split_eq
          exact split_eq
        rw [first_eq, ← pieces_append_slash, text_eq]
        simp
  · exact pieces_append_slash _ _

theorem steps_join {first second : Path} (relative : second.isAbsolute = false) :
    (first.join second).steps = first.steps ++ second.steps := by
  simp [steps_eq_map_pieces, pieces_join relative]

theorem steps_of_isName {name : Text} (isName : IsName name) : steps ⟨name⟩ = [.name name] := by
  simp [steps, Text.splitOn_of_not_mem isName.noSlash, isName.nonempty, isName.ne_current,
    Component.ofPiece, isName.ne_parent]

theorem isAbsolute_of_noSlash {name : Text} (noSlash : '/' ∉ name) :
    isAbsolute ⟨name⟩ = false := by
  cases name with
  | nil => rfl
  | cons c name =>
      rw [List.mem_cons, not_or] at noSlash
      simpa [isAbsolute] using Ne.symm noSlash.1

theorem ofComponents_concat (components : List Component) (component : Component) :
    ofComponents (components ++ [component]) =
      (ofComponents components).join ⟨component.text⟩ := by
  simp [ofComponents]

/-- A path put together from names below the root directory has these components. -/
theorem components_ofComponents {names : List Text} (areNames : ∀ name ∈ names, IsName name) :
    (ofComponents (.root :: names.map .name)).components = .root :: names.map .name := by
  have built : (ofComponents (.root :: names.map .name)).isAbsolute = true ∧
      (ofComponents (.root :: names.map .name)).steps = names.map .name := by
    induction names using List.reverseRecOn with
    | nil => exact ⟨rfl, by simp [ofComponents, empty, join, isAbsolute, Component.text, steps,
        Text.splitOn]⟩
    | append_singleton names name ih =>
        rcases ih fun other other_mem => areNames other (by simp [other_mem]) with
          ⟨absolute, steps_eq⟩
        have isName := areNames name (by simp)
        rw [List.map_append, List.map_singleton, ← List.cons_append, ofComponents_concat]
        refine ⟨isAbsolute_join absolute _, ?_⟩
        rw [Component.text, steps_join (isAbsolute_of_noSlash isName.noSlash), steps_eq,
          steps_of_isName isName]
  rw [components_of_absolute built.1, built.2]

theorem normalizeStep_name (names : List Text) (name : Text) :
    normalizeStep (.root :: names.map .name).reverse (.name name) =
      (.root :: (names ++ [name]).map .name).reverse := by
  simp [normalizeStep]

theorem normalizeStep_parent (names : List Text) (name : Text) :
    normalizeStep (.root :: (names ++ [name]).map .name).reverse .parent =
      (.root :: names.map .name).reverse := by
  simp [normalizeStep]

/-- Normalising the steps of a path below a directory goes up from the directory and then down, as
the course of the path says. -/
theorem foldl_normalizeStep {steps : List Component} (start : List Text)
    (areSteps : ∀ step ∈ steps, step = .parent ∨ ∃ name, step = .name name) :
    steps.foldl normalizeStep (.root :: start.map .name).reverse =
      (.root :: (start.take (start.length - (steps.foldl Course.add {}).up) ++
        (steps.foldl Course.add {}).down).map .name).reverse := by
  induction steps using List.reverseRecOn with
  | nil => simp
  | append_singleton steps step ih =>
      rw [List.foldl_append, List.foldl_append,
        ih fun other other_mem => areSteps other (by simp [other_mem])]
      generalize steps.foldl Course.add {} = course
      rcases course with ⟨up, down⟩
      rw [List.foldl_cons, List.foldl_nil, List.foldl_cons, List.foldl_nil]
      rcases areSteps step (by simp) with rfl | ⟨name, rfl⟩
      · induction down using List.reverseRecOn with
        | nil =>
            -- Nothing is left to take back: the step goes up from where the path began.
            rw [Course.add, if_pos rfl, List.append_nil, List.append_nil]
            rcases Nat.lt_or_ge up start.length with inside | above
            · have here : start.length - (up + 1) < start.length := by omega
              have taken : start.take (start.length - up) =
                  start.take (start.length - (up + 1)) ++ [start[start.length - (up + 1)]] := by
                rw [List.take_append_getElem]
                congr 1
                omega
              rw [taken, normalizeStep_parent]
            · have outside : start.length - up = 0 ∧ start.length - (up + 1) = 0 := by omega
              rw [outside.1, outside.2]
              rfl
        | append_singleton down name _ =>
            rw [Course.add, if_neg (by simp), ← List.append_assoc, normalizeStep_parent]
            simp
      · rw [normalizeStep_name, List.append_assoc]
        rfl

theorem foldl_normalizeStep_names (names : List Text) :
    (names.map .name).foldl normalizeStep [.root] = (.root :: names.map .name).reverse := by
  induction names using List.reverseRecOn with
  | nil => rfl
  | append_singleton names name ih =>
      calc ((names ++ [name]).map .name).foldl normalizeStep [.root]
          = normalizeStep ((names.map .name).foldl normalizeStep [.root]) (.name name) := by simp
        _ = _ := by rw [ih, normalizeStep_name]

theorem isName_of_mem_down {path : Path} {name : Text} (name_mem : name ∈ path.course.down) :
    IsName name := by
  rw [course_eq_foldl_steps] at name_mem
  have areSteps : ∀ step ∈ path.steps, step = .parent ∨ ∃ name, IsName name ∧ step = .name name :=
    fun _ => mem_steps
  generalize path.steps = steps at name_mem areSteps
  induction steps using List.reverseRecOn with
  | nil => simp at name_mem
  | append_singleton steps step ih =>
      have before := fun mem => ih mem fun other other_mem => areSteps other (by simp [other_mem])
      rw [List.foldl_append, List.foldl_cons, List.foldl_nil] at name_mem
      rcases areSteps step (by simp) with rfl | ⟨last, isName, rfl⟩
      · rw [Course.add] at name_mem
        split at name_mem
        · exact before name_mem
        · exact before (List.dropLast_subset _ name_mem)
      · rcases List.mem_append.mp name_mem with name_mem | name_mem
        · exact before name_mem
        · rwa [List.mem_singleton.mp name_mem]

/-- The steps of a path, taken from a directory, lead to the directory that the course names. -/
theorem components_ofComponents_steps {start : List Text}
    (areNames : ∀ name ∈ start, IsName name) (path : Path) :
    (ofComponents
        (path.steps.foldl normalizeStep (.root :: start.map .name).reverse).reverse).components =
      .root :: (start.take (start.length - path.course.up) ++ path.course.down).map .name := by
  rw [foldl_normalizeStep start fun _ => eq_parent_or_name_of_mem_steps, ← course_eq_foldl_steps,
    List.reverse_reverse]
  apply components_ofComponents
  intro name name_mem
  rcases List.mem_append.mp name_mem with name_mem | name_mem
  · exact areNames name (List.mem_of_mem_take name_mem)
  · exact isName_of_mem_down name_mem

/-- An absolute path is normalised to the names that it goes down along from the root directory. -/
theorem components_normalize {path : Path} (absolute : path.isAbsolute = true) :
    path.normalize.components = .root :: path.course.down.map .name := by
  rw [normalize, components_of_absolute absolute, List.foldl_cons]
  have noNames : ∀ name ∈ ([] : List Text), IsName name := by simp
  simpa [normalizeStep] using components_ofComponents_steps noNames path

theorem course_of_components {path : Path} {names : List Text}
    (components_eq : path.components = .root :: names.map .name) :
    path.course = { down := names } := by
  rw [course, components_eq, List.foldl_cons]
  clear components_eq
  induction names using List.reverseRecOn with
  | nil => rfl
  | append_singleton names name ih =>
      rw [List.map_append, List.foldl_append, ih]
      rfl

/-- Behind a directory a relative path goes up from it and then down. -/
theorem components_normalize_join {directory second : Path} {names : List Text}
    (areNames : ∀ name ∈ names, IsName name)
    (directory_eq : directory.components = .root :: names.map .name)
    (absolute : directory.isAbsolute = true) (relative : second.isAbsolute = false) :
    (directory.join second).normalize.components =
      .root :: (names.take (names.length - second.course.up) ++ second.course.down).map .name := by
  have steps_eq : directory.steps = names.map .name := by
    rw [components_of_absolute absolute] at directory_eq
    exact (List.cons.inj directory_eq).2
  rw [normalize, components_of_absolute (isAbsolute_join absolute second), steps_join relative,
    steps_eq, List.foldl_cons, List.foldl_append]
  change (ofComponents (second.steps.foldl normalizeStep
    ((names.map .name).foldl normalizeStep [.root])).reverse).components = _
  rw [foldl_normalizeStep_names]
  exact components_ofComponents_steps areNames second

end Path

end Pageweave

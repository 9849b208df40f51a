import Pageweave.Proofs.Tags

/-!
# Texts in pieces

A text is cut once into its tags and the literal texts between them. If the literals are quiet, the
pieces can be worked on one by one: a scan with quiet values then puts values in the places of tags
(`run_assemble`), and replacing a tag in the whole text replaces the pieces that are this tag
(`replaceAll_assemble`).
-/

namespace Pageweave

/-- A part of a text. -/
inductive Piece where
  /-- A text that is no tag. -/
  | literal (written : Text)
  /-- A tag. -/
  | tag (written : Text)
deriving DecidableEq

namespace Piece

/-- The text of a piece. -/
def text : Piece → Text
  | literal written | tag written => written

/-- The text that is made up of pieces. -/
def assemble (pieces : List Piece) : Text :=
  pieces.flatMap text

/-- The tag and the path of a piece that is an inclusion. -/
def inclusion? : Piece → Option (Text × Text)
  | literal _ => none
  | tag written =>
      match Directive.ofTag? written with
      | some (.inclusion _ path) => some (written, path)
      | _ => none

/-- A literal is quiet and a tag is one. -/
def IsPlain : Piece → Prop
  | literal written => written.IsQuiet
  | tag written => IsTag written

/-- A plain piece that is no inclusion. -/
def IsSettled (piece : Piece) : Prop :=
  piece.IsPlain ∧ piece.inclusion? = none

@[simp]
theorem assemble_nil : assemble [] = [] := rfl

@[simp]
theorem assemble_cons (piece : Piece) (pieces : List Piece) :
    assemble (piece :: pieces) = piece.text ++ assemble pieces := rfl

@[simp]
theorem assemble_append (pieces pieces' : List Piece) :
    assemble (pieces ++ pieces') = assemble pieces ++ assemble pieces' := by
  simp [assemble]

theorem head?_assemble_ne_colon {pieces : List Piece}
    (plain : ∀ piece ∈ pieces, piece.IsPlain) : (assemble pieces).head? ≠ some ':' := by
  induction pieces with
  | nil => simp
  | cons piece pieces ih =>
      rcases List.forall_mem_cons.mp plain with ⟨here, plain'⟩
      have rest := ih plain'
      cases piece with
      | tag written => exact Tag.head?_ne_colon (show IsTag written from here) _
      | literal written =>
          cases written with
          | nil => exact rest
          | cons c written => exact here.2

end Piece

/-- The tags of a text and the literal texts between them, each tag being the first one after what
was cut before. -/
def Tag.cut (text : Text) : List Piece :=
  match _h : Tag.first? text with
  | none => [.literal text]
  | some (before, tag, rest) => .literal before :: .tag tag :: cut rest
termination_by text.length
decreasing_by exact Tag.length_rest_lt_of_first? _h

namespace Tag

theorem isTag_of_first? {text before tag rest : Text}
    (found : first? text = some (before, tag, rest)) : IsTag tag := by
  rcases Text.search_eq_some found with ⟨place, -, here⟩
  exact isTag_of_atStart? here

theorem assemble_cut (text : Text) : Piece.assemble (cut text) = text := by
  fun_induction cut text with
  | case1 text absent => simp [Piece.text]
  | case2 text before tag rest found ih =>
      rw [Piece.assemble_cons, Piece.assemble_cons, ih, append_of_first? found]
      simp [Piece.text]

theorem isTag_of_mem_cut {text tag : Text} (tag_mem : .tag tag ∈ cut text) : IsTag tag := by
  fun_induction cut text with
  | case1 text absent => simp at tag_mem
  | case2 text before tag' rest found ih =>
      simp only [List.mem_cons, Piece.tag.injEq, reduceCtorEq, false_or] at tag_mem
      rcases tag_mem with rfl | tag_mem
      · exact isTag_of_first? found
      · exact ih tag_mem

end Tag

/-- The value that a key path leads to or that is reached last on the way. -/
def Resolution.value? : Resolution → Option Value
  | found value | partly value _ => some value
  | missing => none

/-- The value that a tag asks for, if it is a substitution and there is one. -/
def Context.valueFor? (context : Context) (tag : Text) : Option Value :=
  match Directive.ofTag? tag with
  | some (.substitution _ keyPath) => (context.resolve keyPath).value?
  | _ => none

/-- A value is put in place of a tag, or the tag stays. -/
theorem exists_or_stays (context : Context) (limit : Nat) (tag : Text) :
    (∃ limit' value, limit = limit' + 1 ∧ context.valueFor? tag = some value) ∨
      (limit = 0 ∨ context.valueFor? tag = none) := by
  cases limit with
  | zero => exact Or.inr (Or.inl rfl)
  | succ limit =>
      cases found : context.valueFor? tag with
      | none => exact Or.inr (Or.inr rfl)
      | some value => exact Or.inl ⟨limit, value, rfl, rfl⟩

namespace Piece

theorem eq_of_inclusion? {written : Text} {found : Text × Text}
    (inclusion : (tag written).inclusion? = some found) : ∃ path, found = (written, path) := by
  rw [inclusion?] at inclusion
  split at inclusion
  · cases inclusion
    exact ⟨_, rfl⟩
  · cases inclusion

/-- No value is put in place of an inclusion. -/
theorem valueFor?_of_inclusion {context : Context} {written path : Text}
    (inclusion : (tag written).inclusion? = some (written, path)) :
    context.valueFor? written = none := by
  rw [inclusion?] at inclusion
  split at inclusion
  · next found => rw [Context.valueFor?, found]
  · cases inclusion

/-- The pieces with the values of the first `limit` substitutions that can be made in place of
their tags. -/
def substitute (context : Context) : (limit : Nat) → List Piece → List Piece
  | _, [] => []
  | limit, literal written :: pieces => literal written :: substitute context limit pieces
  | limit, tag written :: pieces =>
      match limit, context.valueFor? written with
      | limit + 1, some value => literal value.interpolated :: substitute context limit pieces
      | limit, _ => tag written :: substitute context limit pieces

theorem substitute_tag_of_some {context : Context} {limit : Nat} {written : Text} {value : Value}
    (found : context.valueFor? written = some value) (pieces : List Piece) :
    substitute context (limit + 1) (tag written :: pieces) =
      literal value.interpolated :: substitute context limit pieces := by
  simp [substitute, found]

theorem substitute_tag_of_none {context : Context} {limit : Nat} {written : Text}
    (stays : limit = 0 ∨ context.valueFor? written = none) (pieces : List Piece) :
    substitute context limit (tag written :: pieces) =
      tag written :: substitute context limit pieces := by
  rcases stays with rfl | absent
  · simp [substitute]
  · simp [substitute, absent]

/-- The pieces with `replacement` in the places of a tag. -/
def fill (tag : Text) (replacement pieces : List Piece) : List Piece :=
  pieces.flatMap fun piece => if piece = .tag tag then replacement else [piece]

theorem fill_append (tag : Text) (replacement pieces pieces' : List Piece) :
    fill tag replacement (pieces ++ pieces') =
      fill tag replacement pieces ++ fill tag replacement pieces' :=
  List.flatMap_append

theorem fill_cons_self (tag : Text) (replacement pieces : List Piece) :
    fill tag replacement (.tag tag :: pieces) = replacement ++ fill tag replacement pieces := by
  simp [fill]

theorem fill_of_not_mem {tag : Text} {replacement pieces : List Piece}
    (absent : Piece.tag tag ∉ pieces) : fill tag replacement pieces = pieces := by
  induction pieces with
  | nil => rfl
  | cons piece pieces ih =>
      rw [List.mem_cons, not_or] at absent
      have rest := ih absent.2
      rw [fill] at rest ⊢
      rw [List.flatMap_cons, rest, if_neg (Ne.symm absent.1)]
      rfl

/-- Replacing a tag in a text of plain pieces replaces the pieces that are this tag. -/
theorem replaceAll_assemble {tag : Text} (isTag : IsTag tag) (replacement : List Piece)
    {pieces : List Piece} (plain : ∀ piece ∈ pieces, piece.IsPlain) :
    Text.replaceAll tag (assemble replacement) (assemble pieces) =
      assemble (fill tag replacement pieces) := by
  rw [Text.replaceAll, dif_neg (Tag.ne_nil isTag)]
  induction pieces with
  | nil => exact Text.replaceOccurrences_nil
  | cons piece pieces ih =>
      rcases List.forall_mem_cons.mp plain with ⟨here, plain'⟩
      rw [fill, List.flatMap_cons, assemble_append, ← fill, assemble_cons, ← ih plain']
      cases piece with
      | literal written =>
          rw [text, Tag.replaceOccurrences_quiet_append isTag here
            (head?_assemble_ne_colon plain')]
          simp [text]
      | tag written =>
          by_cases same : written = tag
          · subst same
            rw [text, Text.replaceOccurrences_append_of_start]
            simp
          · rw [text, Tag.replaceOccurrences_tag_append isTag here (Ne.symm same)]
            simp [same, text]

end Piece

namespace Scan

variable {context : Context} {limit : Nat} {text before tag rest : Text}

theorem run_of_none (absent : Tag.first? text = none) : run context limit text = ⟨[], text⟩ := by
  rw [run]
  split
  · rfl
  · next found => simp [absent] at found

/-- What a scan does with the first tag of a text. -/
theorem run_of_some (found : Tag.first? text = some (before, tag, rest)) :
    run context limit text =
      match Directive.ofTag? tag with
      | none => (run context limit rest).cons ⟨before, tag, .unknown⟩
      | some (.inclusion _ path) => (run context limit rest).cons ⟨before, tag, .inclusion path⟩
      | some (.substitution _ keyPath) =>
          match limit with
          | 0 => (run context 0 rest).cons ⟨before, tag, .refused keyPath⟩
          | limit + 1 =>
              match context.resolve keyPath with
              | .missing =>
                  (run context (limit + 1) rest).cons ⟨before, tag, .unresolved keyPath⟩
              | .found value =>
                  (run context limit (value.interpolated ++ rest)).cons
                    ⟨before, tag, .substituted keyPath value.interpolated none⟩
              | .partly value missing =>
                  (run context limit (value.interpolated ++ rest)).cons
                    ⟨before, tag, .substituted keyPath value.interpolated (some missing)⟩ := by
  rw [run.eq_def]
  split
  · next absent => simp [found] at absent
  · next before' tag' rest' found' =>
      rw [found] at found'
      cases found'
      rfl

@[simp]
theorem text_cons (step : Step) (scan : Scan) : (scan.cons step).text = step.text ++ scan.text := by
  simp [Scan.text, cons]

/-- The first tag of a text gives way to a value, or stays and is recorded if it is an inclusion. -/
theorem run_cases (context : Context) (limit : Nat)
    (found : Tag.first? text = some (before, tag, rest)) :
    (∃ limit' value keyPath missing, limit = limit' + 1 ∧ context.valueFor? tag = some value ∧
      run context limit text = (run context limit' (value.interpolated ++ rest)).cons
        ⟨before, tag, .substituted keyPath value.interpolated missing⟩) ∨
    (∃ action, (limit = 0 ∨ context.valueFor? tag = none) ∧
      run context limit text = (run context limit rest).cons ⟨before, tag, action⟩ ∧
      Step.text ⟨before, tag, action⟩ = before ++ tag ∧
      ∀ scan : Scan, (scan.cons ⟨before, tag, action⟩).inclusions =
        (Piece.tag tag).inclusion?.toList ++ scan.inclusions) := by
  rw [run_of_some found]
  simp only [Context.valueFor?, Piece.inclusion?]
  cases Directive.ofTag? tag with
  | none => exact Or.inr ⟨.unknown, Or.inr rfl, rfl, rfl, fun _ => rfl⟩
  | some directive =>
      cases directive with
      | inclusion _ path => exact Or.inr ⟨.inclusion path, Or.inr rfl, rfl, rfl, fun _ => rfl⟩
      | substitution _ keyPath =>
          cases limit with
          | zero => exact Or.inr ⟨.refused keyPath, Or.inl rfl, rfl, rfl, fun _ => rfl⟩
          | succ limit =>
              dsimp only
              cases context.resolve keyPath with
              | missing =>
                  exact Or.inr ⟨.unresolved keyPath, Or.inr rfl, rfl, rfl, fun _ => rfl⟩
              | found value => exact Or.inl ⟨limit, value, keyPath, none, rfl, rfl, rfl⟩
              | partly value missing =>
                  exact Or.inl ⟨limit, value, keyPath, some missing, rfl, rfl, rfl⟩

/-- Induction on the steps of a scan: the first tag of a text gives way to a value, or stays. -/
theorem run_induction (context : Context) {motive : Nat → Text → Prop}
    (done : ∀ limit text, Tag.first? text = none → motive limit text)
    (substituted : ∀ limit text before tag rest value keyPath missing,
      Tag.first? text = some (before, tag, rest) → context.valueFor? tag = some value →
      run context (limit + 1) text = (run context limit (value.interpolated ++ rest)).cons
        ⟨before, tag, .substituted keyPath value.interpolated missing⟩ →
      motive limit (value.interpolated ++ rest) → motive (limit + 1) text)
    (stays : ∀ limit text before tag rest action, Tag.first? text = some (before, tag, rest) →
      (limit = 0 ∨ context.valueFor? tag = none) →
      run context limit text = (run context limit rest).cons ⟨before, tag, action⟩ →
      Step.text ⟨before, tag, action⟩ = before ++ tag → motive limit rest → motive limit text)
    (limit : Nat) (text : Text) : motive limit text := by
  cases found : Tag.first? text with
  | none => exact done limit text found
  | some parts =>
      rcases parts with ⟨before, tag, rest⟩
      rcases run_cases context limit found with
        ⟨fewer, value, keyPath, missing, limit_eq, value_eq, run_eq⟩ |
        ⟨action, absent, run_eq, text_eq, -⟩
      · rw [limit_eq] at run_eq ⊢
        exact substituted fewer text before tag rest value keyPath missing found value_eq run_eq
          (run_induction context done substituted stays fewer (value.interpolated ++ rest))
      · exact stays limit text before tag rest action found absent run_eq text_eq
          (run_induction context done substituted stays limit rest)
termination_by (limit, text.length)
decreasing_by
  · exact Prod.Lex.left _ _ (by omega)
  · exact Prod.Lex.right _ (Tag.length_rest_lt_of_first? found)

theorem isTag_of_mem_steps {step : Step} (step_mem : step ∈ (run context limit text).steps) :
    IsTag step.tag := by
  fun_induction run context limit text
  case case1 => cases step_mem
  all_goals
    next ih =>
      rcases List.mem_cons.mp step_mem with rfl | step_mem
      · exact Tag.isTag_of_first? ‹_›
      · exact ih step_mem

theorem isTag_of_mem_inclusions {path : Text}
    (mem : (tag, path) ∈ (run context limit text).inclusions) : IsTag tag := by
  rcases List.mem_filterMap.mp mem with ⟨step, step_mem, step_eq⟩
  split at step_eq
  · cases step_eq
    exact isTag_of_mem_steps step_mem
  · cases step_eq

theorem inclusion?_of_mem_inclusions {path : Text}
    (mem : (tag, path) ∈ (run context limit text).inclusions) :
    (Piece.tag tag).inclusion? = some (tag, path) := by
  fun_induction run context limit text
  case case1 => cases mem
  case case3 meaning ih =>
    rcases List.mem_cons.mp mem with same | mem
    · cases same
      rw [Piece.inclusion?, meaning]
    · exact ih mem
  all_goals
    next ih => exact ih mem

/-- The values that a scan puts in the places of tags are quiet. -/
def HasQuietValues (scan : Scan) : Prop :=
  ∀ step ∈ scan.steps, ∀ keyPath value missing,
    step.action = .substituted keyPath value missing → value.IsQuiet

theorem HasQuietValues.of_cons {step : Step} {scan : Scan}
    (values : (scan.cons step).HasQuietValues) : scan.HasQuietValues :=
  fun other other_mem => values other (List.mem_cons_of_mem _ other_mem)

/-- A scan of plain pieces substitutes in each of them, provided the values are quiet. What was
passed since the last tag, or put in its place, is a quiet text in front of the pieces. -/
theorem run_assemble (context : Context) (limit : Nat) {pieces : List Piece}
    (plain : ∀ piece ∈ pieces, piece.IsPlain) {quiet : Text} (isQuiet : quiet.IsQuiet)
    (values : (run context limit (quiet ++ Piece.assemble pieces)).HasQuietValues) :
    (run context limit (quiet ++ Piece.assemble pieces)).text =
        quiet ++ Piece.assemble (Piece.substitute context limit pieces) ∧
      (run context limit (quiet ++ Piece.assemble pieces)).inclusions =
        (Piece.substitute context limit pieces).filterMap Piece.inclusion? ∧
      ∀ piece ∈ Piece.substitute context limit pieces, piece.IsPlain := by
  induction pieces generalizing quiet limit with
  | nil =>
      have absent : Tag.first? (quiet ++ Piece.assemble []) = none := by
        simpa using Tag.first?_eq_none isQuiet
      rw [run_of_none absent]
      simp [Scan.text, Scan.inclusions, Piece.substitute]
  | cons piece pieces ih =>
      rcases List.forall_mem_cons.mp plain with ⟨here, plain'⟩
      cases piece with
      | literal written =>
          have text_eq : quiet ++ Piece.assemble (.literal written :: pieces) =
              (quiet ++ written) ++ Piece.assemble pieces := by
            simp [Piece.text]
          rw [text_eq] at values ⊢
          rcases ih limit plain' (isQuiet.append here) values with
            ⟨text_eq', inclusions_eq, plain_out⟩
          rw [Piece.substitute]
          refine ⟨?_, inclusions_eq, List.forall_mem_cons.mpr ⟨here, plain_out⟩⟩
          rw [text_eq']
          simp [Piece.text]
      | tag written =>
          have found : Tag.first? (quiet ++ Piece.assemble (.tag written :: pieces)) =
              some (quiet, written, Piece.assemble pieces) :=
            Tag.first?_append isQuiet here _
          rcases run_cases context limit found with
            ⟨limit', value, keyPath, missing, rfl, value_eq, run_eq⟩ |
            ⟨action, stays, run_eq, step_text, step_inclusion⟩
          · rw [run_eq] at values ⊢
            have value_quiet : value.interpolated.IsQuiet :=
              values _ List.mem_cons_self keyPath value.interpolated missing rfl
            rcases ih limit' plain' value_quiet values.of_cons with
              ⟨text_eq, inclusions_eq, plain_out⟩
            rw [Piece.substitute_tag_of_some value_eq]
            refine ⟨?_, inclusions_eq, List.forall_mem_cons.mpr ⟨value_quiet, plain_out⟩⟩
            rw [text_cons, text_eq]
            rfl
          · rw [run_eq] at values ⊢
            rcases ih limit plain' Text.isQuiet_nil values.of_cons with
              ⟨text_eq, inclusions_eq, plain_out⟩
            rw [Piece.substitute_tag_of_none stays]
            rw [List.nil_append] at text_eq inclusions_eq
            refine ⟨?_, ?_, List.forall_mem_cons.mpr ⟨here, plain_out⟩⟩
            · rw [text_cons, step_text, text_eq]
              simp [Piece.text]
            · rw [step_inclusion, inclusions_eq]
              cases included : (Piece.tag written).inclusion? <;> simp [included]

end Scan

end Pageweave

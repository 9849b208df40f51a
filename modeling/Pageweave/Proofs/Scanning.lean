import Pageweave.Proofs.Occurrences

/-!
# What a scan does

What is done with a tag depends on the tag, on the context, and on whether one more substitution is
allowed (`Action.on`). Every step of a scan does just that; of the steps before it, it has to know
only how many substitutions they made (`Scan.Follows`).

A scan keeps nothing but the text that lies ahead of it. Its steps also tell what becomes of the
text as a whole: `Scan.edits` are the substitutions with the places where they are made, and made
in place one after the other they turn the text into the one that the scan leaves. `Scan.Balances`
says what the text, the lists and the notices of a scan have to do with each other.
-/

namespace Pageweave

/-- The substitution that a tag is. -/
def Tag.substitution? (tag : Text) : Option Directive :=
  match Directive.ofTag? tag with
  | some (.substitution _ keyPath) => some (.substitution tag keyPath)
  | _ => none

/-- Whether a tag is a substitution. -/
def Tag.asksForValue (tag : Text) : Bool :=
  (substitution? tag).isSome

/-! ## One step -/

namespace Action

/-- What is done with a tag, if one more substitution is `allowed` or not. -/
def on (context : Context) (allowed : Bool) (tag : Text) : Action :=
  match Directive.ofTag? tag with
  | none => .unknown
  | some (.inclusion _ path) => .inclusion path
  | some (.substitution _ keyPath) =>
      if allowed then
        match context.resolve keyPath with
        | .missing => .unresolved keyPath
        | .found value => .substituted keyPath value.interpolated none
        | .partly value missing => .substituted keyPath value.interpolated (some missing)
      else .refused keyPath

/-- An action is what is done with a tag, where one more substitution is or is not `allowed`. -/
inductive IsDue (context : Context) (allowed : Prop) (tag : Text) : Action → Prop
  | unknown (meaning : Directive.ofTag? tag = none) : IsDue context allowed tag .unknown
  | inclusion {written path : Text}
      (meaning : Directive.ofTag? tag = some (.inclusion written path)) :
      IsDue context allowed tag (.inclusion path)
  | refused {written keyPath : Text}
      (meaning : Directive.ofTag? tag = some (.substitution written keyPath))
      (forbidden : ¬allowed) : IsDue context allowed tag (.refused keyPath)
  | unresolved {written keyPath : Text}
      (meaning : Directive.ofTag? tag = some (.substitution written keyPath))
      (isAllowed : allowed) (resolved : context.resolve keyPath = .missing) :
      IsDue context allowed tag (.unresolved keyPath)
  | found {written keyPath : Text} {value : Value}
      (meaning : Directive.ofTag? tag = some (.substitution written keyPath))
      (isAllowed : allowed) (resolved : context.resolve keyPath = .found value) :
      IsDue context allowed tag (.substituted keyPath value.interpolated none)
  | partly {written keyPath missing : Text} {value : Value}
      (meaning : Directive.ofTag? tag = some (.substitution written keyPath))
      (isAllowed : allowed) (resolved : context.resolve keyPath = .partly value missing) :
      IsDue context allowed tag (.substituted keyPath value.interpolated (some missing))

theorem isDue_on (context : Context) (allowed : Prop) [Decidable allowed] (tag : Text) :
    IsDue context allowed tag (on context (decide allowed) tag) := by
  rw [on]
  cases meaning : Directive.ofTag? tag with
  | none => exact .unknown meaning
  | some directive =>
      cases directive with
      | inclusion written path => exact .inclusion meaning
      | substitution written keyPath =>
          dsimp only
          by_cases isAllowed : allowed
          · rw [if_pos (decide_eq_true isAllowed)]
            cases resolved : context.resolve keyPath with
            | missing => exact .unresolved meaning isAllowed resolved
            | found value => exact .found meaning isAllowed resolved
            | partly value missing => exact .partly meaning isAllowed resolved
          · rw [if_neg (by simp [isAllowed])]
            exact .refused meaning isAllowed

/-- The text that takes the place of the tag, if the tag gives way. -/
def value? : Action → Option Text
  | substituted _ value _ => some value
  | unresolved _ | refused _ | inclusion _ | unknown => none

/-- The number of substitutions that an action makes. -/
def cost (action : Action) : Nat :=
  if action.value?.isSome then 1 else 0

theorem cost_of_none {action : Action} (stays : action.value? = none) : action.cost = 0 := by
  simp [cost, stays]

theorem cost_of_some {action : Action} {value : Text} (gives : action.value? = some value) :
    action.cost = 1 := by
  simp [cost, gives]

theorem length_toList_value? {β : Type} (action : Action) (f : Text → β) :
    (action.value?.map f).toList.length = action.cost := by
  rw [cost]
  cases action.value? <;> rfl

/-- A tag gives way to the value it asks for, if that is allowed. -/
theorem IsDue.value?_eq {context : Context} {allowed : Prop} [Decidable allowed] {tag : Text}
    {action : Action} (due : IsDue context allowed tag action) :
    action.value? =
      if allowed then (context.valueFor? tag).map Value.interpolated else none := by
  cases due <;> simp [value?, Context.valueFor?, Resolution.value?, *]

theorem IsDue.allowed_of_value? {context : Context} {allowed : Prop} [Decidable allowed]
    {tag value : Text} {action : Action} (due : IsDue context allowed tag action)
    (gives : action.value? = some value) : allowed := by
  by_contra forbidden
  rw [due.value?_eq, if_neg forbidden] at gives
  cases gives

end Action

namespace Scan

variable {context : Context} {limit : Nat} {text : Text}

/-- A scan goes on at the start of what takes the place of the first tag, or behind the tag. -/
theorem run_of_first {before tag rest : Text}
    (found : Tag.first? text = some (before, tag, rest)) {action : Action}
    (due : action = Action.on context (0 < limit) tag) :
    run context limit text =
      (run context (limit - action.cost) (action.value?.getD [] ++ rest)).cons
        ⟨before, tag, action⟩ := by
  rw [run_of_some found, due, Action.on]
  cases Directive.ofTag? tag with
  | none => rfl
  | some directive =>
      cases directive with
      | inclusion written path => rfl
      | substitution written keyPath =>
          cases limit with
          | zero => rfl
          | succ limit =>
              dsimp only
              cases context.resolve keyPath <;> rfl

/-- Induction on the steps of a scan. -/
theorem step_induction (context : Context) {motive : Nat → Text → Prop}
    (done : ∀ limit text, Tag.first? text = none → motive limit text)
    (next : ∀ limit text before tag rest action,
      Tag.first? text = some (before, tag, rest) → action = Action.on context (0 < limit) tag →
      run context limit text =
        (run context (limit - action.cost) (action.value?.getD [] ++ rest)).cons
          ⟨before, tag, action⟩ →
      motive (limit - action.cost) (action.value?.getD [] ++ rest) → motive limit text)
    (limit : Nat) (text : Text) : motive limit text := by
  cases found : Tag.first? text with
  | none => exact done limit text found
  | some parts =>
      rcases parts with ⟨before, tag, rest⟩
      apply next limit text before tag rest _ found rfl (run_of_first found rfl)
      exact step_induction context done next _ _
termination_by (limit, text.length)
decreasing_by
  cases gives : (Action.on context (0 < limit) tag).value? with
  | none =>
      rw [Action.cost_of_none gives]
      exact Prod.Lex.right _ (Tag.length_rest_lt_of_first? found)
  | some value =>
      have positive := (Action.isDue_on context (0 < limit) tag).allowed_of_value? gives
      rw [Action.cost_of_some gives]
      exact Prod.Lex.left _ _ (by omega)

end Scan

/-! ## The steps of a scan -/

namespace Step

/-- Whether the tag stays in the text. -/
def stays (step : Step) : Bool :=
  step.action.value?.isNone

theorem text_eq (step : Step) :
    step.text = step.before ++ if step.stays then step.tag else [] := by
  rw [Step.text, stays]
  cases step.action <;> simp [Action.value?]

end Step

namespace Scan

/-- What is done with each tag is due, when a number of substitutions have been made before. -/
inductive Follows (context : Context) (limit : Nat) : (made : Nat) → List Step → Prop
  | nil {made : Nat} : Follows context limit made []
  | cons {made : Nat} {before tag : Text} {action : Action} {steps : List Step}
      (due : Action.IsDue context (made < limit) tag action)
      (rest : Follows context limit (made + action.cost) steps) :
      Follows context limit made (⟨before, tag, action⟩ :: steps)

theorem follows_run (context : Context) (limit : Nat) (text : Text) :
    Follows context limit 0 (run context limit text).steps := by
  suffices follows : ∀ left text made, made + left = limit →
      Follows context limit made (run context left text).steps from
    follows limit text 0 (Nat.zero_add limit)
  intro left text
  induction left, text using step_induction context with
  | done left text absent =>
      intro made total
      rw [run_of_none absent]
      exact .nil
  | next left text before tag rest action found due run_eq ih =>
      intro made total
      have same : decide (made < limit) = decide (0 < left) := by
        rw [decide_eq_decide]
        omega
      have isDue := Action.isDue_on context (made < limit) tag
      rw [same, ← due] at isDue
      rw [run_eq]
      refine .cons isDue (ih _ ?_)
      cases gives : action.value? with
      | none => simp [Action.cost_of_none gives, total]
      | some value =>
          have fewer := isDue.allowed_of_value? gives
          rw [Action.cost_of_some gives]
          omega

end Scan

/-! ## Places -/

/-- A substitution in a text. -/
structure Edit where
  /-- The text before the tag. -/
  front : Text
  /-- The tag. -/
  tag : Text
  /-- The text put in its place. -/
  value : Text
deriving DecidableEq

/-- The text with the substitution made, if the tag stands at that place. -/
def Edit.make? (edit : Edit) (text : Text) : Option Text :=
  (Text.after? (edit.front ++ edit.tag) text).map fun rest => edit.front ++ edit.value ++ rest

theorem Edit.make?_append (edit : Edit) (rest : Text) :
    edit.make? (edit.front ++ edit.tag ++ rest) = some (edit.front ++ edit.value ++ rest) := by
  rw [make?, Text.after?_eq_some_iff.mpr rfl, Option.map_some]

/-- A tag that a scan comes to. -/
structure Meeting where
  /-- The text before the tag, with the substitutions made so far. -/
  front : Text
  /-- The number of substitutions made so far. -/
  made : Nat
  /-- The tag. -/
  tag : Text
deriving DecidableEq

namespace Meeting

/-- The substitution that is due. -/
def edit? (context : Context) (limit : Nat) (meeting : Meeting) : Option Edit :=
  if meeting.made < limit then
    (context.valueFor? meeting.tag).map fun value =>
      ⟨meeting.front, meeting.tag, value.interpolated⟩
  else none

/-- The notice that is due, unless it is that the limit has been reached. -/
def notice? (context : Context) (limit : Nat) (meeting : Meeting) : Option Notice :=
  match Directive.ofTag? meeting.tag with
  | none => some (.unknownDirective meeting.tag)
  | some (.inclusion _ _) => none
  | some (.substitution _ keyPath) =>
      if meeting.made < limit then
        match context.resolve keyPath with
        | .missing => some (.missingValue meeting.tag)
        | .partly _ missing => some (.partialValue meeting.tag missing)
        | .found _ => none
      else none

/-- Whether a substitution is asked for when no more are allowed. -/
def isBeyond (limit : Nat) (meeting : Meeting) : Bool :=
  limit ≤ meeting.made && Tag.asksForValue meeting.tag

theorem edit?_of_due {context : Context} {limit : Nat} {meeting : Meeting} {action : Action}
    (due : Action.IsDue context (meeting.made < limit) meeting.tag action) :
    meeting.edit? context limit = action.value?.map (Edit.mk meeting.front meeting.tag) := by
  rw [edit?, due.value?_eq]
  split
  · rw [Option.map_map]
    rfl
  · rfl

end Meeting

namespace Scan

/-- The tags that steps come to, given the text and the number of substitutions before them. -/
def meetingsFrom (front : Text) (made : Nat) : List Step → List Meeting
  | [] => []
  | step :: steps =>
      ⟨front ++ step.before, made, step.tag⟩ ::
        meetingsFrom (front ++ step.text) (made + step.action.cost) steps

/-- The tags that a scan comes to, in their order. -/
def meetings (scan : Scan) : List Meeting :=
  meetingsFrom [] 0 scan.steps

/-- The substitutions that steps make, given the text before them. -/
def editsFrom (front : Text) : List Step → List Edit
  | [] => []
  | step :: steps =>
      (step.action.value?.map (Edit.mk (front ++ step.before) step.tag)).toList ++
        editsFrom (front ++ step.text) steps

/-- The substitutions that a scan makes, in their order. -/
def edits (scan : Scan) : List Edit :=
  editsFrom [] scan.steps

/-- The tags that stay, in their order. -/
def kept (scan : Scan) : List Text :=
  (scan.steps.filter Step.stays).map Step.tag

@[simp]
theorem kept_cons (step : Step) (scan : Scan) :
    (scan.cons step).kept = (if step.stays then [step.tag] else []) ++ scan.kept := by
  rw [kept, cons, List.filter_cons]
  split <;> rfl

/-- The text that a scan leaves, in pieces. -/
def pieces (scan : Scan) : List Piece :=
  scan.steps.flatMap (fun step =>
    .literal step.before :: if step.stays then [.tag step.tag] else []) ++ [.literal scan.tail]

theorem assemble_pieces (scan : Scan) : Piece.assemble scan.pieces = scan.text := by
  rw [pieces, Scan.text, Piece.assemble_append]
  induction scan.steps with
  | nil => simp [Piece.text]
  | cons step steps ih =>
      rw [List.flatMap_cons, List.flatMap_cons, Piece.assemble_append, List.append_assoc, ih,
        Step.text_eq]
      cases step.stays <;> simp [Piece.text]

theorem tags_pieces (scan : Scan) : Piece.tags scan.pieces = scan.kept := by
  rw [pieces, kept]
  induction scan.steps with
  | nil => rfl
  | cons step steps ih =>
      rw [List.flatMap_cons, List.filter_cons, List.append_assoc]
      cases step.stays <;> simp [ih]

section Follows

variable {context : Context} {limit made : Nat} {steps : List Step}

theorem editsFrom_eq (follows : Follows context limit made steps) (front : Text) :
    editsFrom front steps =
      (meetingsFrom front made steps).filterMap (Meeting.edit? context limit) := by
  induction follows generalizing front with
  | nil => rfl
  | cons due rest ih =>
      rw [editsFrom, meetingsFrom, List.filterMap_cons, ih, Meeting.edit?_of_due due]
      cases Action.value? _ <;> rfl

theorem length_editsFrom_le (follows : Follows context limit made steps) (fits : made ≤ limit)
    (front : Text) : made + (editsFrom front steps).length ≤ limit := by
  induction follows generalizing front with
  | nil => exact fits
  | @cons made before tag action steps due rest ih =>
      have fits' : made + action.cost ≤ limit := by
        cases gives : action.value? with
        | none => rwa [Action.cost_of_none gives]
        | some value =>
            rw [Action.cost_of_some gives]
            exact due.allowed_of_value? gives
      rw [editsFrom, List.length_append, Action.length_toList_value?, ← Nat.add_assoc]
      exact ih fits' _

theorem unresolved_eq (follows : Follows context limit made steps) (tail : Text) :
    unresolved ⟨steps, tail⟩ = (kept ⟨steps, tail⟩).filter Tag.asksForValue := by
  induction follows with
  | nil => rfl
  | cons due rest ih =>
      rw [unresolved, kept] at ih ⊢
      rw [List.filterMap_cons, List.filter_cons, ih]
      cases due <;> simp [Step.stays, Action.value?, Tag.asksForValue, Tag.substitution?, *]

theorem inclusions_eq (follows : Follows context limit made steps) (tail : Text) :
    inclusions ⟨steps, tail⟩ =
      (kept ⟨steps, tail⟩).filterMap fun tag => (Piece.tag tag).inclusion? := by
  induction follows with
  | nil => rfl
  | cons due rest ih =>
      rw [inclusions, kept] at ih ⊢
      rw [List.filterMap_cons, List.filter_cons, ih]
      cases due <;> simp [Step.stays, Action.value?, Piece.inclusion?, *]

theorem unknown_eq (follows : Follows context limit made steps) (tail : Text) :
    unknown ⟨steps, tail⟩ =
      (kept ⟨steps, tail⟩).filter fun tag => Directive.ofTag? tag = none := by
  induction follows with
  | nil => rfl
  | cons due rest ih =>
      rw [unknown, kept] at ih ⊢
      rw [List.filterMap_cons, List.filter_cons, ih]
      cases due <;> simp [Step.stays, Action.value?, *]

/-- A tag is a substitution, an inclusion or without a meaning, and only one of these. -/
theorem length_eq_of_tags (tags : List Text) :
    tags.length = (tags.filter Tag.asksForValue).length +
      (tags.filterMap fun tag => (Piece.tag tag).inclusion?).length +
      (tags.filter fun tag => Directive.ofTag? tag = none).length := by
  induction tags with
  | nil => rfl
  | cons tag tags ih =>
      rw [List.length_cons, ih, List.filter_cons, List.filterMap_cons, List.filter_cons,
        Tag.asksForValue, Tag.substitution?, Piece.inclusion?]
      cases Directive.ofTag? tag with
      | none => simp; omega
      | some directive => cases directive <;> simp <;> omega

theorem length_substitutions (steps : List Step) (tail front : Text) :
    (substitutions ⟨steps, tail⟩).length =
      (editsFrom front steps).length + (unresolved ⟨steps, tail⟩).length := by
  induction steps generalizing front with
  | nil => rfl
  | cons step steps ih =>
      rcases step with ⟨before, tag, action⟩
      rw [substitutions, unresolved] at ih ⊢
      rw [editsFrom, List.filterMap_cons, List.filterMap_cons, List.length_append]
      have later := ih (front ++ Step.text ⟨before, tag, action⟩)
      cases action <;> simp [Action.value?] at later ⊢ <;> omega

theorem notices_eq (follows : Follows context limit made steps) (front : Text) (reported : Bool) :
    (noticesOf limit reported steps).filter (· ≠ .substitutionLimit limit) =
      (meetingsFrom front made steps).filterMap (Meeting.notice? context limit) := by
  simp only [ne_eq, decide_not]
  induction follows generalizing front reported with
  | nil => rfl
  | @cons made before tag action steps due rest ih =>
      have later := ih (front ++ Step.text ⟨before, tag, action⟩)
      rw [noticesOf, meetingsFrom, List.filterMap_cons, Meeting.notice?]
      cases due with
      | unknown meaning => simp [meaning, later]
      | inclusion meaning => simp [meaning, later]
      | refused meaning forbidden => cases reported <;> simp [meaning, forbidden, later]
      | unresolved meaning isAllowed resolved => simp [meaning, isAllowed, resolved, later]
      | found meaning isAllowed resolved => simp [meaning, isAllowed, resolved, later]
      | partly meaning isAllowed resolved => simp [meaning, isAllowed, resolved, later]

theorem count_substitutionLimit (follows : Follows context limit made steps) (front : Text)
    (reported : Bool) : (noticesOf limit reported steps).count (.substitutionLimit limit) =
      if !reported && (meetingsFrom front made steps).any (Meeting.isBeyond limit) then 1
      else 0 := by
  induction follows generalizing front reported with
  | nil => simp [noticesOf, meetingsFrom]
  | @cons made before tag action steps due rest ih =>
      have later := ih (front ++ Step.text ⟨before, tag, action⟩)
      rw [noticesOf, meetingsFrom, List.any_cons, Meeting.isBeyond, Tag.asksForValue,
        Tag.substitution?]
      cases due with
      | unknown meaning => simp [meaning, later]
      | inclusion meaning => simp [meaning, later]
      | refused meaning forbidden =>
          have reached := Nat.le_of_not_lt forbidden
          cases reported <;> simp [meaning, reached, later]
      | unresolved meaning isAllowed resolved =>
          simp [meaning, Nat.not_le_of_lt isAllowed, later]
      | found meaning isAllowed resolved => simp [meaning, Nat.not_le_of_lt isAllowed, later]
      | partly meaning isAllowed resolved => simp [meaning, Nat.not_le_of_lt isAllowed, later]

end Follows

/-- Made in place one after the other, the substitutions of a scan turn the text into the one that
the scan leaves. -/
theorem foldlM_edits (context : Context) (limit : Nat) (text : Text) :
    (run context limit text).edits.foldlM (fun buffer edit => edit.make? buffer) text =
      some (run context limit text).text := by
  suffices edited : ∀ front,
      (editsFrom front (run context limit text).steps).foldlM
          (fun buffer edit => edit.make? buffer) (front ++ text) =
        some (front ++ (run context limit text).text) from
    edited []
  induction limit, text using step_induction context with
  | done limit text absent =>
      intro front
      rw [run_of_none absent]
      rfl
  | next limit text before tag rest action found due run_eq ih =>
      intro front
      have text_eq := Tag.append_of_first? found
      rw [run_eq, text_cons, text_eq]
      change ((action.value?.map (Edit.mk (front ++ before) tag)).toList ++
        editsFrom (front ++ Step.text ⟨before, tag, action⟩) _).foldlM _ _ = _
      rw [List.foldlM_append, Step.text_eq, Step.stays]
      cases gives : action.value? with
      | none =>
          have later := ih (front ++ (before ++ tag))
          rw [gives, Option.getD_none, List.nil_append] at later
          simpa using later
      | some value =>
          have later := ih (front ++ before)
          rw [gives, Option.getD_some] at later
          have made := Edit.make?_append ⟨front ++ before, tag, value⟩ rest
          simp at later made
          simp [made, later]

/-- The books of a scan are in order. -/
structure Balances (context : Context) (limit : Nat) (text : Text) (scan : Scan) : Prop where
  /-- No more substitutions are made than are allowed. -/
  allowed : scan.edits.length ≤ limit
  /-- They are those that are due. -/
  due : scan.edits = scan.meetings.filterMap (Meeting.edit? context limit)
  /-- They turn the text into the one that the scan leaves. -/
  edited : scan.edits.foldlM (fun buffer edit => edit.make? buffer) text = some scan.text
  /-- The substitutions met are those that are made and those that are not. -/
  substitutions : scan.substitutions.length = scan.edits.length + scan.unresolved.length
  /-- Each tag that stays has a place of its own in the text. -/
  places : ∃ pieces, Piece.assemble pieces = scan.text ∧ Piece.tags pieces = scan.kept
  /-- The substitutions among them are recorded. -/
  unresolved : scan.unresolved = scan.kept.filter Tag.asksForValue
  /-- The inclusions among them are recorded. -/
  inclusions : scan.inclusions = scan.kept.filterMap fun tag => (Piece.tag tag).inclusion?
  /-- The tags without a meaning among them are recorded. -/
  unknown : scan.unknown = scan.kept.filter fun tag => Directive.ofTag? tag = none
  /-- Every tag that stays is recorded, and only once. -/
  recorded : scan.kept.length =
    scan.unresolved.length + scan.inclusions.length + scan.unknown.length
  /-- The notices are those that are due. -/
  notices : (scan.notices limit).filter (· ≠ .substitutionLimit limit) =
    scan.meetings.filterMap (Meeting.notice? context limit)
  /-- That the limit is reached is reported once, or not at all. -/
  limitReported : (scan.notices limit).count (.substitutionLimit limit) =
    if scan.meetings.any (Meeting.isBeyond limit) then 1 else 0

theorem balances_run (context : Context) (limit : Nat) (text : Text) :
    Balances context limit text (run context limit text) := by
  have follows := follows_run context limit text
  have unresolved_eq' := unresolved_eq follows (run context limit text).tail
  have inclusions_eq' := inclusions_eq follows (run context limit text).tail
  have unknown_eq' := unknown_eq follows (run context limit text).tail
  refine ⟨?_, editsFrom_eq follows [], foldlM_edits context limit text,
    length_substitutions _ _ _, ⟨_, assemble_pieces _, tags_pieces _⟩, unresolved_eq',
    inclusions_eq', unknown_eq', ?_, notices_eq follows [] false, ?_⟩
  · have fits := length_editsFrom_le follows (Nat.zero_le limit) []
    rwa [Nat.zero_add] at fits
  · rw [unresolved_eq', inclusions_eq', unknown_eq']
    exact length_eq_of_tags _
  · have counted := count_substitutionLimit follows [] false
    rwa [Bool.not_false, Bool.true_and] at counted

end Scan

end Pageweave

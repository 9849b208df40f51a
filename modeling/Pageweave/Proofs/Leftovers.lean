import Mathlib
import Pageweave.Engine
import Pageweave.Files.Flat
import Pageweave.Proofs.Loading
import Pageweave.Proofs.Pieces
import Pageweave.Proofs.Seams

/-!
# What a load leaves of directives

A scan goes on at the start of a value, an included view is put in the place of its tag, and the
expansions of files are put one behind the other. None of this looks at what lies before the place,
so a tag may come about where a part begins or where an included view ends. `Patchwork.load` is a
load that keeps these seams. In what it comes to no seam goes through, there is no inclusion, and
each substitution was recorded as unresolved by the scan of a file (`tags_of_loadView`).
-/

namespace Pageweave

open LoadM

/-! ## Scanning -/

/-- What a step leaves with `rest` behind it. A seam lies where a value begins. -/
def Step.sewOn (step : Step) (rest : Patchwork) : Patchwork :=
  match step.action with
  | .substituted _ _ _ => Patchwork.sew (Patchwork.ofText step.text) rest
  | _ => Patchwork.ofText step.text ++ rest

@[simp]
theorem Step.text_sewOn (step : Step) (rest : Patchwork) :
    (step.sewOn rest).text = step.text ++ rest.text := by
  rw [sewOn]
  split <;> simp

namespace Scan

/-- The text that a scan leaves, with its seams. -/
def patchwork (scan : Scan) : Patchwork :=
  scan.steps.foldr Step.sewOn (Patchwork.ofText scan.tail)

theorem patchwork_cons (step : Step) (scan : Scan) :
    (scan.cons step).patchwork = step.sewOn scan.patchwork := rfl

@[simp]
theorem text_patchwork (scan : Scan) : scan.patchwork.text = scan.text := by
  rcases scan with ⟨steps, tail⟩
  induction steps with
  | nil => simp [patchwork, text]
  | cons step steps ih =>
      have scan_eq : (⟨step :: steps, tail⟩ : Scan) = Scan.cons step ⟨steps, tail⟩ := rfl
      rw [scan_eq, patchwork_cons, Step.text_sewOn, ih, text_cons]

/-- A tag has no meaning, or it was recorded as an inclusion or as unresolved. -/
def Records (scan : Scan) (tag : Text) : Prop :=
  match Directive.ofTag? tag with
  | none => True
  | some (.inclusion _ path) => (tag, path) ∈ scan.inclusions
  | some (.substitution _ _) => tag ∈ scan.unresolved

theorem Records.cons {scan : Scan} {tag : Text} (records : scan.Records tag) (step : Step) :
    (scan.cons step).Records tag := by
  rw [Records] at records ⊢
  split at records
  · trivial
  · exact ((List.sublist_cons_self step scan.steps).filterMap _).subset records
  · exact ((List.sublist_cons_self step scan.steps).filterMap _).subset records

/-- A scan of a text records the tags that it leaves, and what lies before the first seam is the
start of the text. -/
structure Accounts (scan : Scan) (written : Text) : Prop where
  records : ∀ tag, IsTag tag → scan.patchwork.Bears tag → scan.Records tag
  opening : ∀ patch back, scan.patchwork = patch ++ back → (∀ stitch ∈ patch, stitch.seam = false) →
    Patchwork.text patch <+: written

variable {scan : Scan} {step : Step} {written before tag rest : Text}

/-- No tag begins before the first one. -/
theorem not_prefix_before {other place : Text} (isTag : IsTag other)
    (found : Tag.first? written = some (before, tag, rest)) (place_suffix : place <:+ before)
    (nonempty : place ≠ []) : ¬other <+: place ++ (tag ++ rest) := by
  rintro ⟨back, here⟩
  rw [Tag.append_of_first? found, Tag.first?, List.append_assoc] at found
  have nothing := Text.none_before_search found place_suffix nonempty
  rw [← here, Tag.atStart?_append isTag] at nothing
  cases nothing

theorem not_infix_before {other : Text} (isTag : IsTag other)
    (found : Tag.first? written = some (before, tag, rest)) : ¬other <:+: before := by
  rintro ⟨front, back, rfl⟩
  have place_suffix : other ++ back <:+ front ++ other ++ back := ⟨front, by simp⟩
  apply not_prefix_before isTag found place_suffix (by simp [Tag.ne_nil isTag])
  exact ⟨back ++ (tag ++ rest), by simp⟩

/-- A tag that begins before the end of the first one is the first one. -/
theorem eq_of_prefix_place {other front place : Text} (isTag : IsTag other)
    (found : Tag.first? written = some (before, tag, rest))
    (place_eq : before ++ tag = front ++ place)
    (nonempty : place ≠ []) (here : other <+: place ++ rest) : other = tag := by
  by_contra differs
  have isTag' : IsTag tag := Tag.isTag_of_first? found
  have notWithin : ∀ place, place <:+ tag → place ≠ [] → ¬other <+: place ++ rest :=
    fun place => Tag.not_prefix_of_suffix isTag isTag' differs
  rcases List.append_eq_append_iff.mp place_eq with ⟨skipped, -, tag_eq⟩ | ⟨skipped, rfl, rfl⟩
  · exact notWithin place ⟨skipped, tag_eq.symm⟩ nonempty here
  · by_cases inside : skipped = []
    · subst inside
      exact notWithin tag List.suffix_rfl nonempty here
    · rw [List.append_assoc] at here
      exact not_prefix_before isTag found ⟨front, rfl⟩ inside here

theorem accounts_of_none (absent : Tag.first? written = none) : Accounts ⟨[], written⟩ written where
  records := by
    intro tag isTag bears
    have tag_infix := bears.infix_text
    rw [text_patchwork] at tag_infix
    rcases tag_infix with ⟨front, back, written_eq⟩
    have nothing := Text.none_of_search absent ⟨front, by simpa [text] using written_eq⟩
    rw [Tag.atStart?_append isTag] at nothing
    cases nothing
  opening := by
    intro patch back patchwork_eq _
    refine ⟨Patchwork.text back, ?_⟩
    rw [← Patchwork.text_append, ← patchwork_eq, text_patchwork]
    simp [text]

/-- A tag that stays is recorded by its step, and the scan goes on behind it. -/
theorem Accounts.of_stays (accounts : scan.Accounts rest)
    (found : Tag.first? written = some (before, tag, rest))
    (stays : ∀ work, step.sewOn work = Patchwork.ofText (before ++ tag) ++ work)
    (records : (scan.cons step).Records tag) : (scan.cons step).Accounts written where
  records := by
    intro other isTag bears
    by_cases same : other = tag
    · exact same ▸ records
    rw [patchwork_cons, stays] at bears
    rcases Patchwork.bears_append_cases bears with here | there |
      ⟨front, start, later, back, first_eq, later_eq, nonempty, -, rfl, whole⟩
    · rcases here.infix_text with ⟨front, back, text_eq⟩
      rw [Patchwork.text_ofText, List.append_assoc] at text_eq
      refine absurd (eq_of_prefix_place isTag found text_eq.symm ?_ ?_) same
      · simp [Tag.ne_nil isTag]
      · exact ⟨back ++ rest, by simp⟩
    · exact (accounts.records other isTag there).cons step
    · rcases accounts.opening later back later_eq whole with ⟨behind, rfl⟩
      have text_eq := congrArg Patchwork.text first_eq
      rw [Patchwork.text_ofText, Patchwork.text_append] at text_eq
      refine absurd (eq_of_prefix_place isTag found text_eq ?_ ?_) same
      · simpa [Patchwork.text] using nonempty
      · exact ⟨behind, by simp⟩
  opening := by
    intro patch back patchwork_eq whole
    rw [patchwork_cons, stays] at patchwork_eq
    rw [Tag.append_of_first? found]
    rcases List.append_eq_append_iff.mp patchwork_eq with
      ⟨later, rfl, later_eq⟩ | ⟨left, first_eq, -⟩
    · rw [Patchwork.text_append, Patchwork.text_ofText, List.prefix_append_right_inj]
      apply accounts.opening later back later_eq
      exact fun stitch stitch_mem => whole stitch (List.mem_append_right _ stitch_mem)
    · have text_eq := congrArg Patchwork.text first_eq
      rw [Patchwork.text_ofText, Patchwork.text_append] at text_eq
      rw [text_eq, List.append_assoc]
      exact List.prefix_append _ _

/-- Where a value takes the place of a tag, the scan goes on with a seam before the value. -/
theorem Accounts.of_substituted {value : Text} (accounts : scan.Accounts value)
    (found : Tag.first? written = some (before, tag, rest))
    (sewn : ∀ work, step.sewOn work = Patchwork.sew (Patchwork.ofText before) work) :
    (scan.cons step).Accounts written where
  records := by
    intro other isTag bears
    rw [patchwork_cons, sewn] at bears
    rcases Patchwork.bears_of_sew bears with here | there
    · have here_infix := here.infix_text
      rw [Patchwork.text_ofText] at here_infix
      exact absurd here_infix (not_infix_before isTag found)
    · exact (accounts.records other isTag there).cons step
  opening := by
    intro patch back patchwork_eq whole
    -- The value begins with a seam, so a part without one ends before it.
    rw [patchwork_cons, sewn, Patchwork.sew] at patchwork_eq
    have before_prefix : before <+: written :=
      ⟨tag ++ rest, by rw [Tag.append_of_first? found]; simp⟩
    rcases List.append_eq_append_iff.mp patchwork_eq with
      ⟨later, rfl, later_eq⟩ | ⟨left, first_eq, -⟩
    · have nothing : later = [] := by
        apply Patchwork.eq_nil_of_cutOff_eq later_eq
        exact fun stitch stitch_mem => whole stitch (List.mem_append_right _ stitch_mem)
      subst nothing
      simpa using before_prefix
    · have text_eq := congrArg Patchwork.text first_eq
      rw [Patchwork.text_ofText, Patchwork.text_append] at text_eq
      exact ⟨Patchwork.text left ++ (tag ++ rest), by
        rw [Tag.append_of_first? found, text_eq]; simp⟩

/-- A scan accounts for the text that it scans. -/
theorem accounts_run (context : Context) (limit : Nat) (written : Text) :
    (run context limit written).Accounts written := by
  fun_induction run context limit written with
  | case1 limit written absent => exact accounts_of_none absent
  | case2 limit written before tag rest found meaning ih =>
      apply ih.of_stays found (fun _ => rfl)
      rw [Records, meaning]
      trivial
  | case3 limit written before tag rest found _ path meaning ih =>
      apply ih.of_stays found (fun _ => rfl)
      rw [Records, meaning]
      exact List.mem_cons_self
  | case4 written before tag rest found _ keyPath meaning ih =>
      apply ih.of_stays found (fun _ => rfl)
      rw [Records, meaning]
      exact List.mem_cons_self
  | case5 written before tag rest found _ keyPath meaning limit missing ih =>
      apply ih.of_stays found (fun _ => rfl)
      rw [Records, meaning]
      exact List.mem_cons_self
  | case6 written before tag rest found _ keyPath meaning limit value resolved ih =>
      exact ih.of_substituted found fun _ => rfl
  | case7 written before tag rest found _ keyPath meaning limit value missing resolved ih =>
      exact ih.of_substituted found fun _ => rfl

end Scan

/-! ## Loads that keep their seams -/

/-- A tag is not an inclusion, and if it is a substitution, the scan of a file recorded it as
unresolved. -/
def Loader.Accounted (loader : Loader) (context : Context) (accesses : List Access) (tag : Text) :
    Prop :=
  match Directive.ofTag? tag with
  | none => True
  | some (.inclusion _ _) => False
  | some (.substitution _ _) => ∃ entry content, .scan entry content ∈ accesses ∧
      tag ∈ (Scan.run context loader.maxSubstitutions (loader.embed context content)).unresolved

theorem Loader.Accounted.mono {loader : Loader} {context : Context} {accesses later : List Access}
    {tag : Text} (accounted : loader.Accounted context accesses tag) (grown : accesses <+: later) :
    loader.Accounted context later tag := by
  rw [Accounted] at accounted ⊢
  split at accounted
  · trivial
  · exact accounted
  · rcases accounted with ⟨entry, content, scanned, unresolved⟩
    exact ⟨entry, content, grown.subset scanned, unresolved⟩

namespace Patchwork

/-- The patchwork with the expansion of each inclusion sewn in wherever its tag stands. -/
def splice (load : Text → LoadM Patchwork) (work : Patchwork) (inclusions : List (Text × Text)) :
    LoadM Patchwork :=
  inclusions.foldlM (fun work (tag, path) => do
    let included ← load path
    return replaceAll tag included work) work

/-- The expansion of a file version that was not seen before, with its seams. -/
def expandNew (loader : Loader) (source : FileSource) (context : Context)
    (load : Text → LoadM Patchwork) (entry : FileEntry) : LoadM Patchwork := do
  let content ← loader.fetch source entry
  LoadM.record (.scan entry content)
  let scan := Scan.run context loader.maxSubstitutions (loader.embed context content)
  LoadM.report (scan.notices loader.maxSubstitutions)
  splice load scan.patchwork scan.inclusions

/-- The expansion of a file version with its seams. -/
def expandEntry (loader : Loader) (source : FileSource) (context : Context)
    (load : Text → LoadM Patchwork) (entry : FileEntry) : LoadM Patchwork := do
  if ← LoadM.markSeen entry.key then
    LoadM.record (.expand entry)
    expandNew loader source context load entry
  else
    LoadM.record (.skip entry)
    LoadM.tell [.passedOver entry.key]
    return []

/-- The patchwork with the expansion of a file version sewn on. -/
def expandBehind (loader : Loader) (source : FileSource) (context : Context)
    (load : Text → LoadM Patchwork) (output : Patchwork) (entry : FileEntry) : LoadM Patchwork := do
  let expansion ← expandEntry loader source context load entry
  return sew output expansion

/-- The expansion of the view at a path with its seams, where at most `nesting` loads may be
nested. -/
def expandWithin (loader : Loader) (source : FileSource) (context : Context) :
    (nesting : Nat) → (viewPath : Text) → LoadM Patchwork
  | 0, _ => return []
  | nesting + 1, viewPath => do
      let path := loader.root.resolve viewPath
      let entries ← LoadM.walk source (.loading path) path
      entries.foldlM
        (expandBehind loader source context (expandWithin loader source context nesting)) []

/-- The expansion of the view at a path with its seams. -/
def load (loader : Loader) (source : FileSource) (context : Context) (viewPath : Text) :
    LoadM Patchwork :=
  expandWithin loader source context (source.versions.length + 1) viewPath

/-! ### Keeping seams changes nothing -/

section Text

variable {loader : Loader} {source : FileSource} {context : Context}
  {load : Text → LoadM Patchwork} {load' : Text → LoadM Text}

theorem text_foldlM {α : Type} {step : Patchwork → α → LoadM Patchwork}
    {step' : Text → α → LoadM Text} {items : List α}
    (each : ∀ work, ∀ item ∈ items, text <$> step work item = step' (text work) item)
    (start : Patchwork) : text <$> items.foldlM step start = items.foldlM step' (text start) := by
  induction items generalizing start with
  | nil => simp
  | cons item items ih =>
      rw [List.foldlM_cons, List.foldlM_cons, map_bind, ← each start item (by simp), bind_map_left]
      congr 1
      funext work
      exact ih (fun work other other_mem => each work other (by simp [other_mem])) work

theorem text_splice (nested : ∀ path, text <$> load path = load' path) (work : Patchwork)
    (inclusions : List (Text × Text)) :
    text <$> splice load work inclusions = Loader.splice load' (text work) inclusions := by
  apply text_foldlM
  rintro work ⟨tag, path⟩ -
  simp [← nested path]

theorem text_expandEntry (nested : ∀ path, text <$> load path = load' path) (entry : FileEntry) :
    text <$> expandEntry loader source context load entry =
      loader.expandEntry source context load' entry := by
  rw [expandEntry, Loader.expandEntry, map_bind]
  congr 1
  funext new
  cases new with
  | false => simp
  | true => simp [expandNew, Loader.expandNew, text_splice nested]

theorem text_expandWithin (loader : Loader) (source : FileSource) (context : Context)
    (nesting : Nat) (viewPath : Text) :
    text <$> expandWithin loader source context nesting viewPath =
      loader.expandWithin source context nesting viewPath := by
  induction nesting generalizing viewPath with
  | zero => simp [expandWithin, Loader.expandWithin]
  | succ nesting ih =>
      rw [expandWithin, Loader.expandWithin, map_bind]
      congr 1
      funext entries
      apply text_foldlM
      intro output entry _
      rw [← text_expandEntry ih]
      simp [expandBehind]

end Text

/-! ### What is borne in the end -/

section Accounted

variable {loader : Loader} {source : FileSource} {context : Context}
  {load : Text → LoadM Patchwork} {entry : FileEntry}

/-- All tags that a patchwork bears are accounted for in a state. -/
def IsAccounted (loader : Loader) (context : Context) (state : LoadState) (work : Patchwork) :
    Prop :=
  ∀ tag, IsTag tag → work.Bears tag → loader.Accounted context state.accesses tag

theorem isAccounted_nil (loader : Loader) (context : Context) (state : LoadState) :
    IsAccounted loader context state [] :=
  fun _ isTag bears => absurd bears (not_bears_nil (Tag.ne_nil isTag))

theorem IsAccounted.sew {state later : LoadState} {first second : Patchwork}
    (accounted : IsAccounted loader context state first)
    (accounted' : IsAccounted loader context later second)
    (precedes : LoadState.Precedes state later) :
    IsAccounted loader context later (sew first second) := by
  intro tag isTag bears
  rcases bears_of_sew bears with before | here
  · exact (accounted tag isTag before).mono precedes.accesses
  · exact accounted' tag isTag here

/-- What a computation comes to is accounted for when it is done. -/
def LeavesAccounted (loader : Loader) (context : Context) (x : LoadM Patchwork) : Prop :=
  ∀ state work, x.result state = .ok work → IsAccounted loader context (x.after state) work

theorem precedes_expandWithin (loader : Loader) (source : FileSource) (context : Context)
    (nesting : Nat) (viewPath : Text) :
    Keeps LoadState.Precedes (expandWithin loader source context nesting viewPath) := by
  intro state
  rw [← after_map text, text_expandWithin]
  exact loader.precedes_expandWithin source context nesting viewPath state

theorem splice_cons (load : Text → LoadM Patchwork) (work : Patchwork) (tag path : Text)
    (inclusions : List (Text × Text)) :
    splice load work ((tag, path) :: inclusions) =
      load path >>= fun included => splice load (replaceAll tag included work) inclusions := by
  simp [splice]

/-- Splicing leaves only tags that are accounted for if the others are those of the inclusions: each
of them is replaced by something that leaves no others. -/
theorem isAccounted_splice (grows : ∀ path, Keeps LoadState.Precedes (load path))
    (leaves : ∀ path, LeavesAccounted loader context (load path))
    {inclusions : List (Text × Text)} (tags : ∀ tag path, (tag, path) ∈ inclusions → IsTag tag)
    {work out : Patchwork} {state : LoadState}
    (start : ∀ tag, IsTag tag → work.Bears tag →
      loader.Accounted context state.accesses tag ∨ ∃ path, (tag, path) ∈ inclusions)
    (succeeds : (splice load work inclusions).result state = .ok out) :
    IsAccounted loader context ((splice load work inclusions).after state) out := by
  induction inclusions generalizing work state with
  | nil =>
      cases succeeds
      intro tag isTag bears
      rcases start tag isTag bears with accounted | ⟨path, mem⟩
      · exact accounted
      · cases mem
  | cons inclusion inclusions ih =>
      rcases inclusion with ⟨tag, path⟩
      rw [splice_cons] at succeeds ⊢
      rcases result_bind_eq_ok succeeds with ⟨included, loaded, spliced⟩
      rw [after_bind_of_ok loaded]
      apply ih (fun tag path mem => tags tag path (List.mem_cons_of_mem _ mem)) _ spliced
      intro other isTag bears
      have nonempty := Tag.ne_nil (tags tag path List.mem_cons_self)
      rcases bears_of_replaceAll nonempty bears with there | ⟨here, differs⟩
      · exact Or.inl (leaves path state included loaded other isTag there)
      · rcases start other isTag here with accounted | ⟨path', mem⟩
        · exact Or.inl (accounted.mono (grows path state).accesses)
        · rcases List.mem_cons.mp mem with same | mem
          · exact absurd (congrArg Prod.fst same) differs
          · exact Or.inr ⟨path', mem⟩

/-- A tag that the scan of a file leaves is accounted for, or it is the tag of an inclusion. -/
theorem accounted_or_inclusion {accesses : List Access} (entry : FileEntry) {content tag : Text}
    (scanned : .scan entry content ∈ accesses)
    (records :
      (Scan.run context loader.maxSubstitutions (loader.embed context content)).Records tag) :
    loader.Accounted context accesses tag ∨ ∃ path, (tag, path) ∈
      (Scan.run context loader.maxSubstitutions (loader.embed context content)).inclusions := by
  rw [Scan.Records] at records
  rw [Loader.Accounted]
  cases meaning : Directive.ofTag? tag with
  | none => exact Or.inl trivial
  | some directive =>
      rw [meaning] at records
      cases directive with
      | inclusion _ path => exact Or.inr ⟨path, records⟩
      | substitution _ keyPath => exact Or.inl ⟨entry, content, scanned, records⟩

theorem leavesAccounted_expandNew (grows : ∀ path, Keeps LoadState.Precedes (load path))
    (leaves : ∀ path, LeavesAccounted loader context (load path)) (entry : FileEntry) :
    LeavesAccounted loader context (expandNew loader source context load entry) := by
  intro state work succeeds
  rw [expandNew] at succeeds ⊢
  rcases result_bind_eq_ok succeeds with ⟨content, fetched, succeeds⟩
  rw [after_bind_of_ok fetched]
  rw [result_bind_of_ok (result_record _ _), result_bind_of_ok (result_report _ _)] at succeeds
  rw [after_bind_of_ok (result_record _ _), after_bind_of_ok (result_report _ _)]
  apply isAccounted_splice grows leaves (fun tag path => Scan.isTag_of_mem_inclusions) _ succeeds
  intro tag isTag bears
  have accounts := Scan.accounts_run context loader.maxSubstitutions (loader.embed context content)
  exact accounted_or_inclusion entry (by simp) (accounts.records tag isTag bears)

theorem precedes_expandEntry (grows : ∀ path, Keeps LoadState.Precedes (load path))
    (entry : FileEntry) :
    Keeps LoadState.Precedes (expandEntry loader source context load entry) := by
  intro state
  have grows' : ∀ path, Keeps LoadState.Precedes (text <$> load path) := by
    intro path state
    rw [after_map]
    exact grows path state
  rw [← after_map text, text_expandEntry fun _ => rfl]
  exact Loader.precedes_expandEntry grows' entry state

theorem leavesAccounted_expandEntry (grows : ∀ path, Keeps LoadState.Precedes (load path))
    (leaves : ∀ path, LeavesAccounted loader context (load path)) (entry : FileEntry) :
    LeavesAccounted loader context (expandEntry loader source context load entry) := by
  intro state work succeeds
  rw [expandEntry, result_bind_of_ok (result_markSeen _ _)] at succeeds
  rw [expandEntry, after_bind_of_ok (result_markSeen _ _)]
  by_cases new : (!state.seen.contains entry.key) = true
  · rw [if_pos new, result_bind_of_ok (result_record _ _)] at succeeds
    rw [if_pos new, after_bind_of_ok (result_record _ _)]
    exact leavesAccounted_expandNew grows leaves entry _ work succeeds
  · rw [if_neg new] at succeeds
    cases succeeds
    exact isAccounted_nil loader context _

theorem isAccounted_expandBehind (grows : ∀ path, Keeps LoadState.Precedes (load path))
    (leaves : ∀ path, LeavesAccounted loader context (load path)) {entries : List FileEntry}
    {output work : Patchwork} {state : LoadState} (start : IsAccounted loader context state output)
    (succeeds : (entries.foldlM (expandBehind loader source context load) output).result state =
      .ok work) :
    IsAccounted loader context
      ((entries.foldlM (expandBehind loader source context load) output).after state) work := by
  induction entries generalizing output state with
  | nil =>
      cases succeeds
      exact start
  | cons entry entries ih =>
      rw [List.foldlM_cons, expandBehind, bind_assoc] at succeeds ⊢
      rcases result_bind_eq_ok succeeds with ⟨expansion, expanded, succeeds⟩
      rw [after_bind_of_ok expanded]
      rw [pure_bind] at succeeds ⊢
      apply ih _ succeeds
      apply start.sew
      · exact leavesAccounted_expandEntry grows leaves entry state expansion expanded
      · exact precedes_expandEntry grows entry state

theorem leavesAccounted_expandWithin (loader : Loader) (source : FileSource) (context : Context)
    (nesting : Nat) (viewPath : Text) :
    LeavesAccounted loader context (expandWithin loader source context nesting viewPath) := by
  induction nesting generalizing viewPath with
  | zero =>
      intro state work succeeds
      cases succeeds
      exact isAccounted_nil loader context _
  | succ nesting ih =>
      intro state work succeeds
      rw [expandWithin] at succeeds ⊢
      rcases result_bind_eq_ok succeeds with ⟨entries, walked, succeeds⟩
      rw [after_bind_of_ok walked]
      exact isAccounted_expandBehind (precedes_expandWithin loader source context nesting) ih
        (isAccounted_nil loader context _) succeeds

end Accounted

end Patchwork

/-- The text that a view comes to is that of a load that keeps its seams; and of the tags through
which no seam goes, none is an inclusion, and each substitution was recorded as unresolved by the
scan of a file. -/
theorem Engine.tags_of_loadView (engine : Engine) (source : FileSource) (context : Context)
    (viewPath : Text) (cache : Cache) (seen : SeenKeys) {text : Text}
    (succeeds : (engine.loadView source context viewPath).result { cache, seen } = .ok text) :
    ∃ work, (Patchwork.load engine.loader source context viewPath).result { cache } = .ok work ∧
      work.text = text ∧
      ∀ tag, IsTag tag → work.Bears tag → engine.loader.Accounted context
        ((engine.loadView source context viewPath).after { cache, seen }).accesses tag := by
  have loaded : (Patchwork.text <$> Patchwork.load engine.loader source context viewPath).result
      { cache } = .ok text := by
    rw [Patchwork.load, Patchwork.text_expandWithin]
    exact succeeds
  rw [result_map] at loaded
  cases outcome : (Patchwork.load engine.loader source context viewPath).result { cache } with
  | error failure =>
      rw [outcome] at loaded
      cases loaded
  | ok work =>
      rw [outcome] at loaded
      refine ⟨work, rfl, Except.ok.inj loaded, ?_⟩
      have accounted := Patchwork.leavesAccounted_expandWithin engine.loader source context _
        viewPath { cache } work outcome
      rw [← after_map Patchwork.text, Patchwork.text_expandWithin] at accounted
      exact accounted

namespace Leftovers

/-- A directory whose files have the two parts of an inclusion in them, and the view it asks for. -/
def store : FlatStore where
  files := [
    { path := Path.ofString "/views/d/a", content := Utf8.encode "(:= n:)(".toList, modified := 1 },
    { path := Path.ofString "/views/d/b", content := Utf8.encode ":include c:)".toList,
      modified := 2 },
    { path := Path.ofString "/views/c", content := Utf8.encode "C".toList, modified := 3 }]

/-- An engine with the directory. -/
def engine : Engine where
  config := { root := Path.ofString "views" }
  loader := {
    root := ⟨Path.ofString "/views"⟩
    minify := true
    contextAnchor := "</head>".toList
    clientVariable := "viewData".toList
    maxSubstitutions := 4096 }

theorem ofConfig_engine :
    Engine.ofConfig Path.rootDirectory { root := Path.ofString "views" } = .ok engine := by
  cbv

theorem embed_first : engine.loader.embed {} "(:= n:)(".toList = "(:= n:)(".toList :=
  Snapshot.embed_of_none (by cbv) (by decide +kernel)

theorem embed_second : engine.loader.embed {} ":include c:)".toList = ":include c:)".toList :=
  Snapshot.embed_of_none (by cbv) (by decide +kernel)

theorem scan_first : Scan.run {} 4096 "(:= n:)(".toList =
    ⟨[⟨[], "(:= n:)".toList, .unresolved "n".toList⟩], "(".toList⟩ := by
  cbv

theorem scan_second : Scan.run {} 4096 ":include c:)".toList = ⟨[], ":include c:)".toList⟩ := by
  cbv

section Load

variable {load : Text → LoadM Text} {state : LoadState}

theorem expand_first :
    ∃ left, (engine.loader.expandEntry store.source {} load ⟨Path.ofString "/views/d/a", 1⟩).run.run
        (engine.loader.afterListing store.source "d".toList {}) = (.ok "(:= n:)(".toList, left) ∧
      FileEntry.key ⟨Path.ofString "/views/d/b", 2⟩ ∉ left.seen.keys ∧
      left.cache.find? (FileEntry.key ⟨Path.ofString "/views/d/b", 2⟩) = none := by
  have scanned : Scan.run {} engine.loader.maxSubstitutions "(:= n:)(".toList = _ := scan_first
  rw [Loader.expandEntry_of_read "(:= n:)(".toList List.not_mem_nil rfl (by cbv) (by cbv),
    embed_first, scanned]
  exact ⟨_, rfl, by decide, by decide⟩

theorem expand_second
    (new : FileEntry.key ⟨Path.ofString "/views/d/b", 2⟩ ∉ state.seen.keys)
    (absent : state.cache.find? (FileEntry.key ⟨Path.ofString "/views/d/b", 2⟩) = none) :
    (engine.loader.expandEntry store.source {} load ⟨Path.ofString "/views/d/b", 2⟩).result state =
      .ok ":include c:)".toList := by
  have scanned : Scan.run {} engine.loader.maxSubstitutions ":include c:)".toList = _ := scan_second
  rw [result, Loader.expandEntry_of_read ":include c:)".toList new absent (by cbv) (by cbv),
    embed_second, scanned]
  rfl

end Load

/-- The two parts of the inclusion are put one behind the other. -/
theorem result_load : (engine.loadView store.source {} "d".toList).result {} =
    .ok "(:= n:)(:include c:)".toList := by
  have walked : store.source.walk (engine.loader.root.resolve "d".toList) =
      .ok [⟨Path.ofString "/views/d/a", 1⟩, ⟨Path.ofString "/views/d/b", 2⟩] := by
    cbv
  change (engine.loader.load store.source {} "d".toList).result {} = _
  rcases expand_first with ⟨left, expanded, new, absent⟩
  rw [Loader.load, result, Loader.expandWithin_of_walked walked, Loader.expandEntries,
    List.foldlM_cons, bind_assoc]
  change LoadM.result _ _ = _
  rw [result_bind_of_ok (congrArg Prod.fst expanded), pure_bind, after, expanded,
    List.foldlM_cons, bind_assoc, result_bind_of_ok (expand_second new absent)]
  rfl

end Leftovers

/-- A tag that comes about where two files meet is left behind. -/
theorem Engine.inclusion_left_behind :
    ¬∀ (workingDirectory : Path) (config : Config) (engine : Engine) (source : FileSource)
      (context : Context) (viewPath : Text) (cache : Cache) (seen : SeenKeys) (text : Text),
      ofConfig workingDirectory config = .ok engine →
      (engine.loadView source context viewPath).result { cache, seen } = .ok text →
      ∀ tag, IsTag tag → tag <:+: text → engine.loader.Accounted context
        ((engine.loadView source context viewPath).after { cache, seen }).accesses tag := by
  intro nothingLeft
  have inBody : "include c".toList.all Tag.inBody = true := by decide
  have isTag : IsTag "(:include c:)".toList :=
    ⟨"include c".toList, List.all_eq_true.mp inBody, rfl⟩
  have accounted := nothingLeft _ _ Leftovers.engine Leftovers.store.source {} "d".toList {} {} _
    Leftovers.ofConfig_engine Leftovers.result_load "(:include c:)".toList isTag (by decide)
  have meaning : Directive.ofTag? "(:include c:)".toList =
      some (.inclusion "(:include c:)".toList "c".toList) := by
    cbv
  rw [Loader.Accounted, meaning] at accounted
  exact accounted

/-- What the directory comes to has a substitution in it that was recorded as unresolved. -/
theorem Engine.tags_of_loadView_directory :
    (Leftovers.engine.loadView Leftovers.store.source {} "d".toList).result {} =
        .ok "(:= n:)(:include c:)".toList ∧
      ∃ work, (Patchwork.load Leftovers.engine.loader Leftovers.store.source {} "d".toList).result
          {} = .ok work ∧
        work.text = "(:= n:)(:include c:)".toList ∧
        ∀ tag, IsTag tag → work.Bears tag → Leftovers.engine.loader.Accounted {}
          ((Leftovers.engine.loadView Leftovers.store.source {} "d".toList).after {}).accesses
          tag :=
  ⟨Leftovers.result_load, tags_of_loadView Leftovers.engine Leftovers.store.source {} "d".toList {}
    {} Leftovers.result_load⟩

end Pageweave

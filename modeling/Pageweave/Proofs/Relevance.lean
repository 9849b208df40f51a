import Mathlib
import Pageweave.Files.Flat
import Pageweave.Proofs.Pieces
import Pageweave.Proofs.Provenance

/-!
# Data that makes no difference

A load looks at the data of a context in two places only: where a scan asks for the value of a
substitution, and where a page has the anchor and is given a snapshot of the whole context. So
without anchors a load depends on no more than the variables that its scans ask for. Which ones
these are shows only in the course of the load, since values can hold substitutions and inclusions;
`Loader.load_eq_of_agree` therefore speaks of the scans of a load with one of two contexts, and
states that the load with the other one does the same in every respect.
-/

namespace Pageweave

open LoadM

/-- The variable whose value a substitution asks for: the first segment of its key path. -/
def Directive.firstSegment? : Directive → Option Text
  | substitution _ keyPath => (Text.splitOn '.' keyPath).head?
  | inclusion _ _ => none

/-- The variables that the substitutions of a scan ask for, whether they were made or not. -/
def Scan.asked (scan : Scan) : List Text :=
  scan.substitutions.filterMap Directive.firstSegment?

/-- Two contexts have the same values under some names, or none. -/
def Context.AgreeOn (names : List Text) (context context' : Context) : Prop :=
  ∀ name ∈ names, context'.find? name = context.find? name

variable {context context' : Context}

theorem Context.resolve_eq_of_agree {keyPath : Text}
    (agree : Context.AgreeOn (Text.splitOn '.' keyPath).head?.toList context context') :
    context'.resolve keyPath = context.resolve keyPath := by
  rw [Context.resolve, Context.resolve]
  cases segments : Text.splitOn '.' keyPath with
  | nil => rfl
  | cons first others =>
      have same : context'.find? first = context.find? first := agree first (by simp [segments])
      simp only [same]

namespace Scan

variable {limit : Nat} {text : Text}

theorem agreeOn_of_cons {step : Step} {scan : Scan} {keyPath : Text}
    (asks : (scan.cons step).substitutions = .substitution step.tag keyPath :: scan.substitutions)
    (agree : Context.AgreeOn (scan.cons step).asked context context') :
    Context.AgreeOn (Text.splitOn '.' keyPath).head?.toList context context' ∧
      Context.AgreeOn scan.asked context context' := by
  have asked_eq : (scan.cons step).asked =
      (Text.splitOn '.' keyPath).head?.toList ++ scan.asked := by
    rw [asked, asks, List.filterMap_cons]
    cases first : (Text.splitOn '.' keyPath).head? <;> simp [Directive.firstSegment?, first, asked]
  rw [Context.AgreeOn, asked_eq, List.forall_mem_append] at agree
  exact agree

/-- A scan depends on no other variables than those it asks for. -/
theorem run_eq_of_agree
    (agree : Context.AgreeOn (run context limit text).asked context context') :
    run context' limit text = run context limit text := by
  fun_induction run context limit text with
  | case1 limit text absent => exact run_of_none absent
  | case2 limit text before tag rest found meaning ih =>
      rw [run_of_some found, meaning, ← ih agree]
  | case3 limit text before tag rest found _ path meaning ih =>
      rw [run_of_some found, meaning, ← ih agree]
  | case4 text before tag rest found _ keyPath meaning ih =>
      rw [run_of_some found, meaning, ← ih (agreeOn_of_cons rfl agree).2]
  | case5 text before tag rest found _ keyPath meaning limit resolved ih =>
      rcases agreeOn_of_cons rfl agree with ⟨here, later⟩
      rw [run_of_some found, meaning, ← ih later]
      simp only [Context.resolve_eq_of_agree here, resolved]
  | case6 text before tag rest found _ keyPath meaning limit value resolved ih =>
      rcases agreeOn_of_cons rfl agree with ⟨here, later⟩
      rw [run_of_some found, meaning, ← ih later]
      simp only [Context.resolve_eq_of_agree here, resolved]
  | case7 text before tag rest found _ keyPath meaning limit value missing resolved ih =>
      rcases agreeOn_of_cons rfl agree with ⟨here, later⟩
      rw [run_of_some found, meaning, ← ih later]
      simp only [Context.resolve_eq_of_agree here, resolved]

end Scan

/-- A computation agrees with itself where it is started in the same state. -/
theorem LoadM.agreeFrom_self {α : Type} {admissible : LoadState → Prop} (x : LoadM α)
    (state : LoadState) : AgreeFrom admissible Eq Eq x x state state :=
  fun _ => ⟨matches_eq_iff.mpr rfl, rfl⟩

namespace Loader

variable {loader : Loader} {source : FileSource} {load load' : Text → LoadM Text}

/-- A text without the anchor takes no snapshot. -/
theorem embed_of_no_anchor {content : Text} (context : Context)
    (noAnchor : Snapshot.splitAtAnchor? loader.contextAnchor (Snapshot.removeComments content) =
      none) :
    loader.embed context content = Snapshot.removeComments content := by
  rw [embed, Snapshot.embed, noAnchor]

/-- No content that was taken to be scanned has the anchor outside of comments, and two contexts
agree on what the scans of these contents with the first context ask for. -/
def ScansAlike (loader : Loader) (context context' : Context) (state : LoadState) : Prop :=
  ∀ entry content, .scan entry content ∈ state.accesses →
    Snapshot.splitAtAnchor? loader.contextAnchor (Snapshot.removeComments content) = none ∧
      Context.AgreeOn
        (Scan.run context loader.maxSubstitutions (loader.embed context content)).asked
        context context'

theorem scansAlike_of_precedes {earlier later : LoadState}
    (precedes : LoadState.Precedes earlier later) :
    Reflects (ScansAlike loader context context') earlier later :=
  fun alike entry content scanned => alike entry content (precedes.accesses.subset scanned)

/-- Where scans are alike, the expansions of a new file version are the same if the loads of its
inclusions are. -/
theorem agree_expandNew_of_alike
    (nested : ∀ path, Agree (ScansAlike loader context context') Eq Eq (load path) (load' path))
    (grows : ∀ path, Keeps LoadState.Precedes (load path)) (entry : FileEntry) :
    Agree (ScansAlike loader context context') Eq Eq
      (loader.expandNew source context load entry)
      (loader.expandNew source context' load' entry) := by
  have spliceGrows := keeps_splice grows
  rintro state _ rfl
  apply agreeFrom_bind (agreeFrom_self _ _)
  · rintro content _ - rfl -
    apply agreeFrom_bind (agreeFrom_self _ _)
    · rintro _ _ - - -
      intro allowed
      have alike := scansAlike_of_precedes
        (keeps_bind (precedes_report _) (fun _ => spliceGrows _ _) _) allowed entry content
        (by simp)
      rcases alike with ⟨noAnchor, agree⟩
      rw [embed_of_no_anchor context noAnchor] at agree allowed ⊢
      rw [embed_of_no_anchor context' noAnchor, Scan.run_eq_of_agree agree]
      refine agreeFrom_bind (agreeFrom_self _ _) ?_ ?_ allowed
      · rintro _ _ - - -
        apply agree_splice nested _ _ _ _ _ rfl
        exact fun path state => scansAlike_of_precedes (grows path state)
      · exact fun _ state => scansAlike_of_precedes (spliceGrows _ _ state)
    · intro _ state
      apply scansAlike_of_precedes
      exact keeps_bind (precedes_report _) (fun _ => spliceGrows _ _) state
  · intro content state
    apply scansAlike_of_precedes
    apply keeps_bind (precedes_record _)
    intro _
    exact keeps_bind (precedes_report _) fun _ => spliceGrows _ _

/-- Where scans are alike, loads with the two contexts do the same. -/
theorem agree_expandWithin_of_alike (loader : Loader) (source : FileSource)
    (context context' : Context) (nesting : Nat) (viewPath : Text) :
    Agree (ScansAlike loader context context') Eq Eq
      (loader.expandWithin source context nesting viewPath)
      (loader.expandWithin source context' nesting viewPath) := by
  induction nesting generalizing viewPath with
  | zero => exact agree_pure rfl
  | succ nesting ih =>
      have grows := loader.precedes_expandWithin source context nesting
      have earlier : ∀ entry, Keeps (Reflects (ScansAlike loader context context'))
          (loader.expandEntry source context (loader.expandWithin source context nesting)
            entry) :=
        fun entry state => scansAlike_of_precedes (precedes_expandEntry grows entry state)
      have parallel : Parallel (@Eq LoadState) :=
        ⟨fun access => congrArg (LoadState.did · access),
          fun entries => congrArg (LoadState.logged · entries)⟩
      rw [expandWithin, expandWithin]
      apply agree_bind (agree_walk parallel _ _)
      · rintro entries _ ⟨rfl, -⟩
        apply agree_expandEntries
        · intro entry _
          apply agree_expandEntry _ parallel
          · rintro state _ rfl - allowed
            exact agree_expandNew_of_alike ih grows entry _ _ rfl allowed
          · rintro _ _ rfl
            rfl
        · exact fun entry _ => earlier entry
      · intro entries
        exact keeps_expandEntries fun entry _ => earlier entry

/-- A load whose contents have no anchor does the same with every context that has the same values
as its own for the variables that its scans ask for: it comes to the same result, does the same
with files in the same order, and leaves the same cache, seen keys and log. -/
theorem load_eq_of_agree (loader : Loader) (source : FileSource) (context context' : Context)
    (viewPath : Text) (cache : Cache) (seen : SeenKeys)
    (noAnchor : ∀ entry content,
      .scan entry content ∈ ((loader.load source context viewPath).after { cache, seen }).accesses →
      Snapshot.splitAtAnchor? loader.contextAnchor (Snapshot.removeComments content) = none)
    (agree : ∀ entry content,
      .scan entry content ∈ ((loader.load source context viewPath).after { cache, seen }).accesses →
      Context.AgreeOn
        (Scan.run context loader.maxSubstitutions (loader.embed context content)).asked
        context context') :
    (loader.load source context' viewPath).result { cache, seen } =
        (loader.load source context viewPath).result { cache, seen } ∧
      (loader.load source context' viewPath).after { cache, seen } =
        (loader.load source context viewPath).after { cache, seen } := by
  have alike : ScansAlike loader context context'
      ((loader.load source context viewPath).after { cache, seen }) :=
    fun entry content scanned => ⟨noAnchor entry content scanned, agree entry content scanned⟩
  rcases agree_expandWithin_of_alike loader source context context' _ viewPath _ _ rfl alike with
    ⟨sameResult, sameState⟩
  exact ⟨(matches_eq_iff.mp sameResult).symm, sameState.symm⟩

end Loader

namespace Relevance

/-- The text of a page that is only a variable. -/
def pageText : Text :=
  "(:= part:)".toList

/-- The text of an item with a number in it. -/
def itemText : Text :=
  "[(:= n:)]".toList

/-- The page and the item as files. -/
def pageStore : FlatStore where
  files := [
    { path := Path.ofString "/page", content := Utf8.encode pageText, modified := 1 },
    { path := Path.ofString "/item", content := Utf8.encode itemText, modified := 2 }]

/-- Data that puts the item into the page. -/
def pageContext : Context :=
  ⟨[("n".toList, .string "7".toList), ("part".toList, .string "(:include item:)".toList)]⟩

/-- The same data with a variable that neither file asks for. -/
def largerContext : Context :=
  ⟨[("n".toList, .string "7".toList), ("part".toList, .string "(:include item:)".toList),
    ("secret".toList, .string "(:include page:)".toList)]⟩

/-- A loader of the page. -/
def pageLoader : Loader where
  root := ⟨Path.rootDirectory⟩
  minify := true
  contextAnchor := "</head>".toList
  clientVariable := "viewData".toList
  maxSubstitutions := 4096

/-- A file without comments and the anchor, whose scan asks for variables that the contexts agree
on. -/
theorem alike_of_read (text : Text) {path : Path} {names : List Text} {bytes : Bytes}
    (stored : pageStore.source.read path = .ok (Utf8.encode text))
    (processed : (Content.process true path (Utf8.encode text)).1 = text)
    (noComment : Text.search Snapshot.afterComment? text = none)
    (noAnchor : Snapshot.splitAtAnchor? "</head>".toList text = none)
    (asked_eq : (Scan.run pageContext 4096 text).asked = names)
    (agree : Context.AgreeOn names pageContext largerContext)
    (answer : pageStore.source.read path = .ok bytes) :
    Snapshot.splitAtAnchor? pageLoader.contextAnchor
        (Snapshot.removeComments (Content.process pageLoader.minify path bytes).1) = none ∧
      Context.AgreeOn
        (Scan.run pageContext pageLoader.maxSubstitutions
          (pageLoader.embed pageContext (Content.process pageLoader.minify path bytes).1)).asked
        pageContext largerContext := by
  rw [stored, Except.ok.injEq] at answer
  subst answer
  have processed' : (Content.process pageLoader.minify path (Utf8.encode text)).1 = text :=
    processed
  have noAnchor' : Snapshot.splitAtAnchor? pageLoader.contextAnchor
      (Snapshot.removeComments text) = none := by
    rw [Snapshot.removeComments_of_none noComment]
    exact noAnchor
  have asked_eq' : (Scan.run pageContext pageLoader.maxSubstitutions text).asked = names :=
    asked_eq
  rw [processed', Loader.embed_of_no_anchor _ noAnchor',
    Snapshot.removeComments_of_none noComment, asked_eq']
  exact ⟨noAnchor, agree⟩

/-- Neither file has the anchor, and both ask only for variables that the contexts agree on. -/
theorem scansAlike_page {entry : FileEntry} {content : Text}
    (scanned : .scan entry content ∈
      ((pageLoader.load pageStore.source pageContext "page".toList).after {}).accesses) :
    Snapshot.splitAtAnchor? pageLoader.contextAnchor (Snapshot.removeComments content) = none ∧
      Context.AgreeOn
        (Scan.run pageContext pageLoader.maxSubstitutions
          (pageLoader.embed pageContext content)).asked
        pageContext largerContext := by
  have versions_eq : pageStore.source.versions =
      [⟨Path.ofString "/page", 1⟩, ⟨Path.ofString "/item", 2⟩] := rfl
  have distinct : Set.InjOn FileEntry.key {entry | entry ∈ pageStore.source.versions} := by
    have nodup : (pageStore.source.versions.map FileEntry.key).Nodup := by decide
    intro first first_mem second second_mem same
    exact List.inj_on_of_nodup_map nodup first_mem second_mem same
  rcases Loader.scanned_of_load distinct scanned with ⟨entry_mem, bytes, answer, rfl⟩
  rw [versions_eq, List.mem_cons, List.mem_singleton] at entry_mem
  rcases entry_mem with rfl | rfl
  · have agree : Context.AgreeOn ["part".toList] pageContext largerContext := by
      intro name name_mem
      rw [List.mem_singleton.mp name_mem]
      rfl
    exact alike_of_read pageText (by cbv) (by cbv) (by cbv) (by decide) (by cbv) agree answer
  · have agree : Context.AgreeOn ["n".toList] pageContext largerContext := by
      intro name name_mem
      rw [List.mem_singleton.mp name_mem]
      rfl
    exact alike_of_read itemText (by cbv) (by cbv) (by cbv) (by decide) (by cbv) agree answer

end Relevance

/-- A load of the page does the same whether there is a secret in its data or not. -/
theorem Loader.load_eq_of_agree_page :
    (Relevance.pageLoader.load Relevance.pageStore.source Relevance.largerContext
        "page".toList).result {} =
      (Relevance.pageLoader.load Relevance.pageStore.source Relevance.pageContext
        "page".toList).result {} ∧
    (Relevance.pageLoader.load Relevance.pageStore.source Relevance.largerContext
        "page".toList).after {} =
      (Relevance.pageLoader.load Relevance.pageStore.source Relevance.pageContext
        "page".toList).after {} :=
  load_eq_of_agree Relevance.pageLoader Relevance.pageStore.source Relevance.pageContext
    Relevance.largerContext "page".toList {} {}
    (fun _ _ scanned => (Relevance.scansAlike_page scanned).1)
    (fun _ _ scanned => (Relevance.scansAlike_page scanned).2)

end Pageweave

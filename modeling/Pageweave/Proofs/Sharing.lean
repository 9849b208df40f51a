import Mathlib
import Pageweave.Proofs.Identity
import Pageweave.Proofs.Pieces
import Pageweave.Proofs.Segments

/-!
# Engines that share a cache

Several engines can work on one cache. A content is cached under the key of its file version, and
the key does not say which engine made the content of the file. So an engine can come upon contents
that another one made.

`Engine.shared_eq_private_iff` states when this shows: sharing a cache makes no difference to any
load just if the engines make the same content of every file version that comes up. Of the options
of an engine only `minify` bears on this, and only for scripts. Where two engines differ in it, one
of them can come to the text that the other one should.
-/

namespace Pageweave

open LoadM

/-- The content that was taken for a file version to be scanned, if one was. -/
def Access.scanned? : Access → Option (FileEntry × Text)
  | scan entry content => some (entry, content)
  | walk _ | skip _ | expand _ | fetch _ | read _ => none

/-- The contents that were taken to be scanned, in their order. -/
def LoadState.scans (state : LoadState) : List (FileEntry × Text) :=
  state.accesses.filterMap Access.scanned?

/-- What one of several engines is asked to do with the files as they are at the time. -/
structure Turn (ι : Type) where
  /-- The engine whose turn it is. -/
  engine : ι
  /-- The files. -/
  source : FileSource
  /-- The operation. -/
  operation : Operation

namespace Turn

variable {ι : Type}

/-- A turn of one of the given engines. -/
def event (engines : ι → Engine) (turn : Turn ι) : Event :=
  ⟨engines turn.engine, turn.source, turn.operation⟩

/-- The cache after some turns, if all engines work on it. -/
def sharedCache (engines : ι → Engine) (turns : List (Turn ι)) : Cache :=
  History.cache (turns.map (event engines))

/-- The cache after some turns, if one engine has it for itself. -/
def privateCache [DecidableEq ι] (engines : ι → Engine) (turns : List (Turn ι)) (own : ι) :
    Cache :=
  sharedCache engines (turns.filter fun turn => turn.engine = own)

end Turn

/-- A source offers only certain versions, and reads each of them with its outcome. -/
def FileSource.Offers (source : FileSource) (versions : Set FileEntry)
    (outcome : FileEntry → Except FileFailure Bytes) : Prop :=
  ∀ entry ∈ source.versions, entry ∈ versions ∧ source.read entry.path = outcome entry

/-- Engines make the same content of every version that can be read. -/
def Engine.MakeAlike {ι : Type} (engines : ι → Engine) (versions : Set FileEntry)
    (outcome : FileEntry → Except FileFailure Bytes) : Prop :=
  ∀ entry ∈ versions, ∀ bytes, outcome entry = .ok bytes → ∀ one other,
    (Content.process (engines one).loader.minify entry.path bytes).1 =
      (Content.process (engines other).loader.minify entry.path bytes).1

variable {versions : Set FileEntry} {outcome : FileEntry → Except FileFailure Bytes}

namespace Loader

/-- The two runs are alongside each other and have taken the same contents to be scanned. -/
def AlongsideScans (versions : Set FileEntry) (genuine : FileEntry → Text → Prop)
    (first second : LoadState) : Prop :=
  Alongside versions genuine first second ∧ second.scans = first.scans

theorem scans_did (state : LoadState) (access : Access) :
    (state.did access).scans = state.scans ++ access.scanned?.toList := by
  rw [LoadState.scans, LoadState.did_accesses, List.filterMap_append, LoadState.scans]
  cases scanned : access.scanned? <;> simp [scanned]

theorem scans_after_fetch (loader : Loader) (source : FileSource) (entry : FileEntry)
    (state : LoadState) : ((loader.fetch source entry).after state).scans = state.scans := by
  rcases loader.accesses_after_fetch source entry state with ⟨made, accesses, made_eq⟩
  rw [LoadState.scans, accesses, List.filterMap_append, LoadState.scans]
  rcases made_eq with rfl | rfl <;> simp [Access.scanned?]

theorem parallel_alongsideScans (versions : Set FileEntry) (genuine : FileEntry → Text → Prop) :
    Parallel (AlongsideScans versions genuine) where
  did access start := ⟨start.1, by rw [scans_did, scans_did, start.2]⟩
  logged _ start := start

/-- With honest caches, two loads of a view take the same contents to be scanned. -/
theorem agree_load_scans_of_honest (loader : Loader) {source : FileSource}
    (distinct : Set.InjOn FileEntry.key versions) (offers : source.Offers versions outcome)
    (context : Context) (viewPath : Text) :
    Agree (fun _ => True) (AlongsideScans versions (loader.Makes outcome)) Eq
      (loader.load source context viewPath) (loader.load source context viewPath) := by
  apply agree_expandWithin
  · exact fun _ _ start => start.1.1
  · exact parallel_alongsideScans _ _
  · rintro first second entry ⟨⟨seen_eq, honest⟩, scans_eq⟩
    refine ⟨⟨by rw [LoadState.begin, LoadState.begin, seen_eq], honest⟩, ?_⟩
    exact (scans_did second (.expand entry)).trans
      ((congrArg (· ++ []) scans_eq).trans (scans_did first (.expand entry)).symm)
  · rintro entry entry_mem first second ⟨alongside, scans_eq⟩ -
    rcases agree_fetch_of_honest distinct (fun entry mem => (offers entry mem).1)
      (fun entry mem => (offers entry mem).2) entry_mem first second alongside trivial with
      ⟨same, still⟩
    exact ⟨same, still, by rw [scans_after_fetch, scans_after_fetch, scans_eq]⟩

end Loader

namespace Turn

variable {ι : Type} (engines : ι → Engine)

/-- Where the engines make the same of every version, the cache that they share is honest for each
of them. -/
theorem honest_sharedCache (distinct : Set.InjOn FileEntry.key versions)
    {turns : List (Turn ι)}
    (offers : ∀ turn ∈ turns, turn.source.Offers versions outcome) (own : ι)
    (alike : ∀ turn ∈ turns, ∀ entry ∈ versions, ∀ bytes, outcome entry = .ok bytes →
      (Content.process (engines turn.engine).loader.minify entry.path bytes).1 =
        (Content.process (engines own).loader.minify entry.path bytes).1) :
    (sharedCache engines turns).IsHonest versions ((engines own).loader.Makes outcome) := by
  refine honest_history distinct ?_
  intro event event_mem
  rcases List.mem_map.mp event_mem with ⟨turn, turn_mem, rfl⟩
  refine ⟨fun entry entry_mem => (offers turn turn_mem entry entry_mem).1, ?_⟩
  intro entry entry_mem bytes answer
  rcases offers turn turn_mem entry entry_mem with ⟨offered, stable⟩
  have outcome_eq : outcome entry = .ok bytes := stable.symm.trans answer
  exact ⟨bytes, outcome_eq, alike turn turn_mem entry offered bytes outcome_eq⟩

theorem honest_privateCache [DecidableEq ι] (distinct : Set.InjOn FileEntry.key versions)
    {turns : List (Turn ι)}
    (offers : ∀ turn ∈ turns, turn.source.Offers versions outcome) (own : ι) :
    (privateCache engines turns own).IsHonest versions ((engines own).loader.Makes outcome) := by
  apply honest_sharedCache engines distinct
  · intro turn turn_mem
    exact offers turn (List.mem_filter.mp turn_mem).1
  · intro turn turn_mem entry _ bytes _
    have engine_eq : turn.engine = own := by simpa using (List.mem_filter.mp turn_mem).2
    rw [engine_eq]

end Turn

/-- An engine scans what another one cached for a file. -/
theorem Turn.scanned_of_cached {ι : Type} (engines : ι → Engine) (one other : ι)
    (entry : FileEntry) (bytes : Bytes) :
    (entry, (Content.process (engines other).loader.minify entry.path bytes).1) ∈
      (((engines one).loadView (FileSource.single entry (.ok bytes)) {} []).after
        { cache :=
            sharedCache engines
              [⟨other, FileSource.single entry (.ok bytes), .preload []⟩] }).scans := by
  have found : (sharedCache engines
      [⟨other, FileSource.single entry (.ok bytes), .preload []⟩]).find? entry.key =
        some (Content.process (engines other).loader.minify entry.path bytes).1 :=
    (engines other).loader.find?_after_preload entry bytes []
  exact List.mem_filterMap.mpr ⟨_, Event.scan_mem_of_cached (engines one) found _ {} [], rfl⟩

/-- What is scanned in a load that begins with an honest cache is what the engine makes of files. -/
theorem Engine.makes_of_scanned {engine : Engine} {source : FileSource}
    (distinct : Set.InjOn FileEntry.key versions) (offers : source.Offers versions outcome)
    {cache : Cache} (honest : cache.IsHonest versions (engine.loader.Makes outcome))
    {context : Context} {viewPath : Text} {entry : FileEntry} {content : Text}
    (scanned : (entry, content) ∈
      ((engine.loadView source context viewPath).after { cache }).scans) :
    engine.loader.Makes outcome entry content := by
  have supplied : engine.loader.Supplied source versions (engine.loader.Makes outcome) :=
    Loader.supplied_of_outcome (fun entry mem => (offers entry mem).1)
      (fun entry mem => (offers entry mem).2)
  have faithful := staysFaithful_loadView distinct supplied context viewPath _
    (LoadState.isFaithful_of_honest honest)
  rcases List.mem_filterMap.mp scanned with ⟨access, access_mem, access_eq⟩
  cases access with
  | scan entry' content' =>
      cases access_eq
      exact faithful.scanned entry content access_mem
  | walk _ | skip _ | expand _ | fetch _ | read _ => cases access_eq

/-- The content of a file that is no script does not depend on an option. -/
theorem Content.process_of_not_script {path : Path} (noScript : ContentKind.ofPath path ≠ .script)
    (minify minify' : Bool) (bytes : Bytes) :
    process minify path bytes = process minify' path bytes := by
  rw [process, process]
  cases kind : ContentKind.ofPath path with
  | script => exact absurd kind noScript
  | flattened | image _ | plain => rfl

/-- Engines make the same contents if they treat scripts in the same way or there are none. -/
theorem Engine.makeAlike_of_settings {ι : Type} {engines : ι → Engine}
    (fits : ∀ one other, (engines one).loader.minify = (engines other).loader.minify ∨
      ∀ entry ∈ versions, ContentKind.ofPath entry.path ≠ .script) :
    Engine.MakeAlike engines versions outcome := by
  intro entry entry_mem bytes _ one other
  rcases fits one other with same | noScript
  · rw [same]
  · rw [Content.process_of_not_script (noScript entry entry_mem)]

/-- Among engines whose file versions have keys of their own and are always read with the same
outcome, sharing a cache makes no difference to any load, whatever turns come before it, just if
the engines make the same content of every version. -/
theorem Engine.shared_eq_private_iff {ι : Type} [DecidableEq ι] (engines : ι → Engine)
    (versions : Set FileEntry) (outcome : FileEntry → Except FileFailure Bytes)
    (distinct : Set.InjOn FileEntry.key versions) :
    Engine.MakeAlike engines versions outcome ↔
      ∀ (turns : List (Turn ι)) (own : ι) (source : FileSource) (context : Context)
        (viewPath : Text),
        (∀ files ∈ source :: turns.map Turn.source, files.Offers versions outcome) →
        ((engines own).loadView source context viewPath).result
              { cache := Turn.sharedCache engines turns } =
            ((engines own).loadView source context viewPath).result
              { cache := Turn.privateCache engines turns own } ∧
          (((engines own).loadView source context viewPath).after
              { cache := Turn.sharedCache engines turns }).scans =
            (((engines own).loadView source context viewPath).after
              { cache := Turn.privateCache engines turns own }).scans := by
  constructor
  · intro alike turns own source context viewPath offers
    have offers_source : source.Offers versions outcome := offers source (by simp)
    have offers_turns : ∀ turn ∈ turns, turn.source.Offers versions outcome :=
      fun turn turn_mem => offers turn.source
        (List.mem_cons_of_mem _ (List.mem_map_of_mem turn_mem))
    have honest := Turn.honest_sharedCache engines distinct offers_turns own
      fun turn _ entry entry_mem bytes answer => alike entry entry_mem bytes answer _ _
    have honest' := Turn.honest_privateCache engines distinct offers_turns own
    rcases (engines own).loader.agree_load_scans_of_honest distinct offers_source context viewPath
      { cache := Turn.sharedCache engines turns } { cache := Turn.privateCache engines turns own }
      ⟨⟨rfl, honest, honest'⟩, rfl⟩ trivial with ⟨same, -, scans_eq⟩
    exact ⟨matches_eq_iff.mp same, scans_eq.symm⟩
  · intro transparent entry entry_mem bytes answer one other
    -- The other engine caches the file, and then the one loads it.
    have offers_single : (FileSource.single entry (.ok bytes)).Offers versions outcome := by
      intro listed listed_mem
      rw [List.mem_singleton.mp listed_mem]
      exact ⟨entry_mem, answer.symm⟩
    have offers : ∀ files ∈ FileSource.single entry (.ok bytes) :: List.map Turn.source
        [⟨other, FileSource.single entry (.ok bytes), .preload []⟩],
        files.Offers versions outcome := by
      intro files files_mem
      rw [List.map_singleton, List.mem_cons, List.mem_singleton] at files_mem
      rcases files_mem with rfl | rfl <;> exact offers_single
    have scanned := Turn.scanned_of_cached engines one other entry bytes
    rw [(transparent _ one _ {} [] offers).2] at scanned
    have honest := Turn.honest_privateCache engines distinct
      (fun turn turn_mem => offers turn.source
        (List.mem_cons_of_mem _ (List.mem_map_of_mem turn_mem))) one
    rcases Engine.makes_of_scanned distinct offers_single honest scanned with
      ⟨bytes', outcome_eq, content_eq⟩
    rw [answer, Except.ok.injEq] at outcome_eq
    subst outcome_eq
    exact content_eq.symm

/-- A file without comments, the anchor and tags comes to the content that is fetched for it. -/
theorem Engine.loadView_of_fetch {engine : Engine} {source : FileSource} {context : Context}
    {viewPath content : Text} {entry : FileEntry} {cache cache' : Cache}
    (walked : source.walk (engine.loader.root.resolve viewPath) = .ok [entry])
    (fetched : ∀ state, state.cache = cache →
      (engine.loader.fetch source entry).result state = .ok content ∧
        ((engine.loader.fetch source entry).after state).cache = cache')
    (noComment : Text.search Snapshot.afterComment? content = none)
    (noAnchor : Snapshot.splitAtAnchor? engine.loader.contextAnchor content = none)
    (noTag : Tag.first? content = none) :
    (engine.loadView source context viewPath).result { cache } = .ok content ∧
      ((engine.loadView source context viewPath).after { cache }).cache = cache' := by
  have embedded : engine.loader.embed context content = content :=
    Snapshot.embed_of_none noComment noAnchor
  have expanded : ∀ load state, state.cache = cache → state.seen.keys = [] →
      (engine.loader.expandEntry source context load entry).result state = .ok content ∧
        ((engine.loader.expandEntry source context load entry).after state).cache = cache' := by
    intro load state cached unseen
    have new : entry.key ∉ state.seen.keys := by simp [unseen]
    rcases fetched (state.begin entry) cached with ⟨found, left⟩
    rw [result, after, Loader.expandEntry_of_new new, Loader.expandNew]
    change (_ >>= _ : LoadM Text).result _ = _ ∧
      LoadState.cache ((_ >>= _ : LoadM Text).after _) = _
    rw [result_bind_of_ok found, after_bind_of_ok found, embedded, Scan.run_of_none noTag]
    exact ⟨rfl, left⟩
  change (engine.loader.load source context viewPath).result { cache } = _ ∧
    LoadState.cache ((engine.loader.load source context viewPath).after { cache }) = _
  rw [Loader.load, result, after, Loader.expandWithin_of_walked walked,
    Loader.expandEntries_singleton]
  exact expanded _ _ rfl rfl

namespace Sharing

/-- The options of two engines: one minifies scripts and one does not. -/
def configs (minifies : Bool) : Config where
  root := Path.ofString "views"
  preloads := ["".toList]
  minify := minifies
  contextAnchor := if minifies then "</head>".toList else "</body>".toList

/-- The two engines. -/
def engines (minifies : Bool) : Engine where
  config := configs minifies
  loader := {
    root := ⟨Path.ofString "/views"⟩
    minify := minifies
    contextAnchor := if minifies then "</head>".toList else "</body>".toList
    clientVariable := "viewData".toList
    maxSubstitutions := 4096 }

theorem ofConfig_engines (minifies : Bool) :
    Engine.ofConfig Path.rootDirectory (configs minifies) = .ok (engines minifies) := by
  cases minifies <;> cbv

/-- A page with a style sheet. -/
def pageStore : FlatStore where
  files := [
    { path := Path.ofString "/views/a.css", content := Utf8.encode "b {}".toList, modified := 1 },
    { path := Path.ofString "/views/page", content := Utf8.encode "(:include a.css:)".toList,
      modified := 2 }]

/-- One engine caches all files, and the other one loads the style sheet. -/
def pageTurns : List (Turn Bool) :=
  [⟨true, pageStore.source, .setup⟩, ⟨false, pageStore.source, .load {} "a.css".toList⟩]

theorem offers_page : pageStore.source.Offers {entry | entry ∈ pageStore.source.versions}
    fun entry => pageStore.source.read entry.path :=
  fun _ entry_mem => ⟨entry_mem, rfl⟩

theorem distinct_page : Set.InjOn FileEntry.key {entry | entry ∈ pageStore.source.versions} := by
  have nodup : (pageStore.source.versions.map FileEntry.key).Nodup := by decide
  intro first first_mem second second_mem same
  exact List.inj_on_of_nodup_map nodup first_mem second_mem same

theorem makeAlike_page : Engine.MakeAlike engines {entry | entry ∈ pageStore.source.versions}
    fun entry => pageStore.source.read entry.path := by
  have versions_eq : pageStore.source.versions =
      [⟨Path.ofString "/views/a.css", 1⟩, ⟨Path.ofString "/views/page", 2⟩] := rfl
  apply Engine.makeAlike_of_settings
  intro one other
  refine Or.inr ?_
  intro entry entry_mem
  rw [Set.mem_ofPred_eq, versions_eq, List.mem_cons, List.mem_singleton] at entry_mem
  rcases entry_mem with rfl | rfl <;> decide +kernel

/-- A script. -/
def script : FileEntry := ⟨Path.ofString "/views/a.js", 1⟩

/-- A store with the script. -/
def scriptStore : FlatStore where
  files := [
    { path := script.path, content := Utf8.encode "x = 1;".toList, modified := script.modified }]

theorem walk_script (minifies : Bool) :
    scriptStore.source.walk ((engines minifies).loader.root.resolve "a.js".toList) =
      .ok [script] := by
  cases minifies <;> cbv

theorem read_script : scriptStore.source.read script.path = .ok (Utf8.encode "x = 1;".toList) := by
  cbv

theorem minify_script : Script.minify "x = 1;".toList = .ok "x=1;".toList := by
  have blank : ∀ written following, Script.ReadsGap written [⟨.space, [' ']⟩] following :=
    fun _ _ => ⟨rfl, ⟨' ', [], rfl, .space (by decide)⟩, trivial⟩
  have code : ∀ {c written following}, Script.isOrdinary c = true →
      (⟨.code, [c]⟩ : Script.Lexeme).Reads written following :=
    fun plain => ⟨_, [], rfl, .ordinary plain⟩
  have cut : Script.segment "x = 1;".toList =
      .ok ⟨[⟨[], [], ⟨.code, ['x']⟩⟩, ⟨[⟨.space, [' ']⟩], [], ⟨.code, ['=']⟩⟩,
        ⟨[⟨.space, [' ']⟩], [], ⟨.code, ['1']⟩⟩, ⟨[], [], ⟨.code, [';']⟩⟩], []⟩ := by
    apply Script.segment_eq_ok_iff.mpr
    refine ⟨rfl, trivial, rfl, code (by decide), rfl, ?_⟩
    refine ⟨blank _ _, rfl, code (by decide), rfl, ?_⟩
    refine ⟨blank _ _, rfl, code (by decide), rfl, ?_⟩
    exact ⟨trivial, rfl, code (by decide), rfl, trivial⟩
  rw [Script.minify, cut]
  rfl

/-- The text that each of the engines makes of the script. -/
def text (minifies : Bool) : Text :=
  if minifies then "x=1;".toList else "x = 1;".toList

theorem process_script (minifies : Bool) :
    Content.process minifies script.path (Utf8.encode "x = 1;".toList) = (text minifies, []) := by
  have kind : ContentKind.ofPath script.path = .script := by decide +kernel
  have decoded : Content.decode script.path (Utf8.encode "x = 1;".toList) =
      ("x = 1;".toList, []) := by
    cbv
  rw [Content.process, kind]
  simp only [decoded, minify_script]
  cases minifies <;> rfl

theorem load_of_fetch {minifies minifies' : Bool} {cache cache' : Cache}
    (fetched : ∀ state, state.cache = cache →
      ((engines minifies).loader.fetch scriptStore.source script).result state =
          .ok (text minifies') ∧
        (((engines minifies).loader.fetch scriptStore.source script).after state).cache = cache') :
    ((engines minifies).loadView scriptStore.source {} "a.js".toList).result { cache } =
        .ok (text minifies') ∧
      (((engines minifies).loadView scriptStore.source {} "a.js".toList).after { cache }).cache =
        cache' := by
  apply Engine.loadView_of_fetch (walk_script minifies) fetched
  · cases minifies' <;> cbv
  · cases minifies <;> cases minifies' <;> decide
  · cases minifies' <;> cbv

/-- An engine that finds the script in the cache comes to what is there. -/
theorem load_of_cached (minifies : Bool) {minifies' : Bool} {cache : Cache}
    (found : cache.find? script.key = some (text minifies')) :
    ((engines minifies).loadView scriptStore.source {} "a.js".toList).result { cache } =
      .ok (text minifies') := by
  have fetched : ∀ state, state.cache = cache →
      ((engines minifies).loader.fetch scriptStore.source script).result state =
          .ok (text minifies') ∧
        (((engines minifies).loader.fetch scriptStore.source script).after state).cache =
          { cache with hits := cache.hits + 1 } := by
    rintro state rfl
    rw [result, after, Loader.fetch_of_cached found]
    exact ⟨rfl, rfl⟩
  exact (load_of_fetch fetched).1

/-- An engine that does not find the script in the cache comes to its own text, and caches it. -/
theorem load_of_absent (minifies : Bool) :
    ((engines minifies).loadView scriptStore.source {} "a.js".toList).result {} =
        .ok (text minifies) ∧
      (((engines minifies).loadView scriptStore.source {} "a.js".toList).after {}).cache.find?
        script.key = some (text minifies) := by
  have processed : Content.process (engines minifies).loader.minify script.path
      (Utf8.encode "x = 1;".toList) = (text minifies, []) :=
    process_script minifies
  have fetched : ∀ state, state.cache = {} →
      ((engines minifies).loader.fetch scriptStore.source script).result state =
          .ok (text minifies) ∧
        (((engines minifies).loader.fetch scriptStore.source script).after state).cache =
          Cache.insert { misses := 1 } script.key (text minifies) := by
    intro state cache_eq
    have absent : state.cache.find? script.key = none := by
      rw [cache_eq]
      rfl
    rw [result, after, Loader.fetch_of_read absent read_script, processed, cache_eq]
    exact ⟨rfl, rfl⟩
  rcases load_of_fetch fetched with ⟨loaded, left⟩
  refine ⟨loaded, ?_⟩
  rw [left]
  exact Cache.find?_insert_self _ _ _

end Sharing

/-- An engine may share a cache with one that has other options, if there are no scripts. -/
theorem Engine.shared_eq_private_page :
    ((Sharing.engines false).loadView Sharing.pageStore.source {} "page".toList).result
        { cache := Turn.sharedCache Sharing.engines Sharing.pageTurns } =
      ((Sharing.engines false).loadView Sharing.pageStore.source {} "page".toList).result
        { cache := Turn.privateCache Sharing.engines Sharing.pageTurns false } := by
  apply ((shared_eq_private_iff Sharing.engines _ _ Sharing.distinct_page).mp
    Sharing.makeAlike_page Sharing.pageTurns false Sharing.pageStore.source {} "page".toList ?_).1
  intro files files_mem
  have files_eq : files = Sharing.pageStore.source := by
    simpa [Sharing.pageTurns] using files_mem
  rw [files_eq]
  exact Sharing.offers_page

/-- Sharing a cache shows: an engine that does not minify scripts comes to the script as another
one minified it. -/
theorem Engine.script_of_other_engine :
    ¬∀ (configs : Bool → Config) (engines : Bool → Engine) (versions : Set FileEntry)
      (outcome : FileEntry → Except FileFailure Bytes),
      (∀ own, ofConfig Path.rootDirectory (configs own) = .ok (engines own)) →
      Set.InjOn FileEntry.key versions →
      ∀ (turns : List (Turn Bool)) (own : Bool) (source : FileSource) (context : Context)
        (viewPath : Text),
        (∀ files ∈ source :: turns.map Turn.source, files.Offers versions outcome) →
        ((engines own).loadView source context viewPath).result
            { cache := Turn.sharedCache engines turns } =
          ((engines own).loadView source context viewPath).result
            { cache := Turn.privateCache engines turns own } := by
  intro same
  have distinct : Set.InjOn FileEntry.key {Sharing.script} := Set.injOn_singleton _ _
  have offers : Sharing.scriptStore.source.Offers {Sharing.script}
      fun entry => Sharing.scriptStore.source.read entry.path :=
    fun _ entry_mem => ⟨List.mem_singleton.mp entry_mem, rfl⟩
  have shared := Sharing.load_of_cached false (Sharing.load_of_absent true).2
  have own := (Sharing.load_of_absent false).1
  have eq := same Sharing.configs Sharing.engines {Sharing.script}
    (fun entry => Sharing.scriptStore.source.read entry.path) Sharing.ofConfig_engines distinct
    [⟨true, Sharing.scriptStore.source, .load {} "a.js".toList⟩] false Sharing.scriptStore.source
    {} "a.js".toList (by simpa using offers)
  have texts_eq : (.ok (Sharing.text true) : Except ViewFailure Text) = .ok (Sharing.text false) :=
    shared.symm.trans (eq.trans own)
  exact absurd texts_eq (by decide)

end Pageweave

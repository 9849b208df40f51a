import Mathlib
import Pageweave.Files.Flat
import Pageweave.Proofs.Guarded
import Pageweave.Proofs.ScriptJson

/-!
# Delivering data snapshots

The script block with the data of a context is put into a page before the page is scanned, so the
JSON text in it is scanned as well. The block reaches the reader of the page whole if the JSON text
is inert: no tag that begins in it is acted on, and no tag that begins before it ends in it
(`Loader.snapshot_of_expandEntry`). A context whose data have a substitution in them can be made to
end the script element (`Loader.snapshot_broken`).
-/

namespace Pageweave

/-- No tag that begins in the JSON text of a context is acted on, whatever follows the text, and no
tag that begins before the text ends in it. -/
structure Context.IsInert (context : Context) : Prop where
  begins : ∀ place rest tag after, place <:+ Snapshot.safeJson context → place ≠ [] →
    Tag.atStart? (place ++ rest) = some (tag, after) → context.PassesOver tag
  ends : ¬[':', ')'] <+: (Snapshot.safeJson context).dropWhile Tag.inBody

theorem Context.valueFor?_of_no_members {context : Context} (empty : context.members = [])
    (tag : Text) : context.valueFor? tag = none := by
  have missing : ∀ keyPath, context.resolve keyPath = .missing := by
    intro keyPath
    rw [resolve]
    split
    · rfl
    · rw [find?, empty, Members.find?]
  rw [valueFor?]
  split
  · rw [missing, Resolution.value?]
  · rfl

namespace Snapshot

variable {clientVariable : Text} {context : Context}

/-- The script block up to the JSON text. -/
def opening (clientVariable : Text) : Text :=
  "<script type=\"text/javascript\">window.".toList ++ clientVariable ++ " = ".toList

/-- The script block after the JSON text. -/
def closing : Text :=
  ";</script>\n".toList

theorem block_eq (clientVariable : Text) (context : Context) :
    block clientVariable context = opening clientVariable ++ (safeJson context ++ closing) :=
  List.append_assoc _ _ _

theorem safeJson_eq (context : Context) : safeJson context = Json.defuse context.toJson :=
  Json.replaceAll_eq_defuse context.toJson

/-- A character with which a tag neither begins nor ends. -/
def isInner (c : Char) : Bool :=
  Tag.inBody c && c ≠ '('

theorem inBody_of_isInner {part : Text} (inner : ∀ c ∈ part, isInner c = true) :
    ∀ c ∈ part, Tag.inBody c = true := by
  intro c c_mem
  have inside := inner c c_mem
  rw [isInner, Bool.and_eq_true] at inside
  exact inside.1

theorem isInner_of_isIdentifierCharacter {c : Char}
    (valid : Config.isIdentifierCharacter c = true) :
    isInner c = true := by
  by_contra outside
  have bracket : c = ':' ∨ c = ')' ∨ c = '(' := by
    simp only [isInner, Tag.inBody, ne_eq, decide_not, Bool.and_eq_true, Bool.not_eq_true',
      decide_eq_false_iff_not] at outside
    tauto
  rcases bracket with rfl | rfl | rfl <;> exact absurd valid (by decide)

theorem isInner_opening (valid : clientVariable.all Config.isIdentifierCharacter = true) :
    ∀ c ∈ opening clientVariable, isInner c = true := by
  have before : "<script type=\"text/javascript\">window.".toList.all isInner = true := by cbv
  have behind : " = ".toList.all isInner = true := by cbv
  intro c c_mem
  rcases List.mem_append.mp c_mem with c_mem | c_mem
  · rcases List.mem_append.mp c_mem with c_mem | c_mem
    · exact List.all_eq_true.mp before c c_mem
    · exact isInner_of_isIdentifierCharacter (List.all_eq_true.mp valid c c_mem)
  · exact List.all_eq_true.mp behind c c_mem

theorem isInner_closing : ∀ c ∈ closing, isInner c = true := by
  have inner : closing.all isInner = true := by cbv
  exact List.all_eq_true.mp inner

/-- A tag that begins in a text begins with one of its characters that are not inner ones. -/
theorem eq_of_atStart?_cons {c : Char} {rest tag after : Text}
    (found : Tag.atStart? (c :: rest) = some (tag, after)) : c = '(' := by
  have opened := Tag.begins_with_opening (Tag.isTag_of_atStart? found)
  have tag_prefix : tag <+: c :: rest := ⟨after, (Tag.append_of_atStart? found).symm⟩
  exact (List.cons_prefix_cons.mp (opened.trans tag_prefix)).1.symm

theorem exists_of_suffix_append {place first second : Text}
    (place_suffix : place <:+ first ++ second) :
    place <:+ second ∨ ∃ later, later ≠ [] ∧ later <:+ first ∧ place = later ++ second := by
  rcases place_suffix with ⟨front, same⟩
  rcases List.append_eq_append_iff.mp same with ⟨later, rfl, rfl⟩ | ⟨front', -, rfl⟩
  · by_cases nothing : later = []
    · exact Or.inl (by simp [nothing])
    · exact Or.inr ⟨later, nothing, List.suffix_append _ _, rfl⟩
  · exact Or.inl (List.suffix_append _ _)

section Block

variable (valid : clientVariable.all Config.isIdentifierCharacter = true)

include valid

/-- A tag that begins in the script block begins in its JSON text. -/
theorem exists_of_begins {place rest tag after : Text}
    (place_suffix : place <:+ block clientVariable context) (nonempty : place ≠ [])
    (found : Tag.atStart? (place ++ rest) = some (tag, after)) :
    ∃ later, later <:+ safeJson context ∧ later ≠ [] ∧ place = later ++ closing := by
  rcases place with _ | ⟨c, place⟩
  · exact absurd rfl nonempty
  have outer : isInner c = false := by
    rw [eq_of_atStart?_cons found]
    rfl
  have absent : ∀ part, (∀ d ∈ part, isInner d = true) → ∀ first, first ≠ [] → first <:+ part →
      first.head? ≠ some c := by
    intro part inner first _ first_suffix first_eq
    have inside := inner c (first_suffix.subset (List.mem_of_mem_head? first_eq))
    simp [outer] at inside
  rw [block_eq] at place_suffix
  rcases exists_of_suffix_append place_suffix with
    place_suffix | ⟨first, first_nonempty, first_suffix, place_eq⟩
  · rcases exists_of_suffix_append place_suffix with
      place_suffix | ⟨later, later_nonempty, later_suffix, place_eq⟩
    · exact absurd rfl (absent closing isInner_closing _ nonempty place_suffix)
    · exact ⟨later, later_suffix, later_nonempty, place_eq⟩
  · refine absurd ?_ (absent _ (isInner_opening valid) first first_nonempty first_suffix)
    rcases first with _ | ⟨d, first⟩
    · exact absurd rfl first_nonempty
    · exact congrArg some (List.cons.inj place_eq).1.symm

/-- The first member of a context has a colon, so no tag that begins before the script block ends
behind it. -/
theorem not_closing_dropWhile (inert : context.IsInert) (nonempty : context.members ≠ [])
    (rest : Text) :
    ¬[':', ')'] <+: (block clientVariable context ++ rest).dropWhile Tag.inBody := by
  rw [block_eq, List.append_assoc, List.append_assoc,
    List.dropWhile_append_of_pos (inBody_of_isInner (isInner_opening valid))]
  rcases (Json.spells_defuse_print (.object context.members)).exists_of_object with
    ⟨front, json_eq, colon⟩
  have safeJson_eq' : safeJson context = front ++ ['\x7d'] := (safeJson_eq context).trans json_eq
  have stops : front.dropWhile Tag.inBody ≠ [] := by
    intro nothing
    have inside := List.dropWhile_eq_nil_iff.mp nothing ':' (colon nonempty)
    simp [Tag.inBody] at inside
  have notClosing := inert.ends
  rw [safeJson_eq', List.dropWhile_append, if_neg (by simpa using stops)] at notClosing
  rw [safeJson_eq', List.append_assoc, List.dropWhile_append, if_neg (by simpa using stops)]
  rcases dropped : front.dropWhile Tag.inBody with _ | ⟨c, _ | ⟨d, left⟩⟩
  · exact absurd dropped stops
  · simp
  · rw [dropped] at notClosing
    simpa using notClosing

theorem guards_block (inert : context.IsInert) :
    context.Guards (block clientVariable context) where
  starts := ⟨'<', _, rfl, by decide⟩
  begins := by
    intro place rest tag after place_suffix nonempty found
    rcases exists_of_begins valid place_suffix nonempty found with
      ⟨later, later_suffix, later_nonempty, rfl⟩
    rw [List.append_assoc] at found
    exact inert.begins later (closing ++ rest) tag after later_suffix later_nonempty found
  ends := by
    by_cases empty : context.members = []
    · left
      refine ⟨?_, Context.valueFor?_of_no_members empty⟩
      have json_eq : safeJson context = "\x7b\x7d".toList := by
        rw [safeJson_eq, Context.toJson, empty]
        rfl
      have braces : "\x7b\x7d".toList.all Tag.inBody = true := by decide
      rw [block_eq, json_eq]
      intro c c_mem
      rcases List.mem_append.mp c_mem with c_mem | c_mem
      · exact inBody_of_isInner (isInner_opening valid) c c_mem
      · rcases List.mem_append.mp c_mem with c_mem | c_mem
        · exact List.all_eq_true.mp braces c c_mem
        · exact inBody_of_isInner isInner_closing c c_mem
    · right
      exact not_closing_dropWhile valid inert empty

/-- The script block of a context with members is not part of a tag. -/
theorem not_block_infix_tag (inert : context.IsInert) (nonempty : context.members ≠ []) {tag : Text}
    (isTag : IsTag tag) : ¬block clientVariable context <:+: tag := by
  rintro ⟨front, back, tag_eq⟩
  rw [List.append_assoc] at tag_eq
  have starts : front ≠ [] := by
    rintro rfl
    have opened := Tag.begins_with_opening isTag
    rw [← tag_eq] at opened
    have same := (List.cons_prefix_cons.mp opened).1
    cases same
  rw [← tag_eq] at isTag
  rcases Tag.exists_of_split isTag starts (by decide) with ⟨body, bodied, back_eq⟩
  apply not_closing_dropWhile valid inert nonempty back
  refine ⟨[], ?_⟩
  rw [show block clientVariable context ++ back = body ++ [':', ')'] from back_eq,
    Tag.dropWhile_inBody bodied]
  rfl

end Block

end Snapshot

/-- A context is inert if no tag can begin in its JSON text and no tag can end there. -/
theorem Context.isInert_of_not_mem {context : Context} (absent : '(' ∉ Snapshot.safeJson context)
    (ends : ¬[':', ')'] <+: (Snapshot.safeJson context).dropWhile Tag.inBody) :
    context.IsInert where
  begins := by
    intro place rest tag after place_suffix nonempty found
    rcases place with _ | ⟨c, place⟩
    · exact absurd rfl nonempty
    obtain rfl := Snapshot.eq_of_atStart?_cons found
    exact absurd (place_suffix.subset List.mem_cons_self) absent
  ends := ends

/-- A text has a script block whose JSON text does not end the script element and carries the data
of a context. -/
def Snapshot.IsDelivered (clientVariable : Text) (context : Context) (text : Text) : Prop :=
  ∃ front json back, text = front ++ (opening clientVariable ++ (json ++ (closing ++ back))) ∧
    ¬['<', '/'] <:+: json ∧ Json.Spells (.object context.members) json ∧
      Json.read? json = Json.read? context.toJson

theorem Snapshot.isDelivered_block (clientVariable : Text) (context : Context) (front back : Text) :
    IsDelivered clientVariable context (front ++ (block clientVariable context ++ back)) := by
  refine ⟨front, safeJson context, back, by rw [block_eq]; simp only [List.append_assoc], ?_⟩
  rw [safeJson_eq]
  exact ⟨Json.not_infix_defuse _, Json.spells_defuse_print _, Json.read?_defuse _⟩

theorem Config.all_of_fault? {config : Config} (valid : config.fault? = none) :
    config.clientVariable.all isIdentifierCharacter = true := by
  rw [fault?] at valid
  split at valid
  · cases valid
  · split at valid
    · cases valid
    · next faultless =>
        simp only [Bool.or_eq_true, Bool.not_eq_true', not_or, Bool.not_eq_false] at faultless
        exact faultless.2

namespace Loader

variable {loader : Loader} {source : FileSource} {context : Context} {load : Text → LoadM Text}
  {entry : FileEntry} {state : LoadState} {content text : Text}

/-- A file version that was not seen is expanded by scanning its content and splicing in the views
it includes. -/
theorem exists_splice_of_expandEntry (new : entry.key ∉ state.seen.keys)
    (fetched : (loader.fetch source entry).result (state.begin entry) = .ok content)
    (succeeds : (loader.expandEntry source context load entry).result state = .ok text) :
    ∃ start, (splice load
      (Scan.run context loader.maxSubstitutions (loader.embed context content)).text
      (Scan.run context loader.maxSubstitutions
        (loader.embed context content)).inclusions).result start = .ok text := by
  rw [LoadM.result, expandEntry_of_new new, ← LoadM.result, expandNew,
    LoadM.result_bind_of_ok fetched, LoadM.result_bind_of_ok (LoadM.result_record _ _),
    LoadM.result_bind_of_ok (LoadM.result_report _ _)] at succeeds
  exact ⟨_, succeeds⟩

theorem clientVariable_of_ofConfig {workingDirectory : Path} {config : Config}
    (valid : ofConfig workingDirectory config = .ok loader) :
    loader.clientVariable.all Config.isIdentifierCharacter = true := by
  rw [ofConfig] at valid
  split at valid
  · cases valid
  · next faultless =>
      cases valid
      exact Config.all_of_fault? faultless

/-- If a file has the anchor, its expansion has the script block with the data of an inert context.
A context without data can only be lost in an inclusion that goes around the whole block. -/
theorem snapshot_of_expandEntry {workingDirectory : Path} {config : Config} {before place : Text}
    (valid : ofConfig workingDirectory config = .ok loader) (new : entry.key ∉ state.seen.keys)
    (fetched : (loader.fetch source entry).result (state.begin entry) = .ok content)
    (anchored : Snapshot.splitAtAnchor? loader.contextAnchor (Snapshot.removeComments content) =
      some (before, place))
    (inert : context.IsInert)
    (apart : context.members = [] → ∀ tag path,
      (tag, path) ∈ (Scan.run context loader.maxSubstitutions
        (loader.embed context content)).inclusions →
      ¬Snapshot.block loader.clientVariable context <:+: tag)
    (succeeds : (loader.expandEntry source context load entry).result state = .ok text) :
    Snapshot.IsDelivered loader.clientVariable context text := by
  have identifier := clientVariable_of_ofConfig valid
  have guards := Snapshot.guards_block identifier inert
  have embedded : loader.embed context content =
      before ++ (Snapshot.block loader.clientVariable context ++ place) :=
    Snapshot.embed_of_some anchored
  rcases exists_splice_of_expandEntry new fetched succeeds with ⟨start, spliced⟩
  have tags : ∀ tag path, (tag, path) ∈ (Scan.run context loader.maxSubstitutions
      (loader.embed context content)).inclusions → IsTag tag ∧
        (Piece.tag tag).inclusion? ≠ none ∧
          ¬Snapshot.block loader.clientVariable context <:+: tag := by
    intro tag path mem
    have isTag := Scan.isTag_of_mem_inclusions mem
    refine ⟨isTag, by simp [Scan.inclusion?_of_mem_inclusions mem], ?_⟩
    by_cases empty : context.members = []
    · exact apart empty tag path mem
    · exact Snapshot.not_block_infix_tag identifier inert empty isTag
  -- The block stays whole in the scan and then in the splicing of the inclusions that it met.
  rcases guards.text_run loader.maxSubstitutions before place with ⟨front, back, scanned⟩
  rw [← embedded] at scanned
  rw [scanned] at spliced
  rcases guards.splice tags spliced with ⟨front', back', rfl⟩
  exact Snapshot.isDelivered_block loader.clientVariable context front' back'

end Loader

namespace Delivery

/-- A page that is nothing but an anchor. -/
def store : FlatStore where
  files := [
    { path := Path.ofString "/views/page", content := Utf8.encode "</head>".toList, modified := 1 }]

def entry : FileEntry :=
  ⟨Path.ofString "/views/page", 1⟩

def loader : Loader where
  root := ⟨Path.ofString "/views"⟩
  minify := true
  contextAnchor := "</head>".toList
  clientVariable := "viewData".toList
  maxSubstitutions := 4096

/-- A value that would end the script element. -/
def closing : Context where
  members := [("b".toList, .string "</b>".toList)]

/-- A value that asks for another one, which would end the script element. -/
def asking : Context where
  members := [("a".toList, .string "(:= b:)".toList), ("b".toList, .string "</script>".toList)]

theorem ofConfig_loader :
    Loader.ofConfig Path.rootDirectory { root := Path.ofString "views" } = .ok loader := by
  cbv

theorem anchored : Snapshot.splitAtAnchor? loader.contextAnchor
    (Snapshot.removeComments "</head>".toList) = some ([], "</head>".toList) := by
  rw [Snapshot.removeComments_of_none (by decide +kernel)]
  decide +kernel

theorem embed_eq (context : Context) : loader.embed context "</head>".toList =
    "<script type=\"text/javascript\">window.".toList ++ "viewData".toList ++ " = ".toList ++
      Snapshot.safeJson context ++ ";</script>\n".toList ++ "</head>".toList :=
  Snapshot.embed_of_some anchored

theorem result_fetch : (loader.fetch store.source entry).result (LoadState.begin {} entry) =
    .ok "</head>".toList := by
  cbv

theorem safeJson_closing :
    Snapshot.safeJson closing = "\x7b\"b\":\"<\\/b>\"\x7d".toList := by
  cbv

theorem isInert_closing : closing.IsInert := by
  apply Context.isInert_of_not_mem <;> rw [safeJson_closing] <;> simp [Tag.inBody]

theorem safeJson_asking : Snapshot.safeJson asking =
    "\x7b\"a\":\"(:= b:)\",\"b\":\"<\\/script>\"\x7d".toList := by
  cbv

theorem embed_closing : loader.embed closing "</head>".toList =
    "<script type=\"text/javascript\">window.viewData = \x7b\"b\":\"<\\/b>\"\x7d;</script>\n</head>".toList := by
  rw [embed_eq, safeJson_closing]
  simp only [← String.toList_append]
  rfl

theorem embed_asking : loader.embed asking "</head>".toList =
    "<script type=\"text/javascript\">window.viewData = \x7b\"a\":\"(:= b:)\",\"b\":\"<\\/script>\"\x7d;</script>\n</head>".toList := by
  rw [embed_eq, safeJson_asking]
  simp only [← String.toList_append]
  rfl

/-- The page with the value that was asked for in the JSON text. -/
def broken : Text :=
  "<script type=\"text/javascript\">window.viewData = \x7b\"a\":\"</script>\",\"b\":\"<\\/script>\"\x7d;</script>\n</head>".toList

theorem scan_closing :
    Scan.run closing loader.maxSubstitutions (loader.embed closing "</head>".toList) =
      ⟨[], loader.embed closing "</head>".toList⟩ := by
  apply Scan.run_of_none
  rw [embed_closing]
  cbv

theorem scan_asking :
    (Scan.run asking loader.maxSubstitutions (loader.embed asking "</head>".toList)).text = broken ∧
      (Scan.run asking loader.maxSubstitutions
        (loader.embed asking "</head>".toList)).inclusions = [] := by
  rw [embed_asking]
  constructor <;> cbv

theorem result_expandEntry {context : Context} {load : Text → LoadM Text} {text : Text}
    (scanned : (Scan.run context loader.maxSubstitutions
      (loader.embed context "</head>".toList)).text = text)
    (noInclusion : (Scan.run context loader.maxSubstitutions
      (loader.embed context "</head>".toList)).inclusions = []) :
    (loader.expandEntry store.source context load entry).result {} = .ok text := by
  rw [LoadM.result, Loader.expandEntry_of_read "</head>".toList List.not_mem_nil rfl (by cbv)
    (by cbv), scanned, noInclusion]
  rfl

theorem not_isDelivered_broken : ¬Snapshot.IsDelivered "viewData".toList asking broken := by
  rintro ⟨front, json, back, broken_eq, safe, -⟩
  have found : (∀ n ≤ broken.length,
        Snapshot.opening "viewData".toList <+: broken.drop n → n = 0) ∧
      ∀ n ≤ (broken.drop (Snapshot.opening "viewData".toList).length).length,
        Snapshot.closing <+: (broken.drop (Snapshot.opening "viewData".toList).length).drop n →
        ['<', '/'] <:+: (broken.drop (Snapshot.opening "viewData".toList).length).take n := by
    decide +kernel
  -- The only block begins the text, and wherever it may close, an element was closed before.
  rcases found with ⟨opens, closes⟩
  have front_eq : front = [] := by
    rw [← List.length_eq_zero_iff]
    apply opens front.length
    · rw [broken_eq, List.length_append]
      exact Nat.le_add_right _ _
    · rw [broken_eq, List.drop_left]
      exact List.prefix_append _ _
  rw [front_eq, List.nil_append] at broken_eq
  rw [broken_eq, List.drop_left] at closes
  have closed := closes json.length
  rw [List.drop_left, List.take_left] at closed
  refine safe (closed ?_ (List.prefix_append _ _))
  rw [List.length_append]
  exact Nat.le_add_right _ _

end Delivery

/-- The data of a context that has the end of an element in it reach the reader of a page. -/
theorem Loader.snapshot_of_expandEntry_closing :
    ofConfig Path.rootDirectory { root := Path.ofString "views" } = .ok Delivery.loader ∧
      (Delivery.loader.expandEntry Delivery.store.source Delivery.closing (fun _ => return [])
        Delivery.entry).result {} =
          .ok (Delivery.loader.embed Delivery.closing "</head>".toList) ∧
      Snapshot.IsDelivered "viewData".toList Delivery.closing
        (Delivery.loader.embed Delivery.closing "</head>".toList) := by
  have scanned : (Scan.run Delivery.closing Delivery.loader.maxSubstitutions
      (Delivery.loader.embed Delivery.closing "</head>".toList)).text =
        Delivery.loader.embed Delivery.closing "</head>".toList := by
    rw [Delivery.scan_closing]
    rfl
  have expanded : (Delivery.loader.expandEntry Delivery.store.source Delivery.closing
      (fun _ => return []) Delivery.entry).result {} = _ :=
    Delivery.result_expandEntry scanned (by rw [Delivery.scan_closing]; rfl)
  refine ⟨Delivery.ofConfig_loader, expanded, ?_⟩
  apply snapshot_of_expandEntry Delivery.ofConfig_loader List.not_mem_nil Delivery.result_fetch
    Delivery.anchored Delivery.isInert_closing _ expanded
  intro empty
  cases empty

/-- A value that is put into the JSON text of a context ends the script element. -/
theorem Loader.snapshot_broken :
    ¬∀ (workingDirectory : Path) (config : Config) (loader : Loader) (source : FileSource)
      (context : Context) (load : Text → LoadM Text) (entry : FileEntry) (state : LoadState)
      (content before place text : Text),
      ofConfig workingDirectory config = .ok loader → entry.key ∉ state.seen.keys →
      (loader.fetch source entry).result (state.begin entry) = .ok content →
      Snapshot.splitAtAnchor? loader.contextAnchor (Snapshot.removeComments content) =
        some (before, place) →
      (loader.expandEntry source context load entry).result state = .ok text →
      Snapshot.IsDelivered loader.clientVariable context text := by
  intro delivered
  apply Delivery.not_isDelivered_broken
  rcases Delivery.scan_asking with ⟨scanned, noInclusion⟩
  exact delivered _ _ Delivery.loader Delivery.store.source Delivery.asking (fun _ => return [])
    Delivery.entry {} _ _ _ _ Delivery.ofConfig_loader List.not_mem_nil Delivery.result_fetch
    Delivery.anchored (Delivery.result_expandEntry scanned noInclusion)

end Pageweave

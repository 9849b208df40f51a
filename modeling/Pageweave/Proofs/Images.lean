import Mathlib
import Pageweave.Files.Flat
import Pageweave.Proofs.Encoding
import Pageweave.Proofs.Insertion

/-!
# Inlined images

An image is cached as a `data:` address. Neither `(` nor `<` occurs in it, so no tag, comment or
anchor with a `<` is recognised in it, and everything that is done with a content after it was
processed leaves it as it is.
-/

namespace Pageweave

/-! ## Texts without `(` and `<` -/

/-- No other character is the same letter as `<`. -/
theorem eq_of_sameLetter_less {c : Char} (same : sameLetter '<' c = true) : c = '<' := by
  have above : foldRuns.all (fun run => decide ((60 : Int) < run.first + run.offset)) = true := by
    decide +kernel
  have unfolded : simpleFold '<' = '<' := by decide
  rw [sameLetter, unfolded, Bool.or_eq_true, decide_eq_true_eq, decide_eq_true_eq] at same
  rcases same with rfl | folded
  · rfl
  · rw [simpleFold] at folded
    split at folded
    · next run found =>
        have covered := List.find?_some found
        simp only [FoldRun.covers, Bool.and_eq_true, decide_eq_true_eq] at covered
        have bound := of_decide_eq_true
          (List.all_eq_true.mp above run (List.mem_of_find?_eq_some found))
        have code : (Char.ofNat (c.toNat + run.offset).toNat).toNat = 60 := by
          rw [← folded]
          rfl
        rw [Char.toNat_ofNat] at code
        split at code
        · omega
        · omega
    · exact folded.symm

section Inert

variable {text anchor : Text}

theorem Tag.not_infix_of_noOpening (noOpening : '(' ∉ text) (tag : Text) (isTag : IsTag tag) :
    ¬tag <:+: text := by
  intro inside
  have opening := Tag.begins_with_opening isTag
  exact noOpening (inside.subset (opening.subset List.mem_cons_self))

theorem Tag.first?_of_noOpening (noOpening : '(' ∉ text) : Tag.first? text = none := by
  cases found : Tag.first? text with
  | none => rfl
  | some parts =>
      rcases parts with ⟨before, tag, rest⟩
      have inside : tag <:+: text := ⟨before, rest, (Tag.append_of_first? found).symm⟩
      exact absurd inside (Tag.not_infix_of_noOpening noOpening tag (Tag.isTag_of_first? found))

theorem Snapshot.not_hasComment_of_noLess (noLess : '<' ∉ text) : ¬HasComment text := by
  rintro ⟨before, after, rfl, -⟩
  simp [commentOpening] at noLess

/-- An anchor with a `<` needs a `<` to be matched. -/
theorem Snapshot.not_matchesAnchor_of_noLess (anchored : '<' ∈ anchor) (noLess : '<' ∉ text)
    (place : Text) (place_suffix : place <:+ text) : ¬MatchesAnchor anchor place := by
  rintro ⟨start, rest, rfl, letters⟩
  have less_mem : '<' ∈ start := by
    clear place_suffix
    induction letters with
    | nil => exact anchored
    | cons same _ ih =>
        rcases List.mem_cons.mp anchored with rfl | anchored
        · rw [eq_of_sameLetter_less same]
          exact List.mem_cons_self
        · exact List.mem_cons_of_mem _ (ih anchored)
  exact noLess (place_suffix.subset (List.mem_append_left rest less_mem))

end Inert

/-! ## Addresses of images -/

/-- The extensions of images in lower case, with their media types. -/
def ContentKind.imageTypes : List (String × String) :=
  [("png", "image/png"), ("gif", "image/gif"), ("jpg", "image/jpeg"), ("jpeg", "image/jpeg")]

/-- The `data:` address with the bytes of an image. -/
def Content.dataAddress (mediaType : String) (bytes : Bytes) : Text :=
  "data:".toList ++ mediaType.toList ++ ";base64,".toList ++ Base64.standard bytes

section Image

variable {path : Path} {extension : Text} {mediaType : String} {bytes : Bytes}

theorem ContentKind.ofPath_of_imageType (named : path.extension? = some extension)
    (isImage : (String.ofList (extension.map Char.toLower), mediaType) ∈ imageTypes) :
    ofPath path = .image mediaType := by
  rw [ofPath, named, Option.getD_some, ofExtension]
  simp only [imageTypes, List.mem_cons, Prod.mk.injEq, List.not_mem_nil, or_false] at isImage
  rcases isImage with ⟨lower, rfl⟩ | ⟨lower, rfl⟩ | ⟨lower, rfl⟩ | ⟨lower, rfl⟩ <;>
  · rw [lower]
    rfl

theorem Content.process_image (kind : ContentKind.ofPath path = .image mediaType) (minify : Bool)
    (bytes : Bytes) : process minify path bytes = (dataAddress mediaType bytes, []) := by
  rw [process, kind, Base64.encode_eq_standard]
  rfl

theorem Content.not_mem_dataAddress {c : Char} (bytes : Bytes)
    (foreign : c ∉ "data:;base64,=".toList ++ Base64.alphabet) (absent : c ∉ mediaType.toList) :
    c ∉ dataAddress mediaType bytes := by
  intro c_mem
  change c ∈ "data:".toList ++ mediaType.toList ++ ";base64,".toList ++ Base64.standard bytes
    at c_mem
  rw [List.mem_append, List.mem_append, List.mem_append, ← Base64.encode_eq_standard] at c_mem
  apply foreign
  rw [List.mem_append]
  rcases c_mem with ((scheme | mediaType_mem) | marker) | encoded
  · exact Or.inl (List.mem_append_left ";base64,=".toList scheme)
  · exact absurd mediaType_mem absent
  · exact Or.inl (List.mem_append_right "data:".toList (List.mem_append_left ['='] marker))
  · rcases Base64.mem_encode bytes encoded with digit | rfl
    · exact Or.inr digit
    · exact Or.inl (by decide)

/-- An image comes to its address, and nothing is found in it. -/
theorem Content.noMarks_dataAddress
    (isImage : (String.ofList (extension.map Char.toLower), mediaType) ∈ ContentKind.imageTypes)
    (bytes : Bytes) : '(' ∉ dataAddress mediaType bytes ∧ '<' ∉ dataAddress mediaType bytes := by
  have absent : ∀ imageType ∈ ContentKind.imageTypes,
      '(' ∉ imageType.2.toList ∧ '<' ∉ imageType.2.toList := by
    decide
  have absent' := absent _ isImage
  exact ⟨not_mem_dataAddress bytes (by decide) absent'.1,
    not_mem_dataAddress bytes (by decide) absent'.2⟩

end Image

/-! ## Loading an image -/

namespace Loader

open LoadM

variable {loader : Loader} {source : FileSource} {context : Context} {load : Text → LoadM Text}
  {entry : FileEntry} {state : LoadState} {text : Text}

theorem embed_of_noLess (anchored : '<' ∈ loader.contextAnchor) (noLess : '<' ∉ text) :
    loader.embed context text = text := by
  apply Snapshot.embed_of_none
  · exact Snapshot.search_afterComment?_eq_none_iff.mpr (Snapshot.not_hasComment_of_noLess noLess)
  · exact Snapshot.splitAtAnchor?_eq_none_iff.mpr
      (Snapshot.not_matchesAnchor_of_noLess anchored noLess)

/-- An image that is read is cached as its address, and comes to it as it is. -/
theorem run_expandEntry_image {extension : Text} {mediaType : String} {bytes : Bytes}
    (named : entry.path.extension? = some extension)
    (isImage : (String.ofList (extension.map Char.toLower), mediaType) ∈ ContentKind.imageTypes)
    (anchored : '<' ∈ loader.contextAnchor) (new : entry.key ∉ state.seen.keys)
    (absent : state.cache.find? entry.key = none) (answer : source.read entry.path = .ok bytes) :
    (loader.expandEntry source context load entry).run.run state =
      (.ok (Content.dataAddress mediaType bytes),
        { cache := { state.cache with misses := state.cache.misses + 1 }.insert entry.key
            (Content.dataAddress mediaType bytes)
          seen := ⟨state.seen.keys ++ [entry.key]⟩
          accesses := state.accesses ++ [.expand entry, .fetch entry, .read entry.path,
            .scan entry (Content.dataAddress mediaType bytes)]
          log := state.log ++ [.detail (.stored entry.key)] }) := by
  rcases Content.noMarks_dataAddress isImage bytes with ⟨noOpening, noLess⟩
  have processed := Content.process_image (ContentKind.ofPath_of_imageType named isImage)
    loader.minify bytes
  have scanned : Scan.run context loader.maxSubstitutions (Content.dataAddress mediaType bytes) =
      ⟨[], Content.dataAddress mediaType bytes⟩ :=
    Scan.run_of_none (Tag.first?_of_noOpening noOpening)
  rw [expandEntry_of_read _ new absent answer processed, embed_of_noLess anchored noLess, scanned]
  rfl

/-- Whatever the settings and the data, an image that is read and was not seen before comes to the
`data:` address with its bytes in base64, from which they can be read back. No tag, no comment and
no anchor is found in it, and no notice is given: the log only gets the detail that the address goes
into the cache. -/
theorem expandEntry_image {extension : Text} {mediaType : String} {bytes : Bytes}
    (named : entry.path.extension? = some extension)
    (isImage : (String.ofList (extension.map Char.toLower), mediaType) ∈ ContentKind.imageTypes)
    (anchored : '<' ∈ loader.contextAnchor) (new : entry.key ∉ state.seen.keys)
    (absent : state.cache.find? entry.key = none) (answer : source.read entry.path = .ok bytes) :
    (loader.expandEntry source context load entry).run.run state =
      (.ok (Content.dataAddress mediaType bytes),
        { cache := { state.cache with misses := state.cache.misses + 1 }.insert entry.key
            (Content.dataAddress mediaType bytes)
          seen := ⟨state.seen.keys ++ [entry.key]⟩
          accesses := state.accesses ++ [.expand entry, .fetch entry, .read entry.path,
            .scan entry (Content.dataAddress mediaType bytes)]
          log := state.log ++ [.detail (.stored entry.key)] }) ∧
    ((loader.expandEntry source context load entry).after state).notices = state.notices ∧
    Base64.decode? (Base64.standard bytes) = some bytes ∧
    (∀ tag, IsTag tag → ¬tag <:+: Content.dataAddress mediaType bytes) ∧
    ¬Snapshot.HasComment (Content.dataAddress mediaType bytes) ∧
    ∀ place, place <:+ Content.dataAddress mediaType bytes →
      ¬Snapshot.MatchesAnchor loader.contextAnchor place := by
  rcases Content.noMarks_dataAddress isImage bytes with ⟨noOpening, noLess⟩
  have ran : (loader.expandEntry source context load entry).run.run state = _ :=
    run_expandEntry_image named isImage anchored new absent answer
  refine ⟨ran, ?_, ?_, Tag.not_infix_of_noOpening noOpening,
    Snapshot.not_hasComment_of_noLess noLess,
    Snapshot.not_matchesAnchor_of_noLess anchored noLess⟩
  · rw [after, ran]
    exact LoadState.notices_logged_details state [.stored entry.key]
  · rw [← Base64.encode_eq_standard]
    exact Base64.decode?_encode bytes

end Loader

namespace Images

/-- An image whose extension is written in mixed case. -/
def logo : FileEntry := ⟨Path.ofString "/views/Logo.PnG", 1⟩

/-- The bytes of the image, with the last two digits and padding in their base64 text. -/
def logoBytes : Bytes :=
  [0xFB, 0xFF, 0x01, 0x80]

/-- The image as a file. -/
def store : FlatStore where
  files := [{ path := logo.path, content := logoBytes, modified := logo.modified }]

/-- A loader of the image. -/
def loader : Loader where
  root := ⟨Path.ofString "/views"⟩
  minify := true
  contextAnchor := "</head>".toList
  clientVariable := "viewData".toList
  maxSubstitutions := 0

/-- Data for the image. -/
def context : Context :=
  ⟨[("n".toList, .string "7".toList)]⟩

theorem named : logo.path.extension? = some "PnG".toList := by
  cbv

theorem isImage : (String.ofList ("PnG".toList.map Char.toLower), "image/png") ∈
    ContentKind.imageTypes := by
  decide

theorem anchored : '<' ∈ loader.contextAnchor := by
  decide

theorem stored : store.source.read logo.path = .ok logoBytes := by
  cbv

end Images

/-- The image is put into its address. -/
theorem Loader.expandEntry_image_logo :
    Content.dataAddress "image/png" Images.logoBytes = "data:image/png;base64,+/8BgA==".toList ∧
    (Images.loader.expandEntry Images.store.source Images.context (fun _ => return [])
        Images.logo).run.run {} =
      (.ok (Content.dataAddress "image/png" Images.logoBytes),
        { cache := Cache.insert { misses := 1 } Images.logo.key
            (Content.dataAddress "image/png" Images.logoBytes)
          seen := ⟨[Images.logo.key]⟩
          accesses := [.expand Images.logo, .fetch Images.logo, .read Images.logo.path,
            .scan Images.logo (Content.dataAddress "image/png" Images.logoBytes)]
          log := [.detail (.stored Images.logo.key)] }) ∧
    Base64.decode? (Base64.standard Images.logoBytes) = some Images.logoBytes := by
  have new : Images.logo.key ∉ ({} : LoadState).seen.keys := List.not_mem_nil
  have absent : ({} : LoadState).cache.find? Images.logo.key = none := rfl
  rcases expandEntry_image Images.named Images.isImage Images.anchored new absent Images.stored with
    ⟨expanded, -, recovered, -⟩
  exact ⟨by decide +kernel, expanded, recovered⟩

/-- The image can be read, nothing is cached and the anchor has a `<` in it, but something is left in
the log: that its address goes into the cache. And once its version has been seen it does not come
to its address. -/
theorem Loader.image_leaves_detail :
    Images.logo.path.extension? = some "PnG".toList ∧ '<' ∈ Images.loader.contextAnchor ∧
    Images.store.source.read Images.logo.path = .ok Images.logoBytes ∧
    ((Images.loader.expandEntry Images.store.source Images.context (fun _ => return [])
        Images.logo).after {}).log ≠ [] ∧
    ((Images.loader.expandEntry Images.store.source Images.context (fun _ => return [])
        Images.logo).after {}).log.map LogEntry.message =
      ["View output data stored in cache: /views/Logo.PnG1".toList] ∧
    (Images.loader.expandEntry Images.store.source Images.context (fun _ => return [])
        Images.logo).result { seen := ⟨[Images.logo.key]⟩ } ≠
      .ok (Content.dataAddress "image/png" Images.logoBytes) := by
  have new : Images.logo.key ∉ ({} : LoadState).seen.keys := List.not_mem_nil
  have seen : Images.logo.key ∈ ({ seen := ⟨[Images.logo.key]⟩ } : LoadState).seen.keys :=
    List.mem_singleton_self _
  have absent : ({} : LoadState).cache.find? Images.logo.key = none := rfl
  have log_eq : ((Images.loader.expandEntry Images.store.source Images.context
      (fun _ => return []) Images.logo).after {}).log = [.detail (.stored Images.logo.key)] := by
    rw [LoadM.after, run_expandEntry_image Images.named Images.isImage Images.anchored new absent
      Images.stored]
    rfl
  refine ⟨Images.named, Images.anchored, Images.stored, ?_, ?_, ?_⟩
  · rw [log_eq]
    exact List.cons_ne_nil _ _
  · rw [log_eq]
    decide
  · rw [LoadM.result, expandEntry_of_seen seen]
    decide +kernel

end Pageweave

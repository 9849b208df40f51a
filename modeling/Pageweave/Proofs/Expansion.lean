import Mathlib
import Pageweave.Files.Flat
import Pageweave.Proofs.Nesting
import Pageweave.Proofs.Pieces
import Pageweave.Proofs.Provenance

/-!
# Loading is macro expansion

A load puts the values of substitutions into a text that it goes on scanning, and puts included
views in place of their tags wherever these stand in the text. `Expansion` does neither: the
content of a file is cut once into pieces, and the pieces are written out from left to right.

Both come to the same on plain contents, those in which no tag comes about that was not there. In
the proof the text at hand is kept as plain pieces. The ones that are done are settled, that is, no
inclusions, so replacing the tag of an inclusion leaves them alone. An inclusion that stands a
second time was put in place together with the first one; the load of it is spent.
-/

namespace Pageweave

open LoadM

namespace Expansion

/-- Writes out the pieces of a content from left to right. At most `limit` substitutions are made,
`expand` gives the text for an inclusion, and `known` holds the texts for the tags of those that
were written before. -/
def write (context : Context) (expand : Text → LoadM Text) :
    (limit : Nat) → (known : List (Text × Text)) → List Piece → LoadM Text
  | _, _, [] => return []
  | limit, known, .literal written :: pieces => do
      let rest ← write context expand limit known pieces
      return written ++ rest
  | limit, known, .tag written :: pieces =>
      match Directive.ofTag? written with
      | none => do
          let rest ← write context expand limit known pieces
          return written ++ rest
      | some (.substitution _ keyPath) =>
          match limit, (context.resolve keyPath).value? with
          | limit + 1, some value => do
              let rest ← write context expand limit known pieces
              return value.interpolated ++ rest
          | limit, _ => do
              let rest ← write context expand limit known pieces
              return written ++ rest
      | some (.inclusion _ path) =>
          match known.lookup written with
          | some included => do
              let rest ← write context expand limit known pieces
              return included ++ rest
          | none => do
              let included ← expand path
              let rest ← write context expand limit ((written, included) :: known) pieces
              return included ++ rest

/-- The expansion of a file version, which is empty if its key was seen before. -/
def expandEntry (loader : Loader) (source : FileSource) (context : Context)
    (expand : Text → LoadM Text) (entry : FileEntry) : LoadM Text := do
  if ← LoadM.markSeen entry.key then
    let content ← loader.fetch source entry
    write context expand loader.maxSubstitutions [] (Tag.cut (loader.embed context content))
  else
    return []

/-- The expansion of the view at a path, where at most `nesting` expansions may be nested. -/
def within (loader : Loader) (source : FileSource) (context : Context) :
    (nesting : Nat) → (viewPath : Text) → LoadM Text
  | 0, _ => return []
  | nesting + 1, viewPath => do
      let path := loader.root.resolve viewPath
      let entries ← LoadM.walk source (.loading path) path
      entries.foldlM (fun output entry => do
        let expansion ← expandEntry loader source context (within loader source context nesting)
          entry
        return output ++ expansion) []

/-- In the text of a file all literals between the tags are quiet, and so are all values that are
put in place of tags. -/
structure IsPlain (context : Context) (limit : Nat) (text : Text) : Prop where
  literals : ∀ written, .literal written ∈ Tag.cut text → written.IsQuiet
  values : (Scan.run context limit text).HasQuietValues

/-! ## Writing -/

section Write

variable {context : Context} {expand : Text → LoadM Text} {limit : Nat}
  {known : List (Text × Text)} {written path : Text}

theorem write_literal (pieces : List Piece) :
    write context expand limit known (.literal written :: pieces) =
      write context expand limit known pieces >>= fun rest => pure (written ++ rest) := rfl

/-- A tag gives way to a value or is an inclusion or stays. -/
theorem write_tag (pieces : List Piece) :
    write context expand limit known (.tag written :: pieces) =
      match limit, context.valueFor? written, (Piece.tag written).inclusion? with
      | limit + 1, some value, _ =>
          write context expand limit known pieces >>= fun rest =>
            pure (value.interpolated ++ rest)
      | limit, _, none =>
          write context expand limit known pieces >>= fun rest => pure (written ++ rest)
      | limit, _, some (_, path) =>
          match known.lookup written with
          | some included =>
              write context expand limit known pieces >>= fun rest => pure (included ++ rest)
          | none =>
              expand path >>= fun included =>
                write context expand limit ((written, included) :: known) pieces >>= fun rest =>
                  pure (included ++ rest) := by
  rw [write]
  simp only [Context.valueFor?, Piece.inclusion?]
  cases Directive.ofTag? written with
  | none => cases limit <;> rfl
  | some directive =>
      cases directive with
      | inclusion _ path => cases limit <;> rfl
      | substitution _ keyPath =>
          cases limit with
          | zero => rfl
          | succ limit =>
              dsimp only
              cases (context.resolve keyPath).value? <;> rfl

theorem write_tag_of_some {value : Value} (found : context.valueFor? written = some value)
    (pieces : List Piece) :
    write context expand (limit + 1) known (.tag written :: pieces) =
      write context expand limit known pieces >>= fun rest =>
        pure (value.interpolated ++ rest) := by
  rw [write_tag, found]

theorem write_tag_of_stays (stays : limit = 0 ∨ context.valueFor? written = none)
    (other : (Piece.tag written).inclusion? = none) (pieces : List Piece) :
    write context expand limit known (.tag written :: pieces) =
      write context expand limit known pieces >>= fun rest => pure (written ++ rest) := by
  rw [write_tag, other]
  rcases stays with rfl | absent
  · rfl
  · rw [absent]
    cases limit <;> rfl

theorem write_inclusion_of_known {included : Text}
    (inclusion : (Piece.tag written).inclusion? = some (written, path))
    (before : known.lookup written = some included) (pieces : List Piece) :
    write context expand limit known (.tag written :: pieces) =
      write context expand limit known pieces >>= fun rest => pure (included ++ rest) := by
  rw [write_tag, Piece.valueFor?_of_inclusion inclusion, inclusion]
  cases limit <;> simp only [before]

theorem write_inclusion_of_new
    (inclusion : (Piece.tag written).inclusion? = some (written, path))
    (new : known.lookup written = none) (pieces : List Piece) :
    write context expand limit known (.tag written :: pieces) =
      expand path >>= fun included =>
        write context expand limit ((written, included) :: known) pieces >>= fun rest =>
          pure (included ++ rest) := by
  rw [write_tag, Piece.valueFor?_of_inclusion inclusion, inclusion]
  cases limit <;> simp only [new]

/-- Without substitutions, a piece that is no inclusion is written as it is. -/
theorem write_of_no_inclusion {piece : Piece} (other : piece.inclusion? = none)
    (pieces : List Piece) :
    write context expand 0 known (piece :: pieces) =
      write context expand 0 known pieces >>= fun rest => pure (piece.text ++ rest) := by
  cases piece with
  | literal written => rfl
  | tag written => exact write_tag_of_stays (Or.inl rfl) other pieces

/-- Substituting first and writing then comes to the same as substituting while writing. -/
theorem write_eq_write_substitute (context : Context) (expand : Text → LoadM Text) (limit : Nat)
    (known : List (Text × Text)) (pieces : List Piece) :
    write context expand limit known pieces =
      write context expand 0 known (Piece.substitute context limit pieces) := by
  induction pieces generalizing limit known with
  | nil => rfl
  | cons piece pieces ih =>
      cases piece with
      | literal written =>
          rw [write_literal, Piece.substitute, write_literal, ih]
      | tag written =>
          rcases exists_or_stays context limit written with
            ⟨limit', value, rfl, found⟩ | stays
          · rw [write_tag_of_some found, Piece.substitute_tag_of_some found, write_literal, ih]
          · rw [Piece.substitute_tag_of_none stays]
            cases inclusion : (Piece.tag written).inclusion? with
            | none =>
                rw [write_tag_of_stays stays inclusion, write_tag_of_stays (Or.inl rfl) inclusion,
                  ih]
            | some found =>
                rcases Piece.eq_of_inclusion? inclusion with ⟨path, rfl⟩
                cases before : known.lookup written with
                | some included =>
                    rw [write_inclusion_of_known inclusion before,
                      write_inclusion_of_known inclusion before, ih]
                | none =>
                    rw [write_inclusion_of_new inclusion before,
                      write_inclusion_of_new inclusion before]
                    simp only [ih]

end Write

/-! ## Texts at hand -/

/-- The texts of the pieces that are known for tags. -/
def texts (known : List (Text × List Piece)) : List (Text × Text) :=
  known.map fun (tag, pieces) => (tag, Piece.assemble pieces)

theorem lookup_texts (known : List (Text × List Piece)) (tag : Text) :
    (texts known).lookup tag = (known.lookup tag).map Piece.assemble := by
  induction known with
  | nil => rfl
  | cons entry known ih =>
      rcases entry with ⟨other, pieces⟩
      rw [texts, List.map_cons, List.lookup_cons, List.lookup_cons, ← texts, ih]
      cases tag == other <;> rfl

/-- The pieces that stand in the text at hand for a piece not yet written. -/
def place (known : List (Text × List Piece)) : Piece → List Piece
  | .literal written => [.literal written]
  | .tag written => (known.lookup written).getD [.tag written]

theorem flatMap_place_nil (pieces : List Piece) : pieces.flatMap (place []) = pieces := by
  have place_eq : place [] = List.singleton := by
    funext piece
    cases piece <;> rfl
  rw [place_eq]
  exact List.flatMap_singleton' pieces

/-- The tags of some inclusions with the pieces that they expand to. -/
def IsKnown (load : Text → LoadM Text) (state : LoadState) (known : List (Text × List Piece)) :
    Prop :=
  ∀ tag pieces, known.lookup tag = some pieces →
    (∀ piece ∈ pieces, piece.IsSettled) ∧
      ∃ path, (Piece.tag tag).inclusion? = some (tag, path) ∧ Loader.Spent (load path) state

theorem isKnown_nil (load : Text → LoadM Text) (state : LoadState) : IsKnown load state [] := by
  intro tag pieces found
  cases found

theorem IsKnown.of_precedes {load : Text → LoadM Text} {state later : LoadState}
    {known : List (Text × List Piece)} (isKnown : IsKnown load state known)
    (precedes : LoadState.Precedes state later) : IsKnown load later known := by
  intro tag pieces found
  rcases isKnown tag pieces found with ⟨settled, path, inclusion, spent⟩
  exact ⟨settled, path, inclusion, spent.of_precedes precedes⟩

theorem settled_append {pieces pieces' : List Piece} (settled : ∀ piece ∈ pieces, piece.IsSettled)
    (settled' : ∀ piece ∈ pieces', piece.IsSettled) :
    ∀ piece ∈ pieces ++ pieces', piece.IsSettled := by
  intro piece piece_mem
  rcases List.mem_append.mp piece_mem with piece_mem | piece_mem
  · exact settled piece piece_mem
  · exact settled' piece piece_mem

theorem IsKnown.cons {load : Text → LoadM Text} {state : LoadState} {tag path : Text}
    {included : List Piece} {known : List (Text × List Piece)} (isKnown : IsKnown load state known)
    (settled : ∀ piece ∈ included, piece.IsSettled)
    (inclusion : (Piece.tag tag).inclusion? = some (tag, path))
    (spent : Loader.Spent (load path) state) : IsKnown load state ((tag, included) :: known) := by
  intro other pieces found
  rw [List.lookup_cons] at found
  by_cases same : other = tag
  · subst same
    rw [beq_self_eq_true, Option.some.injEq] at found
    subst found
    exact ⟨settled, path, inclusion, spent⟩
  · rw [beq_false_of_ne same] at found
    exact isKnown other pieces found

/-- Settled pieces do not contain the tag of an inclusion. -/
theorem tag_not_mem_of_settled {tag path : Text} {pieces : List Piece}
    (inclusion : (Piece.tag tag).inclusion? = some (tag, path))
    (settled : ∀ piece ∈ pieces, piece.IsSettled) : Piece.tag tag ∉ pieces := by
  intro tag_mem
  have none_found := (settled _ tag_mem).2
  rw [inclusion] at none_found
  cases none_found

theorem place_of_no_inclusion {load : Text → LoadM Text} {state : LoadState}
    {known : List (Text × List Piece)} (isKnown : IsKnown load state known) {piece : Piece}
    (other : piece.inclusion? = none) : place known piece = [piece] := by
  cases piece with
  | literal written => rfl
  | tag written =>
      rw [place]
      cases found : known.lookup written with
      | none => rfl
      | some pieces =>
          rcases isKnown _ _ found with ⟨-, path, inclusion, -⟩
          rw [inclusion] at other
          cases other

/-- Once it is known what a tag expands to, the tag stands nowhere in the text at hand. -/
theorem tag_not_mem_place {load : Text → LoadM Text} {state : LoadState} {tag path : Text}
    {known : List (Text × List Piece)} (isKnown : IsKnown load state known)
    (inclusion : (Piece.tag tag).inclusion? = some (tag, path)) {pieces' : List Piece}
    (before : known.lookup tag = some pieces') (pieces : List Piece) :
    Piece.tag tag ∉ pieces.flatMap (place known) := by
  intro tag_mem
  rcases List.mem_flatMap.mp tag_mem with ⟨piece, -, tag_mem'⟩
  cases piece with
  | literal written => simp [place] at tag_mem'
  | tag written =>
      rw [place] at tag_mem'
      cases found : known.lookup written with
      | none =>
          rw [found, Option.getD_none, List.mem_singleton, Piece.tag.injEq] at tag_mem'
          rw [← tag_mem', before] at found
          cases found
      | some pieces' =>
          rw [found, Option.getD_some] at tag_mem'
          exact tag_not_mem_of_settled inclusion (isKnown _ _ found).1 tag_mem'

/-- Replacing a tag in the text at hand is to learn what it expands to. -/
theorem fill_place {load : Text → LoadM Text} {state : LoadState} {tag path : Text}
    {known : List (Text × List Piece)} (isKnown : IsKnown load state known)
    (inclusion : (Piece.tag tag).inclusion? = some (tag, path))
    (new : known.lookup tag = none) (replacement pieces : List Piece) :
    Piece.fill tag replacement (pieces.flatMap (place known)) =
      pieces.flatMap (place ((tag, replacement) :: known)) := by
  rw [Piece.fill, List.flatMap_assoc]
  congr 1
  funext piece
  rw [← Piece.fill]
  cases piece with
  | literal written => exact Piece.fill_of_not_mem (by simp [place])
  | tag written =>
      rw [place, place, List.lookup_cons]
      by_cases same : written = tag
      · subst same
        rw [new]
        simp [Piece.fill]
      · rw [beq_false_of_ne same]
        apply Piece.fill_of_not_mem
        cases found : known.lookup written with
        | none => simpa using Ne.symm same
        | some pieces' => exact tag_not_mem_of_settled inclusion (isKnown _ _ found).1

theorem plain_place {load : Text → LoadM Text} {state : LoadState}
    {known : List (Text × List Piece)} (isKnown : IsKnown load state known) {pieces : List Piece}
    (plain : ∀ piece ∈ pieces, piece.IsPlain) :
    ∀ piece ∈ pieces.flatMap (place known), piece.IsPlain := by
  intro piece piece_mem
  rcases List.mem_flatMap.mp piece_mem with ⟨origin, origin_mem, piece_mem'⟩
  have origin_plain := plain origin origin_mem
  cases origin with
  | literal written =>
      rw [place, List.mem_singleton] at piece_mem'
      exact piece_mem' ▸ origin_plain
  | tag written =>
      rw [place] at piece_mem'
      cases found : known.lookup written with
      | none =>
          rw [found, Option.getD_none, List.mem_singleton] at piece_mem'
          exact piece_mem' ▸ origin_plain
      | some pieces' =>
          rw [found, Option.getD_some] at piece_mem'
          exact ((isKnown _ _ found).1 piece piece_mem').1

/-- The tag of an inclusion that was put in place before is found nowhere. -/
theorem replaceAll_of_known {load : Text → LoadM Text} {state : LoadState} {tag path : Text}
    {known : List (Text × List Piece)} (isKnown : IsKnown load state known) (isTag : IsTag tag)
    (inclusion : (Piece.tag tag).inclusion? = some (tag, path)) {included : List Piece}
    (before : known.lookup tag = some included) {front pieces : List Piece}
    (settled : ∀ piece ∈ front, piece.IsSettled) (plain : ∀ piece ∈ pieces, piece.IsPlain) :
    Text.replaceAll tag [] (Piece.assemble (front ++ pieces.flatMap (place known))) =
      Piece.assemble (front ++ pieces.flatMap (place known)) := by
  have absent : Piece.tag tag ∉ front ++ pieces.flatMap (place known) := by
    rw [List.mem_append]
    rintro (tag_mem | tag_mem)
    · exact tag_not_mem_of_settled inclusion settled tag_mem
    · exact tag_not_mem_place isKnown inclusion before pieces tag_mem
  have plain' : ∀ piece ∈ front ++ pieces.flatMap (place known), piece.IsPlain := by
    intro piece piece_mem
    rcases List.mem_append.mp piece_mem with piece_mem | piece_mem
    · exact (settled piece piece_mem).1
    · exact plain_place isKnown plain piece piece_mem
  rw [← Piece.assemble_nil, Piece.replaceAll_assemble isTag [] plain', Piece.fill_of_not_mem absent]

/-- The tag of an inclusion that is met first is replaced here and wherever it stands further on. -/
theorem replaceAll_of_new {load : Text → LoadM Text} {state : LoadState} {tag path : Text}
    {known : List (Text × List Piece)} (isKnown : IsKnown load state known) (isTag : IsTag tag)
    (inclusion : (Piece.tag tag).inclusion? = some (tag, path))
    (new : known.lookup tag = none) (included : List Piece) {front pieces : List Piece}
    (settled : ∀ piece ∈ front, piece.IsSettled) (plain : ∀ piece ∈ pieces, piece.IsPlain) :
    Text.replaceAll tag (Piece.assemble included)
        (Piece.assemble (front ++ .tag tag :: pieces.flatMap (place known))) =
      Piece.assemble ((front ++ included) ++
        pieces.flatMap (place ((tag, included) :: known))) := by
  have plain' : ∀ piece ∈ front ++ .tag tag :: pieces.flatMap (place known), piece.IsPlain := by
    intro piece piece_mem
    rw [List.mem_append, List.mem_cons] at piece_mem
    rcases piece_mem with piece_mem | rfl | piece_mem
    · exact (settled piece piece_mem).1
    · exact isTag
    · exact plain_place isKnown plain piece piece_mem
  have front_eq : Piece.fill tag included front = front :=
    Piece.fill_of_not_mem (tag_not_mem_of_settled inclusion settled)
  have rest_eq := fill_place isKnown inclusion new included pieces
  rw [Piece.replaceAll_assemble isTag included plain', Piece.fill_append, front_eq,
    Piece.fill_cons_self, rest_eq, List.append_assoc]

/-! ## Splicing -/

/-- The seen keys and the cache are the same. -/
def Alike (first second : LoadState) : Prop :=
  second.seen = first.seen ∧ second.cache = first.cache

/-- A text is `front` with the text that was written after it, which has settled pieces. -/
def Completes (front : List Piece) (text written : Text) : Prop :=
  ∃ pieces, (∀ piece ∈ pieces, piece.IsSettled) ∧ written = Piece.assemble pieces ∧
    text = Piece.assemble (front ++ pieces)

theorem Completes.of_append {front middle : List Piece} {text written : Text}
    (settled : ∀ piece ∈ middle, piece.IsSettled)
    (completes : Completes (front ++ middle) text written) :
    Completes front text (Piece.assemble middle ++ written) := by
  rcases completes with ⟨pieces, settled', written_eq, text_eq⟩
  refine ⟨middle ++ pieces, settled_append settled settled', ?_, ?_⟩
  · rw [written_eq, Piece.assemble_append]
  · rw [text_eq, List.append_assoc]

section Splice

variable {admissible : LoadState → Prop} {context : Context} {load expand : Text → LoadM Text}

/-- The texts for inclusions that a load gives and an expansion gives are the same and have settled
pieces, and a load that has succeeded is spent. -/
structure Expands (admissible : LoadState → Prop) (load expand : Text → LoadM Text) : Prop where
  agrees : ∀ path, Agree admissible Alike (Completes []) (load path) (expand path)
  earlier : ∀ path, Keeps (Reflects admissible) (load path)
  grows : ∀ path, Keeps LoadState.Precedes (load path)
  spends : ∀ path state text, (load path).result state = .ok text →
    Loader.Spent (load path) ((load path).after state)

/-- Splicing the text at hand agrees with writing the pieces that it stands for, behind any settled
pieces and with anything known. -/
def Splices (admissible : LoadState → Prop) (context : Context) (load expand : Text → LoadM Text)
    (pieces : List Piece) : Prop :=
  ∀ front known s t, (∀ piece ∈ front, piece.IsSettled) → IsKnown load s known → Alike s t →
    AgreeFrom admissible Alike (Completes front)
      (Loader.splice load (Piece.assemble (front ++ pieces.flatMap (place known)))
        (pieces.filterMap Piece.inclusion?))
      (write context expand 0 (texts known) pieces) s t

theorem splices_cons_of_settled {piece : Piece} {pieces : List Piece} (settled : piece.IsSettled)
    (rest : Splices admissible context load expand pieces) :
    Splices admissible context load expand (piece :: pieces) := by
  intro front known s t settledFront isKnown start
  have settled' : ∀ other ∈ [piece], other.IsSettled := by
    intro other other_mem
    rw [List.mem_singleton.mp other_mem]
    exact settled
  rw [List.flatMap_cons, List.filterMap_cons_none settled.2, write_of_no_inclusion settled.2,
    place_of_no_inclusion isKnown settled.2, ← List.append_assoc]
  apply agreeFrom_map_right
  · exact rest _ known s t (settled_append settledFront settled') isKnown start
  · intro text written completes
    simpa using completes.of_append settled'

/-- An inclusion that was met before is written again; its tag is found nowhere, since it was
replaced everywhere, and the load of it changes nothing. -/
theorem splices_inclusion_of_known {tag path : Text} {pieces : List Piece} (isTag : IsTag tag)
    (inclusion : (Piece.tag tag).inclusion? = some (tag, path))
    (expands : Expands admissible load expand) (plain : ∀ piece ∈ pieces, piece.IsPlain)
    (rest : Splices admissible context load expand pieces) {front included : List Piece}
    {known : List (Text × List Piece)} {s t : LoadState}
    (settledFront : ∀ piece ∈ front, piece.IsSettled) (isKnown : IsKnown load s known)
    (start : Alike s t) (before : known.lookup tag = some included) :
    AgreeFrom admissible Alike (Completes front)
      (Loader.splice load (Piece.assemble (front ++ (included ++ pieces.flatMap (place known))))
        ((tag, path) :: pieces.filterMap Piece.inclusion?))
      (write context expand 0 (texts known) (.tag tag :: pieces)) s t := by
  rcases isKnown _ _ before with ⟨settled, path', inclusion', spent⟩
  rw [inclusion] at inclusion'
  cases inclusion'
  rcases spent s (List.Subset.refl _) with ⟨loaded, seen_eq, cache_eq⟩
  have settled' := settled_append settledFront settled
  have before' : (texts known).lookup tag = some (Piece.assemble included) := by
    rw [lookup_texts, before, Option.map_some]
  rw [Loader.splice_cons, ← List.append_assoc, write_inclusion_of_known inclusion before']
  apply agreeFrom_bind_left loaded
  rw [replaceAll_of_known isKnown isTag inclusion before settled' plain]
  apply agreeFrom_map_right
  · apply rest _ known _ t settled'
    · exact isKnown.of_precedes (expands.grows path s)
    · exact ⟨start.1.trans seen_eq.symm, start.2.trans cache_eq.symm⟩
  · intro text written completes
    exact completes.of_append settled

/-- An inclusion that is met first is loaded, and replaced wherever its tag stands. -/
theorem splices_inclusion_of_new {tag path : Text} {pieces : List Piece} (isTag : IsTag tag)
    (inclusion : (Piece.tag tag).inclusion? = some (tag, path))
    (expands : Expands admissible load expand) (plain : ∀ piece ∈ pieces, piece.IsPlain)
    (rest : Splices admissible context load expand pieces) {front : List Piece}
    {known : List (Text × List Piece)} {s t : LoadState}
    (settledFront : ∀ piece ∈ front, piece.IsSettled) (isKnown : IsKnown load s known)
    (start : Alike s t) (new : known.lookup tag = none) :
    AgreeFrom admissible Alike (Completes front)
      (Loader.splice load (Piece.assemble (front ++ .tag tag :: pieces.flatMap (place known)))
        ((tag, path) :: pieces.filterMap Piece.inclusion?))
      (write context expand 0 (texts known) (.tag tag :: pieces)) s t := by
  have new' : (texts known).lookup tag = none := by
    rw [lookup_texts, new, Option.map_none]
  rw [Loader.splice_cons, write_inclusion_of_new inclusion new']
  apply agreeFrom_bind (expands.agrees path s t start)
  · rintro _ _ loaded ⟨included, settled, rfl, rfl⟩ start'
    rw [List.nil_append, replaceAll_of_new isKnown isTag inclusion new included settledFront plain]
    apply agreeFrom_map_right
    · apply rest _ ((tag, included) :: known) _ _ (settled_append settledFront settled) _ start'
      apply (isKnown.of_precedes (expands.grows path s)).cons settled inclusion
      exact expands.spends path s _ loaded
    · intro text written completes
      exact completes.of_append settled
  · intro included
    exact Loader.keeps_splice expands.earlier _ _

/-- Splicing the text of plain pieces agrees with writing them, by induction on the pieces. -/
theorem splices_of_plain (expands : Expands admissible load expand) {pieces : List Piece}
    (plain : ∀ piece ∈ pieces, piece.IsPlain) :
    Splices admissible context load expand pieces := by
  induction pieces with
  | nil =>
      intro front known s t settledFront isKnown start _
      exact ⟨⟨[], by simp, rfl, rfl⟩, start⟩
  | cons piece pieces ih =>
      rcases List.forall_mem_cons.mp plain with ⟨here, plain'⟩
      cases inclusion : piece.inclusion? with
      | none => exact splices_cons_of_settled ⟨here, inclusion⟩ (ih plain')
      | some found =>
          cases piece with
          | literal written => cases inclusion
          | tag written =>
              rcases Piece.eq_of_inclusion? inclusion with ⟨path, rfl⟩
              intro front known s t settledFront isKnown start
              rw [List.flatMap_cons, List.filterMap_cons_some inclusion, place]
              cases before : known.lookup written with
              | some included =>
                  exact splices_inclusion_of_known here inclusion expands plain' (ih plain')
                    settledFront isKnown start before
              | none =>
                  exact splices_inclusion_of_new here inclusion expands plain' (ih plain')
                    settledFront isKnown start before

theorem agree_splice_write (expands : Expands admissible load expand) {pieces : List Piece}
    (plain : ∀ piece ∈ pieces, piece.IsPlain) :
    Agree admissible Alike (Completes [])
      (Loader.splice load (Piece.assemble pieces) (pieces.filterMap Piece.inclusion?))
      (write context expand 0 [] pieces) := by
  intro s t start
  have placed : pieces = [] ++ pieces.flatMap (place []) := (flatMap_place_nil pieces).symm
  rw [congrArg Piece.assemble placed]
  exact splices_of_plain expands plain [] [] s t (by simp) (isKnown_nil load s) start

end Splice

/-! ## Scanning -/

/-- The pieces of a plain text, with values in place of tags, are what a scan leaves of it. -/
theorem IsPlain.scan_eq {context : Context} {limit : Nat} {text : Text}
    (plain : IsPlain context limit text) :
    (Scan.run context limit text).text =
        Piece.assemble (Piece.substitute context limit (Tag.cut text)) ∧
      (Scan.run context limit text).inclusions =
        (Piece.substitute context limit (Tag.cut text)).filterMap Piece.inclusion? ∧
      ∀ piece ∈ Piece.substitute context limit (Tag.cut text), piece.IsPlain := by
  have plain_cut : ∀ piece ∈ Tag.cut text, piece.IsPlain := by
    intro piece piece_mem
    cases piece with
    | literal written => exact plain.literals written piece_mem
    | tag written => exact Tag.isTag_of_mem_cut piece_mem
  have cut_eq : [] ++ Piece.assemble (Tag.cut text) = text := Tag.assemble_cut text
  have scanned := Scan.run_assemble context limit plain_cut Text.isQuiet_nil
  rw [cut_eq] at scanned
  exact scanned plain.values

/-! ## Loading -/

/-- All contents that were taken to be scanned are plain once the data snapshot is in them. -/
def ScansPlain (loader : Loader) (context : Context) (state : LoadState) : Prop :=
  ∀ entry content, .scan entry content ∈ state.accesses →
    IsPlain context loader.maxSubstitutions (loader.embed context content)

variable {loader : Loader} {source : FileSource} {context : Context}
  {load expand : Text → LoadM Text}

theorem scansPlain_of_precedes {earlier later : LoadState}
    (precedes : LoadState.Precedes earlier later) :
    Reflects (ScansPlain loader context) earlier later :=
  fun plain entry content scanned => plain entry content (precedes.accesses.subset scanned)

theorem parallel_alike : Loader.Parallel Alike where
  did := fun _ start => start
  logged := fun _ start => start

theorem agree_fetch {admissible : LoadState → Prop} (loader : Loader) (source : FileSource)
    (entry : FileEntry) :
    Agree admissible Alike Eq (loader.fetch source entry) (loader.fetch source entry) := by
  rintro first second ⟨seen_eq, cache_eq⟩ _
  have found_eq : second.cache.find? entry.key = first.cache.find? entry.key := by rw [cache_eq]
  rw [result, after, result, after]
  rcases loader.fetch_cases source entry first with
    ⟨content, found, ran⟩ | ⟨failure, absent, answer, ran⟩ | ⟨bytes, absent, answer, ran⟩
  · rw [ran, Loader.fetch_of_cached (found_eq.trans found)]
    exact ⟨rfl, seen_eq, by rw [cache_eq]⟩
  · rw [ran, Loader.fetch_of_unreadable (found_eq.trans absent) answer]
    exact ⟨rfl, seen_eq, by rw [cache_eq]⟩
  · rw [ran, Loader.fetch_of_read (found_eq.trans absent) answer]
    exact ⟨rfl, seen_eq, by rw [cache_eq]⟩

/-- Expanding a content agrees with writing out its pieces. -/
theorem agreeFrom_expandNew (expands : Expands (ScansPlain loader context) load expand)
    (entry : FileEntry) {s t : LoadState} (start : Alike s t) :
    AgreeFrom (ScansPlain loader context) Alike (Completes [])
      (loader.expandNew source context load entry)
      (loader.fetch source entry >>= fun content =>
        write context expand loader.maxSubstitutions [] (Tag.cut (loader.embed context content)))
      s t := by
  have spliceGrows : ∀ text inclusions, Keeps LoadState.Precedes
      (Loader.splice load text inclusions) := Loader.keeps_splice expands.grows
  apply agreeFrom_bind (agree_fetch loader source entry s t start)
  · rintro content _ - rfl start'
    apply agreeFrom_bind_left (result_record _ _)
    apply agreeFrom_bind_left (result_report _ _)
    intro allowed
    have plain : IsPlain context loader.maxSubstitutions (loader.embed context content) := by
      apply scansPlain_of_precedes (spliceGrows _ _ _) allowed entry content
      simp
    rcases plain.scan_eq with ⟨text_eq, inclusions_eq, plain_out⟩
    rw [text_eq, inclusions_eq] at allowed ⊢
    rw [write_eq_write_substitute]
    exact agree_splice_write expands plain_out _ _ start' allowed
  · intro content state
    apply scansPlain_of_precedes
    apply keeps_bind (Loader.precedes_record _)
    intro _
    apply keeps_bind (Loader.precedes_report _)
    intro _
    exact spliceGrows _ _

theorem expandEntry_of_seen {entry : FileEntry} {state : LoadState}
    (seen : entry.key ∈ state.seen.keys) :
    (expandEntry loader source context expand entry).run.run state = (.ok [], state) := by
  rw [expandEntry, Loader.run_markSeen_of_seen seen]
  rfl

theorem expandEntry_of_new {entry : FileEntry} {state : LoadState}
    (new : entry.key ∉ state.seen.keys) :
    (expandEntry loader source context expand entry).run.run state =
      (loader.fetch source entry >>= fun content =>
        write context expand loader.maxSubstitutions []
          (Tag.cut (loader.embed context content))).run.run
        { state with seen := ⟨state.seen.keys ++ [entry.key]⟩ } := by
  rw [expandEntry, Loader.run_markSeen_of_new new]
  rfl

theorem agree_expandEntry (expands : Expands (ScansPlain loader context) load expand)
    (entry : FileEntry) :
    Agree (ScansPlain loader context) Alike (Completes [])
      (loader.expandEntry source context load entry)
      (expandEntry loader source context expand entry) := by
  rintro s t ⟨seen_eq, cache_eq⟩ allowed
  by_cases seen : entry.key ∈ s.seen.keys
  · have seen' : entry.key ∈ t.seen.keys := by rwa [seen_eq]
    rw [result, after, result, after, Loader.expandEntry_of_seen seen, expandEntry_of_seen seen']
    exact ⟨⟨[], by simp, rfl, rfl⟩, seen_eq, cache_eq⟩
  · have new' : entry.key ∉ t.seen.keys := by rwa [seen_eq]
    rw [after, Loader.expandEntry_of_new seen] at allowed
    rw [result, after, result, after, Loader.expandEntry_of_new seen, expandEntry_of_new new']
    apply agreeFrom_expandNew expands entry _ allowed
    exact ⟨by rw [seen_eq]; rfl, cache_eq⟩

/-- Loads and expansions with the same bound on the nesting agree. -/
theorem agree_within (loader : Loader) (source : FileSource) (context : Context) (nesting : Nat)
    (viewPath : Text) :
    Agree (ScansPlain loader context) Alike (Completes [])
      (loader.expandWithin source context nesting viewPath)
      (within loader source context nesting viewPath) := by
  induction nesting generalizing viewPath with
  | zero => exact agree_pure ⟨[], by simp, rfl, rfl⟩
  | succ nesting ih =>
      have grows := loader.precedes_expandWithin source context nesting
      have expands : Expands (ScansPlain loader context)
          (loader.expandWithin source context nesting) (within loader source context nesting) :=
        ⟨ih, fun path state => scansPlain_of_precedes (grows path state), grows,
          fun _ _ _ => Loader.spent_expandWithin⟩
      have earlier : ∀ entry, Keeps (Reflects (ScansPlain loader context))
          (loader.expandEntry source context (loader.expandWithin source context nesting)
            entry) :=
        fun entry state => scansPlain_of_precedes (Loader.precedes_expandEntry grows entry state)
      apply agree_bind (Loader.agree_walk parallel_alike _ _)
      · rintro entries _ ⟨rfl, -⟩
        apply agree_foldlM
        · rintro entry - output output' completes
          apply agree_bind (agree_expandEntry expands entry)
          · rintro expansion expansion' ⟨pieces, settled, rfl, rfl⟩
            rcases completes with ⟨pieces', settled', rfl, rfl⟩
            apply agree_pure
            exact ⟨pieces' ++ pieces, settled_append settled' settled, by simp, by simp⟩
          · exact fun _ => keeps_pure _
        · intro output entry _
          exact keeps_bind (earlier entry) fun _ => keeps_pure _
        · exact ⟨[], by simp, rfl, rfl⟩
      · intro entries
        exact Loader.keeps_expandEntries fun entry _ => earlier entry

end Expansion

/-- A load whose contents are plain comes to what its expansion comes to, whatever bound on the
nesting of expansions is taken, if it is above the number of unseen keys. -/
theorem Loader.load_eq_expansion (loader : Loader) (source : FileSource) (context : Context)
    (viewPath : Text) (cache : Cache) (seen : SeenKeys) (nesting : Nat)
    (enough : (source.unseen seen).card < nesting)
    (plain : ∀ entry content,
      .scan entry content ∈ ((loader.load source context viewPath).after { cache, seen }).accesses →
      Expansion.IsPlain context loader.maxSubstitutions (loader.embed context content)) :
    (loader.load source context viewPath).result { cache, seen } =
        (Expansion.within loader source context nesting viewPath).result { cache, seen } ∧
      ((loader.load source context viewPath).after { cache, seen }).seen =
        ((Expansion.within loader source context nesting viewPath).after { cache, seen }).seen := by
  have deep_eq : (loader.expandWithin source context nesting viewPath).run.run { cache, seen } =
      (loader.load source context viewPath).run.run { cache, seen } := by
    rw [← expandNested_eq_expandWithin]
    exact expandNested_run_eq_load enough viewPath
  have result_eq : (loader.expandWithin source context nesting viewPath).result { cache, seen } =
      (loader.load source context viewPath).result { cache, seen } := congrArg Prod.fst deep_eq
  have after_eq : (loader.expandWithin source context nesting viewPath).after { cache, seen } =
      (loader.load source context viewPath).after { cache, seen } := congrArg Prod.snd deep_eq
  rw [← after_eq] at plain
  rcases Expansion.agree_within loader source context nesting viewPath
    { cache, seen } { cache, seen } ⟨rfl, rfl⟩ plain with ⟨same, seen_eq, -⟩
  rw [← result_eq, ← after_eq]
  refine ⟨?_, seen_eq.symm⟩
  rw [← matches_eq_iff]
  apply same.mono
  rintro text _ ⟨pieces, -, rfl, rfl⟩
  rfl

namespace Expansion

/-- The text of a page with an item in two places and a value between them. -/
def pageText : Text :=
  "(:include item:)(:= n:)(:include item:)".toList

/-- The text of the item. -/
def itemText : Text :=
  "[(:= n:)]".toList

/-- The page and the item as files. -/
def pageStore : FlatStore where
  files := [
    { path := Path.ofString "/page", content := Utf8.encode pageText, modified := 1 },
    { path := Path.ofString "/item", content := Utf8.encode itemText, modified := 2 }]

/-- The data for the page. -/
def pageContext : Context :=
  ⟨[("n".toList, .string "7".toList)]⟩

/-- A loader of the page. -/
def pageLoader : Loader where
  root := ⟨Path.rootDirectory⟩
  minify := true
  contextAnchor := "</head>".toList
  clientVariable := "viewData".toList
  maxSubstitutions := 4096

/-- The version of the page. -/
def page : FileEntry := ⟨Path.ofString "/page", 1⟩

/-- The version of the item. -/
def item : FileEntry := ⟨Path.ofString "/item", 2⟩

theorem cut_page : Tag.cut pageText =
    [.literal [], .tag "(:include item:)".toList, .literal [], .tag "(:= n:)".toList,
      .literal [], .tag "(:include item:)".toList, .literal []] := by
  cbv

theorem cut_item : Tag.cut itemText =
    [.literal "[".toList, .tag "(:= n:)".toList, .literal "]".toList] := by
  cbv

theorem isPlain_page : IsPlain pageContext 4096 pageText where
  literals := by
    intro written written_mem
    simp only [cut_page, List.mem_cons, Piece.literal.injEq, reduceCtorEq, List.not_mem_nil,
      or_false, false_or, or_self] at written_mem
    rw [written_mem]
    exact Text.isQuiet_nil
  values := by
    have steps_eq : (Scan.run pageContext 4096 pageText).steps =
        [⟨[], "(:include item:)".toList, .inclusion "item".toList⟩,
          ⟨[], "(:= n:)".toList, .substituted "n".toList "7".toList none⟩,
          ⟨"7".toList, "(:include item:)".toList, .inclusion "item".toList⟩] := by cbv
    intro step step_mem keyPath value missing action_eq
    simp only [steps_eq, List.mem_cons, List.not_mem_nil, or_false] at step_mem
    rcases step_mem with rfl | rfl | rfl
    · cases action_eq
    · cases action_eq
      decide
    · cases action_eq

theorem isPlain_item : IsPlain pageContext 4096 itemText where
  literals := by
    intro written written_mem
    simp only [cut_item, List.mem_cons, Piece.literal.injEq, reduceCtorEq, List.not_mem_nil,
      or_false, false_or] at written_mem
    rcases written_mem with rfl | rfl <;> decide
  values := by
    have steps_eq : (Scan.run pageContext 4096 itemText).steps =
        [⟨"[".toList, "(:= n:)".toList, .substituted "n".toList "7".toList none⟩] := by cbv
    intro step step_mem keyPath value missing action_eq
    simp only [steps_eq, List.mem_cons, List.not_mem_nil, or_false] at step_mem
    subst step_mem
    cases action_eq
    decide

theorem embed_page : pageLoader.embed pageContext pageText = pageText :=
  Snapshot.embed_of_none (by decide +kernel) (by decide +kernel)

theorem embed_item : pageLoader.embed pageContext itemText = itemText :=
  Snapshot.embed_of_none (by decide +kernel) (by decide +kernel)

theorem isPlain_of_read {path : Path} {text : Text} {bytes : Bytes}
    (stored : pageStore.source.read path = .ok (Utf8.encode text))
    (processed : (Content.process true path (Utf8.encode text)).1 = text)
    (embedded : pageLoader.embed pageContext text = text) (plain : IsPlain pageContext 4096 text)
    (answer : pageStore.source.read path = .ok bytes) :
    IsPlain pageContext pageLoader.maxSubstitutions
      (pageLoader.embed pageContext (Content.process pageLoader.minify path bytes).1) := by
  rw [stored, Except.ok.injEq] at answer
  subst answer
  have processed' : (Content.process pageLoader.minify path (Utf8.encode text)).1 = text :=
    processed
  rw [processed', embedded]
  exact plain

/-- Everything that a load of the page scans is plain. -/
theorem scansPlain_page {entry : FileEntry} {content : Text}
    (scanned : .scan entry content ∈
      ((pageLoader.load pageStore.source pageContext "page".toList).after {}).accesses) :
    IsPlain pageContext pageLoader.maxSubstitutions (pageLoader.embed pageContext content) := by
  have versions_eq : pageStore.source.versions = [page, item] := rfl
  have distinct : Set.InjOn FileEntry.key {entry | entry ∈ pageStore.source.versions} := by
    have nodup : (pageStore.source.versions.map FileEntry.key).Nodup := by decide
    intro first first_mem second second_mem same
    exact List.inj_on_of_nodup_map nodup first_mem second_mem same
  rcases Loader.scanned_of_load distinct scanned with ⟨entry_mem, bytes, answer, rfl⟩
  rw [versions_eq, List.mem_cons, List.mem_singleton] at entry_mem
  rcases entry_mem with rfl | rfl
  · exact isPlain_of_read (by cbv) (by cbv) embed_page isPlain_page answer
  · exact isPlain_of_read (by cbv) (by cbv) embed_item isPlain_item answer

section Written

variable {text written : Text} {entry : FileEntry} {state : LoadState}

/-- A file that is read for the first time comes to its pieces, written out. -/
theorem result_expandEntry_of_read {expand : Text → LoadM Text}
    (new : entry.key ∉ state.seen.keys) (absent : state.cache.find? entry.key = none)
    (answer : pageStore.source.read entry.path = .ok (Utf8.encode text))
    (processed : (Content.process pageLoader.minify entry.path (Utf8.encode text)).1 = text)
    (embedded : pageLoader.embed pageContext text = text)
    (writes : ∀ left : LoadState, left.seen.keys = state.seen.keys ++ [entry.key] →
      (∀ key, key ≠ entry.key → left.cache.find? key = state.cache.find? key) →
      (write pageContext expand 4096 [] (Tag.cut text)).result left = .ok written) :
    (expandEntry pageLoader pageStore.source pageContext expand entry).result state =
      .ok written := by
  have absent' : ({ state with seen := ⟨state.seen.keys ++ [entry.key]⟩ } : LoadState).cache.find?
      entry.key = none := absent
  rw [result, expandEntry_of_new new, run_run_bind, result, after,
    Loader.fetch_of_read absent' answer, processed]
  dsimp only
  rw [embedded]
  apply writes _ rfl
  intro key other
  exact Cache.find?_insert_of_ne other _ _

theorem result_within_of_read {path : Text} (nesting : Nat)
    (walked : pageStore.source.walk (pageLoader.root.resolve path) = .ok [entry])
    (new : entry.key ∉ state.seen.keys) (absent : state.cache.find? entry.key = none)
    (answer : pageStore.source.read entry.path = .ok (Utf8.encode text))
    (processed : (Content.process pageLoader.minify entry.path (Utf8.encode text)).1 = text)
    (embedded : pageLoader.embed pageContext text = text)
    (writes : ∀ left : LoadState, left.seen.keys = state.seen.keys ++ [entry.key] →
      (∀ key, key ≠ entry.key → left.cache.find? key = state.cache.find? key) →
      (write pageContext (within pageLoader pageStore.source pageContext nesting) 4096 []
        (Tag.cut text)).result left = .ok written) :
    (within pageLoader pageStore.source pageContext (nesting + 1) path).result state =
      .ok written := by
  have expanded : (expandEntry pageLoader pageStore.source pageContext
      (within pageLoader pageStore.source pageContext nesting) entry).result
      (state.walked pageStore.source (.loading (pageLoader.root.resolve path))
        (pageLoader.root.resolve path)) = .ok written :=
    result_expandEntry_of_read new absent answer processed embedded writes
  rw [within, result_bind_of_ok (by simpa using walked), after_walk, List.foldlM_cons, bind_assoc,
    result_bind_of_ok expanded]
  rfl

end Written

theorem write_item (expand : Text → LoadM Text) :
    write pageContext expand 4096 [] (Tag.cut itemText) = pure "[7]".toList := by
  rw [cut_item]
  rfl

theorem write_page (expand : Text → LoadM Text) :
    write pageContext expand 4096 [] (Tag.cut pageText) = (do
      let included ← expand "item".toList
      return included ++ '7' :: included) := by
  have inclusion : Directive.ofTag? "(:include item:)".toList =
      some (.inclusion "(:include item:)".toList "item".toList) := by cbv
  have substitution : Directive.ofTag? "(:= n:)".toList =
      some (.substitution "(:= n:)".toList "n".toList) := by cbv
  have resolved : (pageContext.resolve "n".toList).value? = some (.string "7".toList) := by cbv
  rw [cut_page]
  simp only [write, inclusion, substitution, resolved, List.lookup_nil, List.lookup_cons_self,
    pure_bind, bind_assoc, Value.interpolated, List.nil_append, List.append_nil]
  rfl

theorem result_within_item {state : LoadState} (new : item.key ∉ state.seen.keys)
    (absent : state.cache.find? item.key = none) :
    (within pageLoader pageStore.source pageContext 2 "item".toList).result state =
      .ok "[7]".toList := by
  have stored : pageStore.source.read item.path = .ok (Utf8.encode itemText) := by cbv
  apply result_within_of_read 1 (by cbv) new absent stored (by cbv) embed_item
  intro left _ _
  rw [write_item]
  rfl

theorem result_within_page :
    (within pageLoader pageStore.source pageContext 3 "page".toList).result {} =
      .ok "[7]7[7]".toList := by
  have stored : pageStore.source.read page.path = .ok (Utf8.encode pageText) := by cbv
  have new : page.key ∉ ({} : LoadState).seen.keys := List.not_mem_nil
  apply result_within_of_read 2 (by cbv) new rfl stored (by cbv) embed_page
  intro left seen_eq cache_eq
  have new' : item.key ∉ left.seen.keys := by
    rw [seen_eq]
    decide
  rw [write_page, result_bind_of_ok (result_within_item new' (cache_eq item.key (by decide)))]
  rfl

end Expansion

/-- The page is loaded as it is expanded. -/
theorem Loader.load_eq_expansion_page :
    (Expansion.pageLoader.load Expansion.pageStore.source Expansion.pageContext
        "page".toList).result {} =
      (Expansion.within Expansion.pageLoader Expansion.pageStore.source Expansion.pageContext 3
        "page".toList).result {} ∧
    (Expansion.within Expansion.pageLoader Expansion.pageStore.source Expansion.pageContext 3
      "page".toList).result {} = .ok "[7]7[7]".toList :=
  ⟨(load_eq_expansion Expansion.pageLoader Expansion.pageStore.source Expansion.pageContext
    "page".toList {} {} 3 (Nat.lt_of_le_of_lt (FileSource.card_unseen_le _ _) (by decide))
    fun _ _ => Expansion.scansPlain_page).1, Expansion.result_within_page⟩

end Pageweave

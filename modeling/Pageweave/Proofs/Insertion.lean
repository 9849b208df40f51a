import Pageweave.Proofs.Comments
import Pageweave.Proofs.Delivery

/-!
# Inserting the script block

A page with the anchor in what is left of it without its comments gets the script block before the
first match of the anchor; other pages only lose their comments (`embed_of_valid`).

What is left of a page is put together from parts that were apart, and so is the page with the
block. An opening and a closing of a comment in it come from different parts or from the block
(`hasComment_embed_iff`).
-/

namespace Pageweave.Snapshot

/-! ## The anchor -/

/-- A place in a text begins with the anchor, up to the case of its letters. -/
def MatchesAnchor (anchor place : Text) : Prop :=
  ∃ start rest, place = start ++ rest ∧
    List.Forall₂ (fun a c => sameLetter a c = true) anchor start

section Anchor

variable {anchor place text before : Text}

theorem startsWithLetters_iff :
    Text.startsWithLetters anchor place = true ↔ MatchesAnchor anchor place := by
  fun_induction Text.startsWithLetters anchor place with
  | case1 place => exact ⟨fun _ => ⟨[], place, rfl, .nil⟩, fun _ => rfl⟩
  | case2 a anchor =>
      simp only [Bool.false_eq_true, false_iff]
      rintro ⟨start, rest, same, letters⟩
      cases letters
      cases same
  | case3 a anchor c place ih =>
      rw [Bool.and_eq_true, ih]
      constructor
      · rintro ⟨letter, start, rest, rfl, letters⟩
        exact ⟨c :: start, rest, rfl, .cons letter letters⟩
      · rintro ⟨start, rest, same, letters⟩
        cases letters with
        | cons letter letters =>
            cases same
            exact ⟨letter, _, rest, rfl, letters⟩

theorem splitAtAnchor?_eq_none_iff : splitAtAnchor? anchor text = none ↔
    ∀ place, place <:+ text → ¬MatchesAnchor anchor place := by
  rw [splitAtAnchor?, Text.search_eq_none_iff]
  simp [← startsWithLetters_iff]

theorem splitAtAnchor?_eq_some_iff : splitAtAnchor? anchor text = some (before, place) ↔
    text = before ++ place ∧ MatchesAnchor anchor place ∧
      ∀ later, later <:+ before → later ≠ [] → ¬MatchesAnchor anchor (later ++ place) := by
  rw [splitAtAnchor?, Text.search_eq_some_iff]
  simp only [← startsWithLetters_iff]
  constructor
  · rintro ⟨place', rfl, here, earlier⟩
    split at here
    · next starts =>
        cases here
        exact ⟨rfl, starts, by simpa using earlier⟩
    · cases here
  · rintro ⟨rfl, starts, earlier⟩
    exact ⟨place, rfl, if_pos starts, by simpa using earlier⟩

end Anchor

theorem embed_cases (anchor clientVariable : Text) (context : Context) (content : Text) :
    (∀ place, place <:+ removeComments content → ¬MatchesAnchor anchor place) ∧
        embed anchor clientVariable context content = removeComments content ∨
      ∃ before place, removeComments content = before ++ place ∧ MatchesAnchor anchor place ∧
        (∀ later, later <:+ before → later ≠ [] → ¬MatchesAnchor anchor (later ++ place)) ∧
        embed anchor clientVariable context content =
          before ++ (block clientVariable context ++ place) := by
  cases found : splitAtAnchor? anchor (removeComments content) with
  | none =>
      left
      refine ⟨splitAtAnchor?_eq_none_iff.mp found, ?_⟩
      rw [embed, found]
  | some parts =>
      right
      rcases splitAtAnchor?_eq_some_iff.mp found with ⟨split, here, earlier⟩
      exact ⟨parts.1, parts.2, split, here, earlier, embed_of_some found⟩

/-! ## The script block -/

section Block

variable {clientVariable : Text} {context : Context}

theorem not_infix_opening (valid : clientVariable.all Config.isIdentifierCharacter = true)
    {text : Text} (safe : ¬['<', '/'] <:+: text) :
    ¬['<', '/'] <:+: opening clientVariable ++ text := by
  have split : opening clientVariable ++ text = '<' :: 's' ::
      ("cript type=\"text/javascript\">window.".toList ++ clientVariable ++ " = ".toList ++ text) :=
    rfl
  have absent : '<' ∉ "cript type=\"text/javascript\">window.".toList ++ clientVariable ++
      " = ".toList := by
    have outside : '<' ∉ clientVariable := by
      intro mem
      exact absurd (List.all_eq_true.mp valid '<' mem) (by decide)
    simp only [List.mem_append, not_or]
    exact ⟨⟨by decide, outside⟩, by decide⟩
  rw [split, List.infix_cons_iff, List.infix_cons_iff]
  rintro (here | here | later)
  · simp at here
  · simp at here
  · exact safe (Text.infix_of_infix_append absent later)

theorem not_infix_concat {text : Text} (safe : ¬['<', '/'] <:+: text) :
    ¬['<', '/'] <:+: text ++ [';'] := by
  rw [List.infix_concat_iff, not_or]
  refine ⟨?_, safe⟩
  rintro ⟨front, same⟩
  have last := congrArg List.getLast? same
  simp at last

/-- An occurrence of `</` is the only one if there is none before it and no `<` behind it. -/
theorem append_closing_eq_iff {before after front back : Text} (safe : ¬['<', '/'] <:+: before)
    (absent : '<' ∉ after) :
    before ++ (['<', '/'] ++ after) = front ++ (['<', '/'] ++ back) ↔
      front = before ∧ back = after := by
  constructor
  · intro same
    rcases List.append_eq_append_iff.mp same with ⟨later, rfl, inside⟩ | ⟨later, rfl, inside⟩
    · rcases later with _ | ⟨c, later⟩
      · simpa using inside.symm
      · have tail_eq : '/' :: after = later ++ (['<', '/'] ++ back) := (List.cons.inj inside).2
        have mem : '<' ∈ '/' :: after := by
          rw [tail_eq]
          simp
        exact absurd mem (by simp [absent])
    · rcases later with _ | ⟨c, _ | ⟨d, later⟩⟩
      · simpa using inside
      · simp at inside
      · simp only [List.cons_append, List.nil_append, List.cons.injEq] at inside
        rcases inside with ⟨rfl, rfl, -⟩
        exact absurd ⟨front, later, by simp⟩ safe
  · rintro ⟨rfl, rfl⟩
    rfl

theorem closes_block_iff (valid : clientVariable.all Config.isIdentifierCharacter = true)
    {json front back : Text} (safe : ¬['<', '/'] <:+: json) :
    opening clientVariable ++ (json ++ closing) = front ++ (['<', '/'] ++ back) ↔
      front = opening clientVariable ++ (json ++ [';']) ∧ back = "script>\n".toList := by
  have split : opening clientVariable ++ (json ++ closing) =
      opening clientVariable ++ (json ++ [';']) ++ (['<', '/'] ++ "script>\n".toList) := by
    simp only [List.append_assoc]
    rfl
  rw [split]
  exact append_closing_eq_iff (not_infix_opening valid (not_infix_concat safe)) (by decide)

end Block

/-- Embedding the data of a context takes the comments out of a content, and if the anchor is in
what is left, puts in one script block before the first match of it. The block ends no element but
itself, and the JSON text in it is read like the one of the context. -/
theorem embed_of_valid {config : Config} (valid : config.fault? = none) (context : Context)
    (content : Text) :
    ∃ kept json, (∀ kept', Strips content kept' ↔ kept' = kept) ∧
      Json.Spells (.object context.members) json ∧ Json.read? json = Json.read? context.toJson ∧
      (∀ front back, opening config.clientVariable ++ (json ++ closing) =
          front ++ (['<', '/'] ++ back) ↔
        front = opening config.clientVariable ++ (json ++ [';']) ∧ back = "script>\n".toList) ∧
      ((∀ place, place <:+ kept.flatten → ¬MatchesAnchor config.contextAnchor place) ∧
          embed config.contextAnchor config.clientVariable context content = kept.flatten ∨
        ∃ before place, kept.flatten = before ++ place ∧
          MatchesAnchor config.contextAnchor place ∧
          (∀ later, later <:+ before → later ≠ [] →
            ¬MatchesAnchor config.contextAnchor (later ++ place)) ∧
          embed config.contextAnchor config.clientVariable context content =
            before ++ (opening config.clientVariable ++ (json ++ closing) ++ place)) := by
  rcases exists_strips_iff content with ⟨kept, strips_iff⟩
  have flatten_eq := ((strips_iff kept).mpr rfl).flatten_eq
  have safe : ¬['<', '/'] <:+: safeJson context := by
    rw [safeJson_eq]
    exact Json.not_infix_defuse _
  refine ⟨kept, safeJson context, strips_iff, ?_, ?_, ?_, ?_⟩
  · rw [safeJson_eq]
    exact Json.spells_defuse_print _
  · rw [safeJson_eq]
    exact Json.read?_defuse _
  · intro front back
    exact closes_block_iff (Config.all_of_fault? valid) safe
  · rw [flatten_eq, ← block_eq]
    exact embed_cases _ _ _ _

namespace Insertion

/-- A page with an anchor in a comment, and one in other letters after it. -/
def page : Text :=
  "a<!-- </head> --></HEAD>".toList

/-- What is left of the page. -/
def kept : Text :=
  "a</HEAD>".toList

/-- The page with the script block. -/
def embedded : Text :=
  "a<script type=\"text/javascript\">window.viewData = ".toList ++
    "\x7b\"b\":\"<\\/b>\"\x7d;</script>\n</HEAD>".toList

theorem removeComments_page : removeComments page = kept := by
  decide +kernel

theorem splitAtAnchor?_kept :
    splitAtAnchor? "</head>".toList kept = some ("a".toList, "</HEAD>".toList) := by
  decide +kernel

theorem embed_page :
    embed "</head>".toList "viewData".toList Delivery.closing page = embedded := by
  decide +kernel

end Insertion

/-- The block is put before the anchor behind the comment, and the JSON text in it does not end the
script element. -/
theorem embed_of_valid_anchor :
    ({ root := Path.ofString "views" } : Config).fault? = none ∧
    ∃ kept json, (∀ kept', Strips Insertion.page kept' ↔ kept' = kept) ∧
      kept.flatten = "a</HEAD>".toList ∧
      Json.Spells (.object Delivery.closing.members) json ∧
      Json.read? json = Json.read? Delivery.closing.toJson ∧
      (∀ front back, opening "viewData".toList ++ (json ++ closing) =
          front ++ (['<', '/'] ++ back) ↔
        front = opening "viewData".toList ++ (json ++ [';']) ∧ back = "script>\n".toList) ∧
      MatchesAnchor "</head>".toList "</HEAD>".toList ∧
      (∀ later, later <:+ "a".toList → later ≠ [] →
        ¬MatchesAnchor "</head>".toList (later ++ "</HEAD>".toList)) ∧
      embed "</head>".toList "viewData".toList Delivery.closing Insertion.page =
        "a".toList ++ (opening "viewData".toList ++ (json ++ closing) ++ "</HEAD>".toList) ∧
      embed "</head>".toList "viewData".toList Delivery.closing Insertion.page =
        Insertion.embedded := by
  have valid : ({ root := Path.ofString "views" } : Config).fault? = none := by decide +kernel
  rcases embed_of_valid valid Delivery.closing Insertion.page with
    ⟨kept, json, strips_iff, spells, read_eq, closes, inserted⟩
  have flatten_eq : kept.flatten = Insertion.kept :=
    ((strips_iff kept).mpr rfl).flatten_eq.trans Insertion.removeComments_page
  rcases splitAtAnchor?_eq_some_iff.mp Insertion.splitAtAnchor?_kept with ⟨split, here, first⟩
  refine ⟨valid, kept, json, strips_iff, flatten_eq, spells, read_eq, closes, here, first, ?_,
    Insertion.embed_page⟩
  rcases inserted with ⟨nowhere, -⟩ | ⟨before, place, split', here', first', embed_eq⟩
  · rw [flatten_eq, split] at nowhere
    exact absurd here (nowhere _ (List.suffix_append _ _))
  · have found := splitAtAnchor?_eq_some_iff.mpr ⟨split', here', first'⟩
    rw [flatten_eq] at found
    cases found.symm.trans Insertion.splitAtAnchor?_kept
    exact embed_eq

/-! ## Comments that are put together -/

/-- The parts of a page with the script block, given what was kept of its content: the block comes
before the first match of the anchor, if there is one. -/
inductive Assembles (anchor block : Text) (kept : List Text) : (parts : List Text) → Prop
  | bare (nowhere : ∀ place, place <:+ kept.flatten → ¬MatchesAnchor anchor place) :
      Assembles anchor block kept kept
  | anchored {first second : List Text} {before after : Text}
      (kept_eq : kept = first ++ (before ++ after) :: second)
      (here : MatchesAnchor anchor (after ++ second.flatten))
      (earlier : ∀ later, later <:+ first.flatten ++ before → later ≠ [] →
        ¬MatchesAnchor anchor (later ++ (after ++ second.flatten))) :
      Assembles anchor block kept (first ++ before :: block :: after :: second)

/-- An opening of a comment runs across a seam between parts, and is followed by a closing. -/
def OpensAcross (parts : List Text) : Prop :=
  ∃ first second front opening back after, parts = first ++ second ∧
    first.flatten = front ++ opening ∧ second.flatten = back ++ after ∧
    opening ++ back = commentOpening ∧ opening ≠ [] ∧ back ≠ [] ∧ commentClosing <:+: after

/-- An opening of a comment lies in one part, and is followed by a closing in it or behind it. -/
def OpensIn (part : Text) (parts : List Text) : Prop :=
  ∃ first second front after, parts = first ++ part :: second ∧
    part = front ++ (commentOpening ++ after) ∧ commentClosing <:+: after ++ second.flatten

section Parts

variable {parts kept : List Text} {pattern front after place : Text}

/-- What stands in a text that was put together lies in one part or runs across a seam. -/
theorem exists_of_flatten (nonempty : pattern ≠ [])
    (same : parts.flatten = front ++ (pattern ++ after)) :
    (∃ first part second before behind, parts = first ++ part :: second ∧
        part = before ++ (pattern ++ behind) ∧ after = behind ++ second.flatten) ∨
      ∃ first second before left right, parts = first ++ second ∧
        first.flatten = before ++ left ∧ second.flatten = right ++ after ∧
        left ++ right = pattern ∧ left ≠ [] ∧ right ≠ [] := by
  induction parts generalizing front with
  | nil => simp [nonempty] at same
  | cons part parts ih =>
      have begins : (∃ front', parts.flatten = front' ++ (pattern ++ after)) ∨
          ∃ left, left ≠ [] ∧ part = front ++ left ∧ pattern ++ after = left ++ parts.flatten := by
        rcases List.append_eq_append_iff.mp same with ⟨front', -, later⟩ | ⟨left, part_eq, inside⟩
        · exact Or.inl ⟨front', later⟩
        · by_cases nothing : left = []
          · exact Or.inl ⟨[], by simpa [nothing] using inside.symm⟩
          · exact Or.inr ⟨left, nothing, part_eq, inside⟩
      rcases begins with ⟨front', later⟩ | ⟨left, left_nonempty, rfl, inside⟩
      · rcases ih later with ⟨first, part', second, before, behind, rfl, part_eq, after_eq⟩ |
          ⟨first, second, before, left, right, rfl, first_eq, second_eq, split⟩
        · exact Or.inl ⟨part :: first, part', second, before, behind, rfl, part_eq, after_eq⟩
        · exact Or.inr ⟨part :: first, second, part ++ before, left, right, rfl,
            by simp [first_eq], second_eq, split⟩
      · rcases List.append_eq_append_iff.mp inside with
          ⟨behind, rfl, after_eq⟩ | ⟨right, rfl, later⟩
        · exact Or.inl ⟨[], _, parts, front, behind, rfl, rfl, after_eq⟩
        · by_cases nothing : right = []
          · subst nothing
            exact Or.inl ⟨[], _, parts, front, [], rfl, by simp, later.symm⟩
          · exact Or.inr ⟨[front ++ left], parts, front, left, right, rfl, by simp, later, rfl,
              left_nonempty, nothing⟩

theorem hasComment_flatten_iff :
    HasComment parts.flatten ↔ OpensAcross parts ∨ ∃ part, OpensIn part parts := by
  constructor
  · rintro ⟨front, after, same, closed⟩
    rcases exists_of_flatten (by decide) same with
      ⟨first, part, second, before, behind, rfl, part_eq, rfl⟩ |
      ⟨first, second, before, left, right, rfl, first_eq, second_eq, split⟩
    · exact Or.inr ⟨part, first, second, before, behind, rfl, part_eq, closed⟩
    · exact Or.inl ⟨first, second, before, left, right, after, rfl, first_eq, second_eq,
        split.1, split.2.1, split.2.2, closed⟩
  · rintro (⟨first, second, front, opening, back, after, rfl, first_eq, second_eq, split, -, -,
      closed⟩ | ⟨part, first, second, front, after, rfl, part_eq, closed⟩)
    · refine ⟨front, after, ?_, closed⟩
      rw [List.flatten_append, first_eq, second_eq, ← split]
      simp only [List.append_assoc]
    · refine ⟨first.flatten ++ front, after ++ second.flatten, ?_, closed⟩
      rw [List.flatten_append, List.flatten_cons, part_eq]
      simp only [List.append_assoc]

/-- Only a part that is allowed to has an opening with a closing behind it. -/
theorem OpensIn.eq_of_append {part block last : Text} {init : List Text}
    (opens : OpensIn part (init ++ [last]))
    (noOpening : ∀ part ∈ init, part = block ∨ ¬commentOpening <:+: part)
    (absent : ¬HasComment last) : part = block := by
  rcases opens with ⟨first, second, front, after, same, part_eq, closed⟩
  rcases List.eq_nil_or_concat second with rfl | ⟨second, other, rfl⟩
  · rcases List.append_inj' same rfl with ⟨-, last_eq⟩
    cases last_eq
    exact absurd ⟨front, after, part_eq, by simpa using closed⟩ absent
  · have init_eq : init = first ++ part :: second := by
      rw [List.concat_eq_append, ← List.cons_append, ← List.append_assoc] at same
      exact (List.append_inj' same rfl).1
    have part_mem : part ∈ init := by simp [init_eq]
    rcases noOpening part part_mem with rfl | noOpening
    · rfl
    · exact absurd ⟨front, after, by simp [part_eq]⟩ noOpening

theorem exists_part_of_flatten (nonempty : kept ≠ []) (same : kept.flatten = front ++ place) :
    ∃ first second before after, kept = first ++ (before ++ after) :: second ∧
      front = first.flatten ++ before ∧ place = after ++ second.flatten := by
  induction kept generalizing front with
  | nil => exact absurd rfl nonempty
  | cons part kept ih =>
      rcases List.append_eq_append_iff.mp same with ⟨front', rfl, later⟩ | ⟨after, rfl, place_eq⟩
      · rcases kept with _ | ⟨next, kept⟩
        · rcases List.append_eq_nil_iff.mp later.symm with ⟨rfl, rfl⟩
          exact ⟨[], [], part, [], by simp, by simp, rfl⟩
        · rcases ih (by simp) later with ⟨first, second, before, after, kept_eq, rfl, rfl⟩
          exact ⟨part :: first, second, before, after, by simp [kept_eq], by simp, rfl⟩
      · exact ⟨[], kept, front, after, rfl, rfl, place_eq⟩

end Parts

section Assembles

variable {anchor clientVariable content block : Text} {context : Context} {kept parts : List Text}

theorem exists_assembles (strips : Strips content kept) :
    ∃ parts, Assembles anchor (Snapshot.block clientVariable context) kept parts ∧
      embed anchor clientVariable context content = parts.flatten := by
  have cases := embed_cases anchor clientVariable context content
  rw [← strips.flatten_eq] at cases
  rcases cases with ⟨nowhere, embed_eq⟩ | ⟨front, place, split, here, earlier, embed_eq⟩
  · exact ⟨kept, .bare nowhere, embed_eq⟩
  · rcases exists_part_of_flatten strips.ne_nil split with
      ⟨first, second, before, after, kept_eq, rfl, rfl⟩
    refine ⟨_, .anchored kept_eq here earlier, ?_⟩
    rw [embed_eq]
    simp

/-- If the anchor is not in the content, the block is not put into the last part, so no opening was
left behind it or before it in one part. -/
theorem Assembles.exists_last (assembles : Assembles anchor block kept parts)
    (strips : Strips content kept)
    (absent : ∀ place, place <:+ content → ¬MatchesAnchor anchor place) :
    ∃ init last, parts = init ++ [last] ∧
      (∀ part ∈ init, part = block ∨ ¬commentOpening <:+: part) ∧ ¬HasComment last := by
  rcases strips.parts with ⟨init, last, kept_eq, noOpening, noComment, last_suffix⟩
  cases assembles with
  | bare nowhere =>
      exact ⟨init, last, kept_eq, fun part mem => Or.inr (noOpening part mem), noComment⟩
  | @anchored first second before after kept_eq' here earlier =>
      rcases List.eq_nil_or_concat second with rfl | ⟨second, other, rfl⟩
      · -- In the last part the anchor would stand in the content as it was.
        rw [kept_eq] at kept_eq'
        rcases List.append_inj' kept_eq' rfl with ⟨-, last_eq⟩
        cases last_eq
        rw [List.flatten_nil, List.append_nil] at here
        exact absurd here (absent after ((List.suffix_append _ _).trans last_suffix))
      · rw [kept_eq, List.concat_eq_append, ← List.cons_append, ← List.append_assoc] at kept_eq'
        rcases List.append_inj' kept_eq' rfl with ⟨rfl, last_eq⟩
        cases last_eq
        refine ⟨first ++ before :: block :: after :: second, last, by simp, ?_, noComment⟩
        have whole := noOpening (before ++ after) (by simp)
        intro part part_mem
        simp only [List.mem_append, List.mem_cons] at part_mem
        rcases part_mem with part_mem | rfl | rfl | rfl | part_mem
        · exact Or.inr (noOpening part (by simp [part_mem]))
        · exact Or.inr fun inside => whole (inside.trans (List.prefix_append _ _).isInfix)
        · exact Or.inl rfl
        · exact Or.inr fun inside => whole (inside.trans (List.suffix_append _ _).isInfix)
        · exact Or.inr (noOpening part (by simp [part_mem]))

end Assembles

/-- The comments of a content without the anchor are taken out, but the page has a comment again if
an opening is put together from the text on both sides of one that was taken out, or if the data of
the context have an opening, and a closing follows. -/
theorem hasComment_embed_iff {anchor content : Text} (clientVariable : Text) (context : Context)
    (absent : ∀ place, place <:+ content → ¬MatchesAnchor anchor place) :
    ∃ kept parts, Strips content kept ∧ Assembles anchor (block clientVariable context) kept parts ∧
      embed anchor clientVariable context content = parts.flatten ∧
      (HasComment (embed anchor clientVariable context content) ↔
        OpensAcross parts ∨ OpensIn (block clientVariable context) parts) := by
  rcases exists_strips_iff content with ⟨kept, strips_iff⟩
  have strips := (strips_iff kept).mpr rfl
  rcases @exists_assembles anchor clientVariable _ context _ strips with
    ⟨parts, assembles, embed_eq⟩
  refine ⟨kept, parts, strips, assembles, embed_eq, ?_⟩
  rcases assembles.exists_last strips absent with ⟨init, last, rfl, noOpening, noComment⟩
  rw [embed_eq, hasComment_flatten_iff]
  apply or_congr_right
  constructor
  · rintro ⟨part, opens⟩
    rwa [← opens.eq_of_append noOpening noComment]
  · intro opens
    exact ⟨_, opens⟩

theorem hasComment_embed_iff_anchorless :
    (∀ place, place <:+ "<!<!-- x -->-- y -->".toList → ¬MatchesAnchor "</head>".toList place) ∧
    ∃ kept parts, Strips "<!<!-- x -->-- y -->".toList kept ∧
      Assembles "</head>".toList (block "viewData".toList {}) kept parts ∧
      embed "</head>".toList "viewData".toList {} "<!<!-- x -->-- y -->".toList = parts.flatten ∧
      (HasComment (embed "</head>".toList "viewData".toList {} "<!<!-- x -->-- y -->".toList) ↔
        OpensAcross parts ∨ OpensIn (block "viewData".toList {}) parts) := by
  have absent : ∀ place, place <:+ "<!<!-- x -->-- y -->".toList →
      ¬MatchesAnchor "</head>".toList place := by
    rw [← splitAtAnchor?_eq_none_iff]
    decide +kernel
  exact ⟨absent, hasComment_embed_iff "viewData".toList {} absent⟩

/-- Taking out a comment puts another one together. -/
theorem comment_put_together :
    ¬∀ (anchor clientVariable : Text) (context : Context) (content : Text),
      (∀ place, place <:+ content → ¬MatchesAnchor anchor place) →
      ¬HasComment (embed anchor clientVariable context content) := by
  intro clean
  apply clean "</head>".toList "viewData".toList {} "<!<!-- x -->-- y -->".toList
  · rw [← splitAtAnchor?_eq_none_iff]
    decide +kernel
  · have embed_eq : embed "</head>".toList "viewData".toList {} "<!<!-- x -->-- y -->".toList =
        "<!-- y -->".toList := by
      decide +kernel
    rw [embed_eq]
    exact ⟨[], " y -->".toList, by rfl, " y ".toList, [], by rfl⟩

end Pageweave.Snapshot

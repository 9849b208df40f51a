import Mathlib
import Pageweave.Proofs.Minified
import Pageweave.Proofs.Occurrences

/-!
# Tags in minified scripts

A tag of a script that begins where a lexeme begins, or that lies in a literal, is left in the
minified script. These tags are tags of the minified script, in the same order
(`kept_tags_sublist_of_minify`).

Where they stand is compared by the number of characters before them. The tags that are kept and
the tags of the tokens are both ordered by it, so one list is part of the other as soon as its
members are. In the minified script no other tag reaches into them, since no tag begins inside
another one.
-/

namespace Pageweave

/-! ## Places of tags -/

/-- The tags among pieces, each with the number of characters before it. -/
def Piece.places (offset : Nat) : List Piece → List (Nat × Text)
  | [] => []
  | .literal written :: pieces => places (offset + written.length) pieces
  | .tag written :: pieces => (offset, written) :: places (offset + written.length) pieces

/-- The tags of a text in their order, each with the number of characters before it. -/
def Tag.places (text : Text) : List (Nat × Text) :=
  Piece.places 0 (cut text)

namespace Piece

variable {offset : Nat} {pieces pieces' : List Piece} {place : Nat × Text}

theorem map_snd_places (offset : Nat) (pieces : List Piece) :
    (places offset pieces).map Prod.snd = tags pieces := by
  induction pieces generalizing offset with
  | nil => rfl
  | cons piece pieces ih =>
      cases piece with
      | literal written => exact ih _
      | tag written => simp [places, ih]

theorem places_append : places offset (pieces ++ pieces') =
    places offset pieces ++ places (offset + (assemble pieces).length) pieces' := by
  induction pieces generalizing offset with
  | nil => rfl
  | cons piece pieces ih => cases piece <;> simp [places, ih, text, Nat.add_assoc]

theorem split_of_mem_places (place_mem : place ∈ places offset pieces) :
    ∃ before after, assemble pieces = before ++ (place.2 ++ after) ∧
      place.1 = offset + before.length := by
  induction pieces generalizing offset with
  | nil => cases place_mem
  | cons piece pieces ih =>
      cases piece with
      | literal written =>
          rcases ih place_mem with ⟨before, after, same, offset_eq⟩
          refine ⟨written ++ before, after, by simp [same, text], ?_⟩
          rw [offset_eq, List.length_append, Nat.add_assoc]
      | tag written =>
          rcases List.mem_cons.mp place_mem with rfl | place_mem
          · exact ⟨[], assemble pieces, rfl, rfl⟩
          · rcases ih place_mem with ⟨before, after, same, offset_eq⟩
            refine ⟨written ++ before, after, by simp [same, text], ?_⟩
            rw [offset_eq, List.length_append, Nat.add_assoc]

theorem le_of_mem_places (place_mem : place ∈ places offset pieces) : offset ≤ place.1 := by
  rcases split_of_mem_places place_mem with ⟨before, after, -, offset_eq⟩
  omega

theorem pairwise_places (nonempty : ∀ tag ∈ tags pieces, tag ≠ []) :
    (places offset pieces).Pairwise fun first second => first.1 < second.1 := by
  induction pieces generalizing offset with
  | nil => exact .nil
  | cons piece pieces ih =>
      cases piece with
      | literal written => exact ih nonempty
      | tag written =>
          rcases List.forall_mem_cons.mp nonempty with ⟨here, nonempty'⟩
          refine List.pairwise_cons.mpr ⟨?_, ih nonempty'⟩
          intro second second_mem
          have longer := List.length_pos_iff.mpr here
          have later := le_of_mem_places second_mem
          omega

end Piece

namespace Tag

variable {text tag : Text} {offset : Nat} {place : Nat × Text}

theorem isTag_of_mem_tags_cut (tag_mem : tag ∈ Piece.tags (cut text)) : IsTag tag := by
  rcases List.mem_filterMap.mp tag_mem with ⟨piece, piece_mem, tag_eq⟩
  cases piece with
  | literal written => cases tag_eq
  | tag written =>
      cases tag_eq
      exact isTag_of_mem_cut piece_mem

theorem pairwise_places (offset : Nat) (text : Text) :
    (Piece.places offset (cut text)).Pairwise fun first second => first.1 < second.1 :=
  Piece.pairwise_places fun _ tag_mem => ne_nil (isTag_of_mem_tags_cut tag_mem)

theorem isTag_of_mem_places (place_mem : place ∈ Piece.places offset (cut text)) :
    IsTag place.2 := by
  have tag_mem := List.mem_map_of_mem (f := Prod.snd) place_mem
  rw [Piece.map_snd_places] at tag_mem
  exact isTag_of_mem_tags_cut tag_mem

/-- Wherever a tag stands in a text, it is one of the tags of the text. -/
theorem mem_places_of_isTag (isTag : IsTag tag) (before after : Text) :
    (offset + before.length, tag) ∈ Piece.places offset (cut (before ++ (tag ++ after))) := by
  rw [cut_append isTag, Piece.places_append, assemble_cut]
  exact List.mem_append_right _ List.mem_cons_self

/-- Putting texts together loses no tags. -/
theorem all_append_sublist (first second : Text) :
    (all first ++ all second).Sublist (all (first ++ second)) := by
  fun_induction cut first with
  | case1 first absent =>
      rw [show all first = [] by rw [all, cut_of_none absent]; rfl, List.nil_append]
      cases found : first? second with
      | none =>
          rw [show all second = [] by rw [all, cut_of_none found]; rfl]
          exact List.nil_sublist _
      | some parts =>
          rcases parts with ⟨before, tag, rest⟩
          rw [all_of_some found, append_of_first? found, List.append_assoc, ← List.append_assoc,
            all_append (isTag_of_first? found)]
          exact List.sublist_append_right _ _
  | case2 first before tag rest found ih =>
      rw [all_of_some found, append_of_first? found, List.append_assoc, List.append_assoc,
        all_append (isTag_of_first? found), List.cons_append]
      exact (ih.cons_cons tag).trans (List.sublist_append_right _ _)

theorem flatMap_all_sublist {α : Type} (items : List α) (before text : α → Text) :
    (items.flatMap fun item => all (text item)).Sublist
      (all (items.flatMap fun item => before item ++ text item)) := by
  induction items with
  | nil => exact List.nil_sublist _
  | cons item items ih =>
      have whole := all_append_sublist (before item) (text item)
      have here := (List.sublist_append_right _ _).trans whole
      exact (here.append ih).trans (all_append_sublist _ _)

end Tag

namespace Script

/-! ## Places of lexemes -/

/-- Lexemes with the number of characters before each of them. -/
def spans (offset : Nat) : List Lexeme → List (Nat × Lexeme)
  | [] => []
  | lexeme :: lexemes => (offset, lexeme) :: spans (offset + lexeme.text.length) lexemes

/-- Whether a lexeme of this shape is a literal. -/
def Shape.isLiteral : Shape → Bool
  | string | template | regex => true
  | space | lineComment | blockComment | directive | code => false

/-- Whether the tag at a place begins where a lexeme begins, or lies in a literal. -/
def Segmentation.keeps (segmentation : Segmentation) (place : Nat × Text) : Bool :=
  (spans 0 segmentation.lexemes).any fun (start, lexeme) =>
    place.1 = start || (lexeme.shape.isLiteral && start ≤ place.1 &&
      place.1 + place.2.length ≤ start + lexeme.text.length)

/-- The tags in the tokens among lexemes, each with the number of characters before it. -/
def tokenPlaces (offset : Nat) : List Lexeme → List (Nat × Text)
  | [] => []
  | lexeme :: lexemes =>
      (if lexeme.shape.isBlank then [] else Piece.places offset (Tag.cut lexeme.text)) ++
        tokenPlaces (offset + lexeme.text.length) lexemes

section Places

variable {offset start : Nat} {lexeme : Lexeme} {lexemes lexemes' : List Lexeme}
  {place : Nat × Text}

theorem split_of_mem_spans (span_mem : (start, lexeme) ∈ spans offset lexemes) :
    ∃ before after, lexemes = before ++ lexeme :: after ∧
      start = offset + (before.flatMap Lexeme.text).length := by
  induction lexemes generalizing offset with
  | nil => cases span_mem
  | cons first lexemes ih =>
      rcases List.mem_cons.mp span_mem with here | span_mem
      · cases here
        exact ⟨[], lexemes, rfl, rfl⟩
      · rcases ih span_mem with ⟨before, after, rfl, start_eq⟩
        refine ⟨first :: before, after, rfl, ?_⟩
        rw [start_eq, List.flatMap_cons, List.length_append, Nat.add_assoc]

theorem tokenPlaces_append : tokenPlaces offset (lexemes ++ lexemes') =
    tokenPlaces offset lexemes ++
      tokenPlaces (offset + (lexemes.flatMap Lexeme.text).length) lexemes' := by
  induction lexemes generalizing offset with
  | nil => rfl
  | cons lexeme lexemes ih => simp [tokenPlaces, ih, Nat.add_assoc]

theorem le_of_mem_tokenPlaces (place_mem : place ∈ tokenPlaces offset lexemes) :
    offset ≤ place.1 := by
  induction lexemes generalizing offset with
  | nil => cases place_mem
  | cons lexeme lexemes ih =>
      rcases List.mem_append.mp place_mem with place_mem | place_mem
      · split at place_mem
        · cases place_mem
        · exact Piece.le_of_mem_places place_mem
      · have later := ih place_mem
        omega

theorem pairwise_tokenPlaces (offset : Nat) (lexemes : List Lexeme) :
    (tokenPlaces offset lexemes).Pairwise fun first second => first.1 < second.1 := by
  induction lexemes generalizing offset with
  | nil => exact .nil
  | cons lexeme lexemes ih =>
      refine List.pairwise_append.mpr ⟨?_, ih _, ?_⟩
      · split
        · exact .nil
        · exact Tag.pairwise_places offset lexeme.text
      · intro first first_mem second second_mem
        split at first_mem
        · cases first_mem
        · have later := le_of_mem_tokenPlaces second_mem
          have longer := List.length_pos_iff.mpr (Tag.ne_nil (Tag.isTag_of_mem_places first_mem))
          rcases Piece.split_of_mem_places first_mem with ⟨before, after, same, first_eq⟩
          rw [Tag.assemble_cut] at same
          have length_eq := congrArg List.length same
          simp only [List.length_append] at length_eq
          omega

theorem map_snd_tokenPlaces (offset : Nat) (lexemes : List Lexeme) :
    (tokenPlaces offset lexemes).map Prod.snd =
      (lexemes.filter fun lexeme => !lexeme.shape.isBlank).flatMap
        fun lexeme => Tag.all lexeme.text := by
  induction lexemes generalizing offset with
  | nil => rfl
  | cons lexeme lexemes ih =>
      rw [tokenPlaces, List.map_append, ih]
      cases blank : lexeme.shape.isBlank with
      | true => simp [blank]
      | false =>
          rw [if_neg Bool.false_ne_true, Piece.map_snd_places,
            List.filter_cons_of_pos (by simp [blank]), List.flatMap_cons]
          rfl

theorem filter_of_blank (blank : ∀ lexeme ∈ lexemes, lexeme.shape.isBlank = true) :
    lexemes.filter (fun lexeme => !lexeme.shape.isBlank) = [] := by
  simpa using blank

theorem filter_lexemes {segmentation : Segmentation} (complete : segmentation.IsComplete) :
    segmentation.lexemes.filter (fun lexeme => !lexeme.shape.isBlank) =
      segmentation.pieces.map Piece.token := by
  have gaps := complete.gaps
  rw [Segmentation.lexemes, List.filter_append, filter_of_blank complete.trailing, List.append_nil]
  generalize segmentation.pieces = pieces at gaps
  induction pieces with
  | nil => rfl
  | cons piece pieces ih =>
      rcases List.forall_mem_cons.mp gaps with ⟨⟨gap, token⟩, gaps'⟩
      rw [List.flatMap_cons, List.filter_append, ih gaps', List.filter_append, filter_of_blank gap]
      simp [token]

/-- A tag that begins where a complete lexeme begins is this lexeme. -/
theorem eq_of_isTag_prefix {rest tag : Text} (complete : lexeme.IsComplete rest) (isTag : IsTag tag)
    (here : tag <+: lexeme.text ++ rest) : lexeme.shape = .directive ∧ tag = lexeme.text := by
  rcases complete.exists_head with ⟨c, text, text_eq, opens⟩
  have opening := (Tag.begins_with_opening isTag).trans here
  rw [text_eq] at opening
  obtain rfl : '(' = c := (List.cons_prefix_cons.mp opening).1
  rcases lexeme with ⟨shape, text⟩
  cases shape with
  | space | lineComment | blockComment | string | template | regex => cases opens
  | directive =>
      rcases here with ⟨after, same⟩
      exact ⟨rfl, Tag.eq_of_append_eq_append isTag complete same⟩
  | code =>
      rcases complete with ⟨c, rfl, -, -, -, noTag⟩
      exact absurd here (noTag tag isTag)

/-- A text that stands within another one stands in the part between two lengths. -/
theorem exists_split_of_within {front part back before tag after : Text}
    (same : front ++ (part ++ back) = before ++ (tag ++ after))
    (starts : front.length ≤ before.length)
    (ends : before.length + tag.length ≤ front.length + part.length) :
    ∃ left right, before = front ++ left ∧ part = left ++ (tag ++ right) := by
  have front_prefix : front <+: before :=
    List.prefix_of_prefix_length_le ⟨_, same⟩ (List.prefix_append _ _) starts
  rcases front_prefix with ⟨left, rfl⟩
  rw [List.append_assoc, List.append_cancel_left_eq, ← List.append_assoc left] at same
  have within : left ++ tag <+: part := by
    apply List.prefix_of_prefix_length_le ⟨_, same.symm⟩ (List.prefix_append _ _)
    simp only [List.length_append] at ends ⊢
    omega
  rcases within with ⟨right, part_eq⟩
  exact ⟨left, right, rfl, by simp [← part_eq]⟩

/-- The tags that are kept are in the tokens. -/
theorem mem_tokenPlaces_of_keeps {segmentation : Segmentation}
    (complete : segmentation.IsComplete) (place_mem : place ∈ Tag.places segmentation.source)
    (keeps : segmentation.keeps place = true) :
    place ∈ tokenPlaces 0 segmentation.lexemes := by
  have isTag := Tag.isTag_of_mem_places place_mem
  rcases Piece.split_of_mem_places place_mem with ⟨before, after, source_eq, place_eq⟩
  rw [Tag.assemble_cut, ← flatMap_lexemes] at source_eq
  rcases place with ⟨offset, tag⟩
  dsimp only at isTag source_eq place_eq
  rw [Nat.zero_add] at place_eq
  rcases List.any_eq_true.mp keeps with ⟨⟨start, lexeme⟩, span_mem, held⟩
  rcases split_of_mem_spans span_mem with ⟨front, back, lexemes_eq, start_eq⟩
  rw [Nat.zero_add] at start_eq
  have complete' := complete.complete front lexeme back lexemes_eq
  rw [lexemes_eq, List.flatMap_append, List.flatMap_cons] at source_eq
  rw [lexemes_eq, tokenPlaces_append, Nat.zero_add, ← start_eq]
  apply List.mem_append_right
  rw [tokenPlaces]
  apply List.mem_append_left
  simp only [Bool.or_eq_true, Bool.and_eq_true, decide_eq_true_eq] at held
  have split : lexeme.shape.isBlank = false ∧
      ∃ left right, lexeme.text = left ++ (tag ++ right) ∧ offset = start + left.length := by
    rcases held with here | ⟨⟨literal, starts⟩, ends⟩
    · rcases List.append_inj source_eq (by omega) with ⟨-, same⟩
      rcases eq_of_isTag_prefix complete' isTag ⟨after, same.symm⟩ with ⟨directive, tag_eq⟩
      exact ⟨by rw [directive]; rfl, [], [], by simp [tag_eq], here⟩
    · rcases exists_split_of_within source_eq (by omega) (by omega) with
        ⟨left, right, before_eq, text_eq⟩
      refine ⟨?_, left, right, text_eq, ?_⟩
      · rcases shape_eq : lexeme.shape <;> rw [shape_eq] at literal <;> first | rfl | cases literal
      · rw [place_eq, before_eq, List.length_append, start_eq]
  rcases split with ⟨token, left, right, text_eq, offset_eq⟩
  rw [token, if_neg Bool.false_ne_true, offset_eq, text_eq]
  exact Tag.mem_places_of_isTag isTag left right

end Places

/-- Tags that begin where a lexeme begins, or that lie in a literal, are tags of the minified script
as well, and in the same order. -/
theorem kept_tags_sublist_of_minify {source minified : Text} (done : minify source = .ok minified) :
    ∃ segmentation : Segmentation, segment source = .ok segmentation ∧
      (((Tag.places source).filter segmentation.keeps).map Prod.snd).Sublist
        (Tag.all minified) := by
  rcases exists_segment_of_minify done with ⟨segmentation, cut, rfl⟩
  rcases segment_eq_ok_iff.mp cut with ⟨rfl, areCut⟩
  have complete := isComplete_of_segment cut
  refine ⟨segmentation, cut, ?_⟩
  have ordered := (Tag.pairwise_places 0 segmentation.source).filter segmentation.keeps
  have included : (Tag.places segmentation.source).filter segmentation.keeps ⊆
      tokenPlaces 0 segmentation.lexemes := by
    intro place place_mem
    rcases List.mem_filter.mp place_mem with ⟨place_mem, keeps⟩
    exact mem_tokenPlaces_of_keeps complete place_mem keeps
  -- Both lists are ordered by offsets, so it is enough that one is included in the other.
  have antisymm : Std.Antisymm fun first second : Nat × Text => first.1 < second.1 :=
    ⟨fun _ _ before after => absurd before (by omega)⟩
  have distinct : ((Tag.places segmentation.source).filter segmentation.keeps).Nodup :=
    ordered.imp fun before same => by
      rw [same] at before
      omega
  have part := List.sublist_of_subperm_of_pairwise (List.subperm_of_subset distinct included)
    ordered (pairwise_tokenPlaces 0 segmentation.lexemes)
  have tags := part.map Prod.snd
  rw [map_snd_tokenPlaces, filter_lexemes complete, List.flatMap_map] at tags
  exact tags.trans (Tag.flatMap_all_sublist _ Piece.separator fun piece => piece.token.text)

namespace Survival

/-- A script with a tag in a literal, one in a comment and one between lexemes. -/
def written : Text :=
  "f ( '(:= a:)  (' ) /* (:= b:) */ + (:include  c:)".toList

theorem minify_written : minify written = .ok "f('(:= a:)  (')+(:include  c:)".toList := by
  decide +kernel

/-- The tag in the comment is not kept. -/
theorem kept_written : (segment written).map (fun segmentation =>
    ((Tag.places written).filter segmentation.keeps).map Prod.snd) =
      .ok ["(:= a:)".toList, "(:include  c:)".toList] := by
  decide +kernel

theorem all_minified : Tag.all "f('(:= a:)  (')+(:include  c:)".toList =
    ["(:= a:)".toList, "(:include  c:)".toList] := by
  cbv

end Survival

/-- The tag in the literal and the one between lexemes are the tags of the minified script. -/
theorem kept_tags_sublist_of_minify_literal :
    minify Survival.written = .ok "f('(:= a:)  (')+(:include  c:)".toList ∧
    ∃ segmentation : Segmentation, segment Survival.written = .ok segmentation ∧
      ((Tag.places Survival.written).filter segmentation.keeps).map Prod.snd =
        ["(:= a:)".toList, "(:include  c:)".toList] ∧
      Tag.all "f('(:= a:)  (')+(:include  c:)".toList =
        ["(:= a:)".toList, "(:include  c:)".toList] ∧
      (((Tag.places Survival.written).filter segmentation.keeps).map Prod.snd).Sublist
        (Tag.all "f('(:= a:)  (')+(:include  c:)".toList) := by
  rcases kept_tags_sublist_of_minify Survival.minify_written with ⟨segmentation, cut, kept⟩
  have kept_eq := Survival.kept_written
  rw [cut] at kept_eq
  exact ⟨Survival.minify_written, segmentation, cut, Except.ok.inj kept_eq, Survival.all_minified,
    kept⟩

end Script

end Pageweave

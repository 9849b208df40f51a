import Mathlib
import Pageweave.Proofs.Survival

/-!
# How tags are recognised

Tags are recognised twice: where a script is cut into lexemes, and where a text is scanned. Both
come to what a tag is (`StandsAt`), with the same end. No two tags of a text have a character in
common, so a search from any place finds all tags that begin from there on. The meaning of a tag is
read off its body alone.
-/

namespace Pageweave

namespace Text

theorem trim_cons_of_blank {c : Char} (blank : isBlank c = true) (text : Text) :
    trim (c :: text) = trim text := by
  rw [trim, List.dropWhile_cons_of_pos blank, trim]

/-- Nothing is left of a text just if all of it is blank. -/
theorem trim_eq_nil_iff {text : Text} : trim text = [] ↔ ∀ c ∈ text, isBlank c = true := by
  have trimmed : trim text = (text.dropWhile isBlank).rdropWhile isBlank := rfl
  rw [trimmed, List.rdropWhile_eq_nil_iff]
  constructor
  · intro blank c c_mem
    rw [← List.takeWhile_append_dropWhile (p := isBlank) (l := text), List.mem_append] at c_mem
    rcases c_mem with front | back
    · exact List.mem_takeWhile_imp front
    · exact blank c back
  · intro blank c c_mem
    exact blank c (List.dropWhile_subset isBlank c_mem)

end Text

/-! ## The meaning of a tag -/

namespace Directive

variable {body : Text} {directive : Directive}

theorem body?_delimited (body : Text) : body? (['(', ':'] ++ body ++ [':', ')']) = some body := by
  have opened : Text.after? ['(', ':'] (['(', ':'] ++ body ++ [':', ')']) =
      some (body ++ [':', ')']) := by
    rw [Text.after?_eq_some_iff, List.append_assoc]
  have closed : Text.after? [')', ':'] (body ++ [':', ')']).reverse = some body.reverse := by
    rw [Text.after?_eq_some_iff, List.reverse_append]
    rfl
  simp only [body?, opened, closed, Option.bind_eq_bind, Option.bind_some, Option.pure_def,
    List.reverse_reverse]

theorem ne_space_of_mem {text : Text} (noSpace : ' ' ∉ text) :
    ∀ c ∈ text, decide (c ≠ ' ') = true := by
  intro c c_mem
  have differs : c ≠ ' ' := by
    rintro rfl
    exact noSpace c_mem
  exact decide_eq_true differs

/-- A body without a space has no payload. -/
theorem ofTag?_of_noSpace (noSpace : ' ' ∉ body) :
    ofTag? (['(', ':'] ++ body ++ [':', ')']) = none := by
  have nothing : body.dropWhile (· ≠ ' ') = [] :=
    List.dropWhile_eq_nil_iff.mpr (ne_space_of_mem noSpace)
  have noPayload : Text.trim [] = [] := rfl
  simp only [ofTag?, body?_delimited, Option.bind_eq_bind, Option.bind_some, nothing, noPayload,
    if_true]

/-- The first space of a body parts the indicator from the payload. -/
theorem ofTag?_of_space {indicator : Text} (noSpace : ' ' ∉ indicator) (payload : Text) :
    ofTag? (['(', ':'] ++ (indicator ++ ' ' :: payload) ++ [':', ')']) =
      if Text.trim payload = [] then none
      else if indicator = substitutionIndicator then
        some (.substitution (['(', ':'] ++ (indicator ++ ' ' :: payload) ++ [':', ')'])
          (Text.trim payload))
      else if indicator = inclusionIndicator then
        some (.inclusion (['(', ':'] ++ (indicator ++ ' ' :: payload) ++ [':', ')'])
          (Text.trim payload))
      else none := by
  have front : (indicator ++ ' ' :: payload).takeWhile (· ≠ ' ') = indicator := by
    rw [List.takeWhile_append_of_pos (ne_space_of_mem noSpace)]
    simp
  have back : (indicator ++ ' ' :: payload).dropWhile (· ≠ ' ') = ' ' :: payload := by
    rw [List.dropWhile_append_of_pos (ne_space_of_mem noSpace)]
    simp
  simp only [ofTag?, body?_delimited, Option.bind_eq_bind, Option.bind_some, front, back,
    Text.trim_cons_of_blank (show isBlank ' ' = true by decide)]

/-- A tag is a directive just if its body is an indicator, a space and a payload with something in
it that is not blank. -/
theorem ofTag?_eq_some_iff :
    ofTag? (['(', ':'] ++ body ++ [':', ')']) = some directive ↔
      ∃ payload, (∃ c ∈ payload, isBlank c = false) ∧
        (body = substitutionIndicator ++ ' ' :: payload ∧
            directive = .substitution (['(', ':'] ++ body ++ [':', ')']) (Text.trim payload) ∨
          body = inclusionIndicator ++ ' ' :: payload ∧
            directive = .inclusion (['(', ':'] ++ body ++ [':', ')']) (Text.trim payload)) := by
  have dark_iff : ∀ payload, Text.trim payload ≠ [] ↔ ∃ c ∈ payload, isBlank c = false := by
    intro payload
    rw [Ne, Text.trim_eq_nil_iff]
    simp
  constructor
  · intro meaning
    by_cases space : ' ' ∈ body
    · rcases List.eq_append_cons_of_mem space with ⟨indicator, payload, rfl, noSpace⟩
      rw [ofTag?_of_space noSpace] at meaning
      split_ifs at meaning with blank substitution inclusion
      · refine ⟨payload, (dark_iff payload).mp blank, .inl ⟨by rw [substitution], ?_⟩⟩
        simpa using meaning.symm
      · refine ⟨payload, (dark_iff payload).mp blank, .inr ⟨by rw [inclusion], ?_⟩⟩
        simpa using meaning.symm
    · rw [ofTag?_of_noSpace space] at meaning
      cases meaning
  · rintro ⟨payload, dark, ⟨rfl, rfl⟩ | ⟨rfl, rfl⟩⟩
    · rw [ofTag?_of_space (by decide), if_neg ((dark_iff payload).mpr dark), if_pos rfl]
    · rw [ofTag?_of_space (by decide), if_neg ((dark_iff payload).mpr dark),
        if_neg (by decide), if_pos rfl]

end Directive

/-! ## Where tags stand -/

namespace Tag

variable {text tag other before after rest : Text} {start start' cursor : Nat}

/-- A tag stands in a text behind its first `start` characters. -/
def StandsAt (text : Text) (start : Nat) (tag : Text) : Prop :=
  IsTag tag ∧ ∃ before after, text = before ++ (tag ++ after) ∧ before.length = start

theorem atStart?_eq_some_iff :
    atStart? text = some (tag, after) ↔ IsTag tag ∧ text = tag ++ after := by
  constructor
  · intro found
    exact ⟨isTag_of_atStart? found, append_of_atStart? found⟩
  · rintro ⟨isTag, rfl⟩
    exact atStart?_append isTag after

/-- Behind a text stands what is at the start of the rest. -/
theorem standsAt_append_iff :
    StandsAt (before ++ rest) before.length tag ↔ ∃ after, atStart? rest = some (tag, after) := by
  constructor
  · rintro ⟨isTag, front, after, same, length_eq⟩
    rcases List.append_inj same length_eq.symm with ⟨-, rest_eq⟩
    exact ⟨after, atStart?_eq_some_iff.mpr ⟨isTag, rest_eq⟩⟩
  · rintro ⟨after, found⟩
    rcases atStart?_eq_some_iff.mp found with ⟨isTag, rfl⟩
    exact ⟨isTag, before, after, rfl, rfl⟩

/-- Of two tags, the one that begins first ends before the other begins. -/
theorem StandsAt.le_of_lt (first : StandsAt text start tag) (second : StandsAt text start' other)
    (earlier : start < start') : start + tag.length ≤ start' := by
  rcases first with ⟨isTag, before, after, text_eq, rfl⟩
  rcases second with ⟨isTag', before', after', text_eq', rfl⟩
  rw [text_eq] at text_eq'
  by_contra overlap
  rcases List.append_eq_append_iff.mp text_eq' with ⟨front, rfl, rest_eq⟩ | ⟨front, rfl, -⟩
  · rw [List.length_append] at earlier overlap
    rcases List.append_eq_append_iff.mp rest_eq with ⟨gap, rfl, -⟩ | ⟨place, rfl, place_eq⟩
    · rw [List.length_append] at overlap
      omega
    · -- The later tag would begin at a place inside the earlier one.
      have inner : place ≠ front ++ place := by
        intro same
        have length_eq := congrArg List.length same
        rw [List.length_append] at length_eq
        omega
      have nonempty : place ≠ [] := by
        rintro rfl
        simp at overlap
      exact not_prefix_of_inner_suffix isTag' isTag inner (List.suffix_append front place) nonempty
        ⟨after', place_eq⟩
  · rw [List.length_append] at earlier
    omega

/-- The tags that a search meets from a place on, each with its distance from the start of the
text. -/
def foundFrom (text : Text) (cursor : Nat) : List (Nat × Text) :=
  Piece.places cursor (cut (text.drop cursor))

theorem mem_foundFrom_iff :
    (start, tag) ∈ foundFrom text cursor ↔ cursor ≤ start ∧ StandsAt text start tag := by
  constructor
  · intro found
    have isTag : IsTag tag := isTag_of_mem_places found
    rcases Piece.split_of_mem_places found with ⟨before, after, rest_eq, start_eq⟩
    rw [assemble_cut] at rest_eq
    have within : cursor ≤ text.length := by
      by_contra beyond
      rw [List.drop_eq_nil_of_le (by omega)] at rest_eq
      simp [ne_nil isTag] at rest_eq
    refine ⟨by omega, isTag, text.take cursor ++ before, after, ?_, ?_⟩
    · rw [List.append_assoc, ← rest_eq, List.take_append_drop]
    · rw [List.length_append, List.length_take_of_le within]
      exact start_eq.symm
  · rintro ⟨cursor_le, isTag, before, after, rfl, rfl⟩
    have found : (cursor + (before.drop cursor).length, tag) ∈
        Piece.places cursor (cut (before.drop cursor ++ (tag ++ after))) :=
      mem_places_of_isTag isTag (before.drop cursor) after
    rw [List.length_drop, Nat.add_sub_cancel' cursor_le] at found
    rwa [foundFrom, List.drop_append_of_le_length cursor_le]

/-- A search meets the tags in their order, each behind the end of the one before. -/
theorem pairwise_foundFrom (text : Text) (cursor : Nat) :
    (foundFrom text cursor).Pairwise fun first second =>
      first.1 + first.2.length ≤ second.1 := by
  refine (pairwise_places cursor (text.drop cursor)).imp_of_mem ?_
  intro first second first_mem second_mem earlier
  exact (mem_foundFrom_iff.mp first_mem).2.le_of_lt (mem_foundFrom_iff.mp second_mem).2 earlier

end Tag

/-- A lexeme of a script is a directive just if a tag of its length stands at the start. -/
theorem Script.Lexeme.measure_eq_directive_iff {written rest : Text} {c : Char} {extent : Nat} :
    measure written c rest = .ok (.directive, extent) ↔
      ∃ tag after, Tag.atStart? (c :: rest) = some (tag, after) ∧ tag.length = extent + 1 := by
  rw [measure_eq_ok_iff]
  constructor
  · intro measures
    cases measures with
    | directive found =>
        rw [directiveExtent_eq] at found
        rcases Option.map_eq_some_iff.mp found with ⟨⟨tag, after⟩, here, rfl⟩
        have longer := Tag.length_of_atStart? here
        exact ⟨tag, after, here, by dsimp only; omega⟩
  · rintro ⟨tag, after, here, length_eq⟩
    have opening := Tag.begins_with_opening (Tag.isTag_of_atStart? here)
    have opens := opening.trans ⟨after, (Tag.append_of_atStart? here).symm⟩
    rcases (List.cons_prefix_cons.mp opens).1 with rfl
    apply Measures.directive
    rw [directiveExtent_eq, here, Option.map_some, length_eq]
    rfl

namespace Tag

/-- Cutting a script and scanning a text recognise the same tags with the same ends, wherever they
stand. Two tags have no character in common, so a search meets, in their order, all tags that begin
at its cursor or later. A tag is a directive just if its body is `=` or `include`, a space and a
payload that is not all blank. -/
theorem recognised_alike :
    (∀ (written before : Text) (c : Char) (rest : Text) (extent : Nat),
      Script.Lexeme.measure written c rest = .ok (.directive, extent) ↔
        ∃ tag, StandsAt (before ++ c :: rest) before.length tag ∧ tag.length = extent + 1) ∧
    (∀ before rest tag : Text,
      (∃ after, atStart? rest = some (tag, after)) ↔
        StandsAt (before ++ rest) before.length tag) ∧
    (∀ (text : Text) (start start' : Nat) (tag tag' : Text),
      StandsAt text start tag → StandsAt text start' tag' → start < start' →
        start + tag.length ≤ start') ∧
    (∀ (text : Text) (cursor : Nat),
      ((foundFrom text cursor).Pairwise fun first second =>
        first.1 + first.2.length ≤ second.1) ∧
      ∀ start tag, (start, tag) ∈ foundFrom text cursor ↔
        cursor ≤ start ∧ StandsAt text start tag) ∧
    ∀ (body : Text) (directive : Directive),
      Directive.ofTag? ("(:".toList ++ body ++ ":)".toList) = some directive ↔
        ∃ payload, (∃ c ∈ payload, isBlank c = false) ∧
          (body = "=".toList ++ ' ' :: payload ∧
              directive = .substitution ("(:".toList ++ body ++ ":)".toList) (Text.trim payload) ∨
            body = "include".toList ++ ' ' :: payload ∧
              directive = .inclusion ("(:".toList ++ body ++ ":)".toList) (Text.trim payload)) := by
  refine ⟨?_, ?_, ?_, ?_, ?_⟩
  · intro written before c rest extent
    rw [Script.Lexeme.measure_eq_directive_iff]
    constructor
    · rintro ⟨tag, after, here, length_eq⟩
      exact ⟨tag, standsAt_append_iff.mpr ⟨after, here⟩, length_eq⟩
    · rintro ⟨tag, stands, length_eq⟩
      rcases standsAt_append_iff.mp stands with ⟨after, here⟩
      exact ⟨tag, after, here, length_eq⟩
  · intro before rest tag
    exact standsAt_append_iff.symm
  · intro text start start' tag tag' first second earlier
    exact first.le_of_lt second earlier
  · intro text cursor
    exact ⟨pairwise_foundFrom text cursor, fun start tag => mem_foundFrom_iff⟩
  · intro body directive
    exact Directive.ofTag?_eq_some_iff

/-- Behind an opening that is not closed, a tag and another one with nothing in it. -/
theorem recognised_alike_neighbours :
    StandsAt "(:(:= a:)(::)".toList 2 "(:= a:)".toList ∧
      StandsAt "(:(:= a:)(::)".toList 9 "(::)".toList ∧ 2 + "(:= a:)".toList.length ≤ 9 := by
  have inside : "= a".toList.all inBody = true := by decide
  have first : StandsAt "(:(:= a:)(::)".toList 2 "(:= a:)".toList :=
    ⟨⟨"= a".toList, List.all_eq_true.mp inside, rfl⟩, "(:".toList, "(::)".toList, rfl, rfl⟩
  have second : StandsAt "(:(:= a:)(::)".toList 9 "(::)".toList :=
    ⟨⟨[], by simp, rfl⟩, "(:(:= a:)".toList, [], rfl, rfl⟩
  exact ⟨first, second, recognised_alike.2.2.1 _ _ _ _ _ first second (by decide)⟩

end Tag

end Pageweave

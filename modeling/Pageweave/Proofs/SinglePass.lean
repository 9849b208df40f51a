import Mathlib
import Pageweave.Proofs.Scanning

/-!
# Scans in a single pass

A scan goes back to the start of each value that it puts into the text. If no tag begins in any of
these values, whatever follows them, that makes no difference: the scan comes to the tags of the
original text, to each of them once and in their order, and does what is done with the tags when
the original text is cut at them once (`Scan.outcome_run`).

A value in which no tag begins only makes the literal before the next tag longer
(`Tag.cut_append_of_opensNothing`), and this carries the induction on the steps of the scan.
-/

namespace Pageweave

namespace Scan

/-- What comes out of a scan. -/
structure Outcome where
  /-- The text it leaves. -/
  text : Text
  /-- The substitutions met. -/
  substitutions : List Directive
  /-- The tags and paths of the inclusions met. -/
  inclusions : List (Text × Text)
  /-- The tags of the substitutions that were not made. -/
  unresolved : List Text
  /-- The tags without a meaning. -/
  unknown : List Text
deriving DecidableEq

/-- What comes out of a scan. -/
def outcome (scan : Scan) : Outcome where
  text := scan.text
  substitutions := scan.substitutions
  inclusions := scan.inclusions
  unresolved := scan.unresolved
  unknown := scan.unknown

/-- What comes out of a single pass over the tags of a text: the first `limit` substitutions that
there is a value for are made, and every other tag stays and is recorded. -/
def Outcome.ofPass (context : Context) (limit : Nat) (text : Text) : Outcome :=
  let left := Piece.substitute context limit (Tag.cut text)
  { text := Piece.assemble left
    substitutions := (Tag.all text).filterMap Tag.substitution?
    inclusions := (Piece.tags left).filterMap fun tag => (Piece.tag tag).inclusion?
    unresolved := (Piece.tags left).filter Tag.asksForValue
    unknown := (Piece.tags left).filter fun tag => Directive.ofTag? tag = none }

variable {context : Context} {limit made : Nat} {text : Text} {steps : List Step}

theorem substitutions_eq (follows : Follows context limit made steps) (tail : Text) :
    substitutions ⟨steps, tail⟩ = (steps.map Step.tag).filterMap Tag.substitution? := by
  induction follows with
  | nil => rfl
  | cons due rest ih =>
      rw [substitutions] at ih ⊢
      rw [List.filterMap_cons, List.map_cons, List.filterMap_cons, ih]
      cases due <;> simp [Tag.substitution?, *]

/-- A scan with values in which no tag begins comes to the tags of the text, and substitutes in the
pieces that the text is cut into. -/
theorem run_cut (context : Context) (limit : Nat) (text front : Text)
    (values : ∀ edit ∈ editsFrom front (run context limit text).steps, edit.value.OpensNothing) :
    (run context limit text).text =
        Piece.assemble (Piece.substitute context limit (Tag.cut text)) ∧
      (run context limit text).kept =
        Piece.tags (Piece.substitute context limit (Tag.cut text)) ∧
      (run context limit text).steps.map Step.tag = Tag.all text := by
  induction limit, text using step_induction context generalizing front with
  | done limit text absent =>
      rw [run_of_none absent, Tag.all, Tag.cut_of_none absent]
      simp [Scan.text, kept, Piece.substitute, Piece.text]
  | next limit text before tag rest action found due run_eq ih =>
      have isDue := Action.isDue_on context (0 < limit) tag
      rw [← due] at isDue
      have value_eq := isDue.value?_eq
      rw [run_eq] at values ⊢
      rcases List.forall_mem_append.mp values with ⟨here, later⟩
      rcases ih _ later with ⟨text_eq, kept_eq, tags_eq⟩
      rw [text_cons, kept_cons, Step.text_eq, Step.stays, text_eq, kept_eq, Tag.all_of_some found,
        Tag.cut_of_some found, Piece.substitute, ← List.singleton_append (l := Tag.all rest)]
      change _ ∧ _ ∧ tag :: List.map Step.tag _ = _
      rw [tags_eq]
      cases gives : action.value? with
      | none =>
          have stays : limit = 0 ∨ context.valueFor? tag = none := by
            rw [gives] at value_eq
            by_cases positive : 0 < limit
            · rw [if_pos positive, eq_comm, Option.map_eq_none_iff] at value_eq
              exact Or.inr value_eq
            · exact Or.inl (by omega)
          rw [Action.cost_of_none gives, Piece.substitute_tag_of_none stays]
          simp [Piece.text]
      | some value =>
          have positive := isDue.allowed_of_value? gives
          rw [gives, if_pos positive, eq_comm, Option.map_eq_some_iff] at value_eq
          rcases value_eq with ⟨datum, datum_eq, rfl⟩
          have opensNothing : datum.interpolated.OpensNothing :=
            here ⟨front ++ before, tag, datum.interpolated⟩ (by simp [gives])
          rcases Nat.exists_eq_add_one.mpr positive with ⟨fewer, rfl⟩
          rw [Action.cost_of_some gives, Option.getD_some, Nat.add_sub_cancel,
            Piece.substitute_tag_of_some datum_eq,
            Piece.assemble_substitute_cut_append opensNothing,
            Piece.tags_substitute_cut_append opensNothing,
            Tag.all_append_of_opensNothing opensNothing]
          simp [Piece.text]

/-- If no tag begins in the values that a scan puts into the text, the scan comes to the tags of the
text one after the other, and its outcome is that of a single pass over them. -/
theorem outcome_run (context : Context) (limit : Nat) (text : Text)
    (opensNothing : ∀ edit ∈ (run context limit text).edits, edit.value.OpensNothing) :
    (run context limit text).outcome = Outcome.ofPass context limit text ∧
      (run context limit text).steps.map Step.tag = Tag.all text := by
  have follows := follows_run context limit text
  rcases run_cut context limit text [] opensNothing with ⟨text_eq, kept_eq, tags_eq⟩
  refine ⟨?_, tags_eq⟩
  have substitutions_eq' := substitutions_eq follows (run context limit text).tail
  have inclusions_eq' := inclusions_eq follows (run context limit text).tail
  have unresolved_eq' := unresolved_eq follows (run context limit text).tail
  have unknown_eq' := unknown_eq follows (run context limit text).tail
  rw [tags_eq] at substitutions_eq'
  rw [kept_eq] at inclusions_eq' unresolved_eq' unknown_eq'
  rw [outcome, Outcome.ofPass, text_eq, substitutions_eq', inclusions_eq', unresolved_eq',
    unknown_eq']

/-- Values that are shorter than their tags, longer, empty, and reached only in part. -/
def passContext : Context :=
  ⟨[("e".toList, .string []), ("o".toList, .object [("k".toList, .string "v".toList)]),
    ("s".toList, .string "é".toList), ("w".toList, .string "[wider than its tag:)".toList)]⟩

/-- A text with tags of all kinds, some of them next to each other. -/
def passText : Text :=
  "ü(:= s:)(:= w:)((:= e:):x(:= n:)(:a:)(:= o.q:)(:include p:)(:= s:)(:= s:)".toList

theorem edits_passText : (run passContext 5 passText).edits.map Edit.value =
    ["é".toList, "[wider than its tag:)".toList, [], "\x7b\"k\":\"v\"\x7d".toList,
      "é".toList] := by
  cbv

theorem opensNothing_passText :
    ∀ edit ∈ (run passContext 5 passText).edits, edit.value.OpensNothing := by
  rw [← List.forall_mem_map (P := Text.OpensNothing), edits_passText]
  decide

/-- What comes out of the scan of the text. -/
def passOutcome : Outcome where
  text := "üé[wider than its tag:)(:x(:= n:)(:a:)\x7b\"k\":\"v\"\x7d(:include p:)é(:= s:)".toList
  substitutions := ["s", "w", "e", "n", "o.q", "s", "s"].map fun keyPath =>
    .substitution ("(:= " ++ keyPath ++ ":)").toList keyPath.toList
  inclusions := [("(:include p:)".toList, "p".toList)]
  unresolved := ["(:= n:)".toList, "(:= s:)".toList]
  unknown := ["(:a:)".toList]

theorem outcome_passText : (run passContext 5 passText).outcome = passOutcome := by
  cbv

theorem all_passText : Tag.all passText =
    ["(:= s:)", "(:= w:)", "(:= e:)", "(:= n:)", "(:a:)", "(:= o.q:)", "(:include p:)", "(:= s:)",
      "(:= s:)"].map String.toList := by
  cbv

/-- The last substitution is left, since the limit has been reached. -/
theorem outcome_run_passText :
    (∀ edit ∈ (run passContext 5 passText).edits, edit.value.OpensNothing) ∧
      (run passContext 5 passText).outcome = passOutcome ∧
      Outcome.ofPass passContext 5 passText = passOutcome ∧
      (run passContext 5 passText).steps.map Step.tag =
        ["(:= s:)", "(:= w:)", "(:= e:)", "(:= n:)", "(:a:)", "(:= o.q:)", "(:include p:)",
          "(:= s:)", "(:= s:)"].map String.toList := by
  rcases outcome_run passContext 5 passText opensNothing_passText with ⟨outcome_eq, tags_eq⟩
  exact ⟨opensNothing_passText, outcome_passText, outcome_eq.symm.trans outcome_passText,
    tags_eq.trans all_passText⟩

end Scan

end Pageweave

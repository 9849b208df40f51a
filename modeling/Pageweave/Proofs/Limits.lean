import Mathlib
import Pageweave.Proofs.Scanning

/-!
# Limits of substitutions

Two scans of a text with different limits do the same until one of them may make no more
substitutions. A scan that reports no limit has therefore done all that it would do with a higher
one, and a scan that does has made just as many substitutions as it is allowed, which are the
first ones that a scan with a higher limit makes (`Scan.raise_limit`).

What tells the scans apart is a substitution that is refused. The induction is on the steps of the
scan with the lower limit; while substitutions are left to it, the other one has at least as many.
-/

namespace Pageweave

/-- Whether a substitution is refused. -/
def Step.isRefused (step : Step) : Bool :=
  match step.action with
  | .refused _ => true
  | _ => false

theorem Action.IsDue.forbidden {context : Context} {allowed : Prop} {before tag : Text}
    {action : Action} (due : IsDue context allowed tag action)
    (refused : Step.isRefused ⟨before, tag, action⟩ = true) : ¬allowed := by
  cases due with
  | refused meaning forbidden => exact forbidden
  | _ => cases refused

/-- What is done with a tag under one limit is done under a higher one, unless a substitution is
refused. -/
theorem Action.on_of_not_refused {context : Context} {limit limit' : Nat} {before tag : Text}
    (higher : limit ≤ limit')
    (notRefused : Step.isRefused ⟨before, tag, on context (0 < limit) tag⟩ = false) :
    on context (0 < limit') tag = on context (0 < limit) tag := by
  rcases Nat.eq_zero_or_pos limit with rfl | positive
  · rw [Step.isRefused, on] at notRefused
    rw [on, on]
    cases meaning : Directive.ofTag? tag with
    | none => rfl
    | some directive =>
        cases directive with
        | inclusion written path => rfl
        | substitution written keyPath => simp [meaning] at notRefused
  · simp [positive, Nat.lt_of_lt_of_le positive higher]

namespace Scan

variable {context : Context} {limit made : Nat} {steps : List Step}

/-- The limit is reported just if a substitution is refused. -/
theorem substitutionLimit_mem_iff :
    .substitutionLimit limit ∈ noticesOf limit false steps ↔ steps.any Step.isRefused = true := by
  induction steps with
  | nil => simp [noticesOf]
  | cons step steps ih =>
      rw [noticesOf, List.any_cons, Step.isRefused]
      split <;> simp [*]

/-- The limit is named only where a substitution is refused. -/
theorem noticesOf_eq (notRefused : steps.any Step.isRefused = false) (limit limit' : Nat)
    (reported : Bool) : noticesOf limit' reported steps = noticesOf limit reported steps := by
  induction steps with
  | nil => rfl
  | cons step steps ih =>
      rw [List.any_cons, Bool.or_eq_false_iff, Step.isRefused] at notRefused
      rw [noticesOf, noticesOf, ih notRefused.2]
      have here := notRefused.1
      split <;> simp_all

/-- A substitution is refused only when as many as are allowed have been made. -/
theorem le_length_editsFrom (follows : Follows context limit made steps)
    (refused : steps.any Step.isRefused = true) (front : Text) :
    limit ≤ made + (editsFrom front steps).length := by
  induction follows generalizing front with
  | nil => simp at refused
  | @cons made before tag action steps due rest ih =>
      rw [editsFrom, List.length_append, Action.length_toList_value?]
      rw [List.any_cons, Bool.or_eq_true] at refused
      rcases refused with here | later
      · have forbidden := due.forbidden here
        omega
      · rw [← Nat.add_assoc]
        exact ih later _

/-- A scan that refuses no substitution does what it does with any higher limit. -/
theorem run_of_not_refused {text : Text}
    (notRefused : (run context limit text).steps.any Step.isRefused = false) {limit' : Nat}
    (higher : limit ≤ limit') : run context limit' text = run context limit text := by
  induction limit, text using step_induction context generalizing limit' with
  | done limit text absent => rw [run_of_none absent, run_of_none absent]
  | next limit text before tag rest action found due run_eq ih =>
      rw [run_eq] at notRefused ⊢
      rcases Bool.or_eq_false_iff.mp notRefused with ⟨here, later⟩
      rw [due] at here
      have due' := due.trans (Action.on_of_not_refused higher here).symm
      rw [run_of_first found due', ih later (Nat.sub_le_sub_right higher _)]

/-- The substitutions that a scan makes are the first ones that it makes with a higher limit. -/
theorem editsFrom_prefix (limit : Nat) (text front : Text) {limit' : Nat}
    (higher : limit ≤ limit') :
    editsFrom front (run context limit text).steps <+:
      editsFrom front (run context limit' text).steps := by
  induction limit, text using step_induction context generalizing limit' front with
  | done limit text absent => rw [run_of_none absent, run_of_none absent]
  | next limit text before tag rest action found due run_eq ih =>
      cases refused : Step.isRefused ⟨before, tag, action⟩ with
      | true =>
          have isDue := Action.isDue_on context (0 < limit) tag
          rw [← due] at isDue
          have forbidden := isDue.forbidden refused
          have none_made := length_editsFrom_le (follows_run context limit text)
            (Nat.zero_le limit) front
          have nothing : editsFrom front (run context limit text).steps = [] :=
            List.length_eq_zero_iff.mp (by omega)
          rw [nothing]
          exact List.nil_prefix
      | false =>
          rw [due] at refused
          have due' := due.trans (Action.on_of_not_refused higher refused).symm
          rw [run_eq, run_of_first found due']
          exact (List.prefix_append_right_inj _).mpr (ih _ (Nat.sub_le_sub_right higher _))

/-- With a higher limit, a scan that does not report its limit comes to the same and reports the
same; one that reports it has made as many substitutions as it may, and the scan with the higher
limit begins with these. -/
theorem raise_limit (context : Context) (text : Text) {limit limit' : Nat}
    (higher : limit ≤ limit') :
    (.substitutionLimit limit ∉ (run context limit text).notices limit →
      run context limit' text = run context limit text ∧
        (run context limit' text).notices limit' = (run context limit text).notices limit) ∧
    (.substitutionLimit limit ∈ (run context limit text).notices limit →
      (run context limit text).edits.length = limit ∧
        (run context limit text).edits <+: (run context limit' text).edits) := by
  constructor
  · intro unreported
    rw [notices, substitutionLimit_mem_iff, Bool.not_eq_true] at unreported
    have run_eq := run_of_not_refused unreported higher
    rw [run_eq]
    exact ⟨rfl, noticesOf_eq unreported limit limit' false⟩
  · intro reported
    rw [notices, substitutionLimit_mem_iff] at reported
    have follows := follows_run context limit text
    have allowed := length_editsFrom_le follows (Nat.zero_le limit) []
    have exhausted := le_length_editsFrom follows reported []
    exact ⟨by rw [edits]; omega, editsFrom_prefix limit text [] higher⟩

/-- A value that asks for itself once more. -/
def loopContext : Context :=
  ⟨[("a".toList, .string "1".toList), ("loop".toList, .string "x(:= loop:)".toList)]⟩

/-- A scan that is cut off, and one that is not. -/
theorem raise_limit_loop :
    2 ≤ 4 ∧
      .substitutionLimit 2 ∈ (run loopContext 2 "(:= loop:)".toList).notices 2 ∧
      (run loopContext 2 "(:= loop:)".toList).edits.length = 2 ∧
      (run loopContext 2 "(:= loop:)".toList).edits <+:
        (run loopContext 4 "(:= loop:)".toList).edits ∧
      .substitutionLimit 2 ∉ (run loopContext 2 "(:= a:)(:= b:)".toList).notices 2 ∧
      run loopContext 4 "(:= a:)(:= b:)".toList = run loopContext 2 "(:= a:)(:= b:)".toList ∧
      (run loopContext 4 "(:= a:)(:= b:)".toList).notices 4 =
        (run loopContext 2 "(:= a:)(:= b:)".toList).notices 2 := by
  have reported : .substitutionLimit 2 ∈
      (run loopContext 2 "(:= loop:)".toList).notices 2 := by
    rw [notices, substitutionLimit_mem_iff]
    cbv
  have unreported : .substitutionLimit 2 ∉
      (run loopContext 2 "(:= a:)(:= b:)".toList).notices 2 := by
    rw [notices, substitutionLimit_mem_iff, Bool.not_eq_true]
    cbv
  rcases (raise_limit loopContext "(:= loop:)".toList (by decide : 2 ≤ 4)).2 reported with
    ⟨made, first⟩
  rcases (raise_limit loopContext "(:= a:)(:= b:)".toList (by decide : 2 ≤ 4)).1 unreported with
    ⟨same, same_notices⟩
  exact ⟨by decide, reported, made, first, unreported, same, same_notices⟩

end Scan

end Pageweave

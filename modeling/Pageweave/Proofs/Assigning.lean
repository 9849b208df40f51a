import Mathlib
import Pageweave.CommandLine.Assignment
import Pageweave.Proofs.KeyPaths
import Pageweave.Proofs.Recognition
import Pageweave.Proofs.Relevance

/-!
# Variables that are assigned and asked for

An assignment puts a value under its whole name, and a key path looks for a value under what stands
before its first dot. So a variable whose name has no dot is found again, and a tag that asks for
it gives way to its value; a variable whose name has a dot is out of reach, since the key path that
is its name begins with another name. All other key paths come to what they came to before.
-/

namespace Pageweave

namespace Text

/-- A text that was trimmed has nothing to trim. -/
theorem trim_trim (text : Text) : trim (trim text) = trim text := by
  have unblank : (trim text).dropWhile isBlank = trim text := by
    have prefixed : trim text <+: text.dropWhile isBlank := List.rdropWhile_prefix isBlank _
    cases trimmed : trim text with
    | nil => rfl
    | cons c rest =>
        have first := List.head?_dropWhile_not isBlank text
        rw [trimmed] at prefixed
        rcases prefixed with ⟨after, whole⟩
        rw [← whole] at first
        have dark : isBlank c = false := by simpa using first
        simp [dark]
  rw [trim, unblank]
  exact List.rdropWhile_idempotent isBlank (text.dropWhile isBlank)

end Text

/-! ## Tags that ask for a value -/

namespace Directive

/-- The tag that asks for the value at a key path. -/
def asking (keyPath : Text) : Text :=
  ['(', ':'] ++ ('=' :: ' ' :: keyPath) ++ [':', ')']

theorem isTag_asking {keyPath : Text} (noColon : ':' ∉ keyPath) (noClosing : ')' ∉ keyPath) :
    IsTag (asking keyPath) := by
  refine ⟨'=' :: ' ' :: keyPath, ?_, rfl⟩
  intro c c_mem
  have plain : c ≠ ':' ∧ c ≠ ')' := by
    rcases List.mem_cons.mp c_mem with rfl | c_mem
    · decide
    rcases List.mem_cons.mp c_mem with rfl | c_mem
    · decide
    · exact ⟨fun same => noColon (same ▸ c_mem), fun same => noClosing (same ▸ c_mem)⟩
  simp [Tag.inBody, plain]

/-- A key path without blanks around it is what its tag asks for. -/
theorem ofTag?_asking {keyPath : Text} (trimmed : Text.trim keyPath = keyPath)
    (nonempty : keyPath ≠ []) :
    ofTag? (asking keyPath) = some (.substitution (asking keyPath) keyPath) := by
  have noSpace : ' ' ∉ substitutionIndicator := by decide
  have meaning := ofTag?_of_space noSpace keyPath
  rwa [trimmed, if_neg nonempty, if_pos rfl] at meaning

end Directive

/-! ## Variables -/

namespace Assignment

variable {context : Context} {assignment : Assignment} {keyPath : Text}

theorem isTrimmed_name {written : Text} (accepted : ofText written = .ok assignment) :
    Text.trim assignment.name = assignment.name ∧ assignment.name ≠ [] := by
  rw [ofText] at accepted
  split at accepted
  · cases accepted
  · next before after _ =>
      split at accepted
      · cases accepted
      · next nonempty =>
          cases accepted
          exact ⟨Text.trim_trim before, nonempty⟩

theorem resolve_applyTo_of_ne (other : KeyPath.name keyPath ≠ assignment.name) :
    (assignment.applyTo context).resolve keyPath = context.resolve keyPath := by
  apply Context.resolve_eq_of_agree
  rw [KeyPath.splitOn_eq]
  intro name name_mem
  rw [List.mem_singleton.mp name_mem]
  exact Context.find?_assign_of_ne other context assignment.value

theorem resolve_applyTo_of_noDot (noDot : '.' ∉ assignment.name) :
    (assignment.applyTo context).resolve assignment.name = .found assignment.value := by
  have stored : (assignment.applyTo context).find? assignment.name = some assignment.value :=
    Context.find?_assign_self context assignment.name assignment.value
  rw [← KeyPath.name_of_noDot noDot] at stored
  cases kind : assignment.value.isContainer with
  | false => exact Context.resolve_of_scalar stored kind
  | true =>
      rw [Context.resolve_of_container stored kind, KeyPath.segments_of_noDot noDot]
      rfl

/-- An assignment puts its value within reach of the key path that is its name if the name has no
dot, and makes no difference to this key path if it has one. -/
theorem resolve_applyTo_name (context : Context) (assignment : Assignment) :
    (assignment.applyTo context).resolve assignment.name =
      if '.' ∈ assignment.name then context.resolve assignment.name
      else .found assignment.value := by
  split
  · next dot => exact resolve_applyTo_of_ne (KeyPath.name_ne_of_dot dot)
  · next noDot => exact resolve_applyTo_of_noDot noDot

/-- A tag that asks for a variable gives way to the text of its value, which is scanned in turn. -/
theorem text_run_asking {written before : Text} (accepted : ofText written = .ok assignment)
    (noDot : '.' ∉ assignment.name) (isTag : IsTag (Directive.asking assignment.name))
    (isQuiet : before.IsQuiet) (limit : Nat) (rest : Text) :
    (Scan.run (assignment.applyTo context) (limit + 1)
        (before ++ (Directive.asking assignment.name ++ rest))).text =
      before ++ (Scan.run (assignment.applyTo context) limit
        (assignment.value.interpolated ++ rest)).text := by
  rcases isTrimmed_name accepted with ⟨trimmed, nonempty⟩
  rw [Scan.run_of_some (Tag.first?_append isQuiet isTag rest),
    Directive.ofTag?_asking trimmed nonempty]
  simp only [resolve_applyTo_of_noDot noDot, Scan.text_cons]
  rfl

/-- After an assignment that is accepted, the key path that is its name leads to its value, unless
there is a dot in the name, which leaves it out of reach; a key path that begins with another name
comes to what it came to before; and a tag that asks for a name without dots gives way to the text
of the value. -/
theorem resolve_of_accepted {written : Text} {assignment : Assignment}
    (accepted : ofText written = .ok assignment) (context : Context) :
    (assignment.applyTo context).resolve assignment.name =
        (if '.' ∈ assignment.name then context.resolve assignment.name
          else .found assignment.value) ∧
      (∀ keyPath, KeyPath.name keyPath ≠ assignment.name →
        (assignment.applyTo context).resolve keyPath = context.resolve keyPath) ∧
      ('.' ∉ assignment.name → ':' ∉ assignment.name → ')' ∉ assignment.name →
        ∀ (before rest : Text) (limit : Nat), before.IsQuiet →
          (Scan.run (assignment.applyTo context) (limit + 1)
              (before ++ (Directive.asking assignment.name ++ rest))).text =
            before ++ (Scan.run (assignment.applyTo context) limit
              (assignment.value.interpolated ++ rest)).text) := by
  refine ⟨resolve_applyTo_name context assignment, ?_, ?_⟩
  · exact fun _ other => resolve_applyTo_of_ne other
  · intro noDot noColon noClosing before rest limit isQuiet
    exact text_run_asking accepted noDot (Directive.isTag_asking noColon noClosing) isQuiet limit
      rest

/-- A list under a name with a space in it, which is written with blanks around it. -/
def titles : Assignment where
  name := "page titles".toList
  value := .array [.string "Home".toList]

theorem ofText_titles : ofText " page titles = [\"Home\"]".toList = .ok titles := by
  cbv

/-- The list is found, and it is what a tag that asks for it gives way to. -/
theorem resolve_of_accepted_titles :
    ofText " page titles = [\"Home\"]".toList = .ok titles ∧
      (titles.applyTo {}).resolve "page titles".toList = .found titles.value ∧
      (titles.applyTo {}).resolve "page.titles".toList = .missing ∧
      (Scan.run (titles.applyTo {}) 1 "<(:= page titles:)>".toList).text =
        "<[\"Home\"]>".toList := by
  have whole := resolve_of_accepted ofText_titles {}
  refine ⟨ofText_titles, whole.1, ?_, ?_⟩
  · exact whole.2.1 "page.titles".toList (by decide)
  · have written := whole.2.2 (by decide) (by decide) (by decide) ['<'] ['>'] 0 (by decide)
    have left : Tag.first? (titles.value.interpolated ++ ['>']) = none :=
      Tag.first?_eq_none (by decide)
    rw [Scan.run_of_none left] at written
    exact written

/-- A variable with a dot in its name is not found by it. -/
theorem resolve_missing_of_dotted :
    ¬∀ (written : Text) (assignment : Assignment) (context : Context),
      ofText written = .ok assignment →
      (assignment.applyTo context).resolve assignment.name = .found assignment.value := by
  intro found
  have accepted : ofText "user.name=\"Ada\"".toList =
      .ok ⟨"user.name".toList, .string "Ada".toList⟩ := by
    cbv
  have reached := found _ _ {} accepted
  rw [resolve_applyTo_name, if_pos (by decide)] at reached
  cases reached

end Assignment

end Pageweave

import Mathlib.Data.Char
import Mathlib.Data.List.Lex
import Mathlib.Data.List.Sort
import Pageweave.CommandLine.Commands

/-!
# Variables laid over data

The data of a rendering is an object read from a file, with variables from the command line laid
over it. This file says which context that is: each name has the value that it was given last on the
command line, or else its value in the object, and the names stand in their order.

The order matters twice. A context is written out in it, so that two contexts with the same values
are the same only if both keep to it; and in an object that kept a name twice, the value found
would be the first one and the value assigned the last. That objects keep their names in order is
an invariant of reading, kept by every token.
-/

namespace Pageweave

/-- The order of texts is the lexicographic one. -/
theorem Text.precedes_iff_lt {first second : Text} :
    Text.precedes first second = true ↔ first < second := by
  induction first generalizing second with
  | nil => cases second <;> simp [Text.precedes]
  | cons a first ih =>
      cases second with
      | nil => simp [Text.precedes]
      | cons b second =>
          rw [Text.precedes, List.cons_lt_cons_iff]
          split
          · next same => simp [ih, same]
          · next differ => simp [differ, Char.lt_def, UInt32.lt_iff_toNat_lt]

/-! ## Members in order -/

namespace Members

/-- The names stand in their order, each once. -/
def IsOrdered (members : Members) : Prop :=
  members.Pairwise fun first second => first.1 < second.1

variable {name : Text} {value : Value} {members : Members}

theorem isOrdered_nil : IsOrdered [] :=
  List.Pairwise.nil

theorem mem_insert {member : Text × Value} (member_mem : member ∈ members.insert name value) :
    member = (name, value) ∨ member ∈ members := by
  induction members with
  | nil => simpa [insert] using member_mem
  | cons head members ih =>
      rw [insert] at member_mem
      split at member_mem
      · grind
      · split at member_mem
        · grind
        · grind

theorem IsOrdered.insert (ordered : members.IsOrdered) (name : Text) (value : Value) :
    (members.insert name value).IsOrdered := by
  induction members with
  | nil => exact List.pairwise_singleton _ _
  | cons head members ih =>
      rcases List.pairwise_cons.mp ordered with ⟨least, rest⟩
      rw [Members.insert]
      split
      · next same =>
          subst same
          exact List.pairwise_cons.mpr ⟨least, rest⟩
      · next differ =>
          split
          · next earlier =>
              have earlier' : name < head.1 := Text.precedes_iff_lt.mp earlier
              refine List.pairwise_cons.mpr ⟨?_, ordered⟩
              intro member member_mem
              rcases List.mem_cons.mp member_mem with rfl | member_mem
              · exact earlier'
              · exact earlier'.trans (least member member_mem)
          · next notEarlier =>
              have later : head.1 < name := by
                apply lt_of_le_of_ne (not_lt.mp _) (Ne.symm differ)
                exact fun earlier => notEarlier (Text.precedes_iff_lt.mpr earlier)
              refine List.pairwise_cons.mpr ⟨?_, ih rest⟩
              intro member member_mem
              rcases mem_insert member_mem with rfl | member_mem
              · exact later
              · exact least member member_mem

/-- In members in order, what is found under a name is what stands there. -/
theorem IsOrdered.find?_eq_some_iff (ordered : members.IsOrdered) :
    members.find? name = some value ↔ (name, value) ∈ members := by
  induction members with
  | nil => simp [find?]
  | cons head members ih =>
      rcases List.pairwise_cons.mp ordered with ⟨least, rest⟩
      rw [find?, List.mem_cons]
      split
      · next same =>
          have absent : (head.1, value) ∉ members :=
            fun member_mem => (least _ member_mem).ne rfl
          simp [same, absent, Prod.ext_iff, eq_comm]
      · next differ => simp [ih rest, Prod.ext_iff, differ]

/-- Members in order are determined by what is found under each name. -/
theorem IsOrdered.ext {first second : Members} (ordered : first.IsOrdered)
    (ordered' : second.IsOrdered) (same : ∀ name, first.find? name = second.find? name) :
    first = second := by
  have : Std.Irrefl fun first second : Text × Value => first.1 < second.1 :=
    ⟨fun _ => lt_irrefl _⟩
  have : Std.Antisymm fun first second : Text × Value => first.1 < second.1 :=
    ⟨fun _ _ before after => absurd after before.asymm⟩
  apply List.Pairwise.eq_of_mem_iff ordered ordered'
  rintro ⟨name, value⟩
  rw [← ordered.find?_eq_some_iff, ← ordered'.find?_eq_some_iff, same]

end Members

/-! ## Objects are read in order -/

/-- If a value is an object, its members are in order. -/
def Value.IsOrdered : Value → Prop
  | object members => Members.IsOrdered members
  | null | bool _ | number _ | string _ | array _ => True

namespace Json

/-- If a token is a value, it is in order. -/
def Token.IsOrdered : Token → Prop
  | scalar value => value.IsOrdered
  | openArray | closeArray | openObject | closeObject | comma | colon => True

/-- If a container is an object, the members read so far are in order. -/
def Frame.IsOrdered : Frame → Prop
  | array _ => True
  | object members _ => Members.IsOrdered members

/-- All objects read so far are in order. -/
def State.IsOrdered : State → Prop
  | value frames _ | afterItem frames _ => ∀ frame ∈ frames, frame.IsOrdered
  | name frames members _ | colon frames members _ | afterMember frames members =>
      Members.IsOrdered members ∧ ∀ frame ∈ frames, frame.IsOrdered
  | complete datum => datum.IsOrdered

theorem Token.isOrdered_of_name? {rest : Text} {expected : String} {value : Value} {token : Token}
    {extent : Nat} (ordered : value.IsOrdered)
    (measured : name? rest expected value = some (token, extent)) : token.IsOrdered := by
  rw [name?] at measured
  split at measured
  · cases measured
    exact ordered
  · cases measured

theorem Token.isOrdered_of_measure? {c : Char} {rest : Text} {token : Token} {extent : Nat}
    (measured : Token.measure? c rest = some (token, extent)) : token.IsOrdered := by
  unfold measure? at measured
  split at measured
  case h_7 | h_8 | h_9 => exact isOrdered_of_name? (by trivial) measured
  case h_10 =>
    rcases Option.map_eq_some_iff.mp measured with ⟨⟨text, _⟩, -, token_eq⟩
    cases token_eq
    trivial
  case h_11 =>
    simp only [Option.bind_eq_bind, Option.bind_eq_some_iff] at measured
    rcases measured with ⟨_, -, number, -, token_eq⟩
    cases token_eq
    trivial
  all_goals
    cases measured
    trivial

theorem State.isOrdered_ofValue {datum : Value} {frames : List Frame}
    (ordered : datum.IsOrdered) (around : ∀ frame ∈ frames, frame.IsOrdered) :
    (State.ofValue datum frames).IsOrdered := by
  cases frames with
  | nil => exact ordered
  | cons frame frames =>
      rcases List.forall_mem_cons.mp around with ⟨innermost, rest⟩
      cases frame with
      | array items => exact rest
      | object members name => exact ⟨innermost.insert name datum, rest⟩

theorem State.isOrdered_opened {frames : List Frame} {state next : State}
    (opened : State.step.opened frames state = some next) (ordered : state.IsOrdered) :
    next.IsOrdered := by
  rw [step.opened] at opened
  split at opened
  · cases opened
    exact ordered
  · cases opened

/-- One more token leaves everything in order. -/
theorem State.isOrdered_step {state next : State} {token : Token} (flat : token.IsOrdered)
    (ordered : state.IsOrdered) (stepped : state.step token = some next) : next.IsOrdered := by
  unfold step at stepped
  split at stepped
  case h_1 =>
    cases stepped
    exact isOrdered_ofValue flat ordered
  case h_2 => exact isOrdered_opened stepped (List.forall_mem_cons.mpr ⟨trivial, ordered⟩)
  case h_3 => exact isOrdered_opened stepped ⟨Members.isOrdered_nil, ordered⟩
  case h_4 =>
    cases stepped
    exact isOrdered_ofValue trivial (List.forall_mem_cons.mp ordered).2
  case h_6 | h_11 =>
    cases stepped
    exact isOrdered_ofValue ordered.1 ordered.2
  case h_7 =>
    cases stepped
    exact List.forall_mem_cons.mpr ordered
  case h_8 =>
    cases stepped
    exact List.forall_mem_cons.mpr ⟨trivial, ordered⟩
  case h_9 =>
    cases stepped
    exact isOrdered_ofValue trivial ordered
  case h_5 | h_10 =>
    cases stepped
    exact ordered
  case h_12 => cases stepped

theorem State.isOrdered_foldlM {tokens : List Token} {state last : State}
    (flat : ∀ token ∈ tokens, token.IsOrdered) (ordered : state.IsOrdered)
    (stepped : tokens.foldlM State.step state = some last) : last.IsOrdered := by
  induction tokens generalizing state with
  | nil =>
      cases stepped
      exact ordered
  | cons token tokens ih =>
      rcases List.forall_mem_cons.mp flat with ⟨first, rest⟩
      rw [List.foldlM_cons, Option.bind_eq_bind, Option.bind_eq_some_iff] at stepped
      rcases stepped with ⟨next, here, stepped⟩
      exact ih rest (isOrdered_step first ordered here) stepped

theorem isOrdered_of_tokensFrom {found tokens : List Token} {text : Text}
    (flat : ∀ token ∈ found, token.IsOrdered) (cut : tokensFrom found text = some tokens) :
    ∀ token ∈ tokens, token.IsOrdered := by
  fun_induction tokensFrom found text with
  | case1 found =>
      cases cut
      simpa using flat
  | case2 found c rest separates ih => exact ih flat cut
  | case3 => cases cut
  | case4 found c rest _ token extent measured ih =>
      exact ih (List.forall_mem_cons.mpr ⟨Token.isOrdered_of_measure? measured, flat⟩) cut

/-- The members of an object that was read are in order. -/
theorem isOrdered_of_read? {text : Text} {value : Value} (read : read? text = some value) :
    value.IsOrdered := by
  simp only [read?, Option.bind_eq_bind, Option.bind_eq_some_iff] at read
  rcases read with ⟨tokens, cut, last, stepped, complete⟩
  have flat : ∀ token ∈ tokens, token.IsOrdered := isOrdered_of_tokensFrom (by simp) cut
  have start : (State.value [] false).IsOrdered := by simp [State.IsOrdered]
  have ordered := State.isOrdered_foldlM flat start stepped
  split at complete
  · cases complete
    exact ordered
  · cases complete

end Json

/-! ## Contexts -/

/-- The value that a name is given last. -/
def Assignment.last? (name : Text) (assignments : List Assignment) : Option Value :=
  (assignments.findRev? (·.name = name)).map Assignment.value

theorem Assignment.last?_cons (name : Text) (assignment : Assignment)
    (assignments : List Assignment) :
    last? name (assignment :: assignments) =
      (last? name assignments).or (if assignment.name = name then some assignment.value else none)
      := by
  rw [last?, last?, List.findRev?_eq_find?_reverse, List.findRev?_eq_find?_reverse,
    List.reverse_cons, List.find?_append, Option.map_or]
  by_cases same : assignment.name = name <;> simp [same]

namespace CommandLine

/-- The data of an object with variables laid over it: under each name, the value that was given to
the name last, or else the one in the object. -/
structure IsOverlay (data : Members) (assignments : List Assignment) (context : Context) :
    Prop where
  ordered : context.members.IsOrdered
  find?_eq : ∀ name, context.find? name =
    (Assignment.last? name assignments).or (data.find? name)

variable {data : Members} {assignments : List Assignment} {context : Context}

theorem isOrdered_foldl_applyTo (ordered : context.members.IsOrdered)
    (assignments : List Assignment) :
    (assignments.foldl (fun context assignment => assignment.applyTo context)
      context).members.IsOrdered := by
  apply List.foldlRecOn (motive := fun context : Context => context.members.IsOrdered)
    assignments _ ordered
  intro context ordered assignment _
  exact ordered.insert assignment.name assignment.value

/-- Of the values that are given to a name one after the other, the last one counts. -/
theorem find?_foldl_applyTo (context : Context) (assignments : List Assignment) (name : Text) :
    (assignments.foldl (fun context assignment => assignment.applyTo context) context).find? name =
      (Assignment.last? name assignments).or (context.find? name) := by
  induction assignments generalizing context with
  | nil => rfl
  | cons assignment assignments ih =>
      rw [List.foldl_cons, ih, Assignment.last?_cons, Option.or_assoc, Assignment.applyTo]
      congr 1
      by_cases same : assignment.name = name
      · simp [same]
      · simp [same, Context.find?_assign_of_ne (Ne.symm same)]

/-- The members of an object are given to their names one after the other. -/
theorem foldl_assign_eq (data : Members) (context : Context) :
    data.foldl (fun context (name, value) => context.assign name value) context =
      (data.map fun member => (⟨member.1, member.2⟩ : Assignment)).foldl
        (fun context assignment => assignment.applyTo context) context := by
  rw [List.foldl_map]
  rfl

theorem last?_of_isOrdered (ordered : data.IsOrdered) (name : Text) :
    Assignment.last? name (data.map fun member => ⟨member.1, member.2⟩) = data.find? name := by
  induction data with
  | nil => rfl
  | cons head data ih =>
      rcases List.pairwise_cons.mp ordered with ⟨least, rest⟩
      rw [List.map_cons, Assignment.last?_cons, ih rest, Members.find?]
      by_cases same : name = head.1
      · have absent : Members.find? head.1 data = none := by
          rw [Option.eq_none_iff_forall_ne_some]
          intro value found
          exact (least _ ((Members.IsOrdered.find?_eq_some_iff rest).mp found)).ne rfl
        simp [same, absent]
      · simp [same, Ne.symm same]

theorem isOverlay_contextOf (ordered : data.IsOrdered) (assignments : List Assignment) :
    IsOverlay data assignments (contextOf data assignments) where
  ordered := by
    rw [contextOf, foldl_assign_eq]
    apply isOrdered_foldl_applyTo
    exact isOrdered_foldl_applyTo Members.isOrdered_nil _
  find?_eq := by
    intro name
    rw [contextOf, foldl_assign_eq, find?_foldl_applyTo, find?_foldl_applyTo,
      last?_of_isOrdered ordered]
    simp [Context.find?, Members.find?]

/-- There is only one such context. -/
theorem IsOverlay.unique {other : Context} (overlay : IsOverlay data assignments context)
    (overlay' : IsOverlay data assignments other) : context = other := by
  have same : context.members = other.members :=
    overlay.ordered.ext overlay'.ordered fun name =>
      (overlay.find?_eq name).trans (overlay'.find?_eq name).symm
  cases context
  cases other
  exact congrArg Context.mk same

end CommandLine

end Pageweave

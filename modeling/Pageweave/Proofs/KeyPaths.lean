import Mathlib.Data.List.Basic
import Pageweave.Proofs.Course
import Pageweave.Proofs.Pieces

/-!
# Key paths

A key path begins with a name and goes on with segments. What it comes to with one more segment is
determined by what it comes to without it, and `Context.Extends` gives the rules: a value that was
reached leads on to its member or item, and where it has none, or where a segment before led
nowhere, the descent has stopped. A scalar under the name is the exception, since it stands for
itself whatever follows.

The descent follows the segments one by one (`extends_descend` is the induction), so empty segments,
which are skipped, make no difference wherever they stand.
-/

namespace Pageweave

theorem Text.splitOn_eq_cons (separator : Char) (text : Text) :
    Text.splitOn separator text =
      text.takeWhile (· ≠ separator) :: (Text.splitOn separator text).tail := by
  induction text with
  | nil => rfl
  | cons c text ih =>
      rw [Text.splitOn]
      split
      · next same => simp [same]
      · next differ =>
          rw [ih]
          simp [differ]

namespace KeyPath

/-- The name that a key path begins with. -/
def name (keyPath : Text) : Text :=
  keyPath.takeWhile (· ≠ '.')

/-- The segments of a key path behind its name, without the empty ones. -/
def segments (keyPath : Text) : List Text :=
  (Text.splitOn '.' keyPath).tail.filter (· ≠ [])

theorem splitOn_eq (keyPath : Text) :
    Text.splitOn '.' keyPath = name keyPath :: (Text.splitOn '.' keyPath).tail :=
  Text.splitOn_eq_cons '.' keyPath

theorem name_append (keyPath rest : Text) : name (keyPath ++ '.' :: rest) = name keyPath := by
  have pieces := splitOn_eq (keyPath ++ '.' :: rest)
  rw [Text.splitOn_append_cons, splitOn_eq keyPath, List.cons_append, List.cons.injEq] at pieces
  exact pieces.1.symm

theorem segments_append (keyPath rest : Text) :
    segments (keyPath ++ '.' :: rest) =
      segments keyPath ++ (Text.splitOn '.' rest).filter (· ≠ []) := by
  rw [segments, Text.splitOn_append_cons, splitOn_eq keyPath, List.cons_append, List.tail_cons,
    List.filter_append, segments]

theorem name_of_noDot {keyPath : Text} (noDot : '.' ∉ keyPath) : name keyPath = keyPath := by
  have pieces := splitOn_eq keyPath
  rw [Text.splitOn_of_not_mem noDot, List.cons.injEq] at pieces
  exact pieces.1.symm

theorem segments_of_noDot {keyPath : Text} (noDot : '.' ∉ keyPath) : segments keyPath = [] := by
  rw [segments, Text.splitOn_of_not_mem noDot]
  rfl

/-- A key path with a dot begins with another name than itself. -/
theorem name_ne_of_dot {keyPath : Text} (dot : '.' ∈ keyPath) : name keyPath ≠ keyPath := by
  intro same
  rw [name, List.takeWhile_eq_self_iff] at same
  exact absurd (same '.' dot) (by decide)

theorem segments_append_segment {segment : Text} (keyPath : Text) (nonempty : segment ≠ [])
    (noDot : '.' ∉ segment) :
    segments (keyPath ++ '.' :: segment) = segments keyPath ++ [segment] := by
  rw [segments_append, Text.splitOn_of_not_mem noDot]
  simp [nonempty]

/-- Of segments that are added to a key path the empty ones do not count. -/
theorem parts_append_segments (keyPath : Text) (added : List Text) :
    name (keyPath ++ added.flatMap ('.' :: ·)) = name keyPath ∧
      segments (keyPath ++ added.flatMap ('.' :: ·)) =
        segments keyPath ++ added.flatMap fun segment =>
          (Text.splitOn '.' segment).filter (· ≠ []) := by
  induction added generalizing keyPath with
  | nil => simp
  | cons segment added ih =>
      have reassociated : keyPath ++ (segment :: added).flatMap ('.' :: ·) =
          (keyPath ++ '.' :: segment) ++ added.flatMap ('.' :: ·) := by
        simp
      rcases ih (keyPath ++ '.' :: segment) with ⟨name_eq, segments_eq⟩
      rw [reassociated, name_eq, segments_eq, name_append, segments_append, List.flatMap_cons,
        List.append_assoc]
      exact ⟨rfl, rfl⟩

theorem flatMap_filter_of_empty (added : List Text) :
    (added.filter (· ≠ [])).flatMap (fun segment =>
        (Text.splitOn '.' segment).filter (· ≠ [])) =
      added.flatMap fun segment => (Text.splitOn '.' segment).filter (· ≠ []) := by
  induction added with
  | nil => rfl
  | cons segment added ih =>
      rw [List.filter_cons, List.flatMap_cons, ← ih]
      split
      · rfl
      · next empty =>
          rw [decide_eq_true_eq, not_not] at empty
          simp [empty, Text.splitOn]

/-- Decimal digits, perhaps behind a plus sign, spell an index that fits into 64 bits. -/
def SpellsIndex (segment : Text) (index : Nat) : Prop :=
  ∃ digits : Text, (segment = digits ∨ segment = '+' :: digits) ∧ digits ≠ [] ∧
    (∀ c ∈ digits, c.isDigit = true) ∧ Nat.ofDigitChars 10 digits 0 = index ∧
    index < Nat.pow 2 64

theorem toNat?_eq_some_iff {digits : Text} {number : Nat} :
    Text.toNat? digits = some number ↔
      digits ≠ [] ∧ (∀ c ∈ digits, c.isDigit = true) ∧ Nat.ofDigitChars 10 digits 0 = number := by
  simp only [Text.toNat?, List.all_eq_true]
  split
  · next decimal =>
      rw [Option.some_inj]
      exact ⟨fun value => ⟨decimal.1, decimal.2, value⟩, fun whole => whole.2.2⟩
  · next other =>
      constructor
      · intro absent
        cases absent
      · rintro ⟨nonempty, decimal, -⟩
        exact absurd ⟨nonempty, decimal⟩ other

theorem itemIndex?_eq_some_iff {segment : Text} {index : Nat} :
    itemIndex? segment = some index ↔ SpellsIndex segment index := by
  have signed : itemIndex? segment = some index ↔
      Text.toNat? (if segment.head? = some '+' then segment.drop 1 else segment) = some index ∧
        index < Nat.pow 2 64 := by
    rw [itemIndex?, Option.filter_eq_some_iff, decide_eq_true_eq]
  rw [signed, toNat?_eq_some_iff]
  constructor
  · rintro ⟨⟨nonempty, decimal, value⟩, fits⟩
    refine ⟨_, ?_, nonempty, decimal, value, fits⟩
    split
    · next plus =>
        cases segment with
        | nil => cases plus
        | cons c digits =>
            cases plus
            exact Or.inr rfl
    · exact Or.inl rfl
  · rintro ⟨digits, written, nonempty, decimal, value, fits⟩
    refine ⟨?_, fits⟩
    rcases written with rfl | rfl
    · have noPlus : segment.head? ≠ some '+' := by
        intro plus
        have digit := decimal '+' (List.mem_of_head? plus)
        exact absurd digit (by decide)
      rw [if_neg noPlus]
      exact ⟨nonempty, decimal, value⟩
    · exact ⟨nonempty, decimal, value⟩

end KeyPath

theorem Members.mem_of_find? {name : Text} {value : Value} {members : Members}
    (found : members.find? name = some value) : (name, value) ∈ members := by
  induction members with
  | nil => cases found
  | cons member members ih =>
      rw [find?] at found
      split at found
      · next same =>
          cases found
          rw [same]
          exact List.mem_cons_self
      · exact List.mem_cons_of_mem _ (ih found)

namespace Value

/-- A segment leads to the member of an object with this name and to the item of an array with this
index. -/
inductive LeadsTo (segment : Text) : Value → Value → Prop where
  | member {members : Members} {child : Value} (found : members.find? segment = some child) :
      LeadsTo segment (.object members) child
  | item {items : List Value} {index : Nat} {child : Value}
      (spelled : KeyPath.SpellsIndex segment index) (found : items[index]? = some child) :
      LeadsTo segment (.array items) child

/-- A value is another one, or part of one of its members or items. -/
inductive IsPartOf (part : Value) : Value → Prop where
  | self : IsPartOf part part
  | member {members : Members} {name : Text} {child : Value} (isMember : (name, child) ∈ members)
      (inside : IsPartOf part child) : IsPartOf part (.object members)
  | item {items : List Value} {child : Value} (isItem : child ∈ items)
      (inside : IsPartOf part child) : IsPartOf part (.array items)

theorem child?_eq_some_iff {segment : Text} {value child : Value} :
    value.child? segment = some child ↔ value.LeadsTo segment child := by
  constructor
  · intro found
    cases value with
    | object members => exact .member found
    | array items =>
        rw [child?, Option.bind_eq_bind, Option.bind_eq_some_iff] at found
        rcases found with ⟨index, spelled, found⟩
        exact .item (KeyPath.itemIndex?_eq_some_iff.mp spelled) found
    | null | bool _ | number _ | string _ => cases found
  · intro leads
    cases leads with
    | member found => exact found
    | item spelled found =>
        rw [child?, KeyPath.itemIndex?_eq_some_iff.mpr spelled]
        exact found

end Value

section Resolve

variable {context : Context} {keyPath : Text} {start value : Value}

theorem Context.resolve_of_absent (absent : context.find? (KeyPath.name keyPath) = none) :
    context.resolve keyPath = .missing := by
  rw [resolve, KeyPath.splitOn_eq]
  simp only [absent]

theorem Context.resolve_of_scalar (found : context.find? (KeyPath.name keyPath) = some value)
    (isScalar : value.isContainer = false) : context.resolve keyPath = .found value := by
  rw [resolve, KeyPath.splitOn_eq]
  simp only [found, isScalar]
  rfl

theorem Context.resolve_of_container
    (found : context.find? (KeyPath.name keyPath) = some value)
    (isContainer : value.isContainer = true) :
    context.resolve keyPath = value.descend (KeyPath.segments keyPath) := by
  rw [resolve, KeyPath.splitOn_eq]
  simp only [found, isContainer]
  rfl

/-- What a key path comes to depends on its name and its segments. -/
theorem Context.resolve_congr {other : Text} (sameName : KeyPath.name keyPath = KeyPath.name other)
    (sameSegments : KeyPath.segments keyPath = KeyPath.segments other) :
    context.resolve keyPath = context.resolve other := by
  cases found : context.find? (KeyPath.name other) with
  | none => rw [resolve_of_absent found, resolve_of_absent (sameName ▸ found)]
  | some value =>
      cases kind : value.isContainer with
      | false => rw [resolve_of_scalar found kind, resolve_of_scalar (sameName ▸ found) kind]
      | true =>
          rw [resolve_of_container found kind, resolve_of_container (sameName ▸ found) kind,
            sameSegments]

/-- The rules by which a key path with the given name that comes to the first resolution comes to
the second one with one more segment. -/
inductive Context.Extends (context : Context) (name segment : Text) :
    Resolution → Resolution → Prop where
  /-- Where nothing is stored under the name, nothing is found. -/
  | missing (absent : context.find? name = none) : Extends context name segment .missing .missing
  /-- A scalar under the name stands for itself. -/
  | scalar {value : Value} (stored : context.find? name = some value)
      (isScalar : value.isContainer = false) :
      Extends context name segment (.found value) (.found value)
  /-- Where a segment has led nowhere, the descent has stopped. -/
  | partly {start value : Value} {missing : Text} (stored : context.find? name = some start)
      (isContainer : start.isContainer = true) :
      Extends context name segment (.partly value missing) (.partly value missing)
  /-- The segment leads on from the value that was reached. -/
  | leads {start value child : Value} (stored : context.find? name = some start)
      (isContainer : start.isContainer = true) (leads : value.LeadsTo segment child) :
      Extends context name segment (.found value) (.found child)
  /-- The segment leads nowhere from the value that was reached. -/
  | stops {start value : Value} (stored : context.find? name = some start)
      (isContainer : start.isContainer = true) (stuck : ∀ child, ¬value.LeadsTo segment child) :
      Extends context name segment (.found value) (.partly value segment)

/-- The induction is on the segments followed before. -/
theorem extends_descend {name segment : Text} (stored : context.find? name = some start)
    (isContainer : start.isContainer = true) (segments : List Text) (value : Value) :
    context.Extends name segment (value.descend segments)
      (value.descend (segments ++ [segment])) := by
  induction segments generalizing value with
  | nil =>
      rw [List.nil_append, Value.descend, Value.descend]
      cases found : value.child? segment with
      | some child => exact .leads stored isContainer (Value.child?_eq_some_iff.mp found)
      | none =>
          apply Context.Extends.stops stored isContainer
          intro child leads
          rw [Value.child?_eq_some_iff.mpr leads] at found
          cases found
  | cons first segments ih =>
      rw [List.cons_append, Value.descend, Value.descend]
      cases value.child? first with
      | some child => exact ih child
      | none => exact .partly stored isContainer

/-- A value that a segment leads to is part of the value that it leads on from. -/
theorem Value.LeadsTo.isPartOf {segment : Text} {part child : Value}
    (leads : value.LeadsTo segment child) (inside : part.IsPartOf child) : part.IsPartOf value := by
  cases leads with
  | member found => exact .member (Members.mem_of_find? found) inside
  | item spelled found => exact .item (List.mem_of_getElem? found) inside

theorem isPartOf_of_descend {segments : List Text}
    (reached : (start.descend segments).value? = some value) : value.IsPartOf start := by
  induction segments generalizing start with
  | nil =>
      cases reached
      exact .self
  | cons segment segments ih =>
      rw [Value.descend] at reached
      cases found : start.child? segment with
      | some child =>
          rw [found] at reached
          exact (Value.child?_eq_some_iff.mp found).isPartOf (ih reached)
      | none =>
          rw [found] at reached
          cases reached
          exact .self

end Resolve

/-- One more segment leads a key path on by the rules, empty segments make no difference wherever
they are added, and whatever is reached is part of the value under the name. -/
theorem Context.extends_resolve (context : Context) (keyPath : Text) :
    (∀ segment : Text, segment ≠ [] → '.' ∉ segment →
      context.Extends (KeyPath.name keyPath) segment (context.resolve keyPath)
        (context.resolve (keyPath ++ '.' :: segment))) ∧
    (∀ added : List Text, context.resolve (keyPath ++ added.flatMap ('.' :: ·)) =
      context.resolve (keyPath ++ (added.filter (· ≠ [])).flatMap ('.' :: ·))) ∧
    ∀ value, (context.resolve keyPath).value? = some value →
      ∃ start, context.find? (KeyPath.name keyPath) = some start ∧ value.IsPartOf start := by
  refine ⟨?_, ?_, ?_⟩
  · intro segment nonempty noDot
    have name_eq := KeyPath.name_append keyPath segment
    cases stored : context.find? (KeyPath.name keyPath) with
    | none =>
        rw [resolve_of_absent stored, resolve_of_absent (name_eq ▸ stored)]
        exact .missing stored
    | some start =>
        cases kind : start.isContainer with
        | false =>
            rw [resolve_of_scalar stored kind, resolve_of_scalar (name_eq ▸ stored) kind]
            exact .scalar stored kind
        | true =>
            rw [resolve_of_container stored kind, resolve_of_container (name_eq ▸ stored) kind,
              KeyPath.segments_append_segment keyPath nonempty noDot]
            exact extends_descend stored kind _ start
  · intro added
    rcases KeyPath.parts_append_segments keyPath added with ⟨name_eq, segments_eq⟩
    rcases KeyPath.parts_append_segments keyPath (added.filter (· ≠ [])) with
      ⟨name_eq', segments_eq'⟩
    apply resolve_congr
    · rw [name_eq, name_eq']
    · rw [segments_eq, segments_eq', KeyPath.flatMap_filter_of_empty]
  · intro value reached
    cases stored : context.find? (KeyPath.name keyPath) with
    | none =>
        rw [resolve_of_absent stored] at reached
        cases reached
    | some start =>
        refine ⟨start, rfl, ?_⟩
        cases kind : start.isContainer with
        | false =>
            rw [resolve_of_scalar stored kind] at reached
            cases reached
            exact .self
        | true =>
            rw [resolve_of_container stored kind] at reached
            exact isPartOf_of_descend reached

namespace KeyPath

/-- The roles of a user. -/
def roles : Value :=
  .array [.string "admin".toList, .string "dev".toList]

/-- The data of a user. -/
def userContext : Context where
  members := [("user".toList, .object [("roles".toList, roles)])]

end KeyPath

/-- The second role of a user has the index 1, also if a plus sign stands before it, and no item has
an index of more than 64 bits. -/
theorem Context.extends_resolve_roles :
    ("+1".toList ≠ [] ∧ '.' ∉ "+1".toList ∧
      KeyPath.userContext.Extends "user".toList "+1".toList (.found KeyPath.roles)
        (.found (.string "dev".toList))) ∧
    ("18446744073709551617".toList ≠ [] ∧ '.' ∉ "18446744073709551617".toList ∧
      KeyPath.userContext.Extends "user".toList "18446744073709551617".toList
        (.found KeyPath.roles) (.partly KeyPath.roles "18446744073709551617".toList)) :=
  ⟨⟨by decide, by decide,
      (extends_resolve KeyPath.userContext "user.roles".toList).1 _ (by decide) (by decide)⟩,
    ⟨by decide, by decide,
      (extends_resolve KeyPath.userContext "user.roles".toList).1 _ (by decide) (by decide)⟩⟩

end Pageweave

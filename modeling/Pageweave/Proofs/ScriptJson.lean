import Mathlib.Data.List.Basic
import Mathlib.Data.List.Infix
import Pageweave.Json.Parser
import Pageweave.Json.Printer
import Pageweave.Proofs.Tags

/-!
# JSON texts in script elements

In a script element a JSON text must not have `</` in it, so each one gets a backslash. This changes
nothing for a reader of the text, since a slash may be escaped in a string and no `<` stands outside
of strings: `read?_defuse`. `Spells` says of any JSON text what value it is a text of; the compact
text of a value still spells the value when it is defused (`spells_defuse_print`).
-/

namespace Pageweave.Json

/-- The text with a backslash in each `</`. -/
def defuse : Text → Text
  | '<' :: '/' :: text => '<' :: '\\' :: '/' :: defuse text
  | c :: text => c :: defuse text
  | [] => []

theorem defuse_closing (text : Text) :
    defuse ('<' :: '/' :: text) = '<' :: '\\' :: '/' :: defuse text := by
  rw [defuse]

theorem defuse_cons {c : Char} {text : Text} (other : ¬['<', '/'] <+: c :: text) :
    defuse (c :: text) = c :: defuse text := by
  rw [defuse]
  rintro rest rfl rfl
  exact other ⟨rest, rfl⟩

theorem defuse_cons_of_ne {c : Char} (differs : c ≠ '<') (text : Text) :
    defuse (c :: text) = c :: defuse text :=
  defuse_cons fun closing => differs (List.cons_prefix_cons.mp closing).1.symm

theorem defuse_append_of_not_mem {first : Text} (absent : '<' ∉ first) (second : Text) :
    defuse (first ++ second) = first ++ defuse second := by
  induction first with
  | nil => rfl
  | cons c first ih =>
      rw [List.mem_cons, not_or] at absent
      rw [List.cons_append, defuse_cons_of_ne (Ne.symm absent.1), ih absent.2, List.cons_append]

theorem defuse_of_not_mem {text : Text} (absent : '<' ∉ text) : defuse text = text := by
  simpa [defuse] using defuse_append_of_not_mem absent []

theorem head?_defuse (text : Text) : (defuse text).head? = text.head? := by
  fun_cases defuse text <;> rfl

theorem defuse_append {second : Text} (first : Text) (apart : second.head? ≠ some '/') :
    defuse (first ++ second) = defuse first ++ defuse second := by
  fun_induction defuse first with
  | case1 first ih => rw [List.cons_append, List.cons_append, defuse_closing, ih]; rfl
  | case2 c first other ih =>
      rw [List.cons_append, defuse_cons, ih, List.cons_append]
      rintro ⟨rest, closing⟩
      cases first with
      | nil =>
          rcases List.cons.inj closing with ⟨-, second_eq⟩
          exact apart (by rw [← List.nil_append second, ← second_eq]; rfl)
      | cons d first =>
          rcases List.cons.inj closing with ⟨rfl, tail_eq⟩
          rcases List.cons.inj tail_eq with ⟨rfl, -⟩
          exact other first rfl rfl
  | case3 => rfl

/-- In a script element the text of a context is defused. -/
theorem replaceAll_eq_defuse (text : Text) :
    Text.replaceAll ['<', '/'] ['<', '\\', '/'] text = defuse text := by
  rw [Text.replaceAll, dif_neg (by simp)]
  fun_induction defuse text with
  | case1 text ih =>
      rw [← ih]
      exact Text.replaceOccurrences_append_of_start text
  | case2 c text other ih =>
      rw [← ih]
      apply Text.replaceOccurrences_cons_of_none
      apply Tag.after?_eq_none
      rintro ⟨rest, closing⟩
      rcases List.cons.inj closing with ⟨rfl, rfl⟩
      exact other rest rfl rfl
  | case3 => exact Text.replaceOccurrences_nil

/-- Nothing in a defused text ends a script element. -/
theorem not_infix_defuse (text : Text) : ¬['<', '/'] <:+: defuse text := by
  fun_induction defuse text with
  | case1 text ih => simp [List.infix_cons_iff, ih]
  | case2 c text other ih =>
      rw [List.infix_cons_iff, not_or]
      refine ⟨?_, ih⟩
      rintro ⟨rest, closing⟩
      rcases List.cons.inj closing with ⟨rfl, tail_eq⟩
      cases text with
      | nil => cases tail_eq
      | cons d text =>
          have slash := head?_defuse (d :: text)
          rw [← tail_eq] at slash
          cases slash
          exact other text rfl rfl
  | case3 => simp

/-! ## Reading -/

/-- A text that is empty or begins with `<`. -/
def IsBreak (text : Text) : Prop :=
  ∀ c, text.head? = some c → c = '<'

theorem drop_defuse {front : Text} {n : Nat} (absent : '<' ∉ front) (inside : n ≤ front.length)
    (rest : Text) :
    (defuse (front ++ rest)).drop n = defuse ((front ++ rest).drop n) := by
  rw [defuse_append_of_not_mem absent, List.drop_append_of_le_length inside,
    List.drop_append_of_le_length inside, defuse_append_of_not_mem]
  exact fun mem => absent (List.mem_of_mem_drop mem)

/-- Every text is one without `<` and a break. -/
theorem exists_break (text : Text) :
    ∃ front rest, text = front ++ rest ∧ '<' ∉ front ∧ IsBreak rest ∧
      defuse text = front ++ defuse rest ∧ IsBreak (defuse rest) := by
  have absent : '<' ∉ text.takeWhile (· ≠ '<') := by
    intro mem
    simpa using List.mem_takeWhile_imp mem
  have isBreak : IsBreak (text.dropWhile (· ≠ '<')) := by
    intro c start
    have stops := List.head?_dropWhile_not (· ≠ '<') text
    rw [start] at stops
    simpa using stops
  refine ⟨_, _, List.takeWhile_append_dropWhile.symm, absent, isBreak, ?_, ?_⟩
  · rw [← defuse_append_of_not_mem absent, List.takeWhile_append_dropWhile]
  · intro c start
    rw [head?_defuse] at start
    exact isBreak c start

section Break

variable {front rest : Text}

theorem IsBreak.head?_append (isBreak : IsBreak rest) {c : Char} (differs : c ≠ '<') :
    (front ++ rest).head? = some c ↔ front.head? = some c := by
  cases front with
  | nil =>
      simp only [List.nil_append, List.head?_nil, reduceCtorEq, iff_false]
      exact fun start => differs (isBreak c start)
  | cons d front => simp

theorem IsBreak.takeWhile_append (isBreak : IsBreak rest) {p : Char → Bool}
    (stops : p '<' = false) :
    (front ++ rest).takeWhile p = front.takeWhile p := by
  induction front with
  | nil =>
      cases rest with
      | nil => rfl
      | cons c rest =>
          have closing : c = '<' := isBreak c rfl
          simp [closing, stops]
  | cons c front ih =>
      rw [List.cons_append, List.takeWhile_cons, List.takeWhile_cons, ih]

end Break

/-! ### Numbers -/

/-- The number of characters before the digits of an exponent. -/
def exponentMark (text : Text) : Nat :=
  if (text.drop 1).head? = some '+' || (text.drop 1).head? = some '-' then 2 else 1

/-- The number whose digits end before `text`, perhaps with an exponent there. -/
def exponentAt (negative : Bool) (whole fraction : Text) (length : Nat) (text : Text) :
    Option (Number.Parts × Nat) :=
  if text.head? = some 'e' || text.head? = some 'E' then
    let exponent := (text.drop (exponentMark text)).takeWhile Char.isDigit
    if exponent = [] then none
    else some (⟨negative, whole, fraction, (text.drop 1).head? = some '-', some exponent⟩,
      length + exponentMark text + exponent.length)
  else some (⟨negative, whole, fraction, false, none⟩, length)

/-- The number whose whole digits end before `text`, perhaps with a fraction there. -/
def fractionAt (negative : Bool) (whole : Text) (text : Text) : Option (Number.Parts × Nat) :=
  let point := text.head? = some '.'
  let fraction := if point then (text.drop 1).takeWhile Char.isDigit else []
  let length := (if negative then 1 else 0) + whole.length +
    (if point then 1 + fraction.length else 0)
  if point && fraction = [] then none
  else exponentAt negative whole fraction length
    (if point then text.drop (1 + fraction.length) else text)

/-- The number whose digits begin with `text`. -/
def wholeAt (negative : Bool) (text : Text) : Option (Number.Parts × Nat) :=
  let whole := text.takeWhile Char.isDigit
  if whole = [] || (whole.head? = some '0' && whole.length ≠ 1) then none
  else fractionAt negative whole (text.drop whole.length)

theorem measure?_eq (text : Text) :
    Number.measure? text =
      if text.head? = some '-' then wholeAt true (text.drop 1) else wholeAt false text := by
  rw [Number.measure?]
  by_cases minus : text.head? = some '-' <;>
  · simp only [minus]
    rfl

section Length

variable {negative : Bool} {whole fraction text : Text} {length n : Nat} {parts : Number.Parts}

theorem length_takeWhile_le (p : Char → Bool) (text : Text) :
    (text.takeWhile p).length ≤ text.length :=
  (List.takeWhile_prefix p).length_le

theorem length_le_of_exponentAt
    (measured : exponentAt negative whole fraction length text = some (parts, n)) :
    n ≤ length + text.length := by
  rw [exponentAt] at measured
  split at measured
  · dsimp only at measured
    split at measured
    · cases measured
    · next nonempty =>
        rw [Option.some.injEq, Prod.mk.injEq] at measured
        have digits := length_takeWhile_le Char.isDigit (text.drop (exponentMark text))
        have present := List.length_pos_iff.mpr nonempty
        rw [List.length_drop] at digits
        omega
  · rw [Option.some.injEq, Prod.mk.injEq] at measured
    omega

theorem length_le_of_fractionAt (measured : fractionAt negative whole text = some (parts, n)) :
    n ≤ (if negative then 1 else 0) + whole.length + text.length := by
  rw [fractionAt] at measured
  by_cases point : text.head? = some '.'
  · simp only [point, decide_true, if_true] at measured
    split at measured
    · cases measured
    · next nonempty =>
        have shorter := length_le_of_exponentAt measured
        have digits := length_takeWhile_le Char.isDigit (text.drop 1)
        simp only [Bool.true_and, decide_eq_true_eq] at nonempty
        have present := List.length_pos_iff.mpr nonempty
        rw [List.length_drop] at digits shorter
        omega
  · simp only [point, decide_false, Bool.false_and, Bool.false_eq_true, if_false] at measured
    have shorter := length_le_of_exponentAt measured
    omega

theorem length_le_of_wholeAt (measured : wholeAt negative text = some (parts, n)) :
    n ≤ (if negative then 1 else 0) + text.length := by
  rw [wholeAt] at measured
  split at measured
  · cases measured
  · have shorter := length_le_of_fractionAt measured
    have digits := length_takeWhile_le Char.isDigit text
    rw [List.length_drop] at shorter
    omega

/-- The number at the start of a text is not longer than the text. -/
theorem length_le_of_measure? (measured : Number.measure? text = some (parts, n)) :
    n ≤ text.length := by
  rw [measure?_eq] at measured
  split at measured
  · next minus =>
      have shorter := length_le_of_wholeAt measured
      cases text with
      | nil => cases minus
      | cons c text =>
          simp at shorter ⊢
          omega
  · simpa using length_le_of_wholeAt measured

end Length

section Break

variable {front rest : Text} {negative : Bool} {whole fraction : Text} {length : Nat}

theorem IsBreak.head?_ne (isBreak : IsBreak rest) {c : Char} (differs : c ≠ '<') :
    rest.head? ≠ some c :=
  fun start => differs (isBreak c start)

theorem exponentMark_append (isBreak : IsBreak rest) (c : Char) :
    exponentMark (c :: front ++ rest) = exponentMark (c :: front) := by
  simp only [exponentMark, List.cons_append, List.drop_one, List.tail_cons]
  simp only [isBreak.head?_append (show '+' ≠ '<' by decide),
    isBreak.head?_append (show '-' ≠ '<' by decide)]

theorem exponentMark_le (c : Char) (front : Text) :
    exponentMark (c :: front) ≤ (c :: front).length := by
  rw [exponentMark]
  split
  · cases front with
    | nil => simp_all
    | cons d front => simp
  · simp

theorem exponentAt_append (isBreak : IsBreak rest) :
    exponentAt negative whole fraction length (front ++ rest) =
      exponentAt negative whole fraction length front := by
  cases front with
  | nil =>
      have small : rest.head? ≠ some 'e' := isBreak.head?_ne (by decide)
      have great : rest.head? ≠ some 'E' := isBreak.head?_ne (by decide)
      simp [exponentAt, small, great]
  | cons c front =>
      have minus : decide ((front ++ rest).head? = some '-') = decide (front.head? = some '-') :=
        decide_eq_decide.mpr (isBreak.head?_append (by decide))
      have skipped : (c :: front ++ rest).drop (exponentMark (c :: front)) =
          (c :: front).drop (exponentMark (c :: front)) ++ rest :=
        List.drop_append_of_le_length (exponentMark_le c front)
      rw [exponentAt, exponentAt, exponentMark_append isBreak, skipped,
        isBreak.takeWhile_append (by decide)]
      simp only [List.cons_append, List.head?_cons, List.drop_one, List.tail_cons, minus]
      rfl

theorem fractionAt_append (isBreak : IsBreak rest) :
    fractionAt negative whole (front ++ rest) = fractionAt negative whole front := by
  have point : (front ++ rest).head? = some '.' ↔ front.head? = some '.' :=
    isBreak.head?_append (by decide)
  rw [fractionAt, fractionAt]
  by_cases dot : front.head? = some '.'
  · cases front with
    | nil => cases dot
    | cons c front =>
        obtain rfl : c = '.' := Option.some.inj dot
        have digits : (front ++ rest).takeWhile Char.isDigit = front.takeWhile Char.isDigit :=
          isBreak.takeWhile_append (by decide)
        have skipped : (front ++ rest).drop (front.takeWhile Char.isDigit).length =
            front.drop (front.takeWhile Char.isDigit).length ++ rest :=
          List.drop_append_of_le_length (length_takeWhile_le _ _)
        simp [digits, Nat.add_comm 1, skipped, exponentAt_append isBreak]
  · simp only [point, dot, decide_false, if_false, Bool.false_and, exponentAt_append isBreak]

theorem wholeAt_append (isBreak : IsBreak rest) :
    wholeAt negative (front ++ rest) = wholeAt negative front := by
  have digits : (front ++ rest).takeWhile Char.isDigit = front.takeWhile Char.isDigit :=
    isBreak.takeWhile_append (by decide)
  have skipped : (front ++ rest).drop (front.takeWhile Char.isDigit).length =
      front.drop (front.takeWhile Char.isDigit).length ++ rest :=
    List.drop_append_of_le_length (length_takeWhile_le _ _)
  rw [wholeAt, wholeAt, digits, skipped, fractionAt_append isBreak]

/-- A number ends before a break. -/
theorem measure?_append (isBreak : IsBreak rest) :
    Number.measure? (front ++ rest) = Number.measure? front := by
  have minus : (front ++ rest).head? = some '-' ↔ front.head? = some '-' :=
    isBreak.head?_append (by decide)
  rw [measure?_eq, measure?_eq]
  simp only [minus, wholeAt_append isBreak]
  split
  · next sign =>
      cases front with
      | nil => cases sign
      | cons c front => exact wholeAt_append isBreak
  · rfl

end Break

/-! ### Strings -/

section Escapes

variable {front rest : Text} {c : Char} {n : Nat}

theorem hexValue?_break : hexValue? '<' = none := by
  decide

theorem unit?_append (isBreak : IsBreak rest) : unit? (front ++ rest) = unit? front := by
  have broken : ∀ rest, IsBreak rest → rest = [] ∨ ∃ rest', rest = '<' :: rest' := by
    intro rest isBreak
    cases rest with
    | nil => exact Or.inl rfl
    | cons c rest => exact Or.inr ⟨rest, by rw [isBreak c rfl]⟩
  rcases front with _ | ⟨a, _ | ⟨b, _ | ⟨d, _ | ⟨e, front⟩⟩⟩⟩
  case cons.cons.cons.cons => rfl
  all_goals
    rcases broken rest isBreak with rfl | ⟨rest', rfl⟩
    · rfl
    · rcases rest' with _ | ⟨f, _ | ⟨g, _ | ⟨h, rest'⟩⟩⟩ <;> simp [unit?, hexValue?_break]

theorem length_le_of_unit? {text : Text} (measured : unit? text = some n) : 4 ≤ text.length := by
  rw [unit?.eq_def] at measured
  split at measured
  · simp
  · cases measured

theorem after?_append {pattern : Text} (absent : '<' ∉ pattern) (isBreak : IsBreak rest) :
    Text.after? pattern (front ++ rest) = (Text.after? pattern front).map (· ++ rest) := by
  induction pattern generalizing front with
  | nil => rfl
  | cons p pattern ih =>
      rw [List.mem_cons, not_or] at absent
      cases front with
      | nil =>
          cases rest with
          | nil => rfl
          | cons c rest =>
              have closing : c = '<' := isBreak c rfl
              simp [Text.after?, closing, Ne.symm absent.1]
      | cons c front =>
          simp only [List.cons_append, Text.after?, ih absent.2]
          split <;> rfl

theorem unicodeEscape?_append (isBreak : IsBreak rest) :
    unicodeEscape? (front ++ rest) = unicodeEscape? front := by
  rw [unicodeEscape?, unicodeEscape?, unit?_append isBreak]
  cases measured : unit? front with
  | none => rfl
  | some high =>
      have skipped : (front ++ rest).drop 4 = front.drop 4 ++ rest :=
        List.drop_append_of_le_length (length_le_of_unit? measured)
      rw [skipped, after?_append (by simp) isBreak]
      cases Text.after? ['\\', 'u'] (front.drop 4) with
      | none => rfl
      | some second => simp [unit?_append isBreak]

theorem length_le_of_unicodeEscape? {text : Text} (measured : unicodeEscape? text = some (c, n)) :
    n ≤ text.length := by
  rw [unicodeEscape?] at measured
  cases first : unit? text with
  | none => rw [first] at measured; cases measured
  | some high =>
      have longer := length_le_of_unit? first
      rw [first, Option.bind_eq_bind, Option.bind_some] at measured
      split at measured
      · simp only [Option.bind_eq_bind, Option.bind_eq_some_iff] at measured
        rcases measured with ⟨second, after, low, there, measured⟩
        have longer' := length_le_of_unit? there
        have length_eq := congrArg List.length (Text.after?_eq_some_iff.mp after)
        rw [List.length_drop, List.length_append] at length_eq
        split at measured
        · rw [Option.some.injEq, Prod.mk.injEq] at measured
          simp at length_eq
          omega
        · cases measured
      · split at measured
        · cases measured
        · rw [Option.some.injEq, Prod.mk.injEq] at measured
          omega

end Escapes

/-- The string whose characters begin with a text, and what follows its closing quote. -/
def string? (read text : Text) : Option (Text × Text) :=
  (stringBody? read 0 text).map fun (value, extent) => (value, text.drop extent)

section String

variable {read text rest : Text} {c e character : Char} {n : Nat}

theorem stringBody?_add (taken : Nat) (read : Text) (extra : Nat) (text : Text) :
    stringBody? read (taken + extra) text =
      (stringBody? read extra text).map fun (value, extent) => (value, taken + extent) := by
  fun_induction stringBody? read extra text
  all_goals
    rw [stringBody?.eq_def]
    grind

theorem string?_nil : string? read [] = none := by
  rw [string?, stringBody?.eq_def]
  rfl

theorem string?_quote : string? read ('\x22' :: rest) = some (read.reverse, rest) := by
  rw [string?, stringBody?.eq_def]
  rfl

/-- A reading goes on behind what it has taken. -/
theorem string?_of_stringBody? (taken : Nat) {read' : Text}
    (goes : stringBody? read 0 text = stringBody? read' taken (text.drop taken)) :
    string? read text = string? read' (text.drop taken) := by
  rw [string?, goes, string?, ← Nat.add_zero taken, stringBody?_add, Option.map_map]
  congr 1
  funext found
  simp

theorem string?_plain (notQuote : c ≠ '\x22') (notBackslash : c ≠ '\\')
    (printable : ¬c.toNat < 0x20) : string? read (c :: rest) = string? (c :: read) rest := by
  apply string?_of_stringBody? 1
  rw [stringBody?.eq_def]
  simp [notQuote, notBackslash, printable]

theorem string?_control (notQuote : c ≠ '\x22') (notBackslash : c ≠ '\\')
    (control : c.toNat < 0x20) : string? read (c :: rest) = none := by
  rw [string?, stringBody?.eq_def]
  simp [notQuote, notBackslash, control]

theorem string?_simple (notUnicode : e ≠ 'u') (meaning : simpleEscape? e = some character) :
    string? read ('\\' :: e :: rest) = string? (character :: read) rest := by
  apply string?_of_stringBody? 2
  rw [stringBody?.eq_def]
  simp [notUnicode, meaning]

theorem string?_unicode (meaning : unicodeEscape? rest = some (character, n)) :
    string? read ('\\' :: 'u' :: rest) = string? (character :: read) (rest.drop n) := by
  have skipped : ('\\' :: 'u' :: rest).drop (2 + n) = rest.drop n := by
    rw [← List.drop_drop]
    rfl
  rw [← skipped]
  apply string?_of_stringBody? (2 + n)
  rw [stringBody?.eq_def, skipped]
  simp [meaning]

theorem string?_of_no_escape (notUnicode : e ≠ 'u') (meaning : simpleEscape? e = none) :
    string? read ('\\' :: e :: rest) = none := by
  rw [string?, stringBody?.eq_def]
  simp [notUnicode, meaning]

theorem string?_of_no_unicode (meaning : unicodeEscape? rest = none) :
    string? read ('\\' :: 'u' :: rest) = none := by
  rw [string?, stringBody?.eq_def]
  simp [meaning]

theorem string?_backslash : string? read ['\\'] = none := by
  rw [string?, stringBody?.eq_def]
  simp

theorem unicodeEscape?_defuse (text : Text) :
    unicodeEscape? (defuse text) = unicodeEscape? text := by
  rcases exists_break text with ⟨front, rest, rfl, -, isBreak, defused, isBreak'⟩
  rw [defused, unicodeEscape?_append isBreak', unicodeEscape?_append isBreak]

theorem drop_defuse_of_unicodeEscape? (meaning : unicodeEscape? text = some (character, n)) :
    (defuse text).drop n = defuse (text.drop n) := by
  rcases exists_break text with ⟨front, rest, rfl, absent, isBreak, -, -⟩
  rw [unicodeEscape?_append isBreak] at meaning
  exact drop_defuse absent (length_le_of_unicodeEscape? meaning) rest

/-- What is to be shown of a text, for the texts that are shorter. -/
def ReadsDefused (text : Text) : Prop :=
  ∀ read, string? read (defuse text) =
    (string? read text).map fun (value, rest) => (value, defuse rest)

theorem readsDefused_escape (e : Char)
    (shorter : ∀ rest', rest'.length ≤ rest.length → ReadsDefused rest') :
    ReadsDefused ('\\' :: e :: rest) := by
  intro read
  rw [defuse_cons_of_ne (by decide)]
  by_cases unicode : e = 'u'
  · rw [unicode, defuse_cons_of_ne (by decide)]
    cases meaning : unicodeEscape? rest with
    | none =>
        rw [string?_of_no_unicode meaning,
          string?_of_no_unicode ((unicodeEscape?_defuse rest).trans meaning)]
        rfl
    | some found =>
        rw [string?_unicode meaning,
          string?_unicode ((unicodeEscape?_defuse rest).trans meaning),
          drop_defuse_of_unicodeEscape? meaning]
        apply shorter
        simp
  · by_cases closing : e = '<'
    · subst closing
      have start := head?_defuse ('<' :: rest)
      cases defused : defuse ('<' :: rest) with
      | nil => simp [defused] at start
      | cons d rest' =>
          obtain rfl : d = '<' := by simpa [defused] using start
          rw [string?_of_no_escape unicode rfl, string?_of_no_escape unicode rfl]
          rfl
    · rw [defuse_cons_of_ne closing]
      cases meaning : simpleEscape? e with
      | none =>
          rw [string?_of_no_escape unicode meaning, string?_of_no_escape unicode meaning]
          rfl
      | some character =>
          rw [string?_simple unicode meaning, string?_simple unicode meaning]
          exact shorter rest le_rfl _

/-- Reading a string, a slash with a backslash before it is a slash. -/
theorem readsDefused (text : Text) : ReadsDefused text := by
  induction size : text.length using Nat.strongRecOn generalizing text with
  | ind size' ih =>
    subst size
    have shorter : ∀ rest : Text, rest.length < text.length → ReadsDefused rest :=
      fun rest less => ih rest.length less rest rfl
    clear ih
    intro read
    by_cases closing : ['<', '/'] <+: text
    · rcases closing with ⟨rest, rfl⟩
      rw [List.cons_append, List.cons_append, List.nil_append, defuse_closing,
        string?_plain (by decide) (by decide) (by decide), string?_simple (by decide) rfl,
        string?_plain (by decide) (by decide) (by decide),
        string?_plain (by decide) (by decide) (by decide)]
      exact shorter rest (by rw [List.length_append]; simp only [List.length_cons]; omega) _
    rcases text with _ | ⟨c, rest⟩
    · rw [defuse, string?_nil]
      rfl
    by_cases quote : c = '\x22'
    · rw [quote, defuse_cons_of_ne (by decide), string?_quote, string?_quote]
      rfl
    by_cases backslash : c = '\\'
    · subst backslash
      cases rest with
      | nil =>
          rw [defuse_cons_of_ne (by decide), defuse, string?_backslash]
          rfl
      | cons e rest =>
          apply readsDefused_escape
          intro rest' le
          exact shorter rest' (by simp; omega)
    rw [defuse_cons closing]
    by_cases control : c.toNat < 0x20
    · rw [string?_control quote backslash control, string?_control quote backslash control]
      rfl
    · rw [string?_plain quote backslash control, string?_plain quote backslash control]
      exact shorter rest (by simp) _

end String

/-! ### Tokens -/

/-- The token that begins with a character, and what follows it. -/
def token? (c : Char) (rest : Text) : Option (Token × Text) :=
  (Token.measure? c rest).map fun (token, extent) => (token, rest.drop extent)

theorem name?_defuse {expected : String} (absent : '<' ∉ expected.toList) (value : Value)
    (rest : Text) :
    (name? (defuse rest) expected value).map (fun (token, extent) =>
        (token, (defuse rest).drop extent)) =
      (name? rest expected value).map fun (token, extent) =>
        (token, defuse (rest.drop extent)) := by
  rcases exists_break rest with ⟨front, rest, rfl, absent', isBreak, defused, isBreak'⟩
  rw [name?, name?, Text.startsWith, Text.startsWith, defused, after?_append absent isBreak',
    after?_append absent isBreak]
  cases start : Text.after? expected.toList front with
  | none => rfl
  | some after =>
      have inside : expected.length ≤ front.length := by
        rw [Text.after?_eq_some_iff.mp start, List.length_append, String.length_toList]
        omega
      have skipped := drop_defuse absent' inside rest
      rw [defused] at skipped
      simp [skipped]

theorem number?_defuse (c : Char) (rest : Text) :
    Number.measure? (c :: defuse rest) = Number.measure? (c :: rest) ∧
      ∀ parts n, Number.measure? (c :: rest) = some (parts, n) →
        (defuse rest).drop (n - 1) = defuse (rest.drop (n - 1)) := by
  rcases exists_break rest with ⟨front, rest, rfl, absent, isBreak, defused, isBreak'⟩
  have same : Number.measure? (c :: (front ++ rest)) = Number.measure? (c :: front) := by
    rw [← List.cons_append, measure?_append isBreak]
  have same' : Number.measure? (c :: defuse (front ++ rest)) = Number.measure? (c :: front) := by
    rw [defused, ← List.cons_append, measure?_append isBreak']
  refine ⟨same'.trans same.symm, ?_⟩
  intro parts n measured
  rw [same] at measured
  apply drop_defuse absent
  have shorter := length_le_of_measure? measured
  rw [List.length_cons] at shorter
  omega

theorem token?_defuse {c : Char} (differs : c ≠ '<') (rest : Text) :
    token? c (defuse rest) = (token? c rest).map fun (token, rest) => (token, defuse rest) := by
  simp only [token?, Token.measure?]
  split
  · rfl
  · rfl
  · rfl
  · rfl
  · rfl
  · rfl
  · simpa [Function.comp_def] using name?_defuse (by decide) _ rest
  · simpa [Function.comp_def] using name?_defuse (by decide) _ rest
  · simpa [Function.comp_def] using name?_defuse (by decide) _ rest
  · have read := congrArg (Option.map fun (value, rest) => (Token.scalar (.string value), rest))
      (readsDefused rest [])
    simpa [string?, Function.comp_def] using read
  · rcases number?_defuse c rest with ⟨same, skipped⟩
    rw [same]
    cases measured : Number.measure? (c :: rest) with
    | none => rfl
    | some found =>
        rcases found with ⟨parts, n⟩
        have dropped := skipped parts n measured
        simp only [Option.bind_eq_bind, Option.bind_some]
        cases parts.toNumber? <;> simp [dropped]

theorem token?_break (rest : Text) : token? '<' rest = none := by
  rfl

theorem tokensFrom_of_separator {c : Char} (blank : isSeparator c = true) (found : List Token)
    (rest : Text) : tokensFrom found (c :: rest) = tokensFrom found rest := by
  rw [tokensFrom, if_pos blank]

theorem tokensFrom_of_token? {c : Char} (dark : isSeparator c = false) (found : List Token)
    (rest : Text) :
    tokensFrom found (c :: rest) =
      (token? c rest).bind fun (token, rest) => tokensFrom (token :: found) rest := by
  rw [tokensFrom, if_neg (by simp [dark]), token?]
  cases Token.measure? c rest <;> rfl

theorem length_le_of_token? {c : Char} {rest rest' : Text} {token : Token}
    (measured : token? c rest = some (token, rest')) : rest'.length ≤ rest.length := by
  rcases Option.map_eq_some_iff.mp measured with ⟨⟨token, extent⟩, -, same⟩
  cases same
  simp

theorem tokensFrom_defuse (found : List Token) (text : Text) :
    tokensFrom found (defuse text) = tokensFrom found text := by
  induction size : text.length using Nat.strongRecOn generalizing found text with
  | ind size' ih =>
    subst size
    rcases text with _ | ⟨c, rest⟩
    · rw [defuse]
    by_cases closing : c = '<'
    · subst closing
      have start := head?_defuse ('<' :: rest)
      cases defused : defuse ('<' :: rest) with
      | nil => simp [defused] at start
      | cons d rest' =>
          obtain rfl : d = '<' := by simpa [defused] using start
          rw [tokensFrom_of_token? rfl, tokensFrom_of_token? rfl, token?_break, token?_break]
    · rw [defuse_cons_of_ne closing]
      cases blank : isSeparator c with
      | true =>
          rw [tokensFrom_of_separator blank, tokensFrom_of_separator blank]
          exact ih rest.length (by simp) found rest rfl
      | false =>
          rw [tokensFrom_of_token? blank, tokensFrom_of_token? blank, token?_defuse closing]
          cases measured : token? c rest with
          | none => rfl
          | some next =>
              rcases next with ⟨token, rest'⟩
              have shorter := length_le_of_token? measured
              exact ih rest'.length (by simp; omega) (token :: found) rest' rfl

/-- A reader gets the same from a text that was defused. -/
theorem read?_defuse (text : Text) : read? (defuse text) = read? text := by
  rw [read?, tokens?, tokensFrom_defuse]
  rfl

/-! ## Texts of values -/

mutual

/-- A text is a JSON text of a value: the value written without white space between its parts, but
with the characters of strings escaped in any way. -/
inductive Spells : Value → Text → Prop
  | null : Spells .null "null".toList
  | true : Spells (.bool true) "true".toList
  | false : Spells (.bool false) "false".toList
  | number (value : Number) : Spells (.number value) value.print
  | string {value body : Text} (characters : string? [] body = some (value, [])) :
      Spells (.string value) ('\x22' :: body)
  | array {items : List Value} {texts : List Text} (spell : SpellItems items texts) :
      Spells (.array items) ('[' :: [','].intercalate texts ++ [']'])
  | object {members : List (Text × Value)} {texts : List Text}
      (spell : SpellMembers members texts) :
      Spells (.object members) ('\x7b' :: [','].intercalate texts ++ ['\x7d'])

/-- Texts are JSON texts of the items of an array. -/
inductive SpellItems : List Value → List Text → Prop
  | nil : SpellItems [] []
  | cons {item : Value} {text : Text} {items : List Value} {texts : List Text}
      (first : Spells item text) (rest : SpellItems items texts) :
      SpellItems (item :: items) (text :: texts)

/-- Texts are JSON texts of the members of an object. -/
inductive SpellMembers : List (Text × Value) → List Text → Prop
  | nil : SpellMembers [] []
  | cons {name : Text} {value : Value} {key text : Text} {members : List (Text × Value)}
      {texts : List Text} (named : Spells (.string name) key) (first : Spells value text)
      (rest : SpellMembers members texts) :
      SpellMembers ((name, value) :: members) ((key ++ ':' :: text) :: texts)

end

theorem hexValue?_hexDigit (n : Nat) : hexValue? (hexDigit n) = some (n % 16) := by
  have digits : ∀ m < 16, hexValue? (Nat.digitChar m) = some m := by decide
  exact digits _ (Nat.mod_lt n (by decide))

theorem unicodeEscape?_control {c : Char} (control : c.toNat < 0x20) (rest : Text) :
    unicodeEscape? ('0' :: '0' :: hexDigit (c.toNat / 16) :: hexDigit c.toNat :: rest) =
      some (c, 4) := by
  have zero : hexValue? '0' = some 0 := rfl
  have unit_eq :
      unit? ('0' :: '0' :: hexDigit (c.toNat / 16) :: hexDigit c.toNat :: rest) = some c.toNat := by
    simp only [unit?, zero, hexValue?_hexDigit, Option.bind_eq_bind, Option.bind_some,
      Option.pure_def, Option.some.injEq]
    omega
  rw [unicodeEscape?, unit_eq]
  have low : ¬(0xD800 ≤ c.toNat ∧ c.toNat ≤ 0xDBFF) := by omega
  have low' : ¬(0xDC00 ≤ c.toNat ∧ c.toNat ≤ 0xDFFF) := by omega
  simp [low, low', Char.ofNat_toNat]

theorem string?_escape (read : Text) (c : Char) (rest : Text) :
    string? read (escape c ++ rest) = string? (c :: read) rest := by
  fun_cases escape c
  case case8 control => exact string?_unicode (unicodeEscape?_control control rest)
  case case9 notQuote notBackslash _ _ _ _ _ printable =>
    exact string?_plain notQuote notBackslash printable
  all_goals exact string?_simple (by decide) rfl

/-- The characters of a string are read as they were written. -/
theorem string?_flatMap_escape (read value rest : Text) :
    string? read (value.flatMap escape ++ '\x22' :: rest) = some (read.reverse ++ value, rest) := by
  induction value generalizing read with
  | nil => simpa using string?_quote
  | cons c value ih =>
      rw [List.flatMap_cons, List.append_assoc, string?_escape, ih]
      simp

theorem not_mem_ofNat (n : Nat) : '<' ∉ Text.ofNat n := by
  intro mem
  have digit := Nat.isDigit_of_mem_toDigits (by decide) (by decide) mem
  cases digit

theorem not_mem_decimalText (decimal : Decimal) : '<' ∉ Number.decimalText decimal := by
  have digits := not_mem_ofNat decimal.digits
  have front : ∀ n, '<' ∉ (Text.ofNat decimal.digits).take n :=
    fun n mem => digits (List.mem_of_mem_take mem)
  have back : ∀ n, '<' ∉ (Text.ofNat decimal.digits).drop n :=
    fun n mem => digits (List.mem_of_mem_drop mem)
  have exponent := not_mem_ofNat (decimal.exponent + (Text.ofNat decimal.digits).length - 1).natAbs
  simp only [Number.decimalText]
  split
  · split
    · simp [digits]
    · split <;> simp [digits, front, back]
  · simp only [List.mem_append, List.mem_cons, not_or]
    refine ⟨⟨front 1, ?_⟩, by decide, ?_, exponent⟩
    · split
      · simp
      · exact List.not_mem_cons_of_ne_of_not_mem (by decide) (back 1)
    · split <;> decide

/-- No `<` stands in the text of a number. -/
theorem not_mem_print (value : Number) : '<' ∉ value.print := by
  cases value with
  | integer value =>
      simp only [Number.print, List.mem_append, not_or]
      refine ⟨?_, not_mem_ofNat _⟩
      split <;> simp
  | float value =>
      have magnitude : '<' ∉ (if value.magnitude.significand = 0 then ['0', '.', '0']
          else Number.decimalText value.magnitude.shortest) := by
        split
        · decide
        · exact not_mem_decimalText _
      simp only [Number.print]
      split
      · simpa using magnitude
      · exact magnitude

theorem defuse_intercalate (texts : List Text) :
    defuse ([','].intercalate texts) = [','].intercalate (texts.map defuse) := by
  induction texts with
  | nil => rfl
  | cons first rest ih =>
      cases rest with
      | nil => simp
      | cons second rest =>
          rw [List.map_cons] at ih
          rw [List.intercalate_cons_cons, List.append_assoc, defuse_append _ (by simp),
            List.singleton_append, defuse_cons_of_ne (by decide), ih, List.map_cons, List.map_cons,
            List.intercalate_cons_cons, List.append_assoc, List.singleton_append]

theorem spells_defuse_printString (value : Text) :
    Spells (.string value) (defuse (printString value)) := by
  rw [printString, List.cons_append, defuse_cons_of_ne (by decide)]
  apply Spells.string
  rw [readsDefused, string?_flatMap_escape]
  rfl

mutual

/-- The compact text of a value is still a text of the value when it is defused. -/
theorem spells_defuse_print : (value : Value) → Spells value (defuse (print value))
  | .null => Spells.null
  | .bool true => Spells.true
  | .bool false => Spells.false
  | .number value => by
      rw [print, defuse_of_not_mem (not_mem_print value)]
      exact Spells.number value
  | .string value => spells_defuse_printString value
  | .array items => by
      rw [print, List.cons_append, defuse_cons_of_ne (by decide), defuse_append _ (by simp),
        defuse_intercalate]
      exact Spells.array (spellItems_defuse items)
  | .object members => by
      rw [print, List.cons_append, defuse_cons_of_ne (by decide), defuse_append _ (by simp),
        defuse_intercalate]
      exact Spells.object (spellMembers_defuse members)

theorem spellItems_defuse : (items : List Value) → SpellItems items ((printItems items).map defuse)
  | [] => SpellItems.nil
  | item :: items => SpellItems.cons (spells_defuse_print item) (spellItems_defuse items)

theorem spellMembers_defuse :
    (members : List (Text × Value)) → SpellMembers members ((printMembers members).map defuse)
  | [] => SpellMembers.nil
  | (name, value) :: members => by
      rw [printMembers, List.map_cons, defuse_append _ (by simp), defuse_cons_of_ne (by decide)]
      exact SpellMembers.cons (spells_defuse_printString name) (spells_defuse_print value)
        (spellMembers_defuse members)

end

/-- An object is written in braces, and a member of it with a colon. -/
theorem Spells.exists_of_object {members : List (Text × Value)} {text : Text}
    (spells : Spells (.object members) text) :
    ∃ front, text = front ++ ['\x7d'] ∧ (members ≠ [] → ':' ∈ front) := by
  cases spells with
  | @object _ texts spell =>
      refine ⟨'\x7b' :: [','].intercalate texts, rfl, fun nonempty => ?_⟩
      cases spell with
      | nil => exact absurd rfl nonempty
      | @cons _ _ key first _ texts _ _ _ =>
          cases texts with
          | nil => simp
          | cons second texts =>
              rw [List.intercalate_cons_cons]
              simp

end Pageweave.Json

import Mathlib
import Pageweave.Text.Base64

/-!
# Base64 by its bits

The standard describes the encoding by bits: those of all bytes in a row, six for each digit, with
zeros behind the last ones, and `=` behind the digits until their number is a multiple of four. The
encoder works on groups of three bytes and comes to the same (`encode_eq_standard`). The bytes can
be read back (`decode?_encode`).

Both proofs go through the groups. A group of three bytes is four digits, and all that is to be
shown of it is arithmetic with numbers below 256.
-/

namespace Pageweave.Base64

/-- The number that a row of bits stands for, the highest bit first. -/
def bitValue (bits : List Bool) : Nat :=
  bits.foldl (fun n bit => 2 * n + bit.toNat) 0

/-- So many bits of a number from the one with the weight `2 ^ low` upwards, the highest first. -/
def bitsFrom (low : Nat) (n : Nat) : (count : Nat) → List Bool
  | 0 => []
  | count + 1 => n.testBit (low + count) :: bitsFrom low n count

/-- The bits of a byte, the highest first. -/
def byteBits (byte : UInt8) : List Bool :=
  bitsFrom 0 byte.toNat 8

/-- The digits of a row of bits: six bits for each, with zeros behind the last ones. -/
def digitsOf : List Bool → Text
  | a :: b :: c :: d :: e :: f :: bits => digit (bitValue [a, b, c, d, e, f]) :: digitsOf bits
  | [] => []
  | bits => [digit (bitValue (bits ++ List.replicate (6 - bits.length) false))]

/-- The base64 text of a sequence of bytes as the standard describes it. -/
def standard (bytes : Bytes) : Text :=
  let digits := digitsOf (bytes.flatMap byteBits)
  digits ++ List.replicate ((4 - digits.length % 4) % 4) '='

/-! ## Groups of three bytes -/

/-- What was written before stays in front. -/
theorem encodeFrom_eq (written : Text) (bytes : Bytes) :
    encodeFrom written bytes = written.reverse ++ encode bytes := by
  match bytes with
  | a :: b :: c :: bytes =>
      rw [encode, encodeFrom, encodeFrom, encodeFrom_eq _ bytes, encodeFrom_eq [_, _, _, _] bytes]
      simp
  | [a, b] => simp [encode, encodeFrom]
  | [a] => simp [encode, encodeFrom]
  | [] => simp [encode, encodeFrom]

theorem encode_group (a b c : UInt8) (bytes : Bytes) :
    encode (a :: b :: c :: bytes) =
      digit ((a.toNat * 65536 + b.toNat * 256 + c.toNat) / 262144) ::
        digit ((a.toNat * 65536 + b.toNat * 256 + c.toNat) / 4096) ::
        digit ((a.toNat * 65536 + b.toNat * 256 + c.toNat) / 64) ::
        digit (a.toNat * 65536 + b.toNat * 256 + c.toNat) :: encode bytes := by
  rw [encode, encodeFrom, encodeFrom_eq]
  rfl

theorem encode_pair (a b : UInt8) :
    encode [a, b] = [digit ((a.toNat * 1024 + b.toNat * 4) / 4096),
      digit ((a.toNat * 1024 + b.toNat * 4) / 64), digit (a.toNat * 1024 + b.toNat * 4), '='] :=
  rfl

theorem encode_single (a : UInt8) :
    encode [a] = [digit (a.toNat * 16 / 64), digit (a.toNat * 16), '=', '='] :=
  rfl

/-! ## Digits -/

theorem digit_congr {m n : Nat} (same : m % 64 = n % 64) : digit m = digit n := by
  rw [digit, digit, same]

/-- A digit is read back as the last six bits of its number. -/
theorem value?_digit (n : Nat) : value? (digit n) = some (n % 64) := by
  have each : ∀ k < 64, value? (digit k) = some k := by decide +kernel
  have same : digit n = digit (n % 64) := digit_congr (Nat.mod_mod n 64).symm
  rw [same]
  exact each _ (Nat.mod_lt n (by decide))

theorem digit_mem (n : Nat) : digit n ∈ alphabet := by
  have found := value?_digit n
  by_contra absent
  rw [value?, List.idxOf?_eq_none_iff.mpr absent] at found
  cases found

theorem digit_ne_pad (n : Nat) : digit n ≠ '=' := by
  have absent : '=' ∉ alphabet := by decide
  intro pad
  exact absent (pad ▸ digit_mem n)

/-- The text is made of digits and `=`. -/
theorem mem_encode {c : Char} (bytes : Bytes) (c_mem : c ∈ encode bytes) :
    c ∈ alphabet ∨ c = '=' := by
  match bytes with
  | a :: b :: d :: bytes =>
      rw [encode_group] at c_mem
      simp only [List.mem_cons] at c_mem
      rcases c_mem with rfl | rfl | rfl | rfl | c_mem
      · exact Or.inl (digit_mem _)
      · exact Or.inl (digit_mem _)
      · exact Or.inl (digit_mem _)
      · exact Or.inl (digit_mem _)
      · exact mem_encode bytes c_mem
  | [a, b] =>
      rw [encode_pair] at c_mem
      simp only [List.mem_cons, List.not_mem_nil, or_false] at c_mem
      rcases c_mem with rfl | rfl | rfl | rfl
      · exact Or.inl (digit_mem _)
      · exact Or.inl (digit_mem _)
      · exact Or.inl (digit_mem _)
      · exact Or.inr rfl
  | [a] =>
      rw [encode_single] at c_mem
      simp only [List.mem_cons, List.not_mem_nil, or_false] at c_mem
      rcases c_mem with rfl | rfl | rfl | rfl
      · exact Or.inl (digit_mem _)
      · exact Or.inl (digit_mem _)
      · exact Or.inr rfl
      · exact Or.inr rfl
  | [] => simp [encode, encodeFrom] at c_mem

/-! ## The standard -/

theorem bitValue_append (front back : List Bool) :
    bitValue (front ++ back) = bitValue front * 2 ^ back.length + bitValue back := by
  induction back using List.reverseRecOn with
  | nil => simp [bitValue]
  | append_singleton back bit ih =>
      have last : ∀ bits, bitValue (bits ++ [bit]) = 2 * bitValue bits + bit.toNat := by
        intro bits
        simp [bitValue]
      rw [← List.append_assoc, last, last, ih, List.length_append, List.length_singleton, pow_succ]
      ring

theorem length_bitsFrom (low n count : Nat) : (bitsFrom low n count).length = count := by
  induction count with
  | zero => rfl
  | succ count ih => rw [bitsFrom, List.length_cons, ih]

theorem bitValue_bitsFrom (low n count : Nat) :
    bitValue (bitsFrom low n count) = n / 2 ^ low % 2 ^ count := by
  induction count with
  | zero => simp [bitsFrom, bitValue, Nat.mod_one]
  | succ count ih =>
      have first : bitValue [n.testBit (low + count)] = n / 2 ^ low / 2 ^ count % 2 := by
        simp [bitValue, Nat.toNat_testBit, Nat.div_div_eq_div_mul, pow_add]
      rw [bitsFrom, ← List.singleton_append, bitValue_append, first, ih, length_bitsFrom,
        Nat.mod_pow_succ]
      ring

/-- Three bytes are four digits. -/
theorem digitsOf_group (a b c : UInt8) (bits : List Bool) :
    digitsOf (byteBits a ++ (byteBits b ++ (byteBits c ++ bits))) =
      digit ((a.toNat * 65536 + b.toNat * 256 + c.toNat) / 262144) ::
        digit ((a.toNat * 65536 + b.toNat * 256 + c.toNat) / 4096) ::
        digit ((a.toNat * 65536 + b.toNat * 256 + c.toNat) / 64) ::
        digit (a.toNat * 65536 + b.toNat * 256 + c.toNat) :: digitsOf bits := by
  have split : digitsOf (byteBits a ++ (byteBits b ++ (byteBits c ++ bits))) =
      digit (bitValue (bitsFrom 2 a.toNat 6)) ::
        digit (bitValue (bitsFrom 0 a.toNat 2 ++ bitsFrom 4 b.toNat 4)) ::
        digit (bitValue (bitsFrom 0 b.toNat 4 ++ bitsFrom 6 c.toNat 2)) ::
        digit (bitValue (bitsFrom 0 c.toNat 6)) :: digitsOf bits := rfl
  have a_lt := a.toNat_lt
  have b_lt := b.toNat_lt
  have c_lt := c.toNat_lt
  rw [split]
  simp only [bitValue_append, bitValue_bitsFrom, length_bitsFrom]
  refine congrArg₂ _ (digit_congr ?_) (congrArg₂ _ (digit_congr ?_) (congrArg₂ _ (digit_congr ?_)
    (congrArg₂ _ (digit_congr ?_) rfl)))
  · omega
  · omega
  · omega
  · omega

theorem digitsOf_pair (a b : UInt8) :
    digitsOf (byteBits a ++ byteBits b) =
      [digit ((a.toNat * 1024 + b.toNat * 4) / 4096), digit ((a.toNat * 1024 + b.toNat * 4) / 64),
        digit (a.toNat * 1024 + b.toNat * 4)] := by
  have split : digitsOf (byteBits a ++ byteBits b) =
      [digit (bitValue (bitsFrom 2 a.toNat 6)),
        digit (bitValue (bitsFrom 0 a.toNat 2 ++ bitsFrom 4 b.toNat 4)),
        digit (bitValue (bitsFrom 0 b.toNat 4 ++ [false, false]))] := rfl
  have a_lt := a.toNat_lt
  have b_lt := b.toNat_lt
  have zeros : bitValue [false, false] = 0 := rfl
  rw [split]
  simp only [bitValue_append, bitValue_bitsFrom, length_bitsFrom, zeros]
  refine congrArg₂ _ (digit_congr ?_) (congrArg₂ _ (digit_congr ?_)
    (congrArg₂ _ (digit_congr ?_) rfl))
  · omega
  · omega
  · simp only [List.length_cons, List.length_nil]
    omega

theorem digitsOf_single (a : UInt8) :
    digitsOf (byteBits a) = [digit (a.toNat * 16 / 64), digit (a.toNat * 16)] := by
  have split : digitsOf (byteBits a) =
      [digit (bitValue (bitsFrom 2 a.toNat 6)),
        digit (bitValue (bitsFrom 0 a.toNat 2 ++ [false, false, false, false]))] := rfl
  have a_lt := a.toNat_lt
  have zeros : bitValue [false, false, false, false] = 0 := rfl
  rw [split]
  simp only [bitValue_append, bitValue_bitsFrom, zeros]
  refine congrArg₂ _ (digit_congr ?_) (congrArg₂ _ (digit_congr ?_) rfl)
  · omega
  · simp only [List.length_cons, List.length_nil]
    omega

/-- The encoder writes what the standard describes. -/
theorem encode_eq_standard (bytes : Bytes) : encode bytes = standard bytes := by
  match bytes with
  | a :: b :: c :: bytes =>
      rw [encode_group, encode_eq_standard bytes]
      simp only [standard, List.flatMap_cons, digitsOf_group, List.length_cons, List.cons_append]
      congr 7
      omega
  | [a, b] =>
      rw [encode_pair, standard, List.flatMap_cons, List.flatMap_singleton, digitsOf_pair]
      rfl
  | [a] =>
      rw [encode_single, standard, List.flatMap_singleton, digitsOf_single]
      rfl
  | [] => rfl

/-! ## Reading back -/

theorem toUInt8_eq {n : Nat} {byte : UInt8} (same : n % 256 = byte.toNat) : n.toUInt8 = byte := by
  rw [← UInt8.toNat_inj, ← same]
  exact UInt8.toNat_ofNat'

/-- The bytes are read back from their text. -/
theorem decode?_encode (bytes : Bytes) : decode? (encode bytes) = some bytes := by
  match bytes with
  | a :: b :: c :: bytes =>
      have a_lt := a.toNat_lt
      have b_lt := b.toNat_lt
      have c_lt := c.toNat_lt
      rw [encode_group, decode?]
      · simp only [value?_digit, decode?_encode bytes, Option.bind_eq_bind, Option.bind_some,
          Option.pure_def, Option.some.injEq, List.cons.injEq, and_true]
        refine ⟨toUInt8_eq ?_, toUInt8_eq ?_, toUInt8_eq ?_⟩
        · omega
        · omega
        · omega
      · intro pad
        exact absurd pad (digit_ne_pad _)
      · intro pad
        exact absurd pad (digit_ne_pad _)
  | [a, b] =>
      have a_lt := a.toNat_lt
      have b_lt := b.toNat_lt
      rw [encode_pair, decode?]
      · simp only [value?_digit, Option.bind_eq_bind, Option.bind_some, Option.pure_def,
          Option.some.injEq, List.cons.injEq, and_true]
        refine ⟨toUInt8_eq ?_, toUInt8_eq ?_⟩
        · omega
        · omega
      · intro pad
        exact absurd pad (digit_ne_pad _)
  | [a] =>
      have a_lt := a.toNat_lt
      rw [encode_single, decode?]
      simp only [value?_digit, Option.bind_eq_bind, Option.bind_some, Option.pure_def,
        Option.some.injEq, List.cons.injEq, and_true]
      apply toUInt8_eq
      omega
  | [] => rfl

end Pageweave.Base64

import Mathlib.Data.List.TakeWhile
import Mathlib.Tactic

/-! # Numbers as decimal text

`decimal p n` is what `%.pu` prints: the digits of `n`, with zeros in front up to `p` of them.
`decimalInt z` is what `%d` prints, and `atoll` reads it back.  Texts joined by a separator that
occurs in none of them can be taken apart again (`append_sep_inj`). -/

namespace HttpsTunnel.Lib

/-- The decimal digits of a number, at least `p` of them. -/
def decimal (p n : ℕ) : List Char := (Nat.toDigits 10 n).leftpad p '0'

theorem isDigit_of_mem_decimal {p n : ℕ} {c : Char} (h : c ∈ decimal p n) : c.isDigit = true := by
  rw [decimal, List.leftpad, List.mem_append] at h
  rcases h with h | h
  · rw [(List.mem_replicate.mp h).2]
    rfl
  · exact Nat.isDigit_of_mem_toDigits (by decide) (by decide) h

theorem ofDigitChars_decimal (p n : ℕ) : Nat.ofDigitChars 10 (decimal p n) 0 = n := by
  rw [decimal, List.leftpad, Nat.ofDigitChars_append, Nat.ofDigitChars_replicate_zero, Nat.mul_zero,
    Nat.ofDigitChars_toDigits (by decide) (by decide)]

theorem decimal_injective (p : ℕ) : Function.Injective (decimal p) := by
  intro m n h
  rw [← ofDigitChars_decimal p m, h, ofDigitChars_decimal]

/-- How long the text of a number is. -/
theorem length_decimal_le_iff {p n k : ℕ} (hk : 0 < k) (hp : p ≤ k) :
    (decimal p n).length ≤ k ↔ n < 10 ^ k := by
  have hl : (decimal p n).length = max p (Nat.toDigits 10 n).length := by
    rw [decimal, List.leftpad, List.length_append, List.length_replicate]
    omega
  rw [hl, max_le_iff, Nat.length_toDigits_le_iff (by decide) hk, and_iff_right hp]

/-- A signed number in decimal. -/
def decimalInt (z : ℤ) : List Char :=
  if z < 0 then '-' :: decimal 1 z.natAbs else decimal 1 z.natAbs

theorem length_decimalInt_le {z : ℤ} {k : ℕ} (hk : 0 < k) (hz : z.natAbs < 10 ^ k) :
    (decimalInt z).length ≤ k + 1 := by
  have hd : (decimal 1 z.natAbs).length ≤ k := (length_decimal_le_iff hk hk).mpr hz
  rw [decimalInt]
  split_ifs
  · exact Nat.succ_le_succ hd
  · omega

/-- The number at the start of a text: what follows the digits is ignored. -/
def readDigits (s : List Char) : ℕ := Nat.ofDigitChars 10 (s.takeWhile Char.isDigit) 0

/-- `isspace`. -/
def isSpace (c : Char) : Bool := c = ' ' || 9 ≤ c.toNat && c.toNat ≤ 13

/-- A number with an optional sign. -/
def readSigned : List Char → ℤ
  | [] => 0
  | c :: t => if c = '-' then -readDigits t else if c = '+' then readDigits t else readDigits (c :: t)

/-- `atoll`: blanks, a sign, digits; the result is kept within 64 bits. -/
def atoll (s : List Char) : ℤ :=
  max (-2 ^ 63) (min (2 ^ 63 - 1) (readSigned (s.dropWhile isSpace)))

/-- `strtoull` with base 10: a number beyond 64 bits gives the largest one, a sign is applied in
unsigned arithmetic. -/
def strtoull (s : List Char) : ℕ :=
  let z := readSigned (s.dropWhile isSpace)
  if 2 ^ 64 ≤ z.natAbs then 2 ^ 64 - 1 else (z % 2 ^ 64).toNat

theorem atoll_mem (s : List Char) : -2 ^ 63 ≤ atoll s ∧ atoll s < 2 ^ 63 := by
  rw [atoll]
  omega

theorem readDigits_decimal (p n : ℕ) : readDigits (decimal p n) = n := by
  have h : (decimal p n).takeWhile Char.isDigit = decimal p n := by
    rw [List.takeWhile_eq_self_iff]
    exact fun _ => isDigit_of_mem_decimal
  rw [readDigits, h, ofDigitChars_decimal]

theorem toNat_of_isDigit {c : Char} (h : c.isDigit = true) : 48 ≤ c.toNat ∧ c.toNat ≤ 57 := by
  simp only [Char.isDigit, Bool.and_eq_true, decide_eq_true_eq] at h
  exact ⟨h.1, h.2⟩

theorem decimal_eq_cons (n : ℕ) : ∃ c t, decimal 1 n = c :: t ∧ c.isDigit = true := by
  cases h : decimal 1 n with
  | nil =>
      have := congrArg List.length h
      simp [decimal, List.leftpad] at this
  | cons c t => exact ⟨c, t, rfl, isDigit_of_mem_decimal (h ▸ List.mem_cons_self)⟩

theorem readSigned_decimal (n : ℕ) :
    readSigned ((decimal 1 n).dropWhile isSpace) = n := by
  obtain ⟨c, t, hc, hdig⟩ := decimal_eq_cons n
  obtain ⟨h₁, h₂⟩ := toNat_of_isDigit hdig
  have hs : ¬ isSpace c = true := by
    simp only [isSpace, Bool.or_eq_true, decide_eq_true_eq, Bool.and_eq_true]
    rintro (rfl | h)
    · exact absurd h₁ (by decide)
    · omega
  have hm : c ≠ '-' := by
    rintro rfl
    exact absurd h₁ (by decide)
  have hp : c ≠ '+' := by
    rintro rfl
    exact absurd h₁ (by decide)
  rw [hc, List.dropWhile_cons_of_neg hs, readSigned, if_neg hm, if_neg hp, ← hc, readDigits_decimal]

/-- What is printed is read back. -/
theorem atoll_decimalInt {z : ℤ} (h : -2 ^ 63 ≤ z) (h' : z < 2 ^ 63) : atoll (decimalInt z) = z := by
  by_cases hz : z < 0
  · have hd : (decimalInt z).dropWhile isSpace = '-' :: decimal 1 z.natAbs := by
      rw [decimalInt, if_pos hz]
      rfl
    rw [atoll, hd, readSigned, if_pos rfl, readDigits_decimal]
    omega
  · rw [atoll, decimalInt, if_neg hz, readSigned_decimal]
    omega

theorem append_sep_inj {α : Type} {s : α} {a a' b b' : List α} (ha : s ∉ a) (ha' : s ∉ a')
    (h : a ++ s :: b = a' ++ s :: b') : a = a' ∧ b = b' := by
  rcases List.append_eq_append_iff.mp h with ⟨l, rfl, hl⟩ | ⟨l, rfl, hl⟩
  all_goals
    cases l with
    | nil => simp_all
    | cons x l =>
        obtain ⟨rfl, -⟩ := List.cons.inj hl
        simp at ha ha'

end HttpsTunnel.Lib

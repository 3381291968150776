import Mathlib.Tactic

/-! # Byte buffers

A buffer is an array of bytes addressed by natural numbers.  Its size is not part of the
type: a program that writes into a buffer checks the bound at the write, so that leaving the
buffer is an event of the program and not of this library.

`store b off bs` is the buffer after `bs` has been copied to position `off`, `slice b off n`
the `n` bytes from position `off` on.  The second half reads and writes fixed-width numbers
in little-endian order. -/

namespace HttpsTunnel.Lib

/-- A byte buffer. -/
abbrev Buff := ℕ → UInt8

namespace Buff

/-- The buffer after `bs` has been copied to position `off`. -/
def store (b : Buff) (off : ℕ) (bs : List UInt8) : Buff :=
  fun i => if off ≤ i then (bs[i - off]?).getD (b i) else b i

/-- The `n` bytes from position `off` on. -/
def slice (b : Buff) (off n : ℕ) : List UInt8 := (List.range n).map (fun i => b (off + i))

@[simp] theorem slice_length (b : Buff) (off n : ℕ) : (b.slice off n).length = n := by
  simp [slice]

@[simp] theorem slice_zero (b : Buff) (off : ℕ) : b.slice off 0 = [] := rfl

theorem getElem?_slice (b : Buff) (off n i : ℕ) :
    (b.slice off n)[i]? = if i < n then some (b (off + i)) else none := by
  simp only [slice, List.getElem?_map]
  split_ifs with h
  · rw [List.getElem?_range h]; rfl
  · rw [List.getElem?_eq_none (by simpa using h)]; rfl

theorem slice_append (b : Buff) (off m n : ℕ) :
    b.slice off m ++ b.slice (off + m) n = b.slice off (m + n) := by
  simp only [slice, List.range_add, List.map_append, List.map_map]
  congr 1
  apply List.map_congr_left
  intro i _
  simp [Nat.add_assoc]

theorem take_slice (b : Buff) (off n k : ℕ) : (b.slice off n).take k = b.slice off (min k n) := by
  apply List.ext_getElem?
  intro i
  rw [List.getElem?_take, getElem?_slice, getElem?_slice]
  split_ifs <;> first | rfl | omega

theorem drop_slice (b : Buff) (off n k : ℕ) : (b.slice off n).drop k = b.slice (off + k) (n - k) := by
  apply List.ext_getElem?
  intro i
  rw [List.getElem?_drop, getElem?_slice, getElem?_slice, Nat.add_assoc]
  split_ifs <;> first | rfl | omega

/-- Reading back what was just stored. -/
@[simp] theorem slice_store_same (b : Buff) (off : ℕ) (bs : List UInt8) :
    (b.store off bs).slice off bs.length = bs := by
  apply List.ext_getElem?
  intro i
  rw [getElem?_slice]
  split_ifs with h
  · simp [store, h]
  · rw [List.getElem?_eq_none (by omega)]

/-- Reading a part of what was just stored. -/
theorem slice_store_part (b : Buff) {off n : ℕ} {bs : List UInt8} (h : off + n ≤ bs.length) :
    (b.store 0 bs).slice off n = (bs.drop off).take n := by
  have hs := congrArg (fun l => (l.drop off).take n) (slice_store_same b 0 bs)
  simp only [drop_slice, take_slice, Nat.zero_add] at hs
  rwa [min_eq_left (by omega)] at hs

/-- A store leaves what lies before it alone. -/
theorem slice_store_before (b : Buff) {off off' n : ℕ} (bs : List UInt8) (h : off' + n ≤ off) :
    (b.store off bs).slice off' n = b.slice off' n := by
  simp only [slice]
  apply List.map_congr_left
  intro i hi
  have : ¬ off ≤ off' + i := by
    have := List.mem_range.mp hi
    omega
  simp [store, this]

/-- Storing at the end of a prefix extends the prefix. -/
theorem slice_store_append (b : Buff) (off : ℕ) (bs : List UInt8) :
    (b.store off bs).slice 0 (off + bs.length) = b.slice 0 off ++ bs := by
  rw [← slice_append, slice_store_before b bs (by omega), Nat.zero_add, slice_store_same]

/-- The bytes `bs` are in the buffer from position `pos` on. -/
def Has (b : Buff) (pos : ℕ) (bs : List UInt8) : Prop := b.slice pos bs.length = bs

theorem has_append {b : Buff} {pos : ℕ} {xs ys : List UInt8} :
    b.Has pos (xs ++ ys) ↔ b.Has pos xs ∧ b.Has (pos + xs.length) ys := by
  rw [Has, List.length_append, ← slice_append]
  constructor
  · intro h
    exact List.append_inj h (slice_length _ _ _)
  · rintro ⟨hx, hy⟩
    rw [hx, hy]

theorem has_cons {b : Buff} {pos : ℕ} {c : UInt8} {cs : List UInt8} :
    b.Has pos (c :: cs) ↔ b pos = c ∧ b.Has (pos + 1) cs := by
  have hone : b.Has pos [c] ↔ b pos = c := by simp [Has, slice]
  rw [← List.singleton_append, has_append, hone, List.length_singleton]

theorem has_store (b : Buff) (bs : List UInt8) : (b.store 0 bs).Has 0 bs := slice_store_same b 0 bs

/-- A store from the start on, read at one position. -/
theorem store_apply (b : Buff) {bs : List UInt8} {i : ℕ} (h : i < bs.length) : b.store 0 bs i = bs[i] := by
  simp [store, h]

end Buff

/-! ### Fixed-width numbers -/

/-- The value of a little-endian byte string. -/
def ofLE : List UInt8 → ℕ
  | [] => 0
  | b :: bs => b.toNat + 256 * ofLE bs

/-- `n` in little-endian order on `w` bytes (truncated to `w` bytes). -/
def toLE : ℕ → ℕ → List UInt8
  | 0, _ => []
  | w + 1, n => UInt8.ofNat n :: toLE w (n / 256)

@[simp] theorem toLE_length (w n : ℕ) : (toLE w n).length = w := by
  induction w generalizing n with
  | zero => rfl
  | succ w ih => simp [toLE, ih]

theorem ofLE_toLE (w n : ℕ) : ofLE (toLE w n) = n % 256 ^ w := by
  induction w generalizing n with
  | zero => simp [toLE, ofLE, Nat.mod_one]
  | succ w ih =>
      have h : (256 : ℕ) ^ (w + 1) = 256 * 256 ^ w := Nat.pow_succ'
      rw [h, Nat.mod_mul, ← ih]
      simp [toLE, ofLE]

/-- The value of two bytes in network order. -/
def ofBE16 (hi lo : UInt8) : ℕ := 256 * hi.toNat + lo.toNat

/-- The prefix of a byte string before its first NUL: the C string it holds. -/
def cstr (bs : List UInt8) : List UInt8 := bs.takeWhile (· ≠ 0)

end HttpsTunnel.Lib

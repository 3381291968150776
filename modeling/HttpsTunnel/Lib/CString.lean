import Mathlib.Data.List.TakeWhile
import HttpsTunnel.Lib.Buffer

/-! # C strings

The string functions of C on bytes in memory.  An argument is the memory from the pointer to the
end of the object it points into; a function that would read past that end has no result (`none`).
Inside the object a text ends at the first 0. -/

namespace HttpsTunnel.Lib.CString

abbrev Mem := List UInt8

/-- The bytes of an ASCII literal. -/
def lit (s : String) : Mem := s.toList.map fun c => UInt8.ofNat c.toNat

def CR : UInt8 := 13
def LF : UInt8 := 10

/-- `tolower`. -/
def lower (b : UInt8) : UInt8 := if 65 ≤ b ∧ b ≤ 90 then b + 32 else b

/-- `strncasecmp(m, pat, strlen(pat)) == 0`: the comparison ends at the first difference. -/
def caseStarts : Mem → Mem → Option Bool
  | [], _ => some true
  | _ :: _, [] => none
  | c :: pat, b :: m => if lower b = lower c then caseStarts pat m else some false

/-- `strchr`: the position of `c` in the text, none if it does not occur there. -/
def strchr (c : UInt8) : Mem → Option (Option ℕ)
  | [] => none
  | b :: m =>
      if b = c then some (some 0)
      else if b = 0 then some none
      else (strchr c m).map (·.map (· + 1))

/-- `strstr`: the position of `pat` in the text, none if it does not occur there. -/
def strstr (pat : Mem) : Mem → Option (Option ℕ)
  | [] => none
  | b :: m =>
      if pat.isPrefixOf (b :: m) then some (some 0)
      else if b = 0 then some none
      else (strstr pat m).map (·.map (· + 1))

/-! ### Comparing and searching

What the searches say about the memory, and that a search with a result does not depend on what is
behind the memory it was given. -/

/-- Equal but for upper and lower case. -/
def SameCase (m m' : Mem) : Prop := m.map lower = m'.map lower

instance (m m' : Mem) : Decidable (SameCase m m') := inferInstanceAs (Decidable (_ = _))

theorem SameCase.length_eq {m m' : Mem} (h : SameCase m m') : m.length = m'.length := by
  simpa using congrArg List.length h

/-- A byte that a text does not have in any case is not in the text in another case. -/
theorem SameCase.not_mem {m pat : Mem} {b : UInt8} (h : SameCase m pat) (hb : lower b ∉ pat.map lower) : b ∉ m :=
  fun hmem => hb (h ▸ List.mem_map_of_mem hmem)

section Search

variable {pat m : Mem} {c : UInt8} {n : ℕ}

theorem caseStarts_eq_some_true : caseStarts pat m = some true ↔ SameCase (m.take pat.length) pat := by
  unfold SameCase
  induction pat generalizing m with
  | nil => simp [caseStarts]
  | cons a pat ih =>
      cases m with
      | nil => simp [caseStarts]
      | cons b m =>
          by_cases h : lower b = lower a
          · simp [caseStarts, h, ih]
          · simp [caseStarts, h]

theorem caseStarts_eq_none :
    caseStarts pat m = none ↔ m.length < pat.length ∧ SameCase m (pat.take m.length) := by
  unfold SameCase
  induction pat generalizing m with
  | nil => simp [caseStarts]
  | cons a pat ih =>
      cases m with
      | nil => simp [caseStarts]
      | cons b m =>
          by_cases h : lower b = lower a
          · simp [caseStarts, h, ih]
          · simp [caseStarts, h]

theorem caseStarts_append (h : caseStarts pat m ≠ none) (e : Mem) : caseStarts pat (m ++ e) = caseStarts pat m := by
  induction pat generalizing m with
  | nil => simp [caseStarts]
  | cons a pat ih =>
      cases m with
      | nil => exact absurd rfl h
      | cons b m =>
          by_cases hb : lower b = lower a
          · simp only [caseStarts, hb, if_true, List.cons_append] at h ⊢
            exact ih h
          · simp [caseStarts, hb]

/-- In a line that ends with a byte the pattern does not have, the comparison ends with the line. -/
theorem caseStarts_line {t : Mem} (hc : lower c ∉ pat.map lower) (m : Mem) :
    caseStarts pat (t ++ c :: m) = some (decide (SameCase (t.take pat.length) pat)) := by
  unfold SameCase
  induction pat generalizing t with
  | nil => simp [caseStarts]
  | cons a pat ih =>
      rw [List.map_cons, List.mem_cons, not_or] at hc
      have ih := fun {t} => ih (t := t) hc.2
      cases t with
      | nil => simp [caseStarts, hc.1]
      | cons b t =>
          by_cases hb : lower b = lower a
          · simp [caseStarts, hb, ih]
          · simp [caseStarts, hb]

/-- The position of `c` is the end of a line without it. -/
theorem strchr_line {line : Mem} (hc : c ∉ line) (h0 : 0 ∉ line) (rest : Mem) :
    strchr c (line ++ c :: rest) = some (some line.length) := by
  induction line with
  | nil => simp [strchr]
  | cons b line ih =>
      simp only [List.mem_cons, not_or] at hc h0
      simp [strchr, Ne.symm hc.1, Ne.symm h0.1, ih hc.2 h0.2]

theorem exists_line_of_strchr (h : strchr c m = some (some n)) :
    ∃ line rest, m = line ++ c :: rest ∧ c ∉ line ∧ 0 ∉ line ∧ line.length = n := by
  induction m generalizing n with
  | nil => cases h
  | cons b m ih =>
      by_cases hb : b = c
      · simp only [strchr, hb, if_true, Option.some.injEq] at h
        exact ⟨[], m, by simp [hb], by simp, by simp, h⟩
      · by_cases h0 : b = 0
        · subst h0
          simp [strchr, hb] at h
        · simp only [strchr, hb, h0, if_false, Option.map_eq_some_iff] at h
          obtain ⟨_, hm, k, rfl, rfl⟩ := h
          obtain ⟨line, rest, rfl, hc, hz, rfl⟩ := ih hm
          exact ⟨b :: line, rest, rfl, by simp [Ne.symm hb, hc], by simp [Ne.symm h0, hz], rfl⟩

theorem strstr_eq_some :
    strstr pat m = some (some n) ↔
      n < m.length ∧ pat <+: m.drop n ∧ 0 ∉ m.take n ∧ ∀ k < n, ¬ pat <+: m.drop k := by
  induction m generalizing n with
  | nil => simp [strstr]
  | cons b m ih =>
      simp only [strstr, List.isPrefixOf_iff_prefix]
      by_cases hp : pat <+: b :: m
      · cases n with
        | zero => simp [hp]
        | succ n =>
            simp only [hp, if_true, Option.some.injEq, Nat.zero_ne_add_one, false_iff, not_and]
            exact fun _ _ _ hk => hk 0 n.succ_pos hp
      · by_cases h0 : b = 0
        · subst h0
          cases n with
          | zero => simp [hp]
          | succ n => simp [hp]
        · cases n with
          | zero => simp [hp, h0]
          | succ n =>
              have hmap : (strstr pat m).map (·.map (· + 1)) = some (some (n + 1)) ↔ strstr pat m = some (some n) := by
                simp
              simp only [hp, h0, if_false, hmap, ih, List.length_cons, Nat.add_lt_add_iff_right, List.drop_succ_cons,
                List.take_succ_cons, List.mem_cons, Ne.symm h0, false_or, Nat.forall_lt_succ_left', List.drop_zero,
                not_false_eq_true, true_and]

theorem strstr_eq_none : strstr pat m = none ↔ 0 ∉ m ∧ ∀ k < m.length, ¬ pat <+: m.drop k := by
  induction m with
  | nil => simp [strstr]
  | cons b m ih =>
      simp only [strstr, List.isPrefixOf_iff_prefix, List.length_cons, Nat.forall_lt_succ_left', List.drop_zero,
        List.drop_succ_cons]
      by_cases hp : pat <+: b :: m
      · simp [hp]
      · by_cases h0 : b = 0
        · subst h0
          simp [hp]
        · simp [hp, h0, ih, Ne.symm h0]

theorem zero_mem_of_strstr (h : strstr pat m = some none) : 0 ∈ m := by
  induction m with
  | nil => cases h
  | cons b m ih =>
      by_cases h0 : b = 0
      · simp [h0]
      · by_cases hp : pat.isPrefixOf (b :: m)
        · simp [strstr, hp] at h
        · simp only [strstr, hp, h0, if_false, Bool.false_eq_true, Option.map_eq_some_iff, Option.map_eq_none_iff,
            exists_eq_right] at h
          exact List.mem_cons_of_mem _ (ih h)

/-- A piece without the first byte of the pattern is passed over. -/
theorem strstr_skip {piece : Mem} (hc : c ∉ piece) (h0 : 0 ∉ piece) (m : Mem) :
    strstr (c :: pat) (piece ++ m) = (strstr (c :: pat) m).map (·.map (· + piece.length)) := by
  induction piece with
  | nil => simp
  | cons b piece ih =>
      simp only [List.mem_cons, not_or] at hc h0
      simp [strstr, hc.1, Ne.symm h0.1, ih hc.2 h0.2, Function.comp_def, Nat.add_assoc]

/-- The end of a line is found in what is received of it, or not at all. -/
theorem strstr_append (h : strstr [CR, LF] m ≠ none) (e : Mem) :
    strstr [CR, LF] (m ++ e) = strstr [CR, LF] m := by
  induction m with
  | nil => exact absurd rfl h
  | cons b m ih =>
      simp only [strstr, List.isPrefixOf_iff_prefix, List.cons_append] at h ⊢
      cases m with
      | nil =>
          have h0 : b = 0 := by
            by_contra h0
            simp [h0, strstr] at h
          simp [h0, CR]
      | cons b' m =>
          simp only [List.cons_append, List.cons_prefix_cons, List.nil_prefix, and_true] at h ⊢ ih
          by_cases hp : CR = b ∧ LF = b'
          · simp [hp]
          · by_cases h0 : b = 0
            · simp [h0, CR]
            · simp only [hp, h0, if_false, ne_eq, Option.map_eq_none_iff] at h ⊢
              rw [ih h]

end Search

/-! ### Tokens and numbers -/

/-- `strtok` on a text: the next token and the text behind its delimiter. -/
def strtok (delim : Mem) (text : Mem) : Option (Mem × Mem) :=
  let t := text.dropWhile (· ∈ delim)
  if t = [] then none
  else some (t.takeWhile (· ∉ delim), (t.dropWhile (· ∉ delim)).drop 1)

section Strtok

variable {delim text : Mem}

theorem strtok_eq_none : strtok delim text = none ↔ ∀ x ∈ text, x ∈ delim := by
  simp [strtok, List.dropWhile_eq_nil_iff]

/-- The token behind leading delimiters, up to the next one. -/
theorem strtok_append {lead tok : Mem} {rest : Mem} (hlead : ∀ x ∈ lead, x ∈ delim) (hne : tok ≠ [])
    (htok : ∀ x ∈ tok, x ∉ delim) (hrest : ∀ x ∈ rest.head?, x ∈ delim) :
    strtok delim (lead ++ tok ++ rest) = some (tok, rest.drop 1) := by
  obtain ⟨b, tok, rfl⟩ := List.exists_cons_of_ne_nil hne
  have hdrop : (lead ++ (b :: tok) ++ rest).dropWhile (· ∈ delim) = b :: tok ++ rest := by
    rw [List.append_assoc, List.dropWhile_append_of_pos (by simpa using hlead)]
    simp [htok b List.mem_cons_self]
  have htw : rest.takeWhile (· ∉ delim) = [] ∧ rest.dropWhile (· ∉ delim) = rest := by
    cases rest with
    | nil => simp
    | cons x rest => simp [hrest x rfl]
  have hall : ∀ x ∈ b :: tok, decide (x ∉ delim) = true := by simpa using htok
  simp only [strtok, hdrop, List.takeWhile_append_of_pos hall, List.dropWhile_append_of_pos hall, htw.1, htw.2,
    List.append_nil]
  rfl

theorem exists_of_strtok {tok rest : Mem} (h : strtok delim text = some (tok, rest)) :
    ∃ lead tail, text = lead ++ tok ++ tail ∧ (∀ x ∈ lead, x ∈ delim) ∧ tok ≠ [] ∧ (∀ x ∈ tok, x ∉ delim) ∧
      (∀ x ∈ tail.head?, x ∈ delim) ∧ rest = tail.drop 1 := by
  simp only [strtok] at h
  split at h
  · cases h
  · rename_i hne
    obtain ⟨rfl, rfl⟩ := Prod.mk.inj (Option.some.inj h)
    refine ⟨text.takeWhile (· ∈ delim), _, ?_, ?_, ?_, ?_, ?_, rfl⟩
    · rw [List.append_assoc, List.takeWhile_append_dropWhile, List.takeWhile_append_dropWhile]
    · exact fun x hx => by simpa using List.mem_takeWhile_imp hx
    · have hhead := List.head_dropWhile_not (fun x => decide (x ∈ delim)) hne
      intro hnil
      have hget := List.takeWhile_eq_nil_iff.mp hnil (List.length_pos_iff.mpr hne)
      rw [List.get_eq_getElem, List.getElem_zero] at hget
      simp_all
    · exact fun x hx => by simpa using List.mem_takeWhile_imp hx
    · intro x hx
      have := List.head?_dropWhile_not (fun x => decide (x ∉ delim)) (text.dropWhile (· ∈ delim))
      rw [Option.mem_def] at hx
      rw [hx] at this
      simpa using this

end Strtok

def isDigit (b : UInt8) : Bool := 48 ≤ b && b ≤ 57

/-- The number a text starts with, as `atoi` and `atol` read it when it starts with a digit: kept
within the 63 bits of a `long`. -/
def digits (text : Mem) : ℕ :=
  min (2 ^ 63 - 1) ((text.takeWhile isDigit).foldl (fun n b => 10 * n + (b.toNat - 48)) 0)

/-- The number a text of digits stands for. -/
def decimalValue (text : Mem) : ℕ := text.foldl (fun n b => 10 * n + (b.toNat - 48)) 0

theorem digits_eq {text : Mem} (h : ∀ b ∈ text, isDigit b) (hlt : decimalValue text < 2 ^ 63) :
    digits text = decimalValue text := by
  rw [digits, List.takeWhile_eq_self_iff.mpr h]
  exact Nat.min_eq_right (Nat.le_sub_one_of_lt hlt)

def isBlank (b : UInt8) : Bool := b = 32 || 9 ≤ b && b ≤ 13

/-- The digits at the start of a text that goes on behind them. -/
def number (m : Mem) : Option ℤ := if m.dropWhile isDigit = [] then none else some (digits m)

/-- `atoi`: blanks, a sign, digits, up to the first other byte; the result is kept to 32 bits. -/
def atoi (m : Mem) : Option ℤ :=
  match m.dropWhile isBlank with
  | [] => none
  | 45 :: m => (number m).map fun n => Int.bmod (-n) (2 ^ 32)
  | 43 :: m => (number m).map fun n => Int.bmod n (2 ^ 32)
  | m => (number m).map fun n => Int.bmod n (2 ^ 32)

/-- `strlen`. -/
def strlen : Mem → Option ℕ
  | [] => none
  | b :: m => if b = 0 then some 0 else (strlen m).map (· + 1)

theorem strlen_eq {m : Mem} (h : 0 ∈ m) : strlen m = some (cstr m).length := by
  induction m with
  | nil => cases h
  | cons b m ih =>
      by_cases hb : b = 0
      · simp [strlen, cstr, hb]
      · have hm : 0 ∈ m := (List.mem_cons.mp h).resolve_left (Ne.symm hb)
        simp [strlen, cstr, hb, ih hm]

/-- `memcmp(m, m', n) == 0`: the comparison ends at the first difference. -/
def memcmp : ℕ → Mem → Mem → Option Bool
  | 0, _, _ => some true
  | n + 1, x :: m, y :: m' => if x = y then memcmp n m m' else some false
  | _ + 1, _, _ => none

/-- Comparing as many bytes as the longer of two texts has decides whether they are equal: the
terminator of the shorter one differs from what the longer one has there. -/
theorem memcmp_longer {m t : Mem} (hm : 0 ∈ m) (ht : 0 ∉ t) :
    memcmp (max t.length (cstr m).length) m (t ++ [0]) = some (decide (cstr m = t)) := by
  induction m generalizing t with
  | nil => cases hm
  | cons x m ih =>
      by_cases hx : x = 0
      · cases t with
        | nil => simp [hx, cstr, memcmp]
        | cons y t =>
            have hy : (0 : UInt8) ≠ y := fun he => ht (by simp [← he])
            simp [hx, cstr, memcmp, hy]
      · have hcons : cstr (x :: m) = x :: cstr m := by simp [cstr, hx]
        rw [hcons]
        cases t with
        | nil => simp [memcmp, hx]
        | cons y t =>
            have hm' : 0 ∈ m := (List.mem_cons.mp hm).resolve_left (Ne.symm hx)
            rw [List.length_cons, List.length_cons, Nat.add_max_add_right, List.cons_append, memcmp,
              ih hm' fun h => ht (List.mem_cons_of_mem _ h)]
            by_cases hxy : x = y <;> simp [hxy]

/-- A format that asks for no arguments: every percent sign is doubled. -/
def plainFormat : Mem → Bool
  | [] => true
  | 37 :: 37 :: m => plainFormat m
  | 37 :: _ => false
  | _ :: m => plainFormat m

end HttpsTunnel.Lib.CString

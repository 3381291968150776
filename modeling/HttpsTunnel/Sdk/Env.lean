import HttpsTunnel.Lib.Decimal
import HttpsTunnel.Sdk.State

/-! # The parameters of the SDK

`SdkEnv.cpp`: `YMESet` stores a parameter and `YMEGet` reads one as text.  Both find the parameter by
the first letter of the key and what follows it, through `if` chains of their own: `paramSet` and
`paramGet`.

A key that `YMESet` takes is not always one that `YMEGet` takes, since `YMESet` compares the keys of
the server's address without regard to case and `YMEGet` with; and numbers are kept as `U64` and
printed to buffers of fixed size.  `env_roundTrip_iff` says for which keys and values what was set is
read back. -/

namespace HttpsTunnel.Sdk

open HttpsTunnel.Lib

/-! ### The store -/

/-- The parameters. -/
inductive Param
  | traffic | auth | appid | error | phone | tmsip | tmsport
deriving DecidableEq, Repr

/-- The global variables. -/
structure Env where
  avalTraffic : UInt64
  phone : UInt64
  appid : UInt64
  tmsport : UInt64
  tmsip : List Char
  auth : List Char
  error : List Char
deriving DecidableEq, Repr

/-- `strncmp(s, pat, strlen(pat)) == 0`. -/
def starts (pat s : List Char) : Bool := pat.isPrefixOf s

/-- `strncasecmp(s, pat, strlen(pat)) == 0`. -/
def startsCase (pat s : List Char) : Bool := (pat.map Char.toLower).isPrefixOf (s.map Char.toLower)

/-- The first chain of `YMEGet`, on the letter a key starts with and what follows. -/
def getFirst (c : Char) (t : List Char) : Option Param :=
  if c = 'T' ∨ c = 't' then
    if startsCase ['r', 'a', 'f', 'f', 'i', 'c'] t then some .traffic else none
  else if c = 'A' ∨ c = 'a' then
    if startsCase ['u', 't', 'h'] t then some .auth
    else if startsCase ['p', 'p', 'i', 'd'] t then some .appid
    else none
  else none

/-- The second chain of `YMEGet`. -/
def getSecond (c : Char) (t : List Char) : Option Param :=
  if c = 'E' ∨ c = 'e' then
    if startsCase ['r', 'r', 'o', 'r'] t then some .error else none
  else if c = 'P' ∨ c = 'p' then
    if startsCase ['h', 'o', 'n', 'e'] t then some .phone else none
  else if c = 'T' ∨ c = 't' then
    if starts ['m', 's', 'i', 'p'] t then some .tmsip
    else if starts ['m', 's', 'p', 'o', 'r', 't'] t then some .tmsport
    else none
  else none

/-- The parameter `YMEGet` reads. -/
def paramGet : List Char → Option Param
  | [] => none
  | c :: t => getFirst c t <|> getSecond c t

/-- The parameter `YMESet` stores. -/
def paramSet : List Char → Option Param
  | [] => none
  | c :: t =>
      if c = 'P' ∨ c = 'p' then
        if starts ['h', 'o', 'n', 'e'] t then some .phone else none
      else if c = 'A' ∨ c = 'a' then
        if starts ['p', 'p', 'i', 'd'] t then some .appid
        else if starts ['u', 't', 'h'] t then some .auth
        else none
      else if c = 'E' ∨ c = 'e' then
        if starts ['r', 'r', 'o', 'r'] t then some .error else none
      else if c = 'T' ∨ c = 't' then
        if startsCase ['m', 's', 'i', 'p'] t then some .tmsip
        else if startsCase ['m', 's', 'p', 'o', 'r', 't'] t then some .tmsport
        else none
      else none

/-- `sprintf(buf, "%llu", n)` with a buffer of `size` bytes. -/
def printed (size : ℕ) (n : UInt64) : Except Fault (List Char) :=
  if size < (decimal 1 n.toNat).length + 1 then .error .overflow else .ok (decimal 1 n.toNat)

/-- A parameter as text. -/
def Env.read (e : Env) : Param → Except Fault (List Char)
  | .traffic => printed 32 e.avalTraffic
  | .auth => .ok e.auth
  | .appid => printed 32 e.appid
  | .error => .ok e.error
  | .phone => printed 32 e.phone
  | .tmsip => .ok e.tmsip
  | .tmsport => printed 8 e.tmsport

/-- `YMEGet`, none for the null pointer. -/
def ymeGet (key : Option (List Char)) (e : Env) : Except Fault (Option (List Char)) :=
  match key.bind paramGet with
  | none => .ok none
  | some p => (e.read p).map some

/-- Assign the value to a parameter. -/
def Env.write (e : Env) (v : List Char) : Param → Env
  | .traffic => e
  | .auth => { e with auth := v }
  | .appid => { e with appid := .ofInt (atoll v) }
  | .error => { e with error := v }
  | .phone => { e with phone := .ofInt (atoll v) }
  | .tmsip => { e with tmsip := v }
  | .tmsport => { e with tmsport := .ofInt (atoll v) }

/-- `YMESet`. -/
def ymeSet (k v : List Char) (e : Env) : ℤ × Env :=
  match paramSet k with
  | none => (-1, e)
  | some p => (0, e.write v p)

/-! ### What is read back -/

/-- The number a text starts with. -/
def numberOf (v : List Char) : ℤ := readSigned (v.dropWhile isSpace)

namespace Param

/-- For the numbers, what is too large: `atoll` keeps 63 bits, and `sz_tmsport` has room for 7 digits. -/
def limit : Param → Option ℤ
  | .phone => some (2 ^ 63)
  | .appid => some (2 ^ 63)
  | .tmsport => some (10 ^ 7)
  | _ => none

/-- The text expected for a value. -/
def shown (p : Param) (v : List Char) : List Char :=
  match p.limit with
  | some _ => decimalInt (numberOf v)
  | none => v

/-- The value is a number that can be kept and printed. -/
def Fits (p : Param) (v : List Char) : Prop := ∀ b ∈ p.limit, 0 ≤ numberOf v ∧ numberOf v < b

/-- The key is written as `YMEGet` compares it. -/
def Spelled (p : Param) (k : List Char) : Prop :=
  match p with
  | .tmsip => starts ['m', 's', 'i', 'p'] k.tail = true
  | .tmsport => starts ['m', 's', 'p', 'o', 'r', 't'] k.tail = true
  | _ => True

end Param

section Numbers

variable {z : ℤ} {n k : ℕ}

theorem decimalInt_eq_decimal_iff : decimalInt z = decimal 1 n ↔ z = n := by
  rw [decimalInt]
  split_ifs with hz
  · refine ⟨fun h => ?_, fun h => by omega⟩
    have hd : ('-' : Char).isDigit = true := isDigit_of_mem_decimal (h ▸ List.mem_cons_self)
    exact absurd hd (by decide)
  · rw [(decimal_injective 1).eq_iff]
    omega

theorem toNat_ofInt (z : ℤ) : ((UInt64.ofInt z).toNat : ℤ) = z % 2 ^ 64 := by
  have h0 : 0 ≤ z % 2 ^ 64 := Int.emod_nonneg _ (by decide)
  have hlt : z % 2 ^ 64 < 2 ^ 64 := Int.emod_lt_of_pos _ (by decide)
  rw [UInt64.ofInt, UInt64.toNat_ofNat_of_lt' (by rw [UInt64.size]; omega)]
  omega

/-- A number is printed as it was given if it is neither negative nor too large. -/
theorem printed_atoll_iff (hk : 0 < k) (v : List Char) :
    printed (k + 1) (.ofInt (atoll v)) = .ok (decimalInt (numberOf v)) ↔
      0 ≤ numberOf v ∧ numberOf v < 2 ^ 63 ∧ numberOf v < 10 ^ k := by
  have hn := toNat_ofInt (atoll v)
  have ha : atoll v = max (-2 ^ 63) (min (2 ^ 63 - 1) (numberOf v)) := rfl
  generalize UInt64.ofInt (atoll v) = u at hn ⊢
  have hfit : (decimal 1 u.toNat).length ≤ k ↔ u.toNat < 10 ^ k := length_decimal_le_iff hk hk
  have hcast : (u.toNat : ℤ) < 10 ^ k ↔ u.toNat < 10 ^ k := by exact_mod_cast Iff.rfl
  rw [printed]
  constructor
  · intro h
    split_ifs at h with hlong
    have hz := decimalInt_eq_decimal_iff.mp (Except.ok.inj h).symm
    have hlt : u.toNat < 10 ^ k := hfit.mp (by omega)
    rw [← hcast, ← hz] at hlt
    exact ⟨by omega, by omega, hlt⟩
  · rintro ⟨h0, h63, hlt⟩
    have hz : numberOf v = u.toNat := by omega
    have hlt : u.toNat < 10 ^ k := hcast.mp (hz ▸ hlt)
    rw [if_neg (by have := hfit.mpr hlt; omega), decimalInt_eq_decimal_iff.mpr hz]

end Numbers

/-! ### The keys -/

section Keys

variable {pat s t k : List Char} {p : Param}

theorem startsCase_of_starts (h : starts pat s = true) : startsCase pat s = true := by
  obtain ⟨r, rfl⟩ := List.isPrefixOf_iff_prefix.mp h
  rw [startsCase, List.map_append, List.isPrefixOf_iff_prefix]
  exact List.prefix_append ..

/-- A text does not start with two patterns that differ. -/
theorem startsCase_eq_false {pat' : List Char} (h : startsCase pat s = true)
    (hne : ¬ pat'.map Char.toLower <+: pat.map Char.toLower ∧ ¬ pat.map Char.toLower <+: pat'.map Char.toLower) :
    startsCase pat' s = false := by
  rw [startsCase, List.isPrefixOf_iff_prefix] at h
  rw [startsCase, Bool.eq_false_iff, ne_eq, List.isPrefixOf_iff_prefix]
  exact fun h' => (List.prefix_or_prefix_of_prefix h' h).elim hne.1 hne.2

theorem starts_eq_false (h : startsCase pat s = false) : starts pat s = false :=
  Bool.eq_false_iff.mpr fun hs => absurd (startsCase_of_starts hs) (by simp [h])

/-- A key of the server's address, as `YMEGet` sees it. -/
theorem paramGet_tms {c : Char} (hc : c = 'T' ∨ c = 't') (h : startsCase ['r', 'a', 'f', 'f', 'i', 'c'] t = false) :
    paramGet (c :: t) = if starts ['m', 's', 'i', 'p'] t then some .tmsip
      else if starts ['m', 's', 'p', 'o', 'r', 't'] t then some .tmsport else none := by
  rcases hc with rfl | rfl <;> simp [paramGet, getFirst, getSecond, h]

/-- A key that names a parameter for `YMESet` names it for `YMEGet` too if it is spelled so, or else none. -/
theorem paramGet_of_paramSet (h : paramSet k = some p) :
    p.Spelled k ∧ paramGet k = some p ∨ ¬ p.Spelled k ∧ paramGet k = none := by
  cases k with
  | nil => exact absurd h (by simp [paramSet])
  | cons c t =>
      simp only [paramSet] at h
      split_ifs at h with hP hphone hA happid hauth hE herror hT htmsip htmsport
      · obtain rfl := Option.some.inj h
        have hget := startsCase_of_starts hphone
        refine .inl ⟨trivial, ?_⟩
        rcases hP with rfl | rfl <;> simp [paramGet, getFirst, getSecond, hget]
      · obtain rfl := Option.some.inj h
        have hget := startsCase_of_starts happid
        have hno : startsCase ['u', 't', 'h'] t = false := startsCase_eq_false hget (by decide)
        refine .inl ⟨trivial, ?_⟩
        rcases hA with rfl | rfl <;> simp [paramGet, getFirst, hget, hno]
      · obtain rfl := Option.some.inj h
        have hget := startsCase_of_starts hauth
        refine .inl ⟨trivial, ?_⟩
        rcases hA with rfl | rfl <;> simp [paramGet, getFirst, hget]
      · obtain rfl := Option.some.inj h
        have hget := startsCase_of_starts herror
        refine .inl ⟨trivial, ?_⟩
        rcases hE with rfl | rfl <;> simp [paramGet, getFirst, getSecond, hget]
      · obtain rfl := Option.some.inj h
        have hport : starts ['m', 's', 'p', 'o', 'r', 't'] t = false :=
          starts_eq_false (startsCase_eq_false htmsip (by decide))
        rw [paramGet_tms hT (startsCase_eq_false htmsip (by decide)), hport]
        by_cases hs : starts ['m', 's', 'i', 'p'] t = true
        · exact .inl ⟨hs, if_pos hs⟩
        · exact .inr ⟨hs, if_neg hs⟩
      · obtain rfl := Option.some.inj h
        rw [paramGet_tms hT (startsCase_eq_false htmsport (by decide)), starts_eq_false (Bool.eq_false_iff.mpr htmsip)]
        by_cases hs : starts ['m', 's', 'p', 'o', 'r', 't'] t = true
        · exact .inl ⟨hs, if_pos hs⟩
        · exact .inr ⟨hs, if_neg hs⟩

end Keys

/-! ### The round trip -/

section RoundTrip

variable {k v : List Char} {e e' : Env} {p : Param}

theorem paramSet_ne_traffic (h : paramSet k = some p) : p ≠ .traffic := by
  rintro rfl
  cases k with
  | nil => exact absurd h (by simp [paramSet])
  | cons c t =>
      simp only [paramSet] at h
      split_ifs at h <;> exact absurd h (by decide)

theorem Param.fits_iff {b : ℤ} (h : p.limit = some b) : p.Fits v ↔ 0 ≤ numberOf v ∧ numberOf v < b := by
  simp [Param.Fits, h]

theorem read_write_iff (hp : p ≠ .traffic) : (e.write v p).read p = .ok (p.shown v) ↔ p.Fits v := by
  have hlarge : 0 ≤ numberOf v ∧ numberOf v < 2 ^ 63 ∧ numberOf v < 10 ^ 31 ↔
      0 ≤ numberOf v ∧ numberOf v < 2 ^ 63 := by omega
  have hsmall : 0 ≤ numberOf v ∧ numberOf v < 2 ^ 63 ∧ numberOf v < 10 ^ 7 ↔
      0 ≤ numberOf v ∧ numberOf v < 10 ^ 7 := by omega
  cases p with
  | traffic => exact absurd rfl hp
  | auth => simp [Env.write, Env.read, Param.shown, Param.limit, Param.Fits]
  | error => simp [Env.write, Env.read, Param.shown, Param.limit, Param.Fits]
  | tmsip => simp [Env.write, Env.read, Param.shown, Param.limit, Param.Fits]
  | phone =>
      rw [Param.fits_iff rfl, ← hlarge]
      exact printed_atoll_iff (by decide) v
  | appid =>
      rw [Param.fits_iff rfl, ← hlarge]
      exact printed_atoll_iff (by decide) v
  | tmsport =>
      rw [Param.fits_iff rfl, ← hsmall]
      exact printed_atoll_iff (by decide) v

theorem read_write_of_ne {q : Param} (h : q ≠ p) : (e.write v p).read q = e.read q := by
  cases p <;> cases q <;> first | rfl | exact absurd rfl h

/-- **What is set is read back** exactly if the key is spelled as `YMEGet` wants it and a number is neither
negative nor too large; the other parameters are read as before. -/
theorem env_roundTrip_iff (h : ymeSet k v e = (0, e')) :
    (∃ p, paramSet k = some p ∧ ymeGet (some k) e' = .ok (some (p.shown v)) ∧
      ∀ k', paramGet k' ≠ some p → ymeGet (some k') e' = ymeGet (some k') e) ↔
    ∃ p, paramSet k = some p ∧ p.Spelled k ∧ p.Fits v := by
  rw [ymeSet] at h
  cases hset : paramSet k with
  | none => simp
  | some p =>
      rw [hset] at h
      obtain rfl : e.write v p = e' := congrArg Prod.snd h
      have hother : ∀ k', paramGet k' ≠ some p → ymeGet (some k') (e.write v p) = ymeGet (some k') e := by
        intro k' hk'
        simp only [ymeGet, Option.bind_some]
        cases hget : paramGet k' with
        | none => rfl
        | some q =>
            have hne : q ≠ p := fun hq => hk' (hq ▸ hget)
            simp only [read_write_of_ne hne]
      have hself : ymeGet (some k) (e.write v p) = .ok (some (p.shown v)) ↔ p.Spelled k ∧ p.Fits v := by
        rw [← read_write_iff (paramSet_ne_traffic hset)]
        simp only [ymeGet, Option.bind_some]
        rcases paramGet_of_paramSet hset with ⟨hs, hget⟩ | ⟨hs, hget⟩
        · rw [hget, and_iff_right hs]
          cases hread : (e.write v p).read p <;> simp [hread, Except.map]
        · simp [hget, hs]
      constructor
      · rintro ⟨q, hq, hread, -⟩
        obtain rfl := Option.some.inj hq
        exact ⟨p, rfl, hself.mp hread⟩
      · rintro ⟨q, hq, hok⟩
        obtain rfl := Option.some.inj hq
        exact ⟨p, rfl, hself.mpr hok, hother⟩

/-- No parameters set. -/
def Env.empty : Env := ⟨0, 0, 0, 0, [], [], []⟩

theorem env_roundTrip_iff_phone :
    ∃ p, paramSet "Phone".toList = some p ∧
      ymeGet (some "Phone".toList) (ymeSet "Phone".toList "13800138000".toList .empty).2 =
        .ok (some (p.shown "13800138000".toList)) ∧
      ∀ k', paramGet k' ≠ some p →
        ymeGet (some k') (ymeSet "Phone".toList "13800138000".toList .empty).2 = ymeGet (some k') .empty :=
  (env_roundTrip_iff (e := .empty) rfl).mpr ⟨.phone, by decide, trivial, (Param.fits_iff rfl).mpr (by decide +kernel)⟩

/-- **Set and not found, and printed past its buffer**: the address under `TMSIP`, and a port of eight
digits. -/
theorem env_notReadBack :
    (ymeSet "TMSIP".toList "10.0.0.1".toList .empty).1 = 0 ∧
    ymeGet (some "TMSIP".toList) (ymeSet "TMSIP".toList "10.0.0.1".toList .empty).2 = .ok none ∧
    (ymeSet "tmsport".toList "12345678".toList .empty).1 = 0 ∧
    ymeGet (some "tmsport".toList) (ymeSet "tmsport".toList "12345678".toList .empty).2 = .error .overflow := by
  decide +kernel

end RoundTrip

end HttpsTunnel.Sdk

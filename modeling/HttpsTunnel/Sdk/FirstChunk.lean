import HttpsTunnel.Sdk.Upload

/-! # The first chunk of a browser

`HandleProxyProtocol` searches the first bytes of a browser with `strncasecmp`, `strchr`, `strstr`
and `strtok`, which go on to the end of a text, wherever that is; the line behind `CONNECT ` is
copied to a buffer of 256 bytes, and the host that was found to one of 512 (`login_str`).

`Harmless` says for which bytes all of this stays inside the bytes that were read and inside the
buffers, and `firstChunk_contained_iff` that it does so for no others. -/

namespace HttpsTunnel.Sdk

open HttpsTunnel.Lib HttpsTunnel.Wire HttpsTunnel.Lib.CString

/-! ### The search for a host -/

/-- `Host: ` stands at `i`. -/
def HostAt (m : Mem) (i : ℕ) : Prop := SameCase ((m.drop i).take 6) (lit "Host: ")

/-- A line of `n` bytes, without a 0, ends in `m`. -/
def LineEnd (m : Mem) (n : ℕ) : Prop :=
  [CR, LF] <+: m.drop n ∧ 0 ∉ m.take n ∧ ∀ k < n, ¬ [CR, LF] <+: m.drop k

/-- At `i` is a `Host: ` with a value of `n` bytes. -/
def ValueAt (m : Mem) (i n : ℕ) : Prop := HostAt m i ∧ LineEnd (m.drop (i + 6)) n

/-- At `i` is a `Host: ` with neither the end of its line nor a 0 behind it. -/
def OpenAt (m : Mem) (i : ℕ) : Prop :=
  HostAt m i ∧ 0 ∉ m.drop (i + 6) ∧ ∀ k < (m.drop (i + 6)).length, ¬ [CR, LF] <+: (m.drop (i + 6)).drop k

/-- The bytes end at `i` inside a `Host: `. -/
def CutAt (m : Mem) (i : ℕ) : Prop :=
  i < m.length ∧ m.length < i + 6 ∧ SameCase (m.drop i) ((lit "Host: ").take (m.length - i))

/-- What a search for `Host: ` in all of `m` comes to. -/
def Finds (m : Mem) : Option (Option Host) → Prop
  | some (some v) => ∃ i n, ValueAt m i n ∧ (∀ j < i, ∀ k, ¬ ValueAt m j k) ∧ v = (m.drop (i + 6)).take n
  | some none => (∀ i n, ¬ ValueAt m i n) ∧ ∀ i, ¬ (OpenAt m i ∨ CutAt m i)
  | none => (∀ i n, ¬ ValueAt m i n) ∧ ∃ i, OpenAt m i ∨ CutAt m i

section Search

variable {m : Mem} {i n : ℕ}

theorem hostAt_iff : HostAt m i ↔ caseStarts (lit "Host: ") (m.drop i) = some true := by
  rw [caseStarts_eq_some_true]
  rfl

theorem cutAt_iff : CutAt m i ↔ i < m.length ∧ caseStarts (lit "Host: ") (m.drop i) = none := by
  have hlen : (lit "Host: ").length = 6 := rfl
  rw [CutAt, caseStarts_eq_none, List.length_drop, hlen]
  constructor
  · exact fun ⟨h₁, h₂, h₃⟩ => ⟨h₁, by omega, h₃⟩
  · exact fun ⟨h₁, h₂, h₃⟩ => ⟨h₁, by omega, h₃⟩

theorem LineEnd.lt (h : LineEnd m n) : n + 1 < m.length := by
  have := h.1.length_le
  simp at this
  omega

theorem lineEnd_iff : LineEnd m n ↔ strstr [CR, LF] m = some (some n) := by
  rw [strstr_eq_some]
  exact ⟨fun h => ⟨Nat.lt_of_succ_lt h.lt, h⟩, fun h => h.2⟩

theorem LineEnd.unique {k : ℕ} (h : LineEnd m n) (h' : LineEnd m k) : n = k := by
  rw [lineEnd_iff] at h h'
  simpa using h.symm.trans h'

theorem openAt_iff : OpenAt m i ↔ HostAt m i ∧ strstr [CR, LF] (m.drop (i + 6)) = none := by
  rw [OpenAt, strstr_eq_none]

/-- Nothing stops the search at `i`. -/
def Passed (m : Mem) (i : ℕ) : Prop := (∀ n, ¬ ValueAt m i n) ∧ ¬ (OpenAt m i ∨ CutAt m i)

theorem Passed.of_differs (h : caseStarts (lit "Host: ") (m.drop i) = some false) : Passed m i := by
  have hhost : ¬ HostAt m i := by rw [hostAt_iff, h]; decide
  have hcut : ¬ CutAt m i := by rw [cutAt_iff, h]; simp
  exact ⟨fun n hv => hhost hv.1, fun hs => hs.elim (fun ho => hhost ho.1) hcut⟩

theorem Passed.of_ended (h : HostAt m i) (h0 : strstr [CR, LF] (m.drop (i + 6)) = some none) : Passed m i := by
  refine ⟨fun n hv => ?_, fun hs => hs.elim (fun ho => ?_) fun hc => ?_⟩
  · have := lineEnd_iff.mp hv.2
    rw [h0] at this
    cases this
  · have := (openAt_iff.mp ho).2
    rw [h0] at this
    cases this
  · have := (cutAt_iff.mp hc).2
    rw [hostAt_iff.mp h] at this
    cases this

theorem valueAt_drop (m : Mem) (k i n : ℕ) : ValueAt (m.drop k) i n ↔ ValueAt m (k + i) n := by
  simp only [ValueAt, HostAt, List.drop_drop, Nat.add_assoc]

theorem openAt_drop (m : Mem) (k i : ℕ) : OpenAt (m.drop k) i ↔ OpenAt m (k + i) := by
  simp only [OpenAt, HostAt, List.drop_drop, Nat.add_assoc]

theorem cutAt_drop (m : Mem) (k i : ℕ) : CutAt (m.drop k) i ↔ CutAt m (k + i) := by
  rw [cutAt_iff, cutAt_iff, List.drop_drop, List.length_drop]
  exact and_congr_left' (by omega)

/-- The search may start behind what it passes. -/
theorem Finds.of_drop {k : ℕ} {r : Option (Option Host)} (h : Finds (m.drop k) r) (hk : ∀ i < k, Passed m i) :
    Finds m r := by
  have hval : ∀ {i n}, ValueAt m i n → ∃ j, i = k + j ∧ ValueAt (m.drop k) j n := by
    intro i n hv
    have hki : k ≤ i := by
      by_contra hlt
      exact (hk i (by omega)).1 n hv
    refine ⟨i - k, by omega, (valueAt_drop m k _ n).mpr ?_⟩
    rwa [Nat.add_sub_cancel' hki]
  have hstop : ∀ {i}, OpenAt m i ∨ CutAt m i → ∃ j, OpenAt (m.drop k) j ∨ CutAt (m.drop k) j := by
    intro i hs
    have hki : k ≤ i := by
      by_contra hlt
      exact (hk i (by omega)).2 hs
    refine ⟨i - k, ?_⟩
    rwa [openAt_drop, cutAt_drop, Nat.add_sub_cancel' hki]
  cases r with
  | none =>
      obtain ⟨hnone, j, hj⟩ := h
      rw [openAt_drop, cutAt_drop] at hj
      exact ⟨fun i n hv => let ⟨_, _, hj⟩ := hval hv; hnone _ _ hj, k + j, hj⟩
  | some o =>
      cases o with
      | none =>
          exact ⟨fun i n hv => let ⟨_, _, hj⟩ := hval hv; h.1 _ _ hj, fun i hs => let ⟨_, hj⟩ := hstop hs; h.2 _ hj⟩
      | some v =>
          obtain ⟨i, n, hv, hfirst, rfl⟩ := h
          refine ⟨k + i, n, (valueAt_drop m k i n).mp hv, fun j hj l hl => ?_, ?_⟩
          · obtain ⟨j', rfl, hj'⟩ := hval hl
            exact hfirst j' (by omega) l hj'
          · rw [List.drop_drop, Nat.add_assoc]

/-- No byte of `Host: ` but the first is an `h`. -/
theorem HostAt.differs (h : HostAt m 0) (hi0 : 0 < i) (hi6 : i < 6) :
    caseStarts (lit "Host: ") (m.drop i) = some false := by
  have htail : SameCase ((m.take 6).drop 1) (lit "ost: ") := by
    have := congrArg (List.drop 1) h
    rwa [List.drop_zero, ← List.map_drop, ← List.map_drop] at this
  have hlen : (m.take 6).length = 6 := by
    have := congrArg List.length h
    rwa [List.length_map, List.length_map, List.drop_zero] at this
  rw [List.length_take] at hlen
  have him : i < m.length := by omega
  have hmem : m[i] ∈ (m.take 6).drop 1 := by
    refine List.mem_iff_getElem.mpr ⟨i - 1, by simp; omega, ?_⟩
    simp [Nat.sub_add_cancel (show 1 ≤ i from hi0)]
  have hlow : lower m[i] ≠ lower 72 := by
    intro he
    refine htail.not_mem ?_ hmem
    rw [he]
    decide
  rw [List.drop_eq_getElem_cons him]
  exact if_neg hlow

/-- Behind a `Host: ` whose line does not end before a 0, the search goes on after seven bytes: it
misses nothing. -/
theorem passed_of_ended (h : HostAt m 0) (h0 : strstr [CR, LF] (m.drop 6) = some none) : ∀ i < 7, Passed m i := by
  intro i hi
  obtain rfl | hi0 := Nat.eq_zero_or_pos i
  · exact .of_ended h h0
  obtain hi6 | rfl : i < 6 ∨ i = 6 := by omega
  · exact .of_differs (h.differs hi0 hi6)
  · cases hcase : caseStarts (lit "Host: ") (m.drop 6) with
    | none =>
        have hbytes : lower 0 ∉ (lit "Host: ").map lower := by decide
        refine absurd (zero_mem_of_strstr h0) ((caseStarts_eq_none.mp hcase).2.not_mem ?_)
        rw [List.map_take]
        exact fun hx => hbytes (List.mem_of_mem_take hx)
    | some b =>
        cases b with
        | false => exact .of_differs hcase
        | true =>
            -- the 0 is behind the second `Host: ` as well
            have hkey : HostAt m 6 := hostAt_iff.mpr hcase
            have hcr : CR ∉ (m.drop 6).take 6 := hkey.not_mem (by decide)
            have hz : 0 ∉ (m.drop 6).take 6 := hkey.not_mem (by decide)
            refine .of_ended hkey ?_
            rw [← List.take_append_drop 6 (m.drop 6), strstr_skip hcr hz, List.drop_drop] at h0
            simpa using h0

theorem hostScan_skip (m : Mem) (k : ℕ) : hostScan m m.length k = hostScan (m.drop k) (m.drop k).length 0 := by
  induction k generalizing m with
  | zero => rfl
  | succ k ih =>
      cases m with
      | nil => rfl
      | cons b m => exact ih m

/-- One step of the search. -/
theorem hostScan_cons (b : UInt8) (m : Mem) :
    hostScan (b :: m) (b :: m).length 0 =
      match caseStarts (lit "Host: ") (b :: m) with
      | none => none
      | some false => hostScan m m.length 0
      | some true =>
          match strstr [CR, LF] ((b :: m).drop 6) with
          | none => none
          | some (some n) => some (some (((b :: m).drop 6).take n))
          | some none => hostScan ((b :: m).drop 7) ((b :: m).drop 7).length 0 := by
  have hlit : lit "Host: " = 72 :: lit "ost: " := rfl
  have h72 : lower 72 = 104 := rfl
  simp only [List.length_cons, hostScan, hlit, caseStarts, h72, List.drop_succ_cons]
  by_cases hb : lower b = 104
  · simp only [hb, if_true]
    cases caseStarts (lit "ost: ") m with
    | none => rfl
    | some r =>
        cases r with
        | false => rfl
        | true =>
            simp only
            cases hs : strstr [CR, LF] (m.drop 5) with
            | none => rfl
            | some o =>
                cases o with
                | none => exact hostScan_skip m 6
                | some n =>
                    have hn := (lineEnd_iff.mpr hs).lt
                    rw [List.length_drop] at hn
                    simp only [show 5 + n < m.length by omega, if_true]
  · simp only [hb, if_false]

/-- With no end of a line behind the first `Host: `, there is none behind a later one. -/
theorem finds_of_open (h : OpenAt m 0) : Finds m none := by
  refine ⟨fun i n hv => ?_, 0, .inl h⟩
  have hn := hv.2.lt
  rw [List.length_drop] at hn
  refine h.2.2 (i + n) (by rw [List.length_drop]; omega) ?_
  have hend := hv.2.1
  rw [List.drop_drop] at hend ⊢
  rwa [show 0 + 6 + (i + n) = i + 6 + n by omega]

theorem hostScan_finds (m : Mem) : Finds m (hostScan m m.length 0) := by
  induction hl : m.length using Nat.strong_induction_on generalizing m with
  | _ l ih =>
      subst hl
      cases m with
      | nil =>
          refine ⟨fun i n hv => ?_, fun i hs => ?_⟩
          · have := hv.2.lt
            simp at this
          · obtain ho | hc := hs
            · exact absurd (hostAt_iff.mp ho.1) (by simp; decide)
            · exact absurd hc.1 (by simp)
      | cons b m =>
          rw [hostScan_cons]
          cases hcase : caseStarts (lit "Host: ") (b :: m) with
          | none =>
              have hcut : CutAt (b :: m) 0 := cutAt_iff.mpr ⟨Nat.succ_pos _, hcase⟩
              refine ⟨fun i n hv => ?_, 0, .inr hcut⟩
              have hn := hv.2.lt
              have hlen := hcut.2.1
              rw [List.length_drop] at hn
              omega
          | some r =>
              cases r with
              | false =>
                  refine Finds.of_drop (k := 1) (ih _ (Nat.lt_succ_self _) m rfl) fun i hi => ?_
                  obtain rfl : i = 0 := by omega
                  exact .of_differs hcase
              | true =>
                  have hhost : HostAt (b :: m) 0 := hostAt_iff.mpr hcase
                  cases hs : strstr [CR, LF] ((b :: m).drop 6) with
                  | none => exact finds_of_open (openAt_iff.mpr ⟨hhost, hs⟩)
                  | some o =>
                      cases o with
                      | none =>
                          have hlt : ((b :: m).drop 7).length < (b :: m).length := by simp
                          exact (ih _ hlt _ rfl).of_drop (passed_of_ended hhost hs)
                      | some n => exact ⟨0, n, ⟨hhost, lineEnd_iff.mpr hs⟩, fun j hj => absurd hj j.not_lt_zero, rfl⟩

/-- A search that ends among the bytes read does not depend on what is behind them. -/
theorem hostScan_append {l k : ℕ} (h : hostScan m l k ≠ none) (e : Mem) : hostScan (m ++ e) l k = hostScan m l k := by
  induction m generalizing l k with
  | nil =>
      cases l with
      | zero => simp [hostScan]
      | succ l => exact absurd rfl h
  | cons b m ih =>
      match l, k with
      | 0, k => simp [hostScan]
      | l + 1, k + 1 => exact ih h
      | l + 1, 0 =>
          by_cases hb : lower b = 104
          · simp only [hostScan, hb, if_true, List.cons_append] at h ⊢
            cases hcase : caseStarts (lit "ost: ") m with
            | none => simp [hcase] at h
            | some r =>
                rw [caseStarts_append (by simp [hcase]), hcase]
                simp only [hcase] at h
                cases r with
                | false => exact ih h
                | true =>
                    have hlen : 5 ≤ m.length := by
                      have := congrArg List.length (caseStarts_eq_some_true.mp hcase)
                      have h5 : (lit "ost: ").length = 5 := rfl
                      rw [List.length_map, List.length_map, List.length_take, h5] at this
                      omega
                    rw [List.drop_append_of_le_length hlen]
                    cases hs : strstr [CR, LF] (m.drop 5) with
                    | none => simp [hs] at h
                    | some o =>
                        rw [strstr_append (by simp [hs]), hs]
                        simp only [hs] at h
                        cases o with
                        | none => exact ih h
                        | some n =>
                            have hn := (lineEnd_iff.mpr hs).lt
                            by_cases hl : 5 + n < l
                            · simp only [hl, if_true,
                              List.take_append_of_le_length (Nat.le_of_lt (Nat.lt_of_succ_lt hn))]
                            · simp only [hl, if_false] at h ⊢
                              exact ih h
          · simp only [hostScan, hb, if_false, List.cons_append] at h ⊢
            exact ih h

end Search

/-! ### The line behind `CONNECT ` -/

section Connect

variable {line : Mem}

/-- What `HandleProxyProtocol` makes of the line behind `CONNECT `. -/
def lineTarget (line : Mem) : Except Fault Request :=
  if connectValSize < line.length then .ok .tooLong
  else if line.length = connectValSize then .error .overflow
  else
    match strtok (lit ":") line with
    | none => .error .nullDeref
    | some (h, rest) =>
        match strtok (lit "\r\n ") rest with
        | none => .error .nullDeref
        | some (p, _) => .ok (.connect h (if p.head?.any isDigit then some (digits p % 2 ^ 16) else none))

theorem connectTarget_line (hc : CR ∉ line) (h0 : 0 ∉ line) (rest : Mem) :
    connectTarget (line ++ CR :: rest) = lineTarget line := by
  simp only [connectTarget, strchr_line hc h0, List.take_left]
  rfl

theorem exists_line_of_connectTarget {m : Mem} {r : Request} (h : connectTarget m = .ok r) :
    ∃ line rest, m = line ++ CR :: rest ∧ CR ∉ line ∧ 0 ∉ line := by
  cases hs : strchr CR m with
  | none => simp [connectTarget, hs] at h
  | some o =>
      cases o with
      | none => simp [connectTarget, hs] at h
      | some n =>
          obtain ⟨line, rest, hm, hc, h0, -⟩ := exists_line_of_strchr hs
          exact ⟨line, rest, hm, hc, h0⟩

/-- A line names a host and something to read a port from: there is a text that starts with no
colon, a colon, and behind it a byte that is no blank. -/
def HasTarget (line : Mem) : Prop :=
  ∃ colons host port, line = colons ++ host ++ 58 :: port ∧ (∀ x ∈ colons, x = 58) ∧ host ≠ [] ∧ 58 ∉ host ∧
    ∃ x ∈ port, x ∉ lit "\r\n "

/-- A line with a result is too long, or has both tokens. -/
theorem lineTarget_cases {r : Request} (h : lineTarget line = .ok r) :
    connectValSize < line.length ∧ r = .tooLong ∨
      line.length < connectValSize ∧ ∃ host rest pr, strtok (lit ":") line = some (host, rest) ∧
        strtok (lit "\r\n ") rest = some pr ∧
        r = .connect host (if pr.1.head?.any isDigit then some (digits pr.1 % 2 ^ 16) else none) := by
  by_cases hlong : connectValSize < line.length
  · simp only [lineTarget, hlong, if_true, Except.ok.injEq] at h
    exact .inl ⟨hlong, h.symm⟩
  by_cases heq : line.length = connectValSize
  · simp [lineTarget, heq] at h
  simp only [lineTarget, hlong, heq, if_false] at h
  cases htok : strtok (lit ":") line with
  | none => simp [htok] at h
  | some pair =>
      obtain ⟨host, rest⟩ := pair
      cases hport : strtok (lit "\r\n ") rest with
      | none => simp [htok, hport] at h
      | some pr =>
          simp only [htok, hport, Except.ok.injEq] at h
          exact .inr ⟨by omega, host, rest, pr, rfl, hport, h.symm⟩

theorem mem_colon (x : UInt8) : x ∈ lit ":" ↔ x = 58 := by
  simp [lit]

theorem lineTarget_eq_ok : (∃ r, lineTarget line = .ok r) ↔
    connectValSize < line.length ∨ line.length < connectValSize ∧ HasTarget line := by
  constructor
  · rintro ⟨r, hr⟩
    obtain ⟨hlong, -⟩ | ⟨hlt, host, rest, pr, htok, hport, -⟩ := lineTarget_cases hr
    · exact .inl hlong
    · obtain ⟨colons, tail, hline, hcolons, hne, hhost, htail, rfl⟩ := exists_of_strtok htok
      have hsome : ∃ x ∈ tail.drop 1, x ∉ lit "\r\n " := by
        by_contra hall
        push Not at hall
        rw [strtok_eq_none.mpr hall] at hport
        cases hport
      cases tail with
      | nil => simp at hsome
      | cons b port =>
          obtain rfl := (mem_colon b).mp (htail b rfl)
          exact .inr ⟨hlt, colons, host, port, hline, fun x hx => (mem_colon x).mp (hcolons x hx), hne,
            fun hx => hhost 58 hx ((mem_colon 58).mpr rfl), hsome⟩
  · rintro (hlong | ⟨hlt, colons, host, port, rfl, hcolons, hne, hhost, x, hx, hxd⟩)
    · exact ⟨.tooLong, by simp [lineTarget, hlong]⟩
    · have htok : strtok (lit ":") (colons ++ host ++ 58 :: port) = some (host, port) :=
        strtok_append (fun x hx => (mem_colon x).mpr (hcolons x hx)) hne
          (fun x hx he => hhost ((mem_colon x).mp he ▸ hx))
          fun x hx => (mem_colon x).mpr (Option.mem_some_iff.mp hx).symm
      have hle : ¬ connectValSize < (colons ++ host ++ 58 :: port).length := by omega
      have hneq : ¬ (colons ++ host ++ 58 :: port).length = connectValSize := by omega
      cases hport : strtok (lit "\r\n ") port with
      | none => exact absurd (strtok_eq_none.mp hport x hx) hxd
      | some pr =>
          simp only [lineTarget, hle, hneq, if_false, htok, hport]
          exact ⟨_, rfl⟩

/-- A host of a `CONNECT` is short enough for a login. -/
theorem lineTarget_host {r : Request} (h : lineTarget line = .ok r) : r.host.length ≤ Upload.maxHost := by
  obtain ⟨-, rfl⟩ | ⟨hlt, host, rest, pr, htok, -, rfl⟩ := lineTarget_cases h
  · exact Nat.zero_le _
  · obtain ⟨colons, tail, hline, -⟩ := exists_of_strtok htok
    have hlen := congrArg List.length hline
    have hsize : connectValSize = 256 ∧ Upload.maxHost = 458 := ⟨rfl, rfl⟩
    simp only [List.length_append] at hlen
    simp only [Request.host]
    omega

end Connect

/-! ### The bytes that are handled safely -/

/-- Behind `CONNECT ` a line ends before a 0; it is too long for `connect_val_buff` by a byte at
least, or it is shorter and names a host. -/
def ConnectFits (m : Mem) : Prop :=
  ∃ line rest, m = line ++ CR :: rest ∧ CR ∉ line ∧ 0 ∉ line ∧
    (connectValSize < line.length ∨ line.length < connectValSize ∧ HasTarget line)

/-- The first value of a `Host: ` fits in `login_str`; or there is none, and what is there of a
`Host: ` ends before the bytes do. -/
def HostFits (m : Mem) : Prop :=
  (∃ i n, ValueAt m i n ∧ (∀ j < i, ∀ k, ¬ ValueAt m j k) ∧ n ≤ Upload.maxHost) ∨
    (∀ i n, ¬ ValueAt m i n) ∧ ∀ i, ¬ (OpenAt m i ∨ CutAt m i)

/-- The bytes of a first chunk that are handled inside the buffers. -/
structure Harmless (bs : Mem) : Prop where
  /-- They do not end inside a `CONNECT`. -/
  whole : ¬ (bs.length < 7 ∧ SameCase bs ((lit "CONNECT").take bs.length))
  connect : SameCase (bs.take 7) (lit "CONNECT") → ConnectFits (bs.drop 8)
  plain : ¬ SameCase (bs.take 7) (lit "CONNECT") → HostFits bs

section Find

variable {bs m : Mem} {n : ℕ} {r : Request}

theorem connectFits_iff : ConnectFits m ↔ ∃ r, connectTarget m = .ok r ∧ r.host.length ≤ Upload.maxHost := by
  constructor
  · rintro ⟨line, rest, rfl, hc, h0, hline⟩
    obtain ⟨r, hr⟩ := lineTarget_eq_ok.mpr hline
    exact ⟨r, (connectTarget_line hc h0 rest).trans hr, lineTarget_host hr⟩
  · rintro ⟨r, hr, -⟩
    obtain ⟨line, rest, rfl, hc, h0⟩ := exists_line_of_connectTarget hr
    rw [connectTarget_line hc h0] at hr
    exact ⟨line, rest, rfl, hc, h0, lineTarget_eq_ok.mp ⟨r, hr⟩⟩

theorem hostFits_iff :
    HostFits m ↔ ∃ host, hostScan m m.length 0 = some host ∧ (host.getD []).length ≤ Upload.maxHost := by
  have hfinds := hostScan_finds m
  have hlen : ∀ {i n}, ValueAt m i n → ((m.drop (i + 6)).take n).length = n := fun hv =>
    List.length_take_of_le (Nat.le_of_lt (Nat.lt_of_succ_lt hv.2.lt))
  cases hs : hostScan m m.length 0 with
  | none =>
      rw [hs] at hfinds
      obtain ⟨hnone, i, hi⟩ := hfinds
      simp only [reduceCtorEq, false_and, exists_false, iff_false]
      rintro (⟨j, n, hv, -⟩ | ⟨-, hstop⟩)
      · exact hnone j n hv
      · exact hstop i hi
  | some o =>
      rw [hs] at hfinds
      cases o with
      | none => exact ⟨fun _ => ⟨none, rfl, Nat.zero_le _⟩, fun _ => .inr hfinds⟩
      | some v =>
          obtain ⟨i, n, hv, hfirst, rfl⟩ := hfinds
          constructor
          · rintro (⟨j, k, hv', hfirst', hk⟩ | ⟨hnone, -⟩)
            · obtain rfl : i = j := by
                rcases Nat.lt_trichotomy i j with hij | hij | hij
                · exact absurd hv (hfirst' i hij n)
                · exact hij
                · exact absurd hv' (hfirst j hij k)
              refine ⟨_, rfl, ?_⟩
              rw [Option.getD_some, hlen hv, hv.2.unique hv'.2]
              exact hk
            · exact absurd hv (hnone i n)
          · rintro ⟨host, hhost, hle⟩
            obtain rfl := Option.some.inj hhost
            rw [Option.getD_some, hlen hv] at hle
            exact .inl ⟨i, n, hv, hfirst, hle⟩

/-- **The bytes with a destination that fits.** -/
theorem harmless_iff :
    Harmless bs ↔ ∃ r, findRequest bs bs.length = .ok r ∧ r.host.length ≤ Upload.maxHost := by
  have h7 : (lit "CONNECT").length = 7 := rfl
  cases hcase : caseStarts (lit "CONNECT") bs with
  | none =>
      have hcut := caseStarts_eq_none.mp hcase
      rw [h7] at hcut
      exact ⟨fun h => absurd hcut h.whole, fun ⟨r, hr, _⟩ => by simp [findRequest, hcase] at hr⟩
  | some b =>
      have hwhole : ¬ (bs.length < 7 ∧ SameCase bs ((lit "CONNECT").take bs.length)) := by
        rw [← h7, ← caseStarts_eq_none, hcase]
        simp
      have hstarts : SameCase (bs.take 7) (lit "CONNECT") ↔ b = true := by
        rw [← h7, ← caseStarts_eq_some_true, hcase, Option.some.injEq]
      cases b with
      | true =>
          simp only [findRequest, hcase, ← connectFits_iff]
          exact ⟨fun h => h.connect (hstarts.mpr rfl),
            fun h => ⟨hwhole, fun _ => h, fun hn => absurd (hstarts.mpr rfl) hn⟩⟩
      | false =>
          have hno : ¬ SameCase (bs.take 7) (lit "CONNECT") := by simp [hstarts]
          have hplain : HostFits bs ↔ ∃ r, findRequest bs bs.length = .ok r ∧ r.host.length ≤ Upload.maxHost := by
            rw [hostFits_iff]
            simp only [findRequest, hcase]
            cases hostScan bs bs.length 0 with
            | none => simp
            | some o => simp [Request.host]
          rw [← hplain]
          exact ⟨fun h => h.plain hno, fun h => ⟨hwhole, fun hy => absurd hy hno, fun _ => h⟩⟩

theorem findRequest_append (h : findRequest m n = .ok r) (e : Mem) : findRequest (m ++ e) n = .ok r := by
  cases hcase : caseStarts (lit "CONNECT") m with
  | none => simp [findRequest, hcase] at h
  | some b =>
      have hcase' : caseStarts (lit "CONNECT") (m ++ e) = some b := by
        rw [caseStarts_append (by simp [hcase]), hcase]
      cases b with
      | true =>
          simp only [findRequest, hcase, hcase'] at h ⊢
          obtain ⟨line, rest, hm, hc, h0⟩ := exists_line_of_connectTarget h
          have hlen : 8 ≤ m.length := by
            have := congrArg List.length hm
            simp at this
            omega
          rw [List.drop_append_of_le_length hlen, hm, List.append_assoc, List.cons_append, connectTarget_line hc h0]
          rwa [hm, connectTarget_line hc h0] at h
      | false =>
          simp only [findRequest, hcase, hcase'] at h ⊢
          cases hs : hostScan m n 0 with
          | none => simp [hs] at h
          | some o =>
              rw [hostScan_append (by simp [hs]), hs]
              simpa [hs] using h

end Find

/-! ### Handling the chunk -/

/-- The fields `HandleProxyProtocol` sets. -/
def Request.setIn (c : Connect) : Request → Connect
  | connect host port => { c with httpVersion := .https, webPort := port.getD c.webPort, host := host }
  | tooLong => { c with httpVersion := .https }
  | plain host => { c with host := host.getD c.host }

/-- The next tunnel can be opened. -/
def State.CanDial (s : State) : Prop := ∃ fd rest, s.dials = .opened fd :: rest ∧ fd ≠ 0

/-- How `HandleProxyProtocol` leaves the browser `p`: as `c`, or with a tunnel for it. -/
def Turned (s : State) (p : Ptr) (c : Connect) (ret : ℤ) (s' : State) : Prop :=
  (ret < 0 ∧ s'.conns p = some c ∧ (s.CanDial → c.host = [])) ∨
    (ret = 0 ∧ s'.config = s.config ∧ ∃ t d, t ≠ p ∧ s'.conns p = some { c with peer := some t } ∧
      s'.conns t = some d ∧ d.sockFd ≠ 0 ∧ d.verified = false)

section Handle

variable {s : State} {p t : Ptr} {c d : Connect} {n : ℕ} {r : Request}

theorem openTunnel_turned (hp : s.conns p = some c) (hne : p ≠ s.nextConn) : wp (openTunnel p) (Turned s p c) s := by
  simp only [openTunnel, wpe_bind, wpe_deref, hp, found_iff]
  by_cases hhost : c.host = []
  · simp only [hhost, if_true, wpe_pure]
    exact .inl ⟨by decide, hp, fun _ => hhost⟩
  simp only [hhost, if_false, wpe_bind]
  by_cases hd : s.CanDial
  · obtain ⟨fd, rest, hdials, hfd⟩ := hd
    have hpc : (s.created fd rest).conns p = some c := (State.setConn_ne _ _ hne).trans hp
    have htc : ∀ c', ((s.created fd rest).setConn p c').conns s.nextConn = some (tunnelConnect fd) := fun c' =>
      (State.setConn_ne _ c' (Ne.symm hne)).trans (State.setConn_self _ _ _)
    simp only [wpe_createConn hdials hfd, wpe_bind, wpe_modConn, hpc, htc, found_iff, wpe_pure]
    refine .inr ⟨rfl, rfl, s.nextConn, _, Ne.symm hne, ?_, State.setConn_self _ _ _, hfd, rfl⟩
    exact (State.setConn_ne _ _ hne).trans (State.setConn_self _ _ _)
  · have hfail : ∀ s', s'.conns = s.conns → Turned s p c (-1) s' := fun s' hs' =>
      .inl ⟨by decide, by rw [hs', hp], fun h => absurd h hd⟩
    simp only [createConn, sockOpen, wpe_bind, wpe_get]
    rcases hdials : s.dials with _ | ⟨⟨fd⟩ | ⟨e⟩, rest⟩
    · exact hfail _ rfl
    · have hfd : fd = 0 := by
        by_contra hfd
        exact hd ⟨fd, rest, hdials, hfd⟩
      simp only [hfd, if_true]
      exact hfail _ rfl
    · exact hfail _ rfl

theorem handleProxyProtocol_turned (hp : s.conns p = some c) (hne : p ≠ s.nextConn) (hhost : c.host = [])
    (hr : findRequest (c.dec.buff.slice 0 buffSize) n = .ok r) :
    wp (handleProxyProtocol p n) (Turned s p (r.setIn c)) s := by
  simp only [handleProxyProtocol, wpe_bind, wpe_deref, hp, hr, found_iff]
  -- `openTunnel` starts from a state that differs from `s` in the connection of `p` only
  have hopen : ∀ c', wp (openTunnel p) (Turned s p c') (s.setConn p c') := fun c' =>
    wp_mono (openTunnel_turned (State.setConn_self s p c') hne) fun _ _ h => h
  cases r with
  | tooLong =>
      simp only [wpe_bind, wpe_modConn, hp, wpe_pure, found_iff]
      exact .inl ⟨by decide, State.setConn_self _ _ _, fun _ => hhost⟩
  | connect host port =>
      simp only [wpe_bind, wpe_modConn, hp, found_iff]
      exact hopen _
  | plain host =>
      simp only [wpe_bind, wpe_modConn, hp, found_iff]
      exact hopen _

theorem sendTmsMsg_runs {msg : List UInt8} (hd : s.conns t = some d) (hlen : hdrSize + msg.length ≤ tmsMsgSize) :
    wp (sendTmsMsg t msg) (fun _ _ => True) s := by
  simp only [sendTmsMsg, Nat.not_lt.mpr hlen, if_false, wpe_bind, wpe_deref, hd, found_iff, sockWrite, wpe_get]
  rcases s.writes with _ | ⟨⟨n⟩ | ⟨e⟩, rest⟩
  all_goals trivial

theorem addEvent_runs (fd : ℕ) (m : Mask) (s : State) : wp (addEvent fd m) (fun _ _ => True) s := by
  simp only [addEvent]
  split
  · trivial
  · simp only [wpe_bind, wpe_get]
    cases s.epoll fd <;> trivial

/-- A login runs to its end exactly if the host fits in `login_str`. -/
theorem login_fits (hp : s.conns p = some c) (ht : s.conns t = some d) (hne : t ≠ p)
    (hauth : s.config.auth.length < tokenSize) :
    wpe (login p t n) (fun _ _ => c.host.length ≤ Upload.maxHost) (fun _ => Upload.maxHost < c.host.length) s := by
  have htp : ∀ c', (s.setConn p c').conns t = some d := fun c' => (State.setConn_ne _ c' hne).trans ht
  simp only [login, wpe_bind, wpe_modConn, wpe_deref, wpe_get, hp, State.setConn_self, found_iff]
  have hcfg : ∀ c', (s.setConn p c').config = s.config := fun _ => rfl
  have hmax : Upload.maxHost = 458 ∧ loginStrSize = 512 ∧ LoginReq.hostAt = 54 ∧ tmsMsgSize = 1024 ∧ hdrSize = 6 :=
    ⟨rfl, rfl, rfl, rfl, rfl⟩
  simp only [hcfg, show ¬ tokenSize < s.config.auth.length + 1 by omega, if_false, wpe_bind, wpe_modConn, wpe_deref,
    htp, State.setConn_self, found_iff]
  by_cases hlen : loginStrSize < LoginReq.hostAt + c.host.length
  · simp only [hlen, if_true]
    show Upload.maxHost < c.host.length
    omega
  · have hfits : c.host.length ≤ Upload.maxHost := by omega
    simp only [hlen, if_false, wpe_bind]
    refine wpe_mono (sendTmsMsg_runs (State.setConn_self _ _ _) ?_) (fun _ s' _ => ?_) fun _ => False.elim
    · rw [loginReq_length hauth]
      show hdrSize + (LoginReq.hostAt + c.host.length) ≤ tmsMsgSize
      omega
    · exact wpe_mono (addEvent_runs _ _ s') (fun _ _ _ => hfits) fun _ => False.elim

end Handle

/-! ### The first chunk -/

/-- `bs` was read as the first chunk of the browser `p`: the connection is as it was accepted. -/
structure State.FirstRead (s : State) (p : Ptr) (bs : Mem) : Prop where
  browser : ∃ c, s.conns p = some c ∧ c.host = [] ∧ c.peer = none ∧ c.webPort = 80 ∧ c.dec.offset = 0 ∧
    c.dec.buff.slice 0 bs.length = bs
  unused : p ≠ s.nextConn

/-- The same, in an SDK whose own token fits in its field. -/
structure State.FirstChunk (s : State) (p : Ptr) (bs : Mem) : Prop extends s.FirstRead p bs where
  token : s.config.auth.length < tokenSize

/-- The first chunk is handled inside the buffers: its destination can be found with nothing but
`bs` in memory, and the whole of `onChunk` runs to its end. -/
def State.Contained (s : State) (p : Ptr) (bs : Mem) : Prop :=
  (∃ r, findRequest bs bs.length = .ok r) ∧ wp (onChunk p bs.length) (fun _ _ => True) s

section First

variable {s : State} {p : Ptr} {bs : Mem} {r : Request}

/-- A chunk at the start of the buffer, and what is behind it. -/
theorem slice_chunk {b : Buff} (h : b.slice 0 bs.length = bs) (hlen : bs.length ≤ buffSize) :
    b.slice 0 buffSize = bs ++ b.slice bs.length (buffSize - bs.length) := by
  have := b.slice_append 0 bs.length (buffSize - bs.length)
  rw [Nat.add_sub_cancel' hlen, h, Nat.zero_add] at this
  exact this.symm

theorem Request.host_setIn {c : Connect} (h : c.host = []) : (r.setIn c).host = r.host := by
  cases r with
  | connect host port => rfl
  | tooLong => exact h
  | plain host => cases host <;> simp [setIn, host, h]

theorem Request.peer_setIn (c : Connect) : (r.setIn c).peer = c.peer := by
  cases r <;> rfl

/-- With a destination, the chunk is handled to its end exactly if the host fits in `login_str`, or
no tunnel could be opened. -/
theorem onChunk_fits (h : s.FirstChunk p bs) (hlen : bs.length ≤ buffSize) (hr : findRequest bs bs.length = .ok r) :
    wpe (onChunk p bs.length) (fun _ _ => s.CanDial → r.host.length ≤ Upload.maxHost)
      (fun _ => Upload.maxHost < r.host.length) s := by
  obtain ⟨⟨⟨c, hp, hhost, hpeer, -, hoff, hbuff⟩, hunused⟩, htoken⟩ := h
  have hfind : findRequest (c.dec.buff.slice 0 buffSize) bs.length = .ok r := by
    rw [slice_chunk hbuff hlen]
    exact findRequest_append hr _
  simp only [onChunk, wpe_bind, wpe_deref, hp, wpe_emit, hpeer, hoff, Nat.zero_add, found_iff]
  generalize hs₁ : s.emit _ = s₁
  have hp₁ : s₁.conns p = some c := hs₁ ▸ hp
  have hdials : s₁.CanDial ↔ s.CanDial := hs₁ ▸ Iff.rfl
  have hcfg : s₁.config = s.config := hs₁ ▸ rfl
  have hnext : s₁.nextConn = s.nextConn := hs₁ ▸ rfl
  refine wpe_mono (handleProxyProtocol_turned hp₁ (hnext ▸ hunused) hhost hfind) ?_ fun _ => False.elim
  rintro ret s₂ (⟨hret, hp₂, hnone⟩ | ⟨rfl, hcfg₂, t, d, hne, hp₂, ht, hfd, hver⟩)
  · have hfits : s.CanDial → r.host.length ≤ Upload.maxHost := by
      intro hd
      rw [← Request.host_setIn hhost, hnone (hdials.mpr hd)]
      exact Nat.zero_le _
    by_cases h1 : ret = -1
    · simp only [h1, if_true, wpe_bind, ackUserFail, wpe_deref, hp₂, Request.peer_setIn, hpeer, wakeupUser, wpe_emit,
        wpe_pure, found_iff]
      exact hfits
    · simp only [h1, hret, if_false, if_true, wpe_pure]
      exact hfits
  · have hlogin := login_fits (n := bs.length) hp₂ ht hne (by rw [hcfg₂, hcfg]; exact htoken)
    rw [Request.host_setIn hhost] at hlogin
    simp only [show ¬ (0 : ℤ) = -1 by decide, show ¬ (0 : ℤ) < 0 by decide, if_false, passUp, wpe_bind, wpe_deref, hp₂,
      ht, hfd, hver, Bool.false_eq_true, found_iff, wpe_pure]
    exact wpe_mono hlogin (fun _ _ hl _ => hl) fun _ => id

/-- The connection of a browser with `bs` at the start of its buffer. -/
def browserHolding (bs : Mem) : Connect where
  sockFd := 10
  status := .online
  type := .proxy
  dec := ⟨.forward, 0, buffSize, 0, Buff.store (fun _ => 0) 0 bs⟩

/-- A browser has just sent `bs`, and a tunnel can be opened. -/
def accepted (bs : Mem) : State where
  accurate := false
  config := ⟨[], 1, 2⟩
  conns q := if q = 0 then some (browserHolding bs) else none
  nextConn := 1
  connMap fd := if fd = 10 then some (some 0) else none
  avalTraffic := 0
  rptTraffCost := 0
  epoll _ := none
  errno := 0
  mem _ := 0
  writes := []
  dials := [.opened 11]
  log := []

theorem accepted_firstChunk (bs : Mem) : (accepted bs).FirstChunk 0 bs where
  browser := ⟨browserHolding bs, rfl, rfl, rfl, rfl, rfl, Buff.slice_store_same _ 0 bs⟩
  unused := Nat.zero_ne_one
  token := show 0 < tokenSize by decide

theorem accepted_canDial (bs : Mem) : (accepted bs).CanDial := ⟨11, [], rfl, by decide⟩

theorem State.Contained.fits (h : s.Contained p bs) (hf : s.FirstChunk p bs) (hlen : bs.length ≤ buffSize)
    (hd : s.CanDial) :
    Harmless bs := by
  obtain ⟨⟨r, hr⟩, hrun⟩ := h
  have hfits := wpe_mono (onChunk_fits hf hlen hr) (fun _ _ hq => hq hd) fun _ _ => trivial
  obtain ⟨_, _, _, -, hle⟩ := (wp_iff _ _ _).mp (wp_and_wlp hrun hfits)
  exact harmless_iff.mpr ⟨r, hr, hle⟩

/-- **The first chunk of a browser is handled inside the buffers exactly if it is `Harmless`.** -/
theorem firstChunk_contained_iff (bs : Mem) (hlen : bs.length ≤ buffSize) :
    (∀ (s : State) p, s.FirstChunk p bs → s.Contained p bs) ↔ Harmless bs := by
  constructor
  · intro h
    have hf := accepted_firstChunk bs
    exact (h _ _ hf).fits hf hlen (accepted_canDial bs)
  · intro h s p hf
    obtain ⟨r, hr, hle⟩ := harmless_iff.mp h
    refine ⟨⟨r, hr⟩, wpe_mono (onChunk_fits hf hlen hr) (fun _ _ _ => trivial) fun _ hgt => ?_⟩
    exact absurd hle (Nat.not_le.mpr hgt)

theorem firstChunk_contained_iff_connect : (lit "CONNECT a.com:443\r\n\r\n").length ≤ buffSize ∧
    (accepted (lit "CONNECT a.com:443\r\n\r\n")).Contained 0 (lit "CONNECT a.com:443\r\n\r\n") := by
  refine ⟨by decide, (firstChunk_contained_iff _ (by decide)).mpr ?_ _ _ (accepted_firstChunk _)⟩
  refine ⟨by decide, fun _ => ?_, fun h => absurd (by decide) h⟩
  refine ⟨lit "a.com:443", lit "\n\r\n", by decide, by decide, by decide, .inr ⟨by decide, ?_⟩⟩
  exact ⟨[], lit "a.com", lit "443", by decide, by simp, by decide, by decide, 52, by decide, by decide⟩

/-- A host of 459 bytes, one more than fits behind the fields of a login in `login_str`. -/
theorem firstChunk_longHost :
    ∃ (s : State) (p : Ptr),
      s.FirstChunk p (lit "GET / HTTP/1.1\r\nHost: " ++ List.replicate 459 97 ++ lit "\r\n\r\n") ∧
      ¬ s.Contained p (lit "GET / HTTP/1.1\r\nHost: " ++ List.replicate 459 97 ++ lit "\r\n\r\n") := by
  refine ⟨_, _, accepted_firstChunk _, fun h => ?_⟩
  obtain ⟨r, hr, hle⟩ := harmless_iff.mp (h.fits (accepted_firstChunk _) (by decide +kernel) (accepted_canDial _))
  have hlong : (findRequest (lit "GET / HTTP/1.1\r\nHost: " ++ List.replicate 459 97 ++ lit "\r\n\r\n")
      485).toOption.map (·.host.length) = some 459 := by decide +kernel
  have hlen : (lit "GET / HTTP/1.1\r\nHost: " ++ List.replicate 459 97 ++ lit "\r\n\r\n").length = 485 := by
    decide +kernel
  rw [← hlen, hr] at hlong
  have heq : r.host.length = 459 := Option.some.inj hlong
  rw [heq] at hle
  exact absurd hle (by decide)

end First

end HttpsTunnel.Sdk

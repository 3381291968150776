import HttpsTunnel.Lib.Probe
import HttpsTunnel.Tms.DnsWire

/-! # What the parser of responses looks at

`res_parse` is not told how long the datagram is.  Here it is written as a probe of the receive buffer
(`resProbe`, whose `run` is `resParse`), so that the positions it looks at are those the probe asks for.

`resParse_datagram_iff`: the parser stays inside the datagram, and does not depend on what an earlier one left behind
it, exactly if the datagram holds what its own fields announce, up to the first address or to the last record that
is counted (`Contained`). -/

namespace HttpsTunnel.Tms

open HttpsTunnel.Lib HttpsTunnel.Wire

/-! ### The parser as a probe -/

/-- A 16-bit number in network order. -/
def probe16 (pos : ℕ) : Probe ℕ := do
  let hi ← Probe.byte pos
  let lo ← Probe.byte (pos + 1)
  pure (ofBE16 hi lo)

/-- `readName`. -/
def probeName : ℕ → ℕ → Host → Probe (Except Fault (Host × ℕ))
  | 0, _, _ => pure (.error .overflow)
  | fuel + 1, pos, s =>
      if buffSize ≤ pos then pure (.error .overflow)
      else do
        let len := (← Probe.byte pos).toNat
        if len = 0 then pure (.ok (s, pos + 1))
        else if buffSize < pos + 1 + len then pure (.error .overflow)
        else do
          let sec ← Probe.bytes (pos + 1) len
          probeName fuel (pos + 1 + len) (appendLabel s sec)

/-- `readQuestions`. -/
def probeQuestions : ℕ → ℕ → Probe (Except Fault (List Rep × ℕ))
  | 0, pos => pure (.ok ([], pos))
  | n + 1, pos =>
      (probeName (buffSize + 1) pos []).thenOk fun (host, pos') =>
        (probeQuestions n (pos' + 4)).thenOk fun (reps, pos'') => pure (.ok (⟨host, 0⟩ :: reps, pos''))

/-- `readAnswers`. -/
def probeAnswers : ℕ → ℕ → ℕ → Probe (Except Fault (Option ℕ))
  | _, 0, _ => pure (.ok none)
  | 0, _ + 1, _ => pure (.error .overflow)
  | fuel + 1, k + 1, pos =>
      if buffSize < pos + ansHdrSize then pure (.error .overflow)
      else do
        let len ← probe16 (pos + 10)
        let type ← probe16 (pos + 2)
        let pos' := pos + ansHdrSize
        if type ≠ 1 then probeAnswers fuel (k + 1) (pos' + len)
        else if len = 4 then
          if buffSize < pos' + 4 then pure (.error .overflow)
          else do
            let hi ← probe16 pos'
            let lo ← probe16 (pos' + 2)
            pure (.ok (some (hi * 65536 + lo)))
        else probeAnswers fuel k (pos' + len)

/-- `resParse`. -/
def resProbe : Probe (Except Fault (List Rep)) := do
  let questions ← probe16 4
  let answers ← probe16 6
  (probeQuestions questions 12).thenOk fun (reps, pos) =>
    if reps = [] then pure (.ok [])
    else (probeAnswers (buffSize + 1) answers pos).thenOk fun ip => pure (.ok (setFirstIp reps ip))

variable {b : Buff}

@[simp] theorem run_probe16 (b : Buff) (pos : ℕ) : (probe16 pos).run b = be16 b pos := by
  simp [probe16, be16]

@[simp] theorem asked_probe16 (b : Buff) (pos : ℕ) : (probe16 pos).asked b = [pos, pos + 1] := by
  simp [probe16]

theorem run_probeName (b : Buff) (fuel pos : ℕ) (s : Host) :
    (probeName fuel pos s).run b = readName b fuel pos s := by
  induction fuel generalizing pos s with
  | zero => rfl
  | succ fuel ih =>
      simp only [probeName, readName, Probe.run_ite, Probe.run_bind]
      simp [ih]

theorem run_probeQuestions (b : Buff) (n pos : ℕ) :
    (probeQuestions n pos).run b = readQuestions b n pos := by
  induction n generalizing pos with
  | zero => rfl
  | succ n ih =>
      simp only [probeQuestions, readQuestions, Probe.run_thenOk, run_probeName, ih]
      rfl

theorem run_probeAnswers (b : Buff) (fuel k pos : ℕ) :
    (probeAnswers fuel k pos).run b = readAnswers b fuel k pos := by
  induction fuel generalizing k pos with
  | zero => cases k <;> rfl
  | succ fuel ih =>
      cases k with
      | zero => rfl
      | succ k => simp [probeAnswers, readAnswers, ih, be32]

/-- The probe is the parser. -/
theorem run_resProbe (b : Buff) : resProbe.run b = resParse b := by
  simp only [resProbe, resParse, Probe.run_bind, run_probe16, Probe.run_thenOk, run_probeQuestions, Probe.run_ite,
    run_probeAnswers]
  rfl

/-! ### Inside the datagram -/

/-- A name from `pos` to `e`, inside the first `n` bytes. -/
inductive NameIn (b : Buff) (n : ℕ) : ℕ → ℕ → Prop
  | root {pos : ℕ} (hpos : pos < n) (hlen : (b pos).toNat = 0) : NameIn b n pos (pos + 1)
  | label {pos e : ℕ} (hpos : pos < n) (hlen : (b pos).toNat ≠ 0) (hfit : pos + 1 + (b pos).toNat ≤ n)
      (hrest : NameIn b n (pos + 1 + (b pos).toNat) e) : NameIn b n pos e

/-- Questions from `pos` on, with their names inside the first `n` bytes; `e` is the position behind them. -/
inductive QuestionsIn (b : Buff) (n : ℕ) : ℕ → ℕ → ℕ → Prop
  | none {pos : ℕ} : QuestionsIn b n 0 pos pos
  | question {k pos m e : ℕ} (hname : NameIn b n pos m) (hrest : QuestionsIn b n k (m + 4) e) :
      QuestionsIn b n (k + 1) pos e

/-- Answers from `pos` on, with `k` of them to be counted, inside the first `n` bytes up to the first address. -/
inductive AnswersIn (b : Buff) (n : ℕ) : ℕ → ℕ → Prop
  | none {pos : ℕ} : AnswersIn b n 0 pos
  | other {k pos : ℕ} (hfit : pos + ansHdrSize ≤ n) (htype : be16 b (pos + 2) ≠ 1)
      (hrest : AnswersIn b n (k + 1) (pos + ansHdrSize + be16 b (pos + 10))) : AnswersIn b n (k + 1) pos
  | address {k pos : ℕ} (hfit : pos + ansHdrSize + 4 ≤ n) (htype : be16 b (pos + 2) = 1)
      (hlen : be16 b (pos + 10) = 4) : AnswersIn b n (k + 1) pos
  | odd {k pos : ℕ} (hfit : pos + ansHdrSize ≤ n) (htype : be16 b (pos + 2) = 1) (hlen : be16 b (pos + 10) ≠ 4)
      (hrest : AnswersIn b n k (pos + ansHdrSize + be16 b (pos + 10))) : AnswersIn b n (k + 1) pos

/-- The first `n` bytes hold the counts, the questions and the answers up to the first address; without an address
the records of type 1 have to make up the count. -/
def Contained (n : ℕ) (b : Buff) : Prop :=
  8 ≤ n ∧ ∃ e, QuestionsIn b n (be16 b 4) 12 e ∧ (be16 b 4 = 0 ∨ AnswersIn b n (be16 b 6) e)

section Stays

variable {n : ℕ}

/-- The probe of a name stays inside exactly if the name is there. -/
theorem probeName_iff (fuel : ℕ) (s : Host) {pos e : ℕ} (hn : n ≤ buffSize) (hfuel : n < pos + fuel) :
    (∃ host, (probeName fuel pos s).Gives n b (host, e)) ↔ NameIn b n pos e := by
  induction fuel generalizing pos s with
  | zero =>
      refine iff_of_false (by simp [probeName]) fun h => ?_
      cases h <;> omega
  | succ fuel ih =>
      by_cases hbuff : buffSize ≤ pos
      · refine iff_of_false (by simp [probeName, hbuff]) fun h => ?_
        cases h <;> omega
      simp only [probeName, hbuff, if_false, Probe.gives_bind, Probe.asked_byte, Probe.run_byte, List.mem_singleton,
        forall_eq, exists_and_left]
      by_cases hlen : (b pos).toNat = 0
      · simp only [hlen, if_true, Probe.gives_ok, Prod.mk.injEq, exists_eq_left']
        constructor
        · rintro ⟨hpos, rfl⟩
          exact .root hpos hlen
        · intro h
          cases h with
          | root hpos => exact ⟨hpos, rfl⟩
          | label _ hlen' => exact absurd hlen hlen'
      have hstep : NameIn b n pos e ↔
          pos < n ∧ pos + 1 + (b pos).toNat ≤ n ∧ NameIn b n (pos + 1 + (b pos).toNat) e := by
        refine ⟨fun h => ?_, fun h => .label h.1 hlen h.2.1 h.2.2⟩
        cases h with
        | root _ hlen' => exact absurd hlen' hlen
        | label hpos _ hfit h => exact ⟨hpos, hfit, h⟩
      rw [hstep]
      refine and_congr_right fun hpos => ?_
      by_cases hroom : buffSize < pos + 1 + (b pos).toNat
      · simp only [hlen, hroom, if_true, if_false, Probe.gives_error, exists_false, false_iff]
        omega
      simp only [hlen, hroom, if_false, Probe.gives_bind, Probe.mem_asked_bytes, Probe.run_bytes, exists_and_left]
      have hlabel : (∀ i, pos + 1 ≤ i ∧ i < pos + 1 + (b pos).toNat → i < n) ↔ pos + 1 + (b pos).toNat ≤ n := by
        refine ⟨fun h => ?_, fun h i hi => by omega⟩
        have := h (pos + (b pos).toNat) (by omega)
        omega
      rw [hlabel, ih _ (by omega)]

theorem probeQuestions_iff {k pos e : ℕ} (hn : n ≤ buffSize) :
    (∃ reps, (probeQuestions k pos).Gives n b (reps, e)) ↔ QuestionsIn b n k pos e := by
  induction k generalizing pos with
  | zero =>
      simp only [probeQuestions, Probe.gives_ok, Prod.mk.injEq, exists_eq_left']
      constructor
      · rintro rfl
        exact .none
      · rintro ⟨⟩
        rfl
  | succ k ih =>
      have hname : ∀ {m}, _ ↔ NameIn b n pos m := probeName_iff (buffSize + 1) [] hn (by omega)
      simp only [probeQuestions, Probe.gives_thenOk, Probe.gives_ok, Prod.mk.injEq]
      constructor
      · rintro ⟨_, ⟨host, m⟩, hm, ⟨reps, e'⟩, hq, -, rfl⟩
        exact .question (hname.mp ⟨host, hm⟩) (ih.mp ⟨reps, hq⟩)
      · intro h
        cases h with
        | question hm hq =>
            obtain ⟨host, hm⟩ := hname.mpr hm
            obtain ⟨reps, hq⟩ := ih.mpr hq
            exact ⟨_, (host, _), hm, (reps, e), hq, rfl, rfl⟩

/-- There are as many replies as questions. -/
theorem readQuestions_length {k pos : ℕ} {r : List Rep × ℕ} (h : readQuestions b k pos = .ok r) :
    r.1.length = k := by
  induction k generalizing pos r with
  | zero =>
      cases h
      rfl
  | succ k ih =>
      simp only [readQuestions, bind, Except.bind] at h
      cases hname : readName b (buffSize + 1) pos [] with
      | error f =>
          rw [hname] at h
          cases h
      | ok q =>
          simp only [hname] at h
          cases hrest : readQuestions b k (q.2 + 4) with
          | error f =>
              rw [hrest] at h
              cases h
          | ok q' =>
              rw [hrest] at h
              cases h
              simp [ih hrest]

theorem probeAnswers_iff {fuel k pos : ℕ} (hn : n ≤ buffSize) (hfuel : n < pos + fuel) :
    (probeAnswers fuel k pos).Stays n b ↔ AnswersIn b n k pos := by
  have hsize : ansHdrSize = 12 := rfl
  induction fuel generalizing k pos with
  | zero =>
      cases k with
      | zero => exact iff_of_true ⟨none, by simp [probeAnswers]⟩ .none
      | succ k =>
          refine iff_of_false (by simp [Probe.Stays, probeAnswers]) fun h => ?_
          cases h <;> omega
  | succ fuel ih =>
      cases k with
      | zero => exact iff_of_true ⟨none, by simp [probeAnswers]⟩ .none
      | succ k =>
          by_cases hbuff : buffSize < pos + ansHdrSize
          · refine iff_of_false (by simp [Probe.Stays, probeAnswers, hbuff]) fun h => ?_
            cases h <;> omega
          have hhdr : ((∀ i ∈ [pos + 10, pos + 10 + 1], i < n) ∧ ∀ i ∈ [pos + 2, pos + 2 + 1], i < n) ↔
              pos + ansHdrSize ≤ n := by
            simp only [List.mem_cons, List.not_mem_nil, or_false, forall_eq_or_imp, forall_eq]
            omega
          simp only [Probe.Stays, probeAnswers, hbuff, if_false, Probe.gives_bind, asked_probe16, run_probe16,
            exists_and_left, ← and_assoc, hhdr]
          by_cases htype : be16 b (pos + 2) = 1
          swap
          · simp only [ne_eq, htype, not_false_eq_true, if_true]
            constructor
            · exact fun h => .other h.1 htype ((ih (by omega)).mp h.2)
            · intro h
              cases h with
              | other hfit _ h => exact ⟨hfit, (ih (by omega)).mpr h⟩
              | address _ htype' => exact absurd htype' htype
              | odd _ htype' => exact absurd htype' htype
          simp only [ne_eq, htype, not_true_eq_false, if_false]
          by_cases hlen : be16 b (pos + 10) = 4
          swap
          · simp only [hlen, if_false]
            constructor
            · exact fun h => .odd h.1 htype hlen ((ih (by omega)).mp h.2)
            · intro h
              cases h with
              | other _ htype' => exact absurd htype htype'
              | address _ _ hlen' => exact absurd hlen' hlen
              | odd hfit _ _ h => exact ⟨hfit, (ih (by omega)).mpr h⟩
          have haddress : AnswersIn b n (k + 1) pos ↔ pos + ansHdrSize + 4 ≤ n := by
            refine ⟨fun h => ?_, fun h => .address h htype hlen⟩
            cases h with
            | other _ htype' => exact absurd htype htype'
            | address h => exact h
            | odd _ _ hlen' => exact absurd hlen hlen'
          rw [haddress]
          by_cases hroom : buffSize < pos + ansHdrSize + 4
          · simp only [hlen, hroom, if_true, Probe.gives_error, exists_false, and_false, false_iff]
            omega
          · simp only [hlen, hroom, if_true, if_false, Probe.gives_bind, asked_probe16, Probe.gives_ok,
              exists_and_left, exists_eq', and_true, List.mem_cons, List.not_mem_nil, or_false, forall_eq_or_imp,
              forall_eq]
            omega

/-- The parser stays inside exactly if the datagram holds what it announces. -/
theorem resProbe_iff (hn : n ≤ buffSize) : resProbe.Stays n b ↔ Contained n b := by
  have hques : ∀ {e}, _ ↔ QuestionsIn b n (be16 b 4) 12 e := probeQuestions_iff hn
  have hcounts : ((∀ i ∈ [4, 4 + 1], i < n) ∧ ∀ i ∈ [6, 6 + 1], i < n) ↔ 8 ≤ n := by
    simp only [List.mem_cons, List.not_mem_nil, or_false, forall_eq_or_imp, forall_eq]
    omega
  -- what comes after the questions
  have hrest : ∀ {reps e}, (probeQuestions (be16 b 4) 12).Gives n b (reps, e) →
      ((∃ r, (if reps = [] then pure (.ok []) else (probeAnswers (buffSize + 1) (be16 b 6) e).thenOk fun ip =>
        pure (.ok (setFirstIp reps ip)) : Probe (Except Fault (List Rep))).Gives n b r) ↔
          be16 b 4 = 0 ∨ AnswersIn b n (be16 b 6) e) := by
    intro reps e hq
    have hlen : reps = [] ↔ be16 b 4 = 0 := by
      rw [← readQuestions_length ((run_probeQuestions _ _ _).symm.trans hq.1), List.length_eq_zero_iff]
    rw [← hlen]
    by_cases hr : reps = []
    · simp only [hr, if_true, Probe.gives_ok, exists_eq', true_or]
    · simp only [hr, if_false, false_or, Probe.gives_thenOk, Probe.gives_ok]
      have hfuel : n < e + (buffSize + 1) := by omega
      rw [← probeAnswers_iff hn hfuel]
      constructor
      · rintro ⟨_, a, h, -⟩
        exact ⟨a, h⟩
      · rintro ⟨a, h⟩
        exact ⟨_, a, h, rfl⟩
  simp only [Probe.Stays, resProbe, Probe.gives_bind, asked_probe16, run_probe16, exists_and_left, ← and_assoc, hcounts,
    Probe.gives_thenOk, Contained]
  refine and_congr_right fun _ => ⟨?_, ?_⟩
  · rintro ⟨r, ⟨reps, e⟩, hq, hr⟩
    exact ⟨e, hques.mp ⟨reps, hq⟩, (hrest hq).mp ⟨r, hr⟩⟩
  · rintro ⟨e, hq, h⟩
    obtain ⟨reps, hq⟩ := hques.mpr hq
    obtain ⟨r, hr⟩ := (hrest hq).mpr h
    exact ⟨r, (reps, e), hq, hr⟩

end Stays

/-- **What the parser depends on.**  For a datagram `bs` at the start of the receive buffer: whatever lies behind it,
`res_parse` returns and looks at nothing behind it, and its replies are always the same, exactly if the datagram
holds what it announces. -/
theorem resParse_datagram_iff (bs : List UInt8) (hlen : bs.length ≤ buffSize) :
    ((∀ mem : Buff, Probe.Stays bs.length resProbe (mem.store 0 bs)) ∧
        ∀ mem mem' : Buff, resParse (mem.store 0 bs) = resParse (mem'.store 0 bs)) ↔
      Contained bs.length (Buff.store (fun _ => 0) 0 bs) := by
  have hagree : ∀ mem mem' : Buff, ∀ i < bs.length, mem.store 0 bs i = mem'.store 0 bs i := fun mem mem' i hi => by
    rw [Buff.store_apply mem hi, Buff.store_apply mem' hi]
  rw [← resProbe_iff hlen]
  constructor
  · exact fun h => h.1 _
  · intro h
    have hall : ∀ mem : Buff, Probe.Stays bs.length resProbe (mem.store 0 bs) := fun mem => h.congr (hagree _ _)
    refine ⟨hall, fun mem mem' => ?_⟩
    obtain ⟨reps, hreps⟩ := hall mem'
    rw [← run_resProbe, ← run_resProbe]
    exact (resProbe.run_congr fun i hi => hagree mem mem' i (hreps.2 i hi)).1

/-- A query for `a`, sent back without an answer. -/
def echoedQuery : List UInt8 := [0, 7, 1, 0, 0, 1, 0, 0, 0, 0, 0, 0, 1, 97, 0, 0, 1, 0, 1]

/-- The query is parsed without a look at what lies behind it. -/
theorem resParse_datagram_iff_echoedQuery :
    (∀ mem : Buff, Probe.Stays echoedQuery.length resProbe (mem.store 0 echoedQuery)) ∧
      ∀ mem mem' : Buff, resParse (mem.store 0 echoedQuery) = resParse (mem'.store 0 echoedQuery) := by
  have hname : NameIn (Buff.store (fun _ => 0) 0 echoedQuery) echoedQuery.length 12 15 :=
    .label (by decide) (by decide) (by decide) (.root (by decide) (by decide))
  exact (resParse_datagram_iff echoedQuery (by decide)).mpr ⟨by decide, 19, .question hname .none, .inr .none⟩

/-- The query with an answer announced that is not there: the parser looks for it in what an earlier datagram left
behind. -/
theorem resParse_leftover : ∃ (bs : List UInt8) (mem mem' : Buff), bs.length = 19 ∧
    resParse (mem.store 0 bs) = .ok [⟨[97], 0⟩] ∧ resParse (mem'.store 0 bs) = .ok [⟨[97], 0x0a000007⟩] ∧
      22 ∈ resProbe.asked (mem.store 0 bs) := by
  refine ⟨[0, 7, 1, 0, 0, 1, 0, 1, 0, 0, 0, 0, 1, 97, 0, 0, 1, 0, 1],
    Buff.store (fun _ => 0) 19 [0xc0, 12, 0, 1, 0, 1, 0, 0, 0, 60, 0, 0],
    Buff.store (fun _ => 0) 19 [0xc0, 12, 0, 1, 0, 1, 0, 0, 0, 60, 0, 4, 10, 0, 0, 7], by decide, ?_⟩
  decide +kernel

end HttpsTunnel.Tms

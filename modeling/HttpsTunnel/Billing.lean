import HttpsTunnel.Dpi.Account
import HttpsTunnel.Recorder.Report

/-! # From the packet to the balance

The DPI and the recorder together.  The DPI counts traffic and sends reports; the recorder takes
them off the balances and answers; the answer lets the DPI report again.  `System` has both
programs and the messages between them.

The traffic of a user is in one of four places: in the counters of the entries bound to the user,
in reports on their way, in handlers that have not written the balance, or taken off the balance.
At rest only the first and the last are left (`deducted_add_counters`).  This fails when redis
fails: a handler that cannot read or write the balance answers with a code that the DPI only
prints, and the traffic of the report is in none of the places any more (`failed_report_lost`). -/

namespace HttpsTunnel.Billing

open HttpsTunnel.Lib HttpsTunnel.Wire HttpsTunnel.Dpi HttpsTunnel.Recorder

/-! ### The two programs -/

structure System where
  dpi : Monitor
  toRecorder : List TrafficReport := []
  recorder : State
  toDpi : List TrafficReportRsp := []

inductive Act where
  | login (u : SynUserTuple)
  | packet (ip n finType : ℕ) (t : Clock)
  /-- The recorder receives the next report. -/
  | deliver
  /-- A handler of the recorder runs its next command. -/
  | exec (i : ℕ) (o : Outcome)
  /-- The DPI receives the next answer. -/
  | reply (t : Clock)

namespace System

def init (r : Redis) : System := { dpi := ⟨LvldbMgr.init, []⟩, recorder := ⟨r, []⟩ }

/-- A call of the DPI's manager; its report goes to the recorder. -/
def call (s : System) (c : Call) : System :=
  { s with dpi := s.dpi.step c, toRecorder := s.toRecorder ++ (s.dpi.mgr.call c).2.toList }

def step (s : System) : Act → System
  | .login u => s.call (.login u)
  | .packet ip n f t => s.call (.packet ip n f t)
  | .deliver =>
      match s.toRecorder with
      | [] => s
      | r :: rs => { s with toRecorder := rs, recorder := s.recorder.receive r }
  | .exec i o =>
      { s with recorder := s.recorder.exec i o
               toDpi := s.toDpi ++ (s.recorder.answer i o).toList }
  | .reply t =>
      match s.toDpi with
      | [] => s
      -- `HandleRecvMsg` prints a response code that is not 0 and goes on
      | r :: rs => { s with toDpi := rs }.call (.reply r.ip t)

/-- No message is on its way and every handler is done. -/
def Quiescent (s : System) : Prop :=
  s.toRecorder = [] ∧ s.toDpi = [] ∧ ∀ h ∈ s.recorder.handlers, h.stage.isDone = true

instance (s : System) : Decidable s.Quiescent := inferInstanceAs (Decidable (_ ∧ _ ∧ _))

end System

/-! ### Where the traffic of a user is -/

/-- What an entry holds for a user. -/
def held (u : ℕ × ℕ) (e : IpUserTraffic) : ℤ := if e.user = u then e.traffic else 0

/-- The counters of the entries bound to a user. -/
def counters (u : ℕ × ℕ) (m : LvldbMgr) : ℤ := (m.cache.entries.map (fun e => held u e.2)).sum

/-- The traffic a call makes due for a user: that of a packet of an entry bound to the user, and what
an entry bound to nobody has counted when it becomes the user's. -/
def due (u : ℕ × ℕ) (v : Dpi.Event) : ℤ :=
  match v.call with
  | .login w => if (w.mobile, w.app) = u ∧ v.entry.mobile = 0 then v.entry.traffic else 0
  | c => if v.entry.user = u then v.entry.counted c else 0

/-- The traffic observed for a user. -/
def observedFor (u : ℕ × ℕ) (log : List Dpi.Event) : ℤ := (log.map (due u)).sum

/-- What is asked of a call: it fits the counter, an entry that it pushes out of the cache has nothing
to report, and a login that takes an entry from another user finds its counter at 0. -/
def CallOk (m : Monitor) (c : Call) : Prop :=
  Fits (m.mgr.entry c.ip) c ∧ (∀ e ∈ m.mgr.cache.evicted c.ip, e.2.traffic = 0) ∧
    match c with
    | .login u => (m.mgr.entry c.ip).user = (u.mobile, u.app) ∨ (m.mgr.entry c.ip).traffic = 0 ∨
        (m.mgr.entry c.ip).mobile = 0
    | _ => True

instance (m : Monitor) : ∀ c : Call, Decidable (CallOk m c)
  | .login _ | .packet _ _ _ _ | .reply _ _ => inferInstanceAs (Decidable (_ ∧ _ ∧ _))

/-- What is asked of a step: calls as above, and handlers that read and write balances successfully
and one at a time. -/
def Sound (s : System) : Act → Prop
  | .login u => CallOk s.dpi (.login u)
  | .packet ip n f t => CallOk s.dpi (.packet ip n f t)
  | .deliver => True
  | .exec i o => Serial s.recorder (.exec i o)
  | .reply t => ∀ r ∈ s.toDpi.head?, CallOk s.dpi (.reply r.ip t)

instance (s : System) : ∀ a, Decidable (Sound s a)
  | .login _ | .packet _ _ _ _ => inferInstanceAs (Decidable (CallOk _ _))
  | .deliver => .isTrue trivial
  | .exec i o => inferInstanceAs (Decidable (Serial s.recorder (.exec i o)))
  | .reply t => inferInstanceAs (Decidable (∀ r ∈ s.toDpi.head?, CallOk s.dpi (.reply r.ip t)))

section Call

variable {u : ℕ × ℕ} {e e' : IpUserTraffic} {c : Call} {r : Option TrafficReport} {b : Bool}

theorem trafficFor_append (l l' : List TrafficReport) :
    trafficFor u (l ++ l') = trafficFor u l + trafficFor u l' := by
  simp [trafficFor]

/-- The report of a call carries traffic of the user of the entry only. -/
theorem trafficFor_report (h : EntryStep e c e' r) : trafficFor u r.toList =
    if e.user = u then (r.toList.map TrafficReport.traffic).sum else 0 := by
  cases hr : r with
  | none => simp [trafficFor]
  | some r' =>
      have hu := h.report_user r' hr
      by_cases hc : e.user = u <;> simp [trafficFor, hu, hc]

/-- A call moves the traffic of a user between the entry and its report. -/
theorem held_step (h : EntryStep e c e' r) (hu : u.1 ≠ 0) (hf : Fits e c)
    (hc : -minAckLen ≤ e.traffic)
    (hl : ∀ w, c = .login w → e.user = (w.mobile, w.app) ∨ e.traffic = 0 ∨ e.mobile = 0) :
    trafficFor u r.toList + held u e' = held u e + due u ⟨c, e, b⟩ := by
  obtain ⟨-, hm⟩ := h.moves hf hc
  cases c with
  | login w =>
      cases h
      have hnew : (e.onUserLogin w).user = (w.mobile, w.app) := rfl
      have hold : e.user = u → e.mobile ≠ 0 := by
        rintro rfl
        exact hu
      have htr : (e.onUserLogin w).traffic = e.traffic := rfl
      simp only [held, due, hnew, htr, trafficFor, Option.toList_none, List.filter_nil, List.map_nil,
        List.sum_nil]
      rcases hl w rfl with hl | hl | hl
      · rw [← hl, if_neg (c := e.user = u ∧ _) fun h => hold h.1 h.2]
        simp
      · simp [hl]
      · rw [if_neg fun h => hold h hl]
        simp [hl]
  | packet | reply =>
      rw [trafficFor_report h, held, held, h.user_eq rfl, due]
      split_ifs with hue
      · exact hm
      · rfl

end Call

/-- The traffic observed for a user is in the counters, on its way or with the recorder. -/
structure Flow (u : ℕ × ℕ) (s : System) : Prop where
  counter : ∀ e ∈ s.dpi.mgr.cache.entries, -minAckLen ≤ e.2.traffic
  conserved : trafficFor u s.toRecorder + received u s.recorder.handlers + counters u s.dpi.mgr =
    observedFor u s.dpi.log

theorem entry_mem {m : LvldbMgr} (ip : ℕ) (h : ∀ e ∈ m.cache.entries, -minAckLen ≤ e.2.traffic) :
    -minAckLen ≤ (m.entry ip).traffic := by
  cases hl : m.cache.lookup ip with
  | none => simp [LvldbMgr.entry, hl, minAckLen]
  | some e =>
      simpa [LvldbMgr.entry, hl] using h (ip, e) (Shards.mem_of_lookup hl)

/-- The counters after a call that pushes out nothing but counters at 0. -/
theorem counters_put {u : ℕ × ℕ} {m : LvldbMgr} {ip : ℕ} {e : IpUserTraffic}
    (h : ∀ e ∈ m.cache.evicted ip, e.2.traffic = 0) :
    counters u (m.put ip e) + held u (m.entry ip) = counters u m + held u e := by
  have hev : ((m.cache.evicted ip).map (fun e => held u e.2)).sum = 0 := by
    refine List.sum_eq_zero fun x hx => ?_
    obtain ⟨p, hp, rfl⟩ := List.mem_map.mp hx
    simp [held, h p hp]
  have hput := m.cache.sum_put (k := ip) (a := e) (fun e => held u e.2)
  have hent : ((m.cache.lookup ip).map (fun b => held u b)).getD 0 = held u (m.entry ip) := by
    cases hl : m.cache.lookup ip <;> simp [LvldbMgr.entry, hl, held]
  rw [hev, hent] at hput
  simp only [counters, LvldbMgr.put] at hput ⊢
  omega

theorem Flow.call {u : ℕ × ℕ} {s : System} {c : Call} (hu : u.1 ≠ 0) (hok : CallOk s.dpi c)
    (h : Flow u s) : Flow u (s.call c) := by
  obtain ⟨hc, hf⟩ := h
  obtain ⟨hfit, hev, hl⟩ := hok
  have hs := c.onEntry_step (s.dpi.mgr.entry c.ip)
  have hce := entry_mem c.ip hc
  refine ⟨?_, ?_⟩
  · intro e he
    simp only [System.call, Monitor.step, LvldbMgr.call_eq] at he
    rcases Shards.mem_of_mem_put he with rfl | he
    · exact (hs.moves hfit hce).1
    · exact hc e he
  · have hheld := held_step (u := u) (b := s.dpi.fresh c) hs hu hfit hce (by rintro w rfl; exact hl)
    have hcnt := counters_put (u := u) (e := (c.onEntry (s.dpi.mgr.entry c.ip)).1) hev
    simp only [System.call, Monitor.step, LvldbMgr.call_eq, trafficFor_append, observedFor,
      List.map_append, List.sum_append, List.map_cons, List.map_nil, List.sum_singleton] at hf ⊢
    push_cast
    generalize counters u (s.dpi.mgr.put c.ip (c.onEntry (s.dpi.mgr.entry c.ip)).1) = after at hcnt ⊢
    omega

theorem received_exec {u : ℕ × ℕ} {s : State} {i : ℕ} {o : Outcome} :
    received u (s.exec i o).handlers = received u s.handlers := by
  have h := s.step_reqs (.exec i o)
  rw [Event.req, Option.toList_none, List.append_nil] at h
  rw [received, received, ← h, State.step]

theorem Flow.step {u : ℕ × ℕ} {s : System} {a : Act} (hu : u.1 ≠ 0) (ha : Sound s a)
    (h : Flow u s) : Flow u (s.step a) := by
  cases a with
  | login w => exact h.call hu ha
  | packet ip n f t => exact h.call hu ha
  | deliver =>
      rw [System.step]
      cases hr : s.toRecorder with
      | nil => exact h
      | cons r rs =>
          obtain ⟨hc, hf⟩ := h
          refine ⟨hc, ?_⟩
          rw [hr] at hf
          simp only [State.receive, received, List.map_append, trafficFor_append] at hf ⊢
          have hcons : trafficFor u (r :: rs) = trafficFor u [r] + trafficFor u rs :=
            trafficFor_append [r] rs
          simp only [List.map_cons, List.map_nil]
          push_cast at hf hcons ⊢
          omega
  | exec i o =>
      obtain ⟨hc, hf⟩ := h
      refine ⟨hc, ?_⟩
      simpa only [System.step, received_exec] using hf
  | reply t =>
      rw [System.step]
      cases hr : s.toDpi with
      | nil => exact h
      | cons r rs =>
          refine Flow.call (s := { s with toDpi := rs }) hu ?_ ⟨h.counter, h.conserved⟩
          exact ha r (by rw [hr]; rfl)

theorem deducted_step {u : ℕ × ℕ} {b₀ : ℤ} {s : System} {a : Act} (ha : Sound s a)
    (h : Deducted u b₀ s.recorder) : Deducted u b₀ (s.step a).recorder := by
  cases a with
  | login | packet => exact h
  | deliver =>
      rw [System.step]
      cases s.toRecorder with
      | nil => exact h
      | cons r rs => exact h.receive r
  | exec i o => exact h.step (e := .exec i o) ha
  | reply t =>
      rw [System.step]
      cases s.toDpi with
      | nil => exact h
      | cons r rs => exact h

/-- **Nothing is lost between the packet and the balance** as long as reading and writing balances
succeeds: at rest, what was deducted from the balance of a user and what the entries bound to the
user hold is what was observed for the user. -/
theorem deducted_add_counters (r : Redis) (u : ℕ × ℕ) (b₀ : ℤ) (acts : List Act) (hu : u.1 ≠ 0)
    (hb : r.balance u.1 u.2 = some b₀)
    (hrun : Throughout System.step Sound acts (System.init r))
    (hq : (acts.foldl System.step (System.init r)).Quiescent) :
    let s := acts.foldl System.step (System.init r)
    ∃ deducted : ℤ, s.recorder.redis.balance u.1 u.2 = some (wrapI64 (b₀ - deducted)) ∧
      deducted + counters u s.dpi.mgr = observedFor u s.dpi.log := by
  have h₀ : Flow u (System.init r) ∧ Deducted u b₀ (System.init r).recorder := by
    refine ⟨⟨?_, ?_⟩, deducted_init hb⟩
    · intro e he
      cases he
    · simp [System.init, trafficFor, received, counters, observedFor, LvldbMgr.init, Shards.entries_empty]
  obtain ⟨hf, hd⟩ := hrun.invariant (I := fun s => Flow u s ∧ Deducted u b₀ s.recorder)
    (fun s a ha h => ⟨h.1.step hu ha, deducted_step ha h.2⟩) h₀
  obtain ⟨hq₁, -, hq₂⟩ := hq
  refine ⟨received u (acts.foldl System.step (System.init r)).recorder.handlers, ?_, ?_⟩
  · rw [hd.balance, owing_eq_zero fun h hh => Stage.settled_of_isDone (hq₂ h hh)]
    simp
  · have hc := hf.conserved
    rw [hq₁] at hc
    simpa [trafficFor] using hc

/-- User (1, 2) logs in, sends 352 bytes and resets the connection; the report reaches the recorder. -/
def oneReport : List Act :=
  [.login ⟨2, 1, 7, 0⟩, .packet 7 300 0 {}, .packet 7 52 4 {}, .deliver]

/-- The handler gets no reply to its GET, answers, and the DPI handles the answer. -/
def failedGetRun : List Act := oneReport ++ [.exec 0 (.failed false none), .reply {}]

/-- At rest nothing has been deducted, the counter is at -40 and no report is due: the 352 bytes that
were observed are lost. -/
theorem failed_report_lost :
    let s := failedGetRun.foldl System.step (System.init oneAccount)
    s.Quiescent ∧ s.recorder.handlers.map Handler.stage = [.done 0xff] ∧
      s.recorder.redis.balance 1 2 = oneAccount.balance 1 2 ∧ counters (1, 2) s.dpi.mgr = -40 ∧
      (s.dpi.mgr.entry 7).reporting = false ∧ observedFor (1, 2) s.dpi.log = 352 := by
  decide +kernel

/-- The balance is read and written, and the detail cannot be stored. -/
def failedDetailRun : List Act :=
  oneReport ++ [.exec 0 .ok, .exec 0 .ok, .exec 0 (.failed false none), .reply {}]

theorem deducted_add_counters_detailFails :
    let s := failedDetailRun.foldl System.step (System.init oneAccount)
    ∃ deducted : ℤ, s.recorder.redis.balance 1 2 = some (wrapI64 (1000 - deducted)) ∧
      deducted + counters (1, 2) s.dpi.mgr = observedFor (1, 2) s.dpi.log :=
  deducted_add_counters oneAccount (1, 2) 1000 _ (by decide) (by decide +kernel) (by decide +kernel)
    (by decide +kernel)

end HttpsTunnel.Billing

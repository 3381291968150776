import HttpsTunnel.Dpi.Account
import HttpsTunnel.Lib.Queue

/-! # What the DPI reports

Three results about the reports of an address.  While the entry stays bound and in the cache no
traffic is lost or made up: what was reported and what the counter holds is what was observed
(`conservation`).  A report is in flight exactly while the flag `reporting` is set
(`one_report_in_flight`).  And the bytes of a user are reported under that user as long as nobody
else logs in from the address while the counter is not at 0 (`billed_to_user`); `OnUserLogin`
overwrites the user without looking at the counter (`billed_to_next_user`). -/

namespace HttpsTunnel.Dpi

open HttpsTunnel.Lib HttpsTunnel.Wire

/-! ### Conservation -/

/-- What was reported and what the counter holds is what was observed, from `c₀` on. -/
structure Balanced (c₀ : ℤ) (a : Account) : Prop where
  bound : a.entry.mobile ≠ 0
  counter : -minAckLen ≤ a.entry.traffic
  conserved : reported a.log + a.entry.traffic = c₀ + observed a.log

theorem Balanced.step {c₀ : ℤ} {a : Account} {c : Call} (hl : c.isLogin = false)
    (hf : Fits a.entry c) (h : Balanced c₀ a) (b : Bool) : Balanced c₀ (a.step c b) := by
  obtain ⟨hm, hc, he⟩ := h
  have hs := c.onEntry_step a.entry
  obtain ⟨hc', he'⟩ := hs.moves hf hc
  have hu : (c.onEntry a.entry).1.mobile = a.entry.mobile := congrArg Prod.fst (hs.user_eq hl)
  refine ⟨by rwa [Account.step_entry, hu], hc', ?_⟩
  rw [IpUserTraffic.counted_of_bound hm] at he'
  rw [Account.reported_step, Account.observed_step, Account.step_entry]
  push_cast at he' ⊢
  omega

/-- **The DPI conserves traffic.**  For an address that is bound to a user and stays in the cache,
whatever packets and replies come in whatever order, the traffic of the reports sent and the counter
make up what the counter held before and what was observed; the counter never falls below -40. -/
theorem conservation (mgr : LvldbMgr) (ip : ℕ) (e : IpUserTraffic) (calls : List Call)
    (he : mgr.cache.lookup ip = some e) (hm : e.mobile ≠ 0) (hc : -40 ≤ e.traffic)
    (hrun : Throughout Monitor.step (fun m c => Monitor.Keeps ip m c ∧
      (c.ip = ip → c.isLogin = false ∧ Fits (m.mgr.entry ip) c)) calls ⟨mgr, []⟩) :
    let m := Monitor.run ⟨mgr, []⟩ calls
    reported (m.events ip) + (m.mgr.entry ip).traffic = e.traffic + observed (m.events ip) ∧
      -40 ≤ (m.mgr.entry ip).traffic := by
  have hentry : mgr.entry ip = e := by simp [LvldbMgr.entry, he]
  have h₀ : Balanced e.traffic (Monitor.account ⟨mgr, []⟩ ip) := by
    refine ⟨?_, ?_, ?_⟩ <;> simp only [Monitor.account, hentry]
    · exact hm
    · exact hc
    · simp [Monitor.events, reported, reports, observed]
  have h := Monitor.invariant (P := fun a c => c.isLogin = false ∧ Fits a.entry c)
    (fun a c b hP hJ => hJ.step hP.1 hP.2 b) hrun h₀
  exact ⟨h.conserved, h.counter⟩

/-- An address bound to user 1 sends 300 bytes, resets, sends on and has its report answered, with
packets of another address in between. -/
theorem conservation_resetRun :
    let mgr : LvldbMgr := ⟨LvldbMgr.init.cache.put 7 { mobile := 1, app := 2 }⟩
    let m := Monitor.run ⟨mgr, []⟩ [.packet 7 300 0 {}, .packet 9 80 1 {}, .packet 7 52 4 {},
      .packet 7 400 1 {}, .reply 7 {}, .reply 7 {}]
    reported (m.events 7) + (m.mgr.entry 7).traffic = (0 : ℤ) + observed (m.events 7) ∧
      -40 ≤ (m.mgr.entry 7).traffic :=
  conservation _ 7 { mobile := 1, app := 2 } _ (by decide +kernel) (by decide) (by decide)
    (by decide +kernel)

/-! ### One report in flight -/

/-- The calls there can be: users log in with a mobile number, the traffic of a packet is an `int`
that is not negative, and a reply answers a report that has none yet. -/
def Answers (a : Account) : Call → Prop
  | .login u => u.mobile ≠ 0
  | .packet _ n _ _ => n < 2 ^ 31
  | .reply _ _ => replies a.log < (reports a.log).length

instance (a : Account) : ∀ c, Decidable (Answers a c)
  | .login u => inferInstanceAs (Decidable (u.mobile ≠ 0))
  | .packet _ n _ _ => inferInstanceAs (Decidable (n < 2 ^ 31))
  | .reply _ _ => inferInstanceAs (Decidable (_ < _))

/-- The flag `reporting` and the reports in flight are in step. -/
structure InStep (a : Account) : Prop where
  flight : (reports a.log).length = replies a.log + a.entry.reporting.toNat
  bound : a.entry.reporting = true → a.entry.mobile ≠ 0
  counter : a.entry.traffic < 2 ^ 31
  sent : ∀ r ∈ reports a.log, 296 < r.traffic ∧ r.mobile ≠ 0

/-- The value of a report sent with a reply: should the sum leave the range of `int`, the conversion
makes it a large number. -/
theorem lt_toU64_chain {z : ℤ} (h : 256 < z) (h' : z < 2 ^ 31) :
    296 < toU64 (wrapI32 (z + minAckLen)) := by
  have hw : wrapI32 (z + 40) = z + 40 ∨ wrapI32 (z + 40) = z + 40 - 2 ^ 32 := by
    rw [wrapI32, Int.bmod_def]
    split_ifs <;> omega
  rw [minAckLen, toU64]
  rcases hw with hw | hw <;> rw [hw] <;> omega

theorem EntryStep.inStep {a : Account} {c : Call} {e' : IpUserTraffic} {r : Option TrafficReport}
    (h : EntryStep a.entry c e' r) (hp : Answers a c) (hI : InStep a) :
    r.toList.length + a.entry.reporting.toNat = c.isReply.toNat + e'.reporting.toNat ∧
      (e'.reporting = true → e'.mobile ≠ 0) ∧ e'.traffic < 2 ^ 31 ∧
      ∀ r' ∈ r.toList, 296 < r'.traffic ∧ r'.mobile ≠ 0 := by
  obtain ⟨hf, hb, hi, hs⟩ := hI
  cases h with
  | login u => exact ⟨by simp [Call.isReply, IpUserTraffic.onUserLogin], fun _ => hp, hi, by simp⟩
  | count ip n f t fins hd => exact ⟨by simp [Call.isReply], hb, (wrapI32_mem _).2, by simp⟩
  | drop ip n f t fins hd => exact ⟨by simp [Call.isReply], hb, hi, by simp⟩
  | report ip n f t hr ht hm =>
      rw [Answers] at hp
      have hu : (toU64 (a.entry.traffic + n + 40) : ℤ) = a.entry.traffic + n + 40 :=
        toU64_of_mem (by omega) (by omega)
      refine ⟨by simp [Call.isReply, hr], fun _ => hm, by simp only [minAckLen]; omega, ?_⟩
      simp only [Option.toList_some, List.mem_singleton, forall_eq, IpUserTraffic.report, minAckLen]
      exact ⟨by omega, hm⟩
  | chain ip t hr ht =>
      refine ⟨by simp [Call.isReply, hr], hb, by simp only [minAckLen]; omega, ?_⟩
      simp only [Option.toList_some, List.mem_singleton, forall_eq, IpUserTraffic.report]
      exact ⟨lt_toU64_chain ht hi, hb hr⟩
  | finish ip t hr => exact ⟨by simp [Call.isReply, hr], by simp, hi, by simp⟩
  | idle ip t hr =>
      -- a reply needs a report in flight, and with the flag clear there is none
      rw [Answers, hf, hr] at hp
      exact absurd hp (by simp)

theorem InStep.step {a : Account} {c : Call} (hp : Answers a c) (h : InStep a) (b : Bool) :
    InStep (a.step c b) := by
  obtain ⟨hf, hb, hi, hs⟩ := (c.onEntry_step a.entry).inStep hp h
  refine ⟨?_, hb, hi, ?_⟩
  · have := h.flight
    rw [Account.reports_step, Account.replies_step, Account.step_entry, List.length_append]
    omega
  · intro r hmem
    rw [Account.reports_step, List.mem_append] at hmem
    exact hmem.elim (h.sent r) (hs r)

/-- **One report in flight per address.**  Whatever packets, logins and replies there are, while the
entry of an address stays in the cache the reports sent for it less the replies processed are its
flag `reporting`, and every report has a traffic of more than 296 and a user. -/
theorem one_report_in_flight (ip : ℕ) (calls : List Call)
    (hrun : Throughout Monitor.step (fun m c => Monitor.Keeps ip m c ∧
      (c.ip = ip → Answers (m.account ip) c)) calls ⟨LvldbMgr.init, []⟩) :
    let m := Monitor.run ⟨LvldbMgr.init, []⟩ calls
    ((reports (m.events ip)).length : ℤ) - replies (m.events ip) =
        (m.mgr.entry ip).reporting.toNat ∧
      ∀ r ∈ reports (m.events ip), 296 < r.traffic ∧ r.mobile ≠ 0 := by
  have h₀ : InStep (Monitor.account ⟨LvldbMgr.init, []⟩ ip) := by
    refine ⟨rfl, ?_, ?_, ?_⟩ <;>
      simp [Monitor.account, Monitor.events, LvldbMgr.entry, LvldbMgr.init, reports]
  have h := Monitor.invariant (P := Answers) (fun a c b hP hJ => hJ.step hP b) hrun h₀
  have hf := h.flight
  simp only [Monitor.account] at hf
  exact ⟨by rw [hf]; push_cast; omega, h.sent⟩

/-- A report, another one with its reply, and the end. -/
theorem one_report_in_flight_resetRun :
    let m := Monitor.run ⟨LvldbMgr.init, []⟩ [.login ⟨2, 1, 7, 0⟩, .packet 7 300 0 {},
      .packet 7 52 4 {}, .packet 7 400 1 {}, .reply 7 {}, .reply 7 {}]
    ((reports (m.events 7)).length : ℤ) - replies (m.events 7) =
        (m.mgr.entry 7).reporting.toNat ∧
      ∀ r ∈ reports (m.events 7), 296 < r.traffic ∧ r.mobile ≠ 0 :=
  one_report_in_flight 7 _ (by decide +kernel)

/-! ### Whose traffic a report carries -/

/-- The bytes a call adds to the count, each as the user the entry is bound to. -/
def Event.bytes (v : Event) : List (ℕ × ℕ) :=
  List.replicate (v.entry.counted v.call) v.entry.user

/-- The bytes of a report, each as the user of the report. -/
def reportBytes (r : TrafficReport) : List (ℕ × ℕ) := List.replicate r.traffic (r.mobile, r.app)

def observedBytes (log : List Event) : List (ℕ × ℕ) := log.flatMap Event.bytes

def reportedBytes (log : List Event) : List (ℕ × ℕ) := (reports log).flatMap reportBytes

/-- The events since the entry of the address was last inserted. -/
def lifetime (log : List Event) : List Event :=
  log.foldl (fun l v => if v.fresh then [v] else l ++ [v]) []

/-- A login that changes the user of the entry finds its counter at 0, or not negative if the entry
was not bound to a user; and every call fits the counter. -/
def Undisturbed (e : IpUserTraffic) (c : Call) : Prop :=
  Fits e c ∧ match c with
    | .login u => e.user = (u.mobile, u.app) ∨ e.traffic = 0 ∨ e.mobile = 0 ∧ 0 ≤ e.traffic
    | _ => True

instance (e : IpUserTraffic) : ∀ c : Call, Decidable (Undisturbed e c)
  | .login _ | .packet _ _ _ _ | .reply _ _ => inferInstanceAs (Decidable (_ ∧ _))

/-- The counter is what is observed and not reported, and every byte has its user. -/
structure Attributed (a : Account) : Prop where
  counter : -minAckLen ≤ a.entry.traffic
  conserved : (reportedBytes a.log).length + a.entry.traffic = (observedBytes a.log).length
  queue : Queue (fun u => u.1 ≠ 0) a.entry.user (observedBytes a.log) (reportedBytes a.log)

namespace Account

variable (a : Account) (c : Call) (b : Bool)

theorem observedBytes_step : observedBytes (a.step c b).log =
    observedBytes a.log ++ Event.bytes ⟨c, a.entry, b⟩ := by
  simp [observedBytes, step]

theorem reportedBytes_step : reportedBytes (a.step c b).log =
    reportedBytes a.log ++ (c.onEntry a.entry).2.toList.flatMap reportBytes := by
  rw [reportedBytes, reports_step, List.flatMap_append, reportedBytes]

end Account

/-- The bytes of what a call reports are those of the user it found. -/
theorem EntryStep.flatMap_reportBytes {e e' : IpUserTraffic} {c : Call} {r : Option TrafficReport}
    (h : EntryStep e c e' r) : r.toList.flatMap reportBytes =
      List.replicate (r.toList.map TrafficReport.traffic).sum e.user := by
  cases hr : r with
  | none => rfl
  | some r' => simp [reportBytes, h.report_user r' hr]

theorem Attributed.step {a : Account} {c : Call} (hu : Undisturbed a.entry c) (h : Attributed a)
    (b : Bool) : Attributed (a.step c b) := by
  obtain ⟨hf, hl⟩ := hu
  obtain ⟨hc, hn, hq⟩ := h
  have hs := c.onEntry_step a.entry
  obtain ⟨hc', hn'⟩ := hs.moves hf hc
  have ho := a.observedBytes_step c b
  have hr := a.reportedBytes_step c b
  rw [hs.flatMap_reportBytes] at hr
  refine ⟨hc', ?_, ?_⟩
  · rw [ho, hr, Account.step_entry]
    simp only [Event.bytes, List.length_append, List.length_replicate]
    push_cast at hn' ⊢
    omega
  · rw [ho, hr]
    cases c with
    | login u =>
        simp only [Event.bytes, IpUserTraffic.counted, Call.onEntry, Option.toList_none, List.map_nil,
          List.sum_nil, List.replicate_zero, List.append_nil]
        have hnew : (a.step (.login u) b).entry.user = (u.mobile, u.app) := rfl
        rw [hnew]
        rcases hl with hl | hl | ⟨hl, hl'⟩
        · rwa [← hl]
        · exact hq.settled (by omega)
        · exact hq.taken (by simpa [IpUserTraffic.user] using hl) (by omega)
    | packet | reply =>
        rw [Account.step_entry, hs.user_eq rfl]
        exact hq.enter.leave

theorem lifetime_concat (log : List Event) (v : Event) :
    lifetime (log ++ [v]) = if v.fresh then [v] else lifetime log ++ [v] := by
  simp [lifetime]

/-- The account of an address whose entry is in the cache, since it was inserted. -/
def Monitor.Tracks (ip : ℕ) (m : Monitor) : Prop :=
  (∀ e, m.mgr.cache.lookup ip = some e → Attributed ⟨e, lifetime (m.events ip)⟩) ∧
    ∀ (i : ℕ) (x y : ℕ × ℕ), (observedBytes (lifetime (m.events ip)))[i]? = some x →
      (reportedBytes (lifetime (m.events ip)))[i]? = some y → x.1 ≠ 0 → y = x

theorem attributed_new : Attributed {} := by
  refine ⟨by decide, rfl, ?_, ?_, ?_⟩ <;> simp [observedBytes, reportedBytes, reports]

theorem Monitor.Tracks.step {ip : ℕ} {m : Monitor} {c : Call}
    (hu : c.ip = ip → Undisturbed (m.mgr.entry ip) c) (h : m.Tracks ip) : (m.step c).Tracks ip := by
  by_cases hc : c.ip = ip
  · subst hc
    suffices hA : Attributed ⟨(c.onEntry (m.mgr.entry c.ip)).1, lifetime ((m.step c).events c.ip)⟩ by
      refine ⟨?_, hA.queue.fair⟩
      rintro e he
      obtain rfl := Option.mem_unique step_lookup_self he
      exact hA
    rw [events_step_self, lifetime_concat]
    cases hl : m.mgr.cache.lookup c.ip with
    | none =>
        -- a new entry starts a new history
        have he : m.mgr.entry c.ip = {} := by simp [LvldbMgr.entry, hl]
        have hf : m.fresh c = true := by simp [fresh, hl]
        rw [if_pos hf, he]
        exact attributed_new.step (he ▸ hu rfl) (m.fresh c)
    | some e =>
        have he : m.mgr.entry c.ip = e := by simp [LvldbMgr.entry, hl]
        have hf : m.fresh c = false := by simp [fresh, hl]
        rw [if_neg (by simp [hf]), he]
        exact (h.1 e hl).step (he ▸ hu rfl) (m.fresh c)
  · refine ⟨?_, ?_⟩ <;> rw [events_step_ne hc]
    · exact fun e he => h.1 e (lookup_of_step_ne hc he)
    · exact h.2

/-- **Traffic is billed to the user who caused it**, as long as a login that changes the user of an
address finds its counter at 0: in the history of an entry, a byte observed while the address was
bound to a user is reported, if it is, in a report of that user. -/
theorem billed_to_user (ip : ℕ) (calls : List Call)
    (hrun : Throughout Monitor.step (fun m c => c.ip = ip → Undisturbed (m.mgr.entry ip) c) calls
      ⟨LvldbMgr.init, []⟩) :
    let log := lifetime ((Monitor.run ⟨LvldbMgr.init, []⟩ calls).events ip)
    ∀ (i : ℕ) (x y : ℕ × ℕ), (observedBytes log)[i]? = some x → (reportedBytes log)[i]? = some y →
      x.1 ≠ 0 → y = x := by
  have h₀ : Monitor.Tracks ip ⟨LvldbMgr.init, []⟩ := by
    refine ⟨fun e he => by simp [LvldbMgr.init] at he, ?_⟩
    simp [Monitor.events, lifetime, observedBytes]
  exact (hrun.invariant (I := Monitor.Tracks ip) (fun m c hu hI => hI.step hu) h₀).2

/-- User 1 sends 300 bytes; user 5 logs in from the same address, and the connection is reset. -/
def nextUserRun : List Call :=
  [.login ⟨2, 1, 7, 0⟩, .packet 7 300 0 {}, .login ⟨2, 5, 7, 0⟩, .packet 7 52 4 {}]

/-- The first byte was observed for user 1 and is reported for user 5. -/
theorem billed_to_next_user :
    let log := lifetime ((Monitor.run ⟨LvldbMgr.init, []⟩ nextUserRun).events 7)
    (observedBytes log)[0]? = some (1, 2) ∧ (reportedBytes log)[0]? = some (5, 2) ∧
      (reports log).map TrafficReport.traffic = [392] := by
  decide +kernel

/-- Two users one after the other, the first one's counter back at 0. -/
theorem billed_to_user_settledRun :
    let log := lifetime ((Monitor.run ⟨LvldbMgr.init, []⟩ [.login ⟨2, 1, 7, 0⟩, .packet 7 300 0 {},
      .packet 7 52 4 {}, .packet 7 40 0 {}, .reply 7 {}, .login ⟨2, 5, 7, 0⟩, .packet 7 300 0 {},
      .packet 7 52 4 {}]).events 7)
    ∀ (i : ℕ) (x y : ℕ × ℕ), (observedBytes log)[i]? = some x → (reportedBytes log)[i]? = some y →
      x.1 ≠ 0 → y = x :=
  billed_to_user 7 _ (by decide +kernel)

end HttpsTunnel.Dpi

import HttpsTunnel.Dpi.Manager

/-! # The history of one address

A run of the DPI is a list of calls.  `Monitor` keeps with the manager the log of the calls made
so far, each with the entry it found.  The calls of other addresses do not touch the entry of an
address unless they push it out of the cache, so as long as it is kept its history is that of an
`Account`: one entry and the calls made on it.  `Monitor.invariant` carries an invariant of
accounts over a run of the DPI. -/

namespace HttpsTunnel.Dpi

open HttpsTunnel.Lib HttpsTunnel.Wire

/-! ### What a call does to an entry -/

/-- A packet with flags `f` is left out of the count: the entry is due to be reported and not bound
to a user. -/
def IpUserTraffic.Drops (e : IpUserTraffic) (f : ℕ) : Prop :=
  e.fins ||| f ≥ finTypeC ||| finTypeS ∧ (e.reporting = false ∧ e.traffic > 256) ∧ e.mobile = 0

instance (e : IpUserTraffic) (f : ℕ) : Decidable (e.Drops f) := inferInstanceAs (Decidable (_ ∧ _))

/-- What a call can do to the entry it finds, and the report it can send. -/
inductive EntryStep (e : IpUserTraffic) : Call → IpUserTraffic → Option TrafficReport → Prop
  | login (u : SynUserTuple) : EntryStep e (.login u) (e.onUserLogin u) none
  | count (ip n f : ℕ) (t : Clock) (fins : ℕ) (hd : ¬ e.Drops f) :
      EntryStep e (.packet ip n f t) { e with fins := fins, traffic := wrapI32 (e.traffic + n) } none
  | drop (ip n f : ℕ) (t : Clock) (fins : ℕ) (hd : e.Drops f) :
      EntryStep e (.packet ip n f t) { e with fins := fins } none
  | report (ip n f : ℕ) (t : Clock) (hr : e.reporting = false) (ht : 256 < e.traffic)
      (hm : e.mobile ≠ 0) :
      EntryStep e (.packet ip n f t) { e with reporting := true, traffic := -minAckLen, fins := 0 }
        (some (e.report ip (e.traffic + n + minAckLen) t))
  | chain (ip : ℕ) (t : Clock) (hr : e.reporting = true) (ht : 256 < e.traffic) :
      EntryStep e (.reply ip t) { e with traffic := -minAckLen, fins := 0 }
        (some (e.report ip (wrapI32 (e.traffic + minAckLen)) t))
  | finish (ip : ℕ) (t : Clock) (hr : e.reporting = true) :
      EntryStep e (.reply ip t) { e with reporting := false } none
  | idle (ip : ℕ) (t : Clock) (hr : e.reporting = false) : EntryStep e (.reply ip t) e none

theorem Call.onEntry_step (c : Call) (e : IpUserTraffic) :
    EntryStep e c (c.onEntry e).1 (c.onEntry e).2 := by
  cases c with
  | login u => exact .login u
  | packet ip n f t =>
      simp only [onEntry, IpUserTraffic.onTrafficReport]
      split_ifs with hf hr hm
      · exact .drop ip n f t _ ⟨hf, hr, hm⟩
      · exact .report ip n f t hr.1 hr.2 hm
      · exact .count ip n f t _ (fun hd => hr hd.2.1)
      · exact .count ip n f t _ (fun hd => hf hd.1)
  | reply ip t =>
      simp only [onEntry, IpUserTraffic.onTrafficReportReply]
      split_ifs with hr ht
      · exact .chain ip t hr ht.1
      · exact .finish ip t hr
      · exact .idle ip t (by simpa using hr)

/-! ### Traffic -/

/-- The traffic of the packet a call is about. -/
def Call.traffic : Call → ℕ
  | packet _ n _ _ => n
  | _ => 0

def Call.isReply : Call → Bool
  | reply _ _ => true
  | _ => false

def Call.isLogin : Call → Bool
  | login _ => true
  | _ => false

/-- The user an entry is bound to, with mobile number 0 if it is not. -/
def IpUserTraffic.user (e : IpUserTraffic) : ℕ × ℕ := (e.mobile, e.app)

/-- The traffic a call adds to the count of the entry it finds. -/
def IpUserTraffic.counted (e : IpUserTraffic) : Call → ℕ
  | .packet _ n f _ => if e.Drops f then 0 else n
  | _ => 0

theorem IpUserTraffic.counted_of_bound {e : IpUserTraffic} {c : Call} (h : e.mobile ≠ 0) :
    e.counted c = c.traffic := by
  cases c with
  | packet ip n f t => exact if_neg fun hd => h hd.2.2
  | login | reply => rfl

/-- The call fits the 32-bit counter of the entry, the 40 bytes of a report included. -/
def Fits (e : IpUserTraffic) (c : Call) : Prop := e.traffic + c.traffic ≤ 2 ^ 31 - 41

instance (e : IpUserTraffic) (c : Call) : Decidable (Fits e c) := inferInstanceAs (Decidable (_ ≤ _))

section Arithmetic

variable {e : IpUserTraffic} {c : Call}

theorem Fits.count (h : Fits e c) (h' : -minAckLen ≤ e.traffic) :
    wrapI32 (e.traffic + c.traffic) = e.traffic + c.traffic := by
  rw [Fits] at h
  rw [minAckLen] at h'
  exact wrapI32_of_mem (by omega) (by omega)

theorem Fits.report (h : Fits e c) (h' : -minAckLen ≤ e.traffic) :
    (toU64 (e.traffic + c.traffic + minAckLen) : ℤ) = e.traffic + c.traffic + minAckLen := by
  rw [Fits] at h
  rw [minAckLen] at h' ⊢
  exact toU64_of_mem (by omega) (by omega)

theorem Fits.chain (h : Fits e c) (h' : -minAckLen ≤ e.traffic) :
    (toU64 (wrapI32 (e.traffic + minAckLen)) : ℤ) = e.traffic + minAckLen := by
  rw [Fits] at h
  rw [minAckLen] at h' ⊢
  rw [wrapI32_of_mem (by omega) (by omega)]
  exact toU64_of_mem (by omega) (by omega)

end Arithmetic

namespace EntryStep

variable {e e' : IpUserTraffic} {c : Call} {r : Option TrafficReport}

/-- A call moves traffic between the counter and its report, and adds what it counts. -/
theorem moves (h : EntryStep e c e' r) (hf : Fits e c) (hc : -minAckLen ≤ e.traffic) :
    -minAckLen ≤ e'.traffic ∧
      ((r.toList.map TrafficReport.traffic).sum : ℕ) + e'.traffic = e.traffic + e.counted c := by
  cases h with
  | login u => exact ⟨hc, by simp [IpUserTraffic.counted, IpUserTraffic.onUserLogin]⟩
  | count ip n f t fins hd =>
      have hw := hf.count hc
      simp only [Call.traffic, IpUserTraffic.counted, if_neg hd] at hw ⊢
      refine ⟨?_, ?_⟩ <;> simp only [hw, Option.toList_none, List.map_nil, List.sum_nil] <;> omega
  | drop ip n f t fins hd => exact ⟨hc, by simp [IpUserTraffic.counted, hd]⟩
  | report ip n f t hr ht hm =>
      have hw := hf.report hc
      rw [IpUserTraffic.counted_of_bound hm]
      simp only [Call.traffic] at hw ⊢
      exact ⟨le_rfl, by simp [IpUserTraffic.report, hw]⟩
  | chain ip t hr ht =>
      have hw := hf.chain hc
      exact ⟨le_rfl, by simp [IpUserTraffic.counted, IpUserTraffic.report, hw]⟩
  | finish ip t hr | idle ip t hr => exact ⟨hc, by simp [IpUserTraffic.counted]⟩

theorem user_eq (h : EntryStep e c e' r) (hl : c.isLogin = false) : e'.user = e.user := by
  cases h with
  | login u => cases hl
  | count | drop | report | chain | finish | idle => rfl

theorem report_user (h : EntryStep e c e' r) (r' : TrafficReport) (hr : r = some r') :
    (r'.mobile, r'.app) = e.user := by
  cases h with
  | login | count | drop | finish | idle => cases hr
  | report | chain =>
      obtain rfl := Option.some.inj hr
      rfl

end EntryStep

/-! ### Events -/

/-- A call with the entry it found; `fresh` says that it had to insert one. -/
structure Event where
  call : Call
  entry : IpUserTraffic
  fresh : Bool
deriving DecidableEq, Repr

/-- The report the call sent. -/
def Event.report (v : Event) : Option TrafficReport := (v.call.onEntry v.entry).2

/-- The reports sent in a history. -/
def reports (log : List Event) : List TrafficReport := log.filterMap Event.report

/-- The traffic reported in a history. -/
def reported (log : List Event) : ℕ := ((reports log).map TrafficReport.traffic).sum

/-- The traffic observed in a history. -/
def observed (log : List Event) : ℕ := (log.map (fun v => v.call.traffic)).sum

/-- The replies processed in a history. -/
def replies (log : List Event) : ℕ := log.countP (fun v => v.call.isReply)

/-! ### Accounts -/

/-- One entry and its history. -/
structure Account where
  entry : IpUserTraffic := {}
  log : List Event := []

namespace Account

def step (a : Account) (c : Call) (fresh : Bool) : Account :=
  ⟨(c.onEntry a.entry).1, a.log ++ [⟨c, a.entry, fresh⟩]⟩

variable (a : Account) (c : Call) (b : Bool)

@[simp] theorem step_entry : (a.step c b).entry = (c.onEntry a.entry).1 := rfl

@[simp] theorem reports_step :
    reports (a.step c b).log = reports a.log ++ (c.onEntry a.entry).2.toList := by
  simp only [step, reports, List.filterMap_append, List.append_cancel_left_eq]
  cases h : (c.onEntry a.entry).2 <;> simp [Event.report, h]

@[simp] theorem reported_step : reported (a.step c b).log =
    reported a.log + ((c.onEntry a.entry).2.toList.map TrafficReport.traffic).sum := by
  rw [reported, reports_step, List.map_append, List.sum_append, reported]

@[simp] theorem observed_step : observed (a.step c b).log = observed a.log + c.traffic := by
  simp [step, observed]

@[simp] theorem replies_step : replies (a.step c b).log = replies a.log + c.isReply.toNat := by
  cases h : c.isReply <;> simp [step, replies, h]

end Account

/-- The DPI and the history of its calls. -/
structure Monitor where
  mgr : LvldbMgr
  log : List Event := []

namespace Monitor

/-- The call has to insert an entry. -/
def fresh (m : Monitor) (c : Call) : Bool := (m.mgr.cache.lookup c.ip).isNone

def step (m : Monitor) (c : Call) : Monitor :=
  ⟨(m.mgr.call c).1, m.log ++ [⟨c, m.mgr.entry c.ip, m.fresh c⟩]⟩

def run (m : Monitor) (calls : List Call) : Monitor := calls.foldl step m

/-- The events of an address. -/
def events (m : Monitor) (ip : ℕ) : List Event := m.log.filter (fun v => v.call.ip = ip)

/-- The history of an address. -/
def account (m : Monitor) (ip : ℕ) : Account := ⟨m.mgr.entry ip, m.events ip⟩

/-- The call does not push the entry of `ip` out of the cache. -/
def Keeps (ip : ℕ) (m : Monitor) (c : Call) : Prop :=
  m.mgr.cache.lookup ip ≠ none → (m.step c).mgr.cache.lookup ip ≠ none

instance (ip : ℕ) (m : Monitor) (c : Call) : Decidable (Keeps ip m c) :=
  inferInstanceAs (Decidable (_ → _))

variable {m : Monitor} {c : Call} {ip : ℕ}

theorem step_lookup_self : (m.step c).mgr.cache.lookup c.ip = some (c.onEntry (m.mgr.entry c.ip)).1 := by
  simp [step, LvldbMgr.call_eq, LvldbMgr.put]

theorem lookup_of_step_ne {e : IpUserTraffic} (h : c.ip ≠ ip)
    (he : (m.step c).mgr.cache.lookup ip = some e) : m.mgr.cache.lookup ip = some e := by
  rw [step, LvldbMgr.call_eq] at he
  exact Shards.lookup_of_put_ne h.symm he

theorem events_step_self : (m.step c).events c.ip =
    m.events c.ip ++ [⟨c, m.mgr.entry c.ip, m.fresh c⟩] := by
  simp [events, step]

theorem events_step_ne (h : c.ip ≠ ip) : (m.step c).events ip = m.events ip := by
  simp [events, step, h]

theorem account_step_self : (m.step c).account c.ip = (m.account c.ip).step c (m.fresh c) := by
  simp only [account, Account.step, events_step_self, LvldbMgr.entry, step_lookup_self,
    Option.getD_some]

theorem account_step_ne (h : c.ip ≠ ip) (hk : Keeps ip m c) : (m.step c).account ip = m.account ip := by
  have hl : (m.step c).mgr.cache.lookup ip = m.mgr.cache.lookup ip := by
    cases h' : (m.step c).mgr.cache.lookup ip with
    | some e => exact (lookup_of_step_ne h h').symm
    | none =>
        by_contra hne
        exact hk (Ne.symm hne) h'
  simp only [account, LvldbMgr.entry, hl, events_step_ne h]

/-- **Invariants of an address.**  What the calls of an address keep of its account holds after
every run that keeps its entry in the cache. -/
theorem invariant {P : Account → Call → Prop} {J : Account → Prop}
    (hstep : ∀ a c b, P a c → J a → J (a.step c b)) {calls : List Call}
    (h : Throughout step (fun m c => Keeps ip m c ∧ (c.ip = ip → P (m.account ip) c)) calls m)
    (hJ : J (m.account ip)) : J ((m.run calls).account ip) := by
  refine h.invariant (I := fun m => J (m.account ip)) ?_ hJ
  rintro m c ⟨hk, hP⟩ hJ
  by_cases hc : c.ip = ip
  · subst hc
    rw [account_step_self]
    exact hstep _ _ _ (hP rfl) hJ
  · rwa [account_step_ne hc hk]

end Monitor

end HttpsTunnel.Dpi

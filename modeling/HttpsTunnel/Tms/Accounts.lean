import HttpsTunnel.Tms.MainLoop

/-! # The accounts of a user

Traffic of a user is recorded in the streams, moved to the user while a report is under way, and
reported.  `AccountOp` are the operations of the server on these accounts, in any order and on
any streams of the user.  Whatever their order, nothing is lost between the stream and the report
(`reported_add_held`): when a fresh report sets the user's counter to 0 it is 0 already.

The balance is another matter.  `RecordTraffic` takes every amount off it, but every token reply
for a further stream of the user sets it to what the center knows, and what was taken off before
is given back (`balance_given_back`).  The balance is right exactly if nothing was recorded
between the first reply and the last (`balance_eq_iff`). -/

namespace HttpsTunnel.Tms

open HttpsTunnel.Lib HttpsTunnel.Wire

/-! ### Operations -/

inductive AccountOp where
  /-- Traffic on a stream. -/
  | record (k : ScbPtr) (n : ℕ)
  /-- A token reply `r` on `p` for the client `q` with fields `cl` and stream `k`. -/
  | verify (p q : Ptr) (cl : Connect) (k : ScbPtr) (r : ReadTokenRsp)
  /-- The report of a stream. -/
  | report (k : ScbPtr)
  /-- The answer to a report, received on `p`. -/
  | reply (p : Ptr)

namespace AccountOp

def run (u : UserId) : AccountOp → TmsM Unit
  | record k n => do let _ ← recordTraffic u (some k) n
  | verify p q cl k r => setVerified p q cl k r
  | report k => do let _ ← reportOrAccumulate u k
  | reply p => do let _ ← handleTrafficReportRsp p

/-- The operation is one on user `u` and the streams `K`. -/
def isFor (u : UserId) (K : Finset ScbPtr) (s : Server) : AccountOp → Bool
  | record k _ => k ∈ K
  | verify _ _ cl k _ => k ∈ K ∧ cl.user = some u
  | report k => k ∈ K
  | reply p => (s.conns p).all fun c =>
      let r := TrafficReportRsp.read c.dec.buff
      u = ⟨r.mobile, r.app⟩

/-- What the operation adds to the accounts. -/
def adds (s : Server) : AccountOp → ℕ
  | record _ n => n
  | verify _ _ cl _ _ => cl.trafficTmp
  | report k => if (s.scbs k).traffic = 0 then 0 else trafficTcpHss s.accurate
  | reply _ => 0

end AccountOp

/-- Run operations on user `u` and the streams `K`, adding up what they add. -/
def runOps (u : UserId) (K : Finset ScbPtr) : List AccountOp → Server → Option (ℕ × Server)
  | [], s => some (0, s)
  | op :: ops, s =>
      if op.isFor u K s then
        match op.run u s with
        | .ok (_, s₁) => (runOps u K ops s₁).map fun p => (op.adds s + p.1, p.2)
        | .error _ => none
      else none

theorem runOps_cons {u : UserId} {K : Finset ScbPtr} {op : AccountOp} {ops : List AccountOp}
    {s s' : Server} {n : ℕ} (hrun : runOps u K (op :: ops) s = some (n, s')) :
    ∃ s₁ m, op.isFor u K s = true ∧ op.run u s = .ok ((), s₁) ∧
      runOps u K ops s₁ = some (m, s') ∧ n = op.adds s + m := by
  rw [runOps] at hrun
  split_ifs at hrun with hop
  cases ho : op.run u s with
  | error e => simp [ho] at hrun
  | ok p =>
      obtain ⟨⟨⟩, s₁⟩ := p
      simp only [ho, Option.map_eq_some_iff] at hrun
      obtain ⟨⟨m, s₂⟩, hrun, he⟩ := hrun
      obtain ⟨rfl, rfl⟩ := Prod.mk.inj he
      exact ⟨s₁, m, hop, rfl, hrun, rfl⟩

/-! ### Where the traffic is -/

/-- The traffic an entry of the log reports for a user. -/
def Obs.reports (u : UserId) : Obs → ℕ
  | report r => if r.user = u then r.traffic else 0
  | _ => 0

/-- The traffic reported for a user. -/
def reportedFor (u : UserId) (log : List Obs) : ℕ := (log.map (Obs.reports u)).sum

/-- The traffic accumulated for a user. -/
def Server.userTraffic (s : Server) (u : UserId) : ℕ := ((s.userMap u).map User.traffic).getD 0

/-- The traffic of a user that was reported, is accumulated or is held in the streams. -/
def held (u : UserId) (K : Finset ScbPtr) (s : Server) : ℕ :=
  reportedFor u s.log + s.userTraffic u + ∑ k ∈ K, (s.scbs k).traffic

section Held

variable {u : UserId} {K : Finset ScbPtr} {s : Server}

theorem held_setScb {k : ScbPtr} (hk : k ∈ K) (b : SCB) :
    held u K (s.setScb k b) + (s.scbs k).traffic = held u K s + b.traffic := by
  have h₁ := Finset.add_sum_erase K (fun j => (s.scbs j).traffic) hk
  have h₂ := Finset.add_sum_erase K (fun j => ((s.setScb k b).scbs j).traffic) hk
  have h₃ : ∑ j ∈ K.erase k, ((s.setScb k b).scbs j).traffic = ∑ j ∈ K.erase k, (s.scbs j).traffic := by
    refine Finset.sum_congr rfl fun j hj => ?_
    exact congrArg SCB.traffic (Function.update_of_ne (Finset.ne_of_mem_erase hj) _ _)
  have h₄ : ((s.setScb k b).scbs k).traffic = b.traffic := by simp [Server.setScb]
  simp only [held] at *
  have h₅ : reportedFor u (s.setScb k b).log = reportedFor u s.log := rfl
  have h₆ : (s.setScb k b).userTraffic u = s.userTraffic u := rfl
  omega

theorem held_setUser {v : User} (hv : s.userMap u = some v) (v' : User) :
    held u K (s.setUser u v') + v.traffic = held u K s + v'.traffic := by
  have h₁ : s.userTraffic u = v.traffic := by simp [Server.userTraffic, hv]
  have h₂ : (s.setUser u v').userTraffic u = v'.traffic := by simp [Server.userTraffic, Server.setUser]
  have h₃ : reportedFor u (s.setUser u v').log = reportedFor u s.log := rfl
  have h₄ : (s.setUser u v').scbs = s.scbs := rfl
  simp only [held, h₁, h₂, h₃, h₄]
  omega

theorem held_setConn (p : Ptr) (c : Connect) : held u K (s.setConn p c) = held u K s := rfl

theorem held_emit (o : Obs) : held u K (s.emit o) = held u K s + o.reports u := by
  have h : reportedFor u (s.emit o).log = reportedFor u s.log + o.reports u := by
    simp [reportedFor, Server.emit]
  have h' : (s.emit o).userTraffic u = s.userTraffic u := rfl
  have h'' : (s.emit o).scbs = s.scbs := rfl
  simp only [held, h, h', h'']
  omega

theorem traffic_le_held {k : ScbPtr} (hk : k ∈ K) : (s.scbs k).traffic ≤ held u K s := by
  have := Finset.single_le_sum (f := fun j => (s.scbs j).traffic) (fun _ _ => Nat.zero_le _) hk
  simp only [held]
  omega

theorem user_add_traffic_le_held {k : ScbPtr} (hk : k ∈ K) {v : User} (hv : s.userMap u = some v) :
    v.traffic + (s.scbs k).traffic ≤ held u K s := by
  have h := Finset.single_le_sum (f := fun j => (s.scbs j).traffic) (fun _ _ => Nat.zero_le _) hk
  have h' : s.userTraffic u = v.traffic := by simp [Server.userTraffic, hv]
  simp only [held]
  omega

end Held

/-- The user exists and has accumulated nothing unless a report is under way; the streams have their
tunnel. -/
structure Accounted (u : UserId) (K : Finset ScbPtr) (s : Server) : Prop where
  user : ∃ v, s.userMap u = some v ∧ (v.reporting = false → v.traffic = 0)
  tunnels : ∀ k ∈ K, (s.scbs k).tunnelConn ≠ none

/-- What an operation leaves: the accounts in order, and `n` more in them. -/
structure Added (u : UserId) (K : Finset ScbPtr) (s : Server) (n : ℤ) (s' : Server) : Prop where
  accounted : Accounted u K s'
  held_eq : (held u K s' : ℤ) = held u K s + n

namespace Added

variable {u : UserId} {K : Finset ScbPtr} {s s₁ s₂ : Server} {m n : ℤ}

theorem refl (h : Accounted u K s) : Added u K s 0 s := ⟨h, by simp⟩

theorem trans (h : Added u K s m s₁) (h' : Added u K s₁ n s₂) : Added u K s (m + n) s₂ :=
  ⟨h'.accounted, by rw [h'.held_eq, h.held_eq, add_assoc]⟩

theorem cast (h : Added u K s m s₁) (hn : m = n) : Added u K s n s₁ := hn ▸ h

theorem held_lt {n : ℕ} (h : Added u K s n s₁) (hn : held u K s + n < 2 ^ 64) :
    held u K s₁ < 2 ^ 64 := by
  have := h.held_eq
  omega

theorem setScb (h : Accounted u K s) {k : ScbPtr} (hk : k ∈ K) (b : SCB)
    (hb : b.tunnelConn = (s.scbs k).tunnelConn) :
    Added u K s (b.traffic - (s.scbs k).traffic) (s.setScb k b) := by
  refine ⟨⟨h.user, fun j hj => ?_⟩, ?_⟩
  · by_cases hjk : j = k
    · subst hjk
      simpa [Server.setScb, hb] using h.tunnels j hj
    · simpa [Server.setScb, hjk] using h.tunnels j hj
  · have := held_setScb (u := u) (s := s) hk b
    omega

theorem setUser (h : Accounted u K s) {v : User} (hv : s.userMap u = some v) (v' : User)
    (hv' : v'.reporting = false → v'.traffic = 0) :
    Added u K s (v'.traffic - v.traffic) (s.setUser u v') := by
  refine ⟨⟨⟨v', by simp [Server.setUser], hv'⟩, h.tunnels⟩, ?_⟩
  have := held_setUser (K := K) hv v'
  omega

theorem setConn (h : Accounted u K s) (p : Ptr) (c : Connect) : Added u K s 0 (s.setConn p c) :=
  ⟨⟨h.user, h.tunnels⟩, by rw [held_setConn, add_zero]⟩

theorem emit (h : Accounted u K s) (o : Obs) : Added u K s (o.reports u) (s.emit o) :=
  ⟨⟨h.user, h.tunnels⟩, by rw [held_emit]; push_cast; rfl⟩

end Added

section Ops

variable {u : UserId} {K : Finset ScbPtr} {s : Server}

theorem recordTraffic_added (h : Accounted u K s) {k : ScbPtr} (hk : k ∈ K) {n : ℕ}
    (hn : held u K s + n < 2 ^ 64) :
    wlp (recordTraffic u (some k) n) (fun _ s' => Added u K s n s') s := by
  have hle := traffic_le_held (u := u) (s := s) hk
  simp only [recordTraffic, wpe_bind, wpe_derefUser, wpe_getScb, wpe_modScb, wpe_modUser, wpe_ite,
    wpe_pure]
  refine ⟨fun _ => trivial, fun v hv => ⟨fun _ => trivial, fun v' hv' => ?_⟩⟩
  obtain ⟨v₀, hv₀, hrep⟩ := h.user
  obtain rfl : v₀ = v' := Option.mem_unique hv₀ hv'
  have h₁ := Added.setScb h hk { s.scbs k with traffic := ((s.scbs k).traffic + n) % 2 ^ 64 } rfl
  have h₂ := Added.setUser h₁.accounted hv' { v₀ with balance := wrapI64 (v₀.balance - n) } hrep
  have h₃ := (h₁.trans h₂).cast (n := n) (by simp only; omega)
  exact ⟨fun _ => h₃, fun _ => h₃⟩

theorem setVerified_added (h : Accounted u K s) {p q : Ptr} {cl : Connect} {k : ScbPtr} (hk : k ∈ K)
    (hu : cl.user = some u) {r : ReadTokenRsp} (hn : held u K s + cl.trafficTmp < 2 ^ 64) :
    wlp (setVerified p q cl k r) (fun _ s' => Added u K s cl.trafficTmp s') s := by
  have hle := traffic_le_held (u := u) (s := s) hk
  simp only [setVerified, hu, wpe_bind, wpe_deref, wpe_nonNull, wpe_modConn, wpe_modScb, wpe_modUser,
    wpe_emit, Option.some.injEq, forall_eq']
  refine ⟨fun _ => trivial, fun c hc => ⟨fun _ => trivial, fun _ => trivial, fun c' hc' =>
    ⟨fun _ => trivial, fun v hv => ?_⟩⟩⟩
  obtain ⟨v₀, hv₀, hrep⟩ := h.user
  obtain rfl : v₀ = v := Option.mem_unique hv₀ hv
  have h₁ := Added.setConn h q { c' with sdkVerified := true, trafficTmp := 0 }
  have h₂ := Added.setScb h₁.accounted hk { s.scbs k with
    status := .validated, traffic := ((s.scbs k).traffic + cl.trafficTmp) % 2 ^ 64 } rfl
  have h₃ := Added.setUser h₂.accounted hv { v₀ with balance := r.balance } hrep
  have h₄ := Added.emit h₃.accounted (.auth p c.type q r u)
  refine (((h₁.trans h₂).trans h₃).trans h₄).cast ?_
  have hs : ((s.setConn q { c' with sdkVerified := true, trafficTmp := 0 }).scbs k) = s.scbs k := rfl
  simp only [hs, Obs.reports]
  omega

/-- The traffic of the stream is added to the user's or reported, and not yet taken from the stream. -/
theorem accumulateOrReport_added (h : Accounted u K s) {k : ScbPtr} (hk : k ∈ K) (start : Timeval)
    (hn : held u K s < 2 ^ 64) :
    wlp (accumulateOrReport u k start) (fun _ s' =>
      Added u K s (s.scbs k).traffic s' ∧ s'.scbs = s.scbs) s := by
  obtain ⟨v, hv, hrep⟩ := h.user
  have hle := user_add_traffic_le_held hk hv
  rw [accumulateOrReport, wlp, wpe_bind, wpe_derefUser, found hv, wpe_bind, wpe_getScb, wpe_ite]
  refine ⟨fun hr => ?_, fun hr => ?_⟩
  · rw [wpe_modUser, found hv]
    have h₁ := Added.setUser h hv { v with
      conReport := (v.conReport + 1) % 2 ^ 16
      traffic := (v.traffic + (s.scbs k).traffic) % 2 ^ 64 } (by simp [hr])
    exact ⟨h₁.cast (by simp only; omega), rfl⟩
  · -- a fresh report: nothing was accumulated
    have h0 : v.traffic = 0 := hrep (by simpa using hr)
    simp only [wpe_bind, wpe_emit, wpe_get, getCenterConn]
    have h₁ := Added.emit h (.report ⟨u, (s.scbs k).traffic, start, s.now⟩)
    cases hp : (s.emit (.report ⟨u, (s.scbs k).traffic, start, s.now⟩)).centerConnPool with
    | nil => trivial
    | cons cn pool =>
        rw [firstConn, wpe_pure, wpe_modUser, found (by exact hv)]
        have h₂ := Added.setUser h₁.accounted hv { v with reporting := true, traffic := 0 } (by simp)
        exact ⟨(h₁.trans h₂).cast (by simp [Obs.reports, h0]), rfl⟩

theorem reportOrAccumulate_added (h : Accounted u K s) {k : ScbPtr} (hk : k ∈ K)
    (hn : held u K s + (AccountOp.report k).adds s < 2 ^ 64) :
    wlp (reportOrAccumulate u k) (fun _ s' => Added u K s ((AccountOp.report k).adds s) s') s := by
  have hle := traffic_le_held (u := u) (s := s) hk
  rw [reportOrAccumulate, wlp, wpe_bind, wpe_getScb, wpe_ite]
  rw [AccountOp.adds] at hn ⊢
  refine ⟨fun h0 => ?_, fun h0 => ?_⟩
  · rw [if_pos h0]
    exact Added.refl h
  rw [if_neg h0] at hn ⊢
  simp only [wpe_bind, wpe_get, wpe_modScb]
  have h₁ := Added.setScb h hk { s.scbs k with
    traffic := ((s.scbs k).traffic + trafficTcpHss s.accurate) % 2 ^ 64 } rfl
  split
  · next ht => exact absurd ht (h.tunnels k hk)
  simp only [wpe_bind, wpe_deref]
  refine ⟨fun _ => trivial, fun tn htn => ?_⟩
  rw [wpe_ite]
  refine ⟨fun _ => trivial, fun _ => ?_⟩
  simp only [wpe_bind, wpe_derefUser, wpe_get, wpe_modUser]
  refine ⟨fun _ => trivial, fun v hv => ⟨fun _ => trivial, fun v' hv' => ?_⟩⟩
  obtain rfl : v = v' := Option.mem_unique hv hv'
  obtain ⟨v₀, hv₀, hrep⟩ := h₁.accounted.user
  obtain rfl : v₀ = v := Option.mem_unique hv₀ hv
  have h₂ := (h₁.trans (Added.setUser h₁.accounted hv { v₀ with
    accuStartTime := accuStart v₀ s.now tn.beginTime } hrep)).cast
      (n := trafficTcpHss s.accurate) (by simp only; omega)
  refine wlp_mono (accumulateOrReport_added h₂.accounted hk _ (h₂.held_lt hn)) ?_
  rintro _ s₃ ⟨h₃, hs₃⟩
  have h₄ := Added.setScb h₃.accounted hk { s₃.scbs k with traffic := 0 } rfl
  exact ((h₂.trans h₃).trans h₄).cast (by rw [hs₃]; simp only; omega)

theorem handleTrafficReportRsp_added (h : Accounted u K s) {p : Ptr}
    (hp : (AccountOp.reply p).isFor u K s = true) :
    wlp (handleTrafficReportRsp p) (fun _ s' => Added u K s 0 s') s := by
  obtain ⟨v, hv, hrep⟩ := h.user
  rw [handleTrafficReportRsp, wlp, wpe_bind, wpe_deref]
  refine ⟨fun _ => trivial, fun c hc => ?_⟩
  have hu : u = ⟨(TrafficReportRsp.read c.dec.buff).mobile, (TrafficReportRsp.read c.dec.buff).app⟩ := by
    simpa [AccountOp.isFor, hc] using hp
  rw [wpe_bind, wpe_get, ← hu, hv]
  simp only [wpe_ite]
  refine ⟨fun h0 => ?_, fun h0 => ?_⟩
  · simp only [reportAccumulated, wpe_bind, wpe_derefUser, wpe_emit, wpe_get, getCenterConn, found hv]
    have h₁ := Added.emit h (.report ⟨u, v.traffic, v.accuStartTime, s.now⟩)
    cases hp : (s.emit (.report ⟨u, v.traffic, v.accuStartTime, s.now⟩)).centerConnPool with
    | nil => trivial
    | cons cn pool =>
        rw [firstConn, wpe_pure, wpe_modUser, found (by exact hv), wpe_modUser,
          found (by exact Function.update_self ..)]
        have h₂ := Added.setUser h₁.accounted hv { v with traffic := 0, conReport := 0 } (by simp)
        have h₃ := Added.setUser h₂.accounted (Function.update_self ..)
          { v with traffic := 0, conReport := 0, reporting := true } (by simp)
        exact ((h₁.trans h₂).trans h₃).cast (by simp [Obs.reports])
  · simp only [wpe_bind, wpe_modUser, wpe_pure, found hv]
    exact (Added.setUser h hv { v with reporting := false } (by simpa using h0)).cast (by simp)

end Ops

/-! ### Runs -/

theorem AccountOp.run_added {u : UserId} {K : Finset ScbPtr} {s s' : Server} {op : AccountOp}
    (h : Accounted u K s) (hop : op.isFor u K s = true) (hn : held u K s + op.adds s < 2 ^ 64)
    (hrun : op.run u s = .ok ((), s')) : Added u K s (op.adds s) s' := by
  have hw : wlp (op.run u) (fun _ s' => Added u K s (op.adds s) s') s := by
    cases op with
    | record k n =>
        rw [run, wlp, wpe_bind]
        exact recordTraffic_added h (by simpa [isFor] using hop) hn
    | verify p q cl k r =>
        obtain ⟨hk, hu⟩ : k ∈ K ∧ cl.user = some u := by simpa [isFor] using hop
        exact setVerified_added h hk hu hn
    | report k =>
        rw [run, wlp, wpe_bind]
        exact reportOrAccumulate_added h (by simpa [isFor] using hop) hn
    | reply p =>
        rw [run, wlp, wpe_bind]
        exact handleTrafficReportRsp_added h hop
  exact (wlp_iff _ _ _).mp hw () s' hrun

/-- **Reports conserve traffic.**  Whatever operations on the streams of a user, in whatever order, what
was reported for the user, what is accumulated and what the streams hold is what was there and what
the operations added; the user accumulates only while a report is under way. -/
theorem reported_add_held (u : UserId) (K : Finset ScbPtr) (ops : List AccountOp) (s s' : Server) (n : ℕ)
    (h : Accounted u K s) (hrun : runOps u K ops s = some (n, s')) (hn : held u K s + n < 2 ^ 64) :
    held u K s' = held u K s + n ∧ Accounted u K s' := by
  induction ops generalizing s n with
  | nil =>
      obtain ⟨rfl, rfl⟩ : 0 = n ∧ s = s' := by simpa [runOps] using hrun
      exact ⟨rfl, h⟩
  | cons op ops ih =>
      obtain ⟨s₁, m, hop, ho, hrest, rfl⟩ := runOps_cons hrun
      have h₁ := AccountOp.run_added h hop (by omega) ho
      have he₁ := h₁.held_eq
      obtain ⟨hh, hA⟩ := ih s₁ m h₁.accounted hrest (by omega)
      exact ⟨by omega, hA⟩

/-- A tunnel of the user `⟨1, 2⟩` that sent 7 bytes before its token was checked. -/
def sampleClient : Connect := { user := some ⟨1, 2⟩, scb := some 0, trafficTmp := 7 }

/-- Another tunnel of the user. -/
def otherClient : Connect := { user := some ⟨1, 2⟩, scb := some 1 }

/-- A token reply for the user. -/
def sampleReply : ReadTokenRsp := ⟨0, 10, 1, 2, 1000, List.replicate 32 0⟩

/-- A server with these two tunnels. -/
def sampleServer : Server :=
  let s := Server.init false 0 0 fun _ => 0
  { s with
    conns := fun p =>
      if p = 3 then some sampleClient else if p = 4 then some otherClient else s.conns p
    userMap := fun u => if u = ⟨1, 2⟩ then some {} else none
    scbs := fun k => { user := some ⟨1, 2⟩, tunnelConn := some (3 + k) } }

/-- Two streams that report at the same time. -/
def sampleOps : List AccountOp :=
  [.verify 1 3 sampleClient 0 sampleReply, .record 0 100, .record 1 50, .report 0, .report 1]

/-- Two reports: the first is sent, the second is accumulated. -/
theorem reported_add_held_sampleOps : ∃ s',
    runOps ⟨1, 2⟩ {0, 1} sampleOps sampleServer = some (157, s') ∧ held ⟨1, 2⟩ {0, 1} s' = 157 := by
  have hrun : (runOps ⟨1, 2⟩ {0, 1} sampleOps sampleServer).map (fun p => p.1) = some 157 := by
    decide +kernel
  obtain ⟨⟨n, s'⟩, hs, rfl⟩ := Option.map_eq_some_iff.mp hrun
  have h : Accounted ⟨1, 2⟩ {0, 1} sampleServer :=
    ⟨⟨{}, by simp [sampleServer], fun _ => rfl⟩, fun k _ => Option.some_ne_none (3 + k)⟩
  have h0 : held ⟨1, 2⟩ {0, 1} sampleServer = 0 := by decide +kernel
  have hn : held ⟨1, 2⟩ {0, 1} sampleServer + 157 < 2 ^ 64 := by
    rw [h0]
    decide
  refine ⟨s', hs, ?_⟩
  rw [(reported_add_held _ _ _ _ _ _ h hs hn).1, h0]

/-! ### The balance -/

def Server.balance (s : Server) (u : UserId) : Option ℤ := (s.userMap u).map User.balance

theorem balance_setUser (s : Server) (u : UserId) (v : User) :
    (s.setUser u v).balance u = some v.balance := by
  simp [Server.balance, Server.setUser]

theorem setVerified_balance {u : UserId} {s s' : Server} {p q : Ptr} {cl : Connect} {k : ScbPtr}
    {r : ReadTokenRsp} (hu : cl.user = some u) (hrun : setVerified p q cl k r s = .ok ((), s')) :
    s'.balance u = some r.balance := by
  refine (wlp_iff (fun _ s' => s'.balance u = some r.balance) _ _).mp ?_ () s' hrun
  simp only [setVerified, hu, wpe_bind, wpe_deref, wpe_nonNull, wpe_modConn, wpe_modScb,
    wpe_modUser, wpe_emit, Option.some.injEq, forall_eq']
  refine ⟨fun _ => trivial, fun c hc => ⟨fun _ => trivial, fun _ => trivial, fun c' hc' =>
    ⟨fun _ => trivial, fun v hv => ?_⟩⟩⟩
  exact balance_setUser _ _ _

namespace AccountOp

/-- Traffic on a stream, or a token reply with balance `b`. -/
def charges (b : ℤ) : AccountOp → Bool
  | record _ _ => true
  | verify _ _ _ _ r => r.balance = b
  | _ => false

/-- The traffic recorded by a list of operations. -/
def recorded : List AccountOp → ℕ
  | [] => 0
  | record _ n :: ops => n + recorded ops
  | _ :: ops => recorded ops

/-- The traffic recorded since the last token reply, `n` having been recorded since the one before
the operations. -/
def sinceReply : ℕ → List AccountOp → ℕ
  | n, [] => n
  | n, record _ m :: ops => sinceReply (n + m) ops
  | _, verify _ _ _ _ _ :: ops => sinceReply 0 ops
  | n, _ :: ops => sinceReply n ops

theorem sinceReply_le (n : ℕ) (ops : List AccountOp) : sinceReply n ops ≤ n + recorded ops := by
  induction ops generalizing n with
  | nil => rfl
  | cons op ops ih =>
      cases op with
      | record k m => exact (ih (n + m)).trans (by rw [recorded]; omega)
      | verify p q cl k r => exact (ih 0).trans (Nat.add_le_add_right (Nat.zero_le n) _)
      | report k => exact ih n
      | reply p => exact ih n

/-- A charge is taken off the balance `x`, a token reply replaces it by its own. -/
def balanceAfter (x : ℤ) : AccountOp → ℤ
  | record _ n => wrapI64 (x - n)
  | verify _ _ _ _ r => r.balance
  | _ => x

theorem run_balance {u : UserId} {K : Finset ScbPtr} {s s' : Server} {op : AccountOp} {b x : ℤ}
    (hc : op.charges b = true) (hop : op.isFor u K s = true) (hb : s.balance u = some x)
    (hrun : op.run u s = .ok ((), s')) : s'.balance u = some (op.balanceAfter x) := by
  cases op with
  | record k n =>
      obtain ⟨v, hv, rfl⟩ := Option.map_eq_some_iff.mp hb
      refine (wlp_iff (fun _ s' => s'.balance u = _) _ _).mp ?_ () s' hrun
      simp only [run, recordTraffic, wpe_bind, wpe_derefUser, wpe_getScb, wpe_modScb, wpe_modUser,
        wpe_ite, wpe_pure]
      refine ⟨fun _ => trivial, fun v₁ hv₁ => ⟨fun _ => trivial, fun v₂ hv₂ => ?_⟩⟩
      obtain rfl : v = v₂ := Option.mem_unique hv hv₂
      exact ⟨fun _ => balance_setUser _ _ _, fun _ => balance_setUser _ _ _⟩
  | verify p q cl k r =>
      obtain ⟨hk, hu⟩ : k ∈ K ∧ cl.user = some u := by simpa [isFor] using hop
      exact setVerified_balance hu hrun
  | report k => cases hc
  | reply p => cases hc

end AccountOp

/-- After charges and token replies with balance `b`, the balance is `b` less what was recorded since
the last reply. -/
theorem runOps_balance {u : UserId} {K : Finset ScbPtr} {b : ℤ} {ops : List AccountOp} {s s' : Server}
    {n m : ℕ} (hops : ∀ op ∈ ops, op.charges b = true) (hb : s.balance u = some (wrapI64 (b - m)))
    (hw : wrapI64 b = b) (hrun : runOps u K ops s = some (n, s')) :
    s'.balance u = some (wrapI64 (b - AccountOp.sinceReply m ops)) := by
  induction ops generalizing s n m with
  | nil =>
      obtain ⟨-, rfl⟩ : 0 = n ∧ s = s' := by simpa [runOps] using hrun
      exact hb
  | cons op ops ih =>
      obtain ⟨hop, hrest⟩ := List.forall_mem_cons.mp hops
      obtain ⟨s₁, m', hfor, ho, hrest', -⟩ := runOps_cons hrun
      have hb₁ := AccountOp.run_balance hop hfor hb ho
      cases op with
      | record k l =>
          refine ih hrest ?_ hrest'
          rw [hb₁, AccountOp.balanceAfter, wrapI64_wrapI64_sub]
          congr 2
          push_cast
          omega
      | verify p q cl k r =>
          obtain rfl : r.balance = b := by simpa [AccountOp.charges] using hop
          refine ih hrest ?_ hrest'
          simpa [hw, AccountOp.balanceAfter] using hb₁
      | report k => cases hop
      | reply p => cases hop

/-- **The balance of a user** after a first token reply with balance `b`, charges and further replies
with the same balance: it is `b` less what was recorded since the first reply exactly if all of that
was recorded since the last one. -/
theorem balance_eq_iff (u : UserId) (K : Finset ScbPtr) (b : ℤ) (ops : List AccountOp) (s s₁ s' : Server)
    (p q : Ptr) (cl : Connect) (k : ScbPtr) (r : ReadTokenRsp) (n : ℕ)
    (hfirst : setVerified p q cl k r s = .ok ((), s₁)) (hu : cl.user = some u) (hr : r.balance = b)
    (hops : ∀ op ∈ ops, op.charges b = true) (hrun : runOps u K ops s₁ = some (n, s'))
    (hmax : b < 2 ^ 63) (hmin : -2 ^ 63 ≤ b - AccountOp.recorded ops) :
    s'.balance u = some (b - AccountOp.recorded ops) ↔
      AccountOp.sinceReply 0 ops = AccountOp.recorded ops := by
  have hle := AccountOp.sinceReply_le 0 ops
  have hw : wrapI64 b = b := wrapI64_of_mem (by omega) hmax
  have hb : s₁.balance u = some b := hr ▸ setVerified_balance hu hfirst
  rw [runOps_balance (m := 0) hops (by simp [hb, hw]) hw hrun, wrapI64_of_mem (by omega) (by omega),
    Option.some.injEq]
  omega

/-- After the reply for a first stream: 300 bytes on it, and the reply for a second stream. -/
def secondLogin : List AccountOp := [.record 0 300, .verify 1 4 otherClient 1 sampleReply]

/-- The second reply gives back the 300 bytes: the balance is 1000 again, not 700. -/
theorem balance_given_back :
    (runOps ⟨1, 2⟩ {0, 1} (.verify 1 3 sampleClient 0 sampleReply :: secondLogin) sampleServer).map
        (fun p => p.2.balance ⟨1, 2⟩) = some (some 1000) ∧
      AccountOp.recorded secondLogin = 300 := by
  decide +kernel

/-- With both replies before the traffic nothing is given back. -/
theorem balance_eq_iff_loginsFirst : ∃ s₁ s' n,
    setVerified 1 3 sampleClient 0 sampleReply sampleServer = .ok ((), s₁) ∧
      runOps ⟨1, 2⟩ {0, 1} [.verify 1 4 otherClient 1 sampleReply, .record 0 300] s₁ = some (n, s') ∧
      s'.balance ⟨1, 2⟩ = some 700 := by
  have hrun : (runOps ⟨1, 2⟩ {0, 1} [.verify 1 3 sampleClient 0 sampleReply,
      .verify 1 4 otherClient 1 sampleReply, .record 0 300] sampleServer).isSome := by
    decide +kernel
  obtain ⟨⟨n, s'⟩, hs⟩ := Option.isSome_iff_exists.mp hrun
  obtain ⟨s₁, m, -, hfirst, hrest, -⟩ := runOps_cons hs
  have hops : ∀ op ∈ [AccountOp.verify 1 4 otherClient 1 sampleReply, .record 0 300],
      op.charges 1000 = true := by
    decide +kernel
  refine ⟨s₁, s', m, hfirst, hrest, ?_⟩
  exact (balance_eq_iff ⟨1, 2⟩ {0, 1} 1000 _ _ _ _ _ _ _ _ _ _ hfirst rfl rfl hops hrest (by decide)
    (by decide)).mpr rfl

end HttpsTunnel.Tms

import HttpsTunnel.Tms.MainLoop

/-! # The time a report covers

A report says from when to when the traffic it contains was transmitted.  It should begin when the
first of its streams began.  `accu_start_time` is to be this minimum, but a call of
`ReportOrAccumulate` that finds `con_report` 0 sets it to the time of the call, and does not look at
the stream it is made for.

`Books` follows a run of calls and replies: which streams are in the user's counter, when
`accu_start_time` was last set afresh, and which streams came after.  A report covers its streams
exactly if the first of them counts (`report_covers_iff`). -/

namespace HttpsTunnel.Tms

open HttpsTunnel.Lib HttpsTunnel.Wire

/-! ### Times -/

def Timeval.key (t : Timeval) : ℕ ×ₗ ℕ := toLex (t.sec, t.usec)

theorem Timeval.key_injective : Function.Injective Timeval.key := by
  rintro ⟨a, b⟩ ⟨c, d⟩ h
  cases toLex.injective h
  rfl

instance : LinearOrder Timeval := LinearOrder.lift' Timeval.key Timeval.key_injective

theorem Timeval.lt_eq_true {a b : Timeval} : a.lt b = true ↔ a < b := by
  rw [Timeval.lt, decide_eq_true_eq]
  exact (Prod.Lex.toLex_lt_toLex (x := (a.sec, a.usec)) (y := (b.sec, b.usec))).symm

theorem accuStart_eq (v : User) (now btime : Timeval) :
    accuStart v now btime = if v.conReport = 0 then now else min v.accuStartTime btime := by
  simp only [accuStart, Timeval.lt_eq_true]
  split_ifs with h₁ h₂
  · rfl
  · exact (min_eq_left h₂.le).symm
  · exact (min_eq_right (not_lt.mp h₂)).symm

/-- The earliest of a time and further times. -/
def earliest (t : Timeval) (ts : List Timeval) : Timeval := ts.foldl min t

theorem earliest_append (t : Timeval) (ts : List Timeval) (b : Timeval) :
    earliest t (ts ++ [b]) = min (earliest t ts) b := by
  simp [earliest]

theorem earliest_mem (t : Timeval) (ts : List Timeval) : earliest t ts = t ∨ earliest t ts ∈ ts := by
  induction ts using List.reverseRecOn with
  | nil => exact .inl rfl
  | append_singleton ts b ih =>
      rw [earliest_append, List.mem_append, List.mem_singleton]
      rcases min_choice (earliest t ts) b with h | h
      · rw [h]
        exact ih.imp_right .inl
      · exact .inr (.inr h)

theorem le_earliest_iff {t a : Timeval} {ts : List Timeval} :
    a ≤ earliest t ts ↔ a ≤ t ∧ ∀ b ∈ ts, a ≤ b := by
  induction ts using List.reverseRecOn with
  | nil => simp [earliest]
  | append_singleton ts b ih =>
      rw [earliest_append, le_min_iff, ih, and_assoc]
      simp only [List.mem_append, List.mem_singleton, or_imp, forall_and, forall_eq]

theorem eq_earliest_iff {t a : Timeval} {ts : List Timeval} :
    a = earliest t ts ↔ (a = t ∨ a ∈ ts) ∧ a ≤ t ∧ ∀ b ∈ ts, a ≤ b := by
  rw [← le_earliest_iff]
  constructor
  · rintro rfl
    exact ⟨earliest_mem t ts, le_rfl⟩
  · rintro ⟨hmem, hle⟩
    obtain ⟨ht, hts⟩ := le_earliest_iff.mp (le_refl (earliest t ts))
    refine le_antisymm hle ?_
    rcases hmem with rfl | hmem
    · exact ht
    · exact hts a hmem

/-! ### Calls and replies -/

inductive ReportOp where
  /-- `ReportOrAccumulate` is called at `now` for a stream with fields `b`, whose tunnel has fields
  `tn`. -/
  | stream (k : ScbPtr) (b : SCB) (t : Ptr) (tn : Connect) (now : Timeval)
  /-- A TRAFFIC_REPORT_RSP is handled at `now` on a connection with fields `c`. -/
  | reply (p : Ptr) (c : Connect) (now : Timeval)

namespace ReportOp

def now : ReportOp → Timeval
  | stream _ _ _ _ now => now
  | reply _ _ now => now

/-- The operation finds its stream or message as it says. -/
def found (s : Server) : ReportOp → Server
  | stream k b t tn now => { (s.setScb k { b with tunnelConn := some t }).setConn t tn with now := now }
  | reply p c now => { s.setConn p c with now := now }

def run (u : UserId) : ReportOp → TmsM Unit
  | stream k _ _ _ _ => do let _ ← reportOrAccumulate u k
  | reply p _ _ => do let _ ← handleTrafficReportRsp p

/-- A stream began before it is reported; a reply is one for the user. -/
def Valid (u : UserId) : ReportOp → Prop
  | stream _ _ _ tn now => tn.beginTime ≤ now
  | reply _ c _ => u = ⟨(TrafficReportRsp.read c.dec.buff).mobile, (TrafficReportRsp.read c.dec.buff).app⟩

instance (u : UserId) : ∀ op : ReportOp, Decidable (op.Valid u)
  | stream _ _ _ _ _ => inferInstanceAs (Decidable (_ ≤ _))
  | reply _ _ _ => inferInstanceAs (Decidable (_ = _))

end ReportOp

/-- The reports for a user in a log. -/
def reportsOf (u : UserId) (l : List Obs) : List Report :=
  l.filterMap fun
    | .report r => if r.user = u then some r else none
    | _ => none

/-- A report with the begin times of its streams, the time at which `accu_start_time` had last been set
afresh, and the begin times of the streams of the calls after that. -/
structure Issued where
  report : Report
  begins : List Timeval
  restart : Timeval
  later : List Timeval
deriving DecidableEq

namespace Issued

/-- The report covers its streams, and begins with the first of them. -/
def Covers (e : Issued) : Prop :=
  (∀ b ∈ e.begins, e.report.btime ≤ b ∧ b ≤ e.report.etime) ∧ e.report.btime ∈ e.begins

/-- The first of the streams counts: its begin is the earliest of the restart and the begins since. -/
def FirstCounts (e : Issued) : Prop :=
  ∃ a ∈ e.begins, (∀ b ∈ e.begins, a ≤ b) ∧
    (a = e.restart ∨ a ∈ e.later) ∧ a ≤ e.restart ∧ ∀ b ∈ e.later, a ≤ b

instance (e : Issued) : Decidable e.Covers := inferInstanceAs (Decidable (_ ∧ _))

instance (e : Issued) : Decidable e.FirstCounts := inferInstanceAs (Decidable (∃ a ∈ e.begins, _ ∧ _))

theorem covers_iff_firstCounts {e : Issued} (hb : e.report.btime = earliest e.restart e.later)
    (he : ∀ b ∈ e.begins, b ≤ e.report.etime) : e.Covers ↔ e.FirstCounts := by
  constructor
  · rintro ⟨hle, hmem⟩
    exact ⟨_, hmem, fun b hb => (hle b hb).1, eq_earliest_iff.mp hb⟩
  · rintro ⟨a, hmem, hle, ha⟩
    have hab : a = e.report.btime := (eq_earliest_iff.mpr ha).trans hb.symm
    exact ⟨fun b hb => ⟨hab ▸ hle b hb, he b hb⟩, hab ▸ hmem⟩

end Issued

/-- What is followed of a run. -/
structure Books where
  clock : Timeval
  /-- The begin times of the streams in the user's counter. -/
  begins : List Timeval
  restart : Timeval
  later : List Timeval
  issued : List Issued
deriving DecidableEq

/-- The books after an operation that was started in `s` and ended in `s'`. -/
def Books.after (g : Books) (u : UserId) (v : User) (s s' : Server) : ReportOp → Books
  | .stream _ b _ tn now =>
      if b.traffic = 0 then { g with clock := now }
      else
        let restart := if v.conReport = 0 then now else g.restart
        let later := if v.conReport = 0 then [] else g.later ++ [tn.beginTime]
        { clock := now
          begins := if v.reporting then g.begins ++ [tn.beginTime] else g.begins
          restart := restart
          later := later
          issued := g.issued ++ (reportsOf u (s'.log.drop s.log.length)).map
            fun r => ⟨r, [tn.beginTime], restart, later⟩ }
  | .reply _ _ now =>
      { g with
        clock := now
        begins := if v.traffic = 0 then g.begins else []
        issued := g.issued ++ (reportsOf u (s'.log.drop s.log.length)).map
          fun r => ⟨r, g.begins, g.restart, g.later⟩ }

/-- Run operations for a user, with a clock that does not go back, and keep the books. -/
def runReports (u : UserId) : List ReportOp → Server × Books → Option (Server × Books)
  | [], w => some w
  | op :: ops, (s, g) =>
      if g.clock ≤ op.now ∧ op.Valid u then
        match s.userMap u, op.run u (op.found s) with
        | some v, .ok (_, s') => runReports u ops (s', g.after u v (op.found s) s' op)
        | _, _ => none
      else none

/-! ### What the operations report -/

section Specs

variable {u : UserId} {v : User} {k : ScbPtr} {s : Server}

theorem accumulateOrReport_issues (hv : s.userMap u = some v) (start : Timeval) :
    wlp (accumulateOrReport u k start) (fun _ s' => ∃ v', s'.userMap u = some v' ∧
      v'.accuStartTime = v.accuStartTime ∧
      s'.log = s.log ++ if v.reporting then [] else [.report ⟨u, (s.scbs k).traffic, start, s.now⟩]) s := by
  simp only [accumulateOrReport, wpe_bind, wpe_derefUser, wpe_getScb, wpe_ite, hv, found_iff, wpe_modUser]
  refine ⟨fun hr => ?_, fun hr => ?_⟩
  · exact ⟨_, Function.update_self .., rfl, by simp [hr, Server.setUser]⟩
  · simp only [getCenterConn, wpe_bind, wpe_get, wpe_emit]
    cases hp : (s.emit (.report ⟨u, (s.scbs k).traffic, start, s.now⟩)).centerConnPool with
    | nil => trivial
    | cons cn pool =>
        simp only [firstConn, wpe_pure]
        refine ⟨fun _ => trivial, fun v' hv' => ⟨_, Function.update_self .., ?_, ?_⟩⟩
        · obtain rfl : v = v' := Option.mem_unique hv hv'
          rfl
        · simp [hr, Server.setUser, Server.emit]

/-- A call for a stream with traffic moves `accu_start_time`, and reports the stream unless a report is
under way. -/
theorem reportOrAccumulate_issues {t : Ptr} {tn : Connect} (hv : s.userMap u = some v)
    (ht : (s.scbs k).tunnelConn = some t) (htn : s.conns t = some tn) :
    wlp (reportOrAccumulate u k) (fun _ s' => ∃ v', s'.userMap u = some v' ∧
      if (s.scbs k).traffic = 0 then v'.accuStartTime = v.accuStartTime ∧ s'.log = s.log
      else v'.accuStartTime = accuStart v s.now tn.beginTime ∧ ∃ n, s'.log = s.log ++
        if v.reporting then [] else [.report ⟨u, n, accuStart v s.now tn.beginTime, s.now⟩]) s := by
  rw [reportOrAccumulate, wlp, wpe_bind, wpe_getScb, wpe_ite]
  refine ⟨fun h0 => ⟨v, hv, by simp [h0]⟩, fun h0 => ?_⟩
  simp only [h0, if_false, ht, wpe_bind, wpe_get, wpe_modScb, wpe_deref, Server.setScb, htn, found_iff, wpe_ite]
  refine ⟨fun _ => trivial, fun _ => ?_⟩
  simp only [wpe_derefUser, wpe_modUser, hv, found_iff]
  refine wlp_mono (accumulateOrReport_issues (Function.update_self ..) _) ?_
  rintro _ s₁ ⟨v', hv', hstart, hlog⟩
  exact ⟨v', hv', hstart, _, hlog⟩

/-- A reply leaves `accu_start_time`, and has what was accumulated reported. -/
theorem handleTrafficReportRsp_issues {p : Ptr} {c : Connect} (hv : s.userMap u = some v)
    (hc : s.conns p = some c)
    (hu : u = ⟨(TrafficReportRsp.read c.dec.buff).mobile, (TrafficReportRsp.read c.dec.buff).app⟩) :
    wlp (handleTrafficReportRsp p) (fun _ s' => ∃ v', s'.userMap u = some v' ∧
      v'.accuStartTime = v.accuStartTime ∧ s'.log = s.log ++
        if v.traffic = 0 then [] else [.report ⟨u, v.traffic, v.accuStartTime, s.now⟩]) s := by
  rw [handleTrafficReportRsp, wlp, wpe_bind, wpe_deref, found hc]
  rw [wpe_bind, wpe_get, ← hu, hv]
  simp only [wpe_ite]
  refine ⟨fun h0 => ?_, fun h0 => ?_⟩
  · simp only [reportAccumulated, wpe_bind, wpe_derefUser, wpe_emit, wpe_get, getCenterConn, hv, found_iff]
    cases hp : (s.emit (.report ⟨u, v.traffic, v.accuStartTime, s.now⟩)).centerConnPool with
    | nil => trivial
    | cons cn pool =>
        simp only [firstConn, wpe_pure, wpe_modUser]
        refine ⟨fun _ => trivial, fun v₁ hv₁ => ⟨fun _ => trivial, fun v₂ hv₂ => ?_⟩⟩
        obtain rfl : v = v₁ := Option.mem_unique hv hv₁
        simp only [Server.setUser, Function.update_self, Option.some.injEq] at hv₂
        subst hv₂
        exact ⟨_, Function.update_self .., rfl, by simp [h0, Server.setUser, Server.emit]⟩
  · simp only [wpe_bind, wpe_modUser, wpe_pure]
    refine ⟨fun _ => trivial, fun v₁ hv₁ => ⟨_, Function.update_self .., ?_, ?_⟩⟩
    · obtain rfl : v = v₁ := Option.mem_unique hv hv₁
      rfl
    · rw [not_not] at h0
      simp [h0, Server.setUser]

end Specs

/-! ### Runs -/

/-- The books agree with the server, and hold all reports but the `past` ones. -/
structure Books.Kept (u : UserId) (past : List Report) (s : Server) (g : Books) : Prop where
  start : ∃ v, s.userMap u = some v ∧ v.accuStartTime = earliest g.restart g.later
  begins : ∀ b ∈ g.begins, b ≤ g.clock
  issued : ∀ e ∈ g.issued, e.Covers ↔ e.FirstCounts
  reports : reportsOf u s.log = past ++ g.issued.map Issued.report

section Runs

variable {u : UserId} {past : List Report} {s s' : Server} {g : Books}

theorem reportsOf_drop (l m : List Obs) : reportsOf u ((l ++ m).drop l.length) = reportsOf u m := by
  rw [List.drop_left]

theorem reportsOf_append (l m : List Obs) : reportsOf u (l ++ m) = reportsOf u l ++ reportsOf u m :=
  List.filterMap_append

theorem issued_reports (l : List Issued) (rs : List Report) (begins : List Timeval) (restart : Timeval)
    (later : List Timeval) :
    (l ++ rs.map fun r => Issued.mk r begins restart later).map Issued.report =
      l.map Issued.report ++ rs := by
  rw [List.map_append, List.map_map]
  exact congrArg (_ ++ ·) (List.map_id rs)

/-- `accu_start_time` after a call is what the books say. -/
theorem accuStart_kept {v : User} (h : v.accuStartTime = earliest g.restart g.later) (now b : Timeval) :
    accuStart v now b = earliest (if v.conReport = 0 then now else g.restart)
      (if v.conReport = 0 then [] else g.later ++ [b]) := by
  rw [accuStart_eq]
  split_ifs with h0
  · rfl
  · rw [earliest_append, h]

theorem Books.Kept.stream {v : User} {k : ScbPtr} {b : SCB} {t : Ptr} {tn : Connect} {now : Timeval} {r : ℤ}
    (h : g.Kept u past s) (hclock : g.clock ≤ now) (hb : tn.beginTime ≤ now) (hv : s.userMap u = some v)
    (hrun : reportOrAccumulate u k ((ReportOp.stream k b t tn now).found s) = .ok (r, s')) :
    (g.after u v ((ReportOp.stream k b t tn now).found s) s' (.stream k b t tn now)).Kept u past s' := by
  obtain ⟨v₀, hv₀, hstart⟩ := h.start
  obtain rfl : v = v₀ := Option.mem_unique hv hv₀
  have hscb : ((ReportOp.stream k b t tn now).found s).scbs k = { b with tunnelConn := some t } :=
    Function.update_self ..
  have hspec := (wlp_iff _ _ _).mp (reportOrAccumulate_issues (s := (ReportOp.stream k b t tn now).found s)
    hv (by rw [hscb]) (Function.update_self ..)) _ _ hrun
  simp only [hscb] at hspec
  have hbegins : ∀ x ∈ g.begins, x ≤ now := fun x hx => (h.begins x hx).trans hclock
  obtain ⟨v', hv', hcase⟩ := hspec
  by_cases h0 : b.traffic = 0
  · rw [if_pos h0] at hcase
    rw [Books.after, if_pos h0]
    exact ⟨⟨v', hv', hcase.1.trans hstart⟩, hbegins, h.issued, by rw [hcase.2]; exact h.reports⟩
  · rw [if_neg h0] at hcase
    obtain ⟨hnew, n, hlog⟩ := hcase
    have hnow : ((ReportOp.stream k b t tn now).found s).now = now := rfl
    rw [hnow, accuStart_kept hstart] at hnew hlog
    rw [Books.after, if_neg h0, hlog, reportsOf_drop]
    refine ⟨⟨v', hv', hnew⟩, fun x hx => ?_, fun e he => ?_, ?_⟩
    · simp only at hx
      split_ifs at hx with hrep
      · rcases List.mem_append.mp hx with hx | hx
        · exact hbegins x hx
        · exact List.mem_singleton.mp hx ▸ hb
      · exact hbegins x hx
    · rcases List.mem_append.mp he with he | he
      · exact h.issued e he
      · by_cases hrep : v.reporting = true
        · simp [hrep, reportsOf] at he
        · rw [if_neg hrep] at he
          simp only [reportsOf, List.filterMap_cons, if_true, List.filterMap_nil, List.map_cons,
            List.map_nil, List.mem_singleton] at he
          subst he
          exact Issued.covers_iff_firstCounts rfl fun x hx => List.mem_singleton.mp hx ▸ hb
    · have hpast : reportsOf u ((ReportOp.stream k b t tn now).found s).log = reportsOf u s.log := rfl
      rw [hlog, reportsOf_append, issued_reports, hpast, h.reports, List.append_assoc]

theorem Books.Kept.reply {v : User} {p : Ptr} {c : Connect} {now : Timeval} {r : ℤ} (h : g.Kept u past s)
    (hclock : g.clock ≤ now) (hu : (ReportOp.reply p c now).Valid u) (hv : s.userMap u = some v)
    (hrun : handleTrafficReportRsp p ((ReportOp.reply p c now).found s) = .ok (r, s')) :
    (g.after u v ((ReportOp.reply p c now).found s) s' (.reply p c now)).Kept u past s' := by
  obtain ⟨v₀, hv₀, hstart⟩ := h.start
  obtain rfl : v = v₀ := Option.mem_unique hv hv₀
  obtain ⟨v', hv', hsame, hlog⟩ := (wlp_iff _ _ _).mp (handleTrafficReportRsp_issues
    (s := (ReportOp.reply p c now).found s) hv (Function.update_self ..) hu) _ _ hrun
  have hbegins : ∀ x ∈ g.begins, x ≤ now := fun x hx => (h.begins x hx).trans hclock
  rw [Books.after, hlog, reportsOf_drop]
  refine ⟨⟨v', hv', hsame.trans hstart⟩, fun x hx => ?_, fun e he => ?_, ?_⟩
  · simp only at hx
    split_ifs at hx
    · exact hbegins x hx
    · cases hx
  · rcases List.mem_append.mp he with he | he
    · exact h.issued e he
    · by_cases h0 : v.traffic = 0
      · simp [h0, reportsOf] at he
      · rw [if_neg h0] at he
        simp only [reportsOf, List.filterMap_cons, if_true, List.filterMap_nil, List.map_cons,
          List.map_nil, List.mem_singleton] at he
        subst he
        exact Issued.covers_iff_firstCounts hstart hbegins
  · have hpast : reportsOf u ((ReportOp.reply p c now).found s).log = reportsOf u s.log := rfl
    rw [hlog, reportsOf_append, issued_reports, hpast, h.reports, List.append_assoc]

/-- One operation keeps the books. -/
theorem Books.Kept.after {v : User} {op : ReportOp} (h : g.Kept u past s) (hclock : g.clock ≤ op.now)
    (hop : op.Valid u) (hv : s.userMap u = some v) (hrun : op.run u (op.found s) = .ok ((), s')) :
    (g.after u v (op.found s) s' op).Kept u past s' := by
  cases op with
  | stream k b t tn now =>
      obtain ⟨r, s₁, hr, he⟩ := run_bind_eq_ok.mp hrun
      cases he
      exact h.stream hclock hop hv hr
  | reply p c now =>
      obtain ⟨r, s₁, hr, he⟩ := run_bind_eq_ok.mp hrun
      cases he
      exact h.reply hclock hop hv hr

/-- A run keeps the books. -/
theorem runReports_kept {ops : List ReportOp} {g' : Books} (h : g.Kept u past s)
    (hrun : runReports u ops (s, g) = some (s', g')) : g'.Kept u past s' := by
  induction ops generalizing s g with
  | nil =>
      cases hrun
      exact h
  | cons op ops ih =>
      rw [runReports] at hrun
      split_ifs at hrun with hvalid
      split at hrun
      · next v s₁ hv hop => exact ih (h.after hvalid.1 hvalid.2 hv hop) hrun
      · cases hrun

end Runs

/-- The books of a user with nothing accumulated. -/
def Books.opened (v : User) (clock : Timeval) : Books := ⟨clock, [], v.accuStartTime, [], []⟩

/-- **A report covers its streams exactly if the first of them counts.**  For every user, every sequence of
`ReportOrAccumulate` calls and replies with a clock that does not go back, and every report issued: it lies around
the begin times of the streams it contains and begins with the first of them if and only if the earliest of these
begin times is the earliest of the time at which a call last found `con_report` 0 and the begin times of the
streams of the calls after it. -/
theorem report_covers_iff {u : UserId} {s s' : Server} {v : User} {clock : Timeval} {ops : List ReportOp}
    {g : Books} (hv : s.userMap u = some v)
    (hrun : runReports u ops (s, Books.opened v clock) = some (s', g)) :
    reportsOf u s'.log = reportsOf u s.log ++ g.issued.map Issued.report ∧
      ∀ e ∈ g.issued, e.Covers ↔ e.FirstCounts := by
  have h : (Books.opened v clock).Kept u (reportsOf u s.log) s :=
    ⟨⟨v, hv, rfl⟩, by simp [Books.opened], by simp [Books.opened], by simp [Books.opened]⟩
  have h' := runReports_kept h hrun
  exact ⟨h'.reports, h'.issued⟩

/-- A call at second `now` for a stream of 100 bytes that began at second `begins`. -/
def callFor (begins now : ℕ) : ReportOp :=
  .stream 0 { traffic := 100 } 3 { beginTime := ⟨begins, 0⟩ } ⟨now, 0⟩

/-- A reply for user 2 of application 1. -/
def replyAt (now : ℕ) : ReportOp :=
  .reply 1 { dec := ⟨.header, 0, 0, 0, Buff.store (fun _ => 0) 2 (toLE 8 1 ++ toLE 8 2)⟩ } ⟨now, 0⟩

/-- User 2 of application 1 is known. -/
def knownUser : Server := (Server.init false 0 0 fun _ => 0).setUser ⟨2, 1⟩ {}

/-- One stream is reported the moment it begins; two are accumulated, the second of which began first. -/
def coveredRun : List ReportOp := [callFor 1 1, callFor 2 3, callFor 1 4, replyAt 5]

/-- Both reports cover their streams. -/
theorem report_covers_iff_coveredRun : ∃ s g, runReports ⟨2, 1⟩ coveredRun (knownUser, Books.opened {} ⟨0, 0⟩) =
    some (s, g) ∧ g.issued.length = 2 ∧ ∀ e ∈ g.issued, e.Covers := by
  have hrun : (runReports ⟨2, 1⟩ coveredRun (knownUser, Books.opened {} ⟨0, 0⟩)).map (fun w =>
      decide (w.2.issued.length = 2 ∧ ∀ e ∈ w.2.issued, e.FirstCounts)) = some true := by
    decide +kernel
  obtain ⟨⟨s, g⟩, hs, hg⟩ := Option.map_eq_some_iff.mp hrun
  obtain ⟨htwo, hcounts⟩ := of_decide_eq_true hg
  have hknown : knownUser.userMap ⟨2, 1⟩ = some {} := by simp [knownUser, Server.setUser]
  have h := report_covers_iff hknown hs
  exact ⟨s, g, hs, htwo, fun e he => (h.2 e he).mpr (hcounts e he)⟩

/-- **A report that begins after its stream.**  A stream that began at second 1 is reported at second 5 as traffic
from second 5 to second 5. -/
theorem report_missesBegin : ∃ s g, runReports ⟨2, 1⟩ [callFor 1 5] (knownUser, Books.opened {} ⟨0, 0⟩) =
    some (s, g) ∧ g.issued = [⟨⟨⟨2, 1⟩, 100, ⟨5, 0⟩, ⟨5, 0⟩⟩, [⟨1, 0⟩], ⟨5, 0⟩, []⟩] ∧
      ∀ e ∈ g.issued, ¬ e.Covers := by
  have hrun : (runReports ⟨2, 1⟩ [callFor 1 5] (knownUser, Books.opened {} ⟨0, 0⟩)).map (fun w =>
      decide (w.2.issued = [⟨⟨⟨2, 1⟩, 100, ⟨5, 0⟩, ⟨5, 0⟩⟩, [⟨1, 0⟩], ⟨5, 0⟩, []⟩] ∧
        ∀ e ∈ w.2.issued, ¬ e.Covers)) = some true := by
    decide +kernel
  obtain ⟨⟨s, g⟩, hs, hg⟩ := Option.map_eq_some_iff.mp hrun
  exact ⟨s, g, hs, of_decide_eq_true hg⟩

end HttpsTunnel.Tms

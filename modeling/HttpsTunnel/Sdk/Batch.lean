import HttpsTunnel.Sdk.Room
import HttpsTunnel.Sdk.Sweep
import HttpsTunnel.Sdk.Table

/-! # Batches of events of the SDK

The main loop of the SDK with what the kernel promises: it gives out no descriptor of a connection (`Call.Spare`), and
a batch has an event only for a descriptor that is registered when the loop waits (`World.Reports`).  In every run
whose reads meet the two conditions of `Room.lean` (`Call.Fits`), every read from a tunnel has room in the buffer
(`ReachableBy.room_iff`). -/

namespace HttpsTunnel.Sdk

open HttpsTunnel.Lib HttpsTunnel.Wire

/-! ### Removing connections -/

instance : Pruning Loses where
  unregister fd s := wlp_mono (wlp_removeEvent fd s) fun _ _ h =>
    ⟨fun hc => ⟨_, h.1 ▸ hc, rfl⟩, fun he => h.2.1 ▸ he, h.2.2.1, fun he => h.2.2.2.2 _ he⟩
  shut s _ := SameDesks.loses (s := s) rfl
  erase _ _ := ⟨fun hc => ⟨_, hc, rfl⟩, fun he => (update_none_eq he).2, rfl, id⟩
  delete _ _ := ⟨fun {_ d} hq => ⟨d, (update_none_eq hq).2, rfl⟩, id, rfl, id⟩

/-- In the SDK connections, entries and registrations go. -/
abbrev Sheds : World → World → Prop := Inside Loses

section Removal

variable {w : World} {p : Ptr} {c : Connect} {fd : ℕ} {rest : List ℕ}

/-- A connection that is deleted is gone. -/
theorem dropConn_gone (p : Ptr) : Ensures (dropConn p) fun _ w' => w'.sdk.conns p = none := by
  have hdelete : Ensures (onSdk (modify fun s => { s with conns := Function.update s.conns p none } : SdkM PUnit))
      fun _ w' => w'.sdk.conns p = none := fun _ => wpe_onSdk.mpr (Function.update_self _ _ _)
  refine .bind fun c => .bind fun _ => .bind fun c => ?_
  dsimp only
  split_ifs
  · exact .bind fun _ => .bind fun _ => .bind fun _ => .bind fun _ => hdelete
  · exact .bind fun _ => .bind fun _ => hdelete
  · exact .bind fun _ => .bind fun _ => hdelete
  · exact hdelete

/-- A connection that changed before it went. -/
theorem Loses.of_set {s s' : State} {c' : Connect} (h : Loses (s.setConn p c') s') (hp : s'.conns p = none) :
    Loses s s' := by
  refine ⟨fun {q d} hq => ?_, h.entry, h.next, h.epoll⟩
  have hqp : q ≠ p := by
    rintro rfl
    cases hp.symm.trans hq
  obtain ⟨e, he, hd⟩ := h.conn hq
  exact ⟨e, (State.setConn_ne s c' hqp).symm.trans he, hd⟩

/-- The peer of a tunnel is a browser, so a connection that is removed is deleted. -/
theorem isProxied_true (h : w.sdk.Tidy rest) (hp : w.sdk.conns p = some c) :
    wlp (isProxied c) (fun b w' => b = true ∧ w' = { w with sdk := w.sdk.setConn p c.down })
      { w with sdk := w.sdk.setConn p c.down } := by
  rw [isProxied]
  split_ifs with hty
  · exact ⟨rfl, rfl⟩
  · cases hpeer : c.peer with
    | none => exact trivial
    | some q =>
        simp only [wlp, wpe_bind, wpe_onSdk, wpe_deref, wpe_pure]
        refine ⟨fun _ => trivial, fun d hd => ⟨decide_eq_true ?_, trivial⟩⟩
        have hproxy := ((h.tunnel hp hty).peer q hpeer).2
        by_cases hqp : q = p
        · subst hqp
          exact absurd (hproxy c hp) hty
        · exact hproxy d ((State.setConn_ne _ _ hqp).symm.trans hd)

theorem removeEntry_tidy (h : w.sdk.Tidy rest) (p : Ptr) : wlp (removeEntry p) (fun _ w' => w'.sdk.Tidy rest) w := by
  have hdown : ∀ c, w.sdk.conns p = some c → wlp (do
      onSdk (modConn p Connect.down)
      if ← isProxied c then
        dropPeer c.peer
        dropConn p
      else onSdk (wakeupUser p)
      modify (fun w => { w with connCount := w.connCount - 1 }) : WorldM PUnit) (fun _ w' => w'.sdk.Tidy rest) w := by
    intro c hc
    simp only [wlp, wpe_bind, wpe_onSdk, wpe_modConn, found hc]
    refine wlp_mono (isProxied_true h hc) ?_
    rintro _ w₁ ⟨rfl, rfl⟩
    simp only [if_true, wpe_bind, wpe_modify]
    refine wlp_mono (dropPeer_inside (R := Loses) c.peer _) fun _ w₂ h₂ => ?_
    refine wlp_mono (wlp_and (dropConn_inside (R := Loses) p w₂) (dropConn_gone p w₂)) fun _ w₃ h₃ => ?_
    exact h.loses ((trans_of Sheds h₂ h₃.1 : Loses _ _).of_set h₃.2)
  rw [removeEntry, wlp, wpe_bind, wpe_onSdk, wpe_deref]
  refine ⟨fun _ => trivial, fun c hc => ?_⟩
  dsimp only
  split_ifs
  · split
    · rw [wpe_bind, wpe_onSdk, wpe_deref]
      exact ⟨fun _ => trivial, fun _ _ => hdown c hc⟩
    · exact hdown c hc
  · exact hdown c hc

theorem removeConnect_tidy (h : w.sdk.Tidy rest) (fd : ℕ) :
    wlp (removeConnect fd) (fun _ w' => w'.sdk.Tidy rest) w := by
  simp only [removeConnect, wlp, wpe_bind, wpe_get]
  rcases w.sdk.connMap fd with _ | _ | p
  · simp only [wpe_bind]
    exact wlp_mono (onSdk_inside (R := Loses) (Pruning.unregister fd) w) fun _ _ h' => h.loses h'
  · exact trivial
  · simp only [wpe_bind]
    exact wlp_mono (removeEntry_tidy h p) fun _ _ h' => h'

/-- What keeps the invariant. -/
def Tidies (rest : List ℕ) (s s' : State) : Prop := s.Tidy rest → s'.Tidy rest

instance : Std.Refl (Tidies rest) := ⟨fun _ => id⟩

instance : IsTrans State (Tidies rest) := ⟨fun _ _ _ h h' hs => h' (h hs)⟩

theorem crbScan_tidies : Does (Inside (Tidies rest)) crbScan :=
  crbScan_follows fun fd _ => wlp_of_imp fun h => removeConnect_tidy h fd

end Removal

/-! ### Accepting and dialling -/

section Opening

variable {w : World} {s : State} {fd : ℕ} {rest : List ℕ}

/-- Only browsers have descriptor `fd`. -/
def State.Browsed (s : State) (fd : ℕ) : Prop := ∀ q d, s.conns q = some d → d.sockFd = fd → d.type = .proxy

theorem Loses.browsed {s s' : State} (h : Loses s s') (hs : s.Browsed fd) : s'.Browsed fd := by
  intro q d' hq hfd
  obtain ⟨d, hd, hde⟩ := h.conn hq
  rw [type_of_desk hde]
  exact hs q d hd (sockFd_of_desk hde ▸ hfd)

/-- A browser is admitted under a descriptor that no connection has: no object is used again. -/
theorem acceptEntry_tidy (h : s.Tidy rest) (h0 : fd ≠ 0) (hfd : s.Spare fd) :
    wlp (acceptEntry fd) (fun _ s' => s'.Tidy rest ∧ s'.Browsed fd) s := by
  rcases he : s.connMap fd with _ | _ | p
  · refine Iff.mpr ( wpe_admit he) ⟨h.admitted h0 hfd, fun q d hq hsock => ?_⟩
    obtain ⟨rfl, rfl⟩ | ⟨-, hq⟩ := update_some_eq hq
    · rfl
    · exact absurd hsock (hfd q (h.known hq).1 d hq)
  · simp only [acceptEntry, acceptObject, wlp, wpe_bind, wpe_get, he, wpe_throw]
  · simp only [acceptEntry, acceptObject, wlp, wpe_bind, wpe_get, he, wpe_modConn]
    exact ⟨fun _ => trivial, fun c hc => absurd ((h.entry he).2 c hc) (hfd p (h.known hc).1 c hc)⟩

theorem handleAcceptEvent_tidy {newfd : ℤ} (h : w.sdk.Tidy rest) (hfd : 0 < newfd → w.sdk.Spare newfd.toNat) :
    wlp (handleAcceptEvent newfd) (fun ret w' => w'.sdk.Tidy rest ∧ (0 < ret → w'.sdk.Browsed ret.toNat)) w := by
  simp only [handleAcceptEvent, acceptConnection, wlp, wpe_ite, wpe_pure, wpe_bind]
  refine ⟨fun hle => ⟨h, fun hpos => absurd hpos (not_lt.mpr hle)⟩, fun hle => ?_⟩
  have hpos : 0 < newfd := not_le.mp hle
  refine wlp_mono (inWindow_inside (R := Loses) w) fun ok w₁ h₁ =>
    ⟨fun _ => ?_, fun _ => ⟨h.loses h₁, fun h0 => absurd h0 (lt_irrefl _)⟩⟩
  have hspare : w₁.sdk.Spare newfd.toNat := (hfd hpos).loses h₁
  have hne : newfd.toNat ≠ 0 := by omega
  refine wpe_onSdk.mpr (wlp_mono (acceptEntry_tidy (h.loses h₁) hne hspare) ?_)
  rintro p s₂ ⟨h₂, hb₂⟩
  refine wlp_mono (watch_inside (R := Loses) _ p { w₁ with sdk := s₂ }) fun _ w₃ h₃ => ?_
  simp only [wpe_modify]
  exact ⟨h₂.loses h₃, fun _ => h₃.browsed hb₂⟩

/-- The tunnel of the application is new. -/
theorem yMELoginTms_tidy (h : s.Tidy rest) (hfd : ∀ fd, .opened fd ∈ s.dials → s.Spare fd) (a : LoginArgs) :
    wlp (yMELoginTms a) (fun _ s' => s'.Tidy rest) s := by
  simp only [yMELoginTms, wlp, wpe_bind]
  refine wlp_mono (wlp_createConn s) ?_
  rintro r s₁ (⟨rfl, more, e, -, rfl⟩ | ⟨fd, more, rfl, h0, hd, rfl⟩)
  · exact h.loses (loses_of_eq rfl rfl rfl rfl)
  · have h₁ := h.dialled h0 (hfd fd (hd ▸ List.mem_cons_self)) more
    have hfields : Does SameDesks (modConn s.nextConn fun c => { c with
        uid := a.app, mobile := a.mobile, host := a.host, webPort := 80 }) := modConn_still fun _ => rfl
    simp only [wpe_bind]
    refine wlp_mono (hfields _) fun _ s₂ h₂ => ?_
    simp only [wpe_ite, wpe_bind, wpe_throw, wpe_deref, wpe_get, wpe_pure]
    refine ⟨fun _ => trivial, fun _ => ⟨fun _ => trivial, fun _ => ⟨fun _ => trivial, fun c hc => ?_⟩⟩⟩
    obtain ⟨c₁, hc₁, hde⟩ := h₂.conn hc
    have hnew : (s.dialled fd more).conns s.nextConn = some (tunnelConnect fd) := Function.update_self _ _ _
    obtain rfl : tunnelConnect fd = c₁ := Option.mem_unique hnew hc₁
    have hup : c.status ≠ .hangup := by
      rw [status_of_desk hde]
      simp [tunnelConnect]
    refine wlp_mono ((h₁.same h₂).addEvent hc (fun _ => hup) _) fun _ s₃ h₃ => ?_
    exact wlp_mono (sendTmsMsg_still _ _ s₃) fun _ _ h₄ => h₃.1.same h₄

end Opening

/-! ### Calls -/

namespace Call

/-- The kernel gives out no descriptor of a connection. -/
def Spare (w : World) : Call → Prop
  | accept newfd _ => 0 < newfd → w.sdk.Spare newfd.toNat
  | recv _ k | login _ k => ∀ fd, k.dial = .opened fd → w.sdk.Spare fd
  | _ => True

/-- The reads of the call from a tunnel. -/
def readings (w : World) : Call → List Reading
  | recv fd k => State.readings { w.sdk with writes := k.writes, dials := [k.dial] } fd k.reads
  | _ => []

/-- No header that is read announces more than the buffer holds, and no CONNECT_HOST_RSP lets a tunnel forward. -/
def Fits (w : World) (c : Call) : Prop := ∀ r ∈ c.readings w, r.Bounded hdrFormat buffSize ∧ ¬ HostConnected r

instance (w : World) : ∀ c : Call, Decidable (c.Spare w)
  | accept newfd _ => inferInstanceAs (Decidable (0 < newfd → w.sdk.Spare newfd.toNat))
  | recv _ k | login _ k => inferInstanceAs (Decidable (∀ fd, k.dial = .opened fd → w.sdk.Spare fd))
  | register _ | writable _ _ | remove _ | scan _ | loginEnd _ => .isTrue trivial

instance (w : World) (c : Call) : Decidable (c.Fits w) :=
  inferInstanceAs (Decidable (∀ r ∈ c.readings w, r.Bounded hdrFormat buffSize ∧ ¬ HostConnected r))

end Call

section Calls

variable {w : World} {fd : ℕ} {rest : List ℕ}

theorem answering_loses (s : State) (k : Answers) : Loses s { s with writes := k.writes, dials := [k.dial] } :=
  loses_of_eq rfl rfl rfl rfl

theorem recv_tidy (h : w.sdk.Tidy (fd :: rest)) (hfd : fd ∉ rest) {k : Answers} (hs : (Call.recv fd k).Spare w)
    (hf : (Call.recv fd k).Fits w) :
    wlp (Call.recv fd k).run (fun r w' => w'.sdk.Tidy rest ∧ RecvCode r.1) w := by
  simp only [Call.run, Call.exec, Call.answering, wlp, wpe_bind, wpe_modify, wpe_onSdk, wpe_get, wpe_pure]
  refine wlp_and (handleRecvEvent_tidy (h.loses (answering_loses _ k)) hfd le_rfl (fun fd' hmem => ?_) k.reads hf)
    (handleRecvEvent_code fd k.reads _)
  exact (hs fd' (List.mem_singleton.mp hmem).symm).loses (answering_loses _ k)

theorem writable_tidy (h : w.sdk.Tidy rest) (fd : ℕ) (k : Answers) :
    wlp (Call.writable fd k).run (fun _ w' => w'.sdk.Tidy rest) w := by
  simp only [Call.run, Call.exec, Call.answering, wlp, wpe_bind, wpe_modify, wpe_onSdk, wpe_get, wpe_pure]
  exact handleEPOEvent_tidy (h.loses (answering_loses _ k))

theorem accept_tidy (h : w.sdk.Tidy rest) {newfd : ℤ} {ts : List Timeval} (hs : (Call.accept newfd ts).Spare w) :
    wlp (Call.accept newfd ts).run (fun r w' => w'.sdk.Tidy rest ∧ (0 < r.1 → w'.sdk.Browsed r.1.toNat)) w := by
  simp only [Call.run, Call.exec, Call.timing, wlp, wpe_bind, wpe_modify, wpe_get, wpe_pure]
  exact handleAcceptEvent_tidy (w := { w with times := ts }) h hs

theorem register_tidy (h : w.sdk.Tidy rest) (hb : w.sdk.Browsed fd) :
    wlp (Call.register fd).run (fun _ w' => w'.sdk.Tidy rest) w := by
  simp only [Call.run, Call.exec, wlp, wpe_bind, wpe_onSdk, wpe_get, wpe_pure]
  refine wlp_mono (h.addEvent_of (fun q d hq hty hfd => ?_) _) fun _ _ h' => h'.1
  exact absurd (hb q d hq hfd) hty

theorem remove_tidy (h : w.sdk.Tidy rest) (fd : ℕ) : wlp (Call.remove fd).run (fun _ w' => w'.sdk.Tidy rest) w := by
  simp only [Call.run, Call.exec, wlp, wpe_bind, wpe_get, wpe_pure]
  exact removeConnect_tidy h fd

theorem scan_tidy (h : w.sdk.Tidy rest) (ts : List Timeval) :
    wlp (Call.scan ts).run (fun _ w' => w'.sdk.Tidy rest) w := by
  simp only [Call.run, Call.exec, Call.timing, wlp, wpe_bind, wpe_modify, wpe_get, wpe_pure]
  exact wlp_mono (crbScan_tidies { w with times := ts }) fun _ _ h' => h' h

theorem login_tidy (h : w.sdk.Tidy rest) {a : LoginArgs} {k : Answers} (hs : (Call.login a k).Spare w) :
    wlp (Call.login a k).run (fun _ w' => w'.sdk.Tidy rest) w := by
  simp only [Call.run, Call.exec, Call.answering, wlp, wpe_bind, wpe_modify, wpe_onSdk, wpe_get, wpe_pure]
  refine wlp_mono (yMELoginTms_tidy (h.loses (answering_loses _ k)) (fun fd hmem => ?_) a) ?_
  · exact (hs fd (List.mem_singleton.mp hmem).symm).loses (answering_loses _ k)
  · rintro (_ | p) s' h'
    · exact h'
    · exact h'

theorem loginEnd_tidy (h : w.sdk.Tidy rest) (p : Ptr) : wlp (Call.loginEnd p).run (fun _ w' => w'.sdk.Tidy rest) w := by
  simp only [Call.run, Call.exec, wlp, wpe_bind, wpe_get, wpe_pure]
  exact wlp_mono (loginEnd_inside (R := Loses) p w) fun _ _ h' => h.loses h'

end Calls

/-! ### Events -/

/-- The descriptor of a connection that is ready. -/
def Ready.fd : Ready → Option ℕ
  | listening _ _ => none
  | conn fd _ _ _ _ _ _ => some fd

/-- The reads of the event from a tunnel: `HandleRecvEvent` is not called a second time (`recvPlan_tidy`). -/
def Ready.readings (w : World) : Ready → List Reading
  | listening _ _ => []
  | conn fd inn _ first _ _ _ => if inn then (Call.recv fd first).readings w else []

section Plans

variable {w : World} {fd : ℕ} {rest : List ℕ} {P : World → Call → Prop} {next again : LoopPlan}

theorem removePlan_tidy (h : w.sdk.Tidy rest) (fd : ℕ) :
    wlp ((Plan.once (.remove fd) : LoopPlan).run Call.run) (fun _ w' => w'.sdk.Tidy rest) w := by
  simp only [Plan.once, Plan.run, wlp, wpe_bind]
  exact wlp_mono (remove_tidy h fd) fun _ _ h' => h'

theorem outPlan_tidy (h : w.sdk.Tidy rest) (fd err : ℕ) (k : Answers) :
    wlp ((outPlan fd err k).run Call.run) (fun _ w' => w'.sdk.Tidy rest) w := by
  rw [outPlan]
  split_ifs
  · simp only [Plan.run, wlp, wpe_bind]
    refine wlp_mono (writable_tidy h fd k) fun r w' h' => ?_
    split_ifs
    · exact removePlan_tidy h' fd
    · exact h'
  · exact h

/-- A call of `HandleRecvEvent`: the loop does not repeat it. -/
theorem recvCall_tidy (h : w.sdk.Tidy (fd :: rest)) (hfd : fd ∉ rest) {k : Answers}
    (hg : (recvCall fd next again k).Guard Call.run (fun w c => c.Spare w ∧ c.Fits w) w)
    (hnext : ∀ w', w'.sdk.Tidy rest → wlp (next.run Call.run) (fun _ w' => w'.sdk.Tidy rest) w') :
    wlp ((recvCall fd next again k).run Call.run) (fun _ w' => w'.sdk.Tidy rest) w := by
  rw [recvCall, Plan.Guard] at hg
  simp only [recvCall, Plan.run, wlp, wpe_bind]
  refine wlp_mono (recv_tidy h hfd hg.1.1 hg.1.2) ?_
  rintro ⟨ret, errno⟩ w' ⟨h', hcode⟩
  dsimp only at hcode ⊢
  split_ifs with h2 h1 _ h0
  · exact h'
  · exact hnext w' h'
  · exact removePlan_tidy h' fd
  · exact hnext w' h'
  · exact removePlan_tidy h' fd
  · exact absurd hcode (by simp [RecvCode, h2, h1, h0])
  · exact hnext w' h'

theorem recvPlan_tidy (h : w.sdk.Tidy (fd :: rest)) (hfd : fd ∉ rest) {first : Answers} {more : List Answers}
    (hg : (recvPlan fd next first more).Guard Call.run (fun w c => c.Spare w ∧ c.Fits w) w)
    (hnext : ∀ w', w'.sdk.Tidy rest → wlp (next.run Call.run) (fun _ w' => w'.sdk.Tidy rest) w') :
    wlp ((recvPlan fd next first more).run Call.run) (fun _ w' => w'.sdk.Tidy rest) w := by
  cases more with
  | nil => exact recvCall_tidy h hfd hg hnext
  | cons k more => exact recvCall_tidy h hfd hg hnext

theorem plan_tidy {e : Ready} (h : w.sdk.Tidy (e.fd.toList ++ rest)) (hfd : ∀ fd ∈ e.fd, fd ∉ rest)
    (hg : e.plan.Guard Call.run (fun w c => c.Spare w ∧ c.Fits w) w) :
    wlp (e.plan.run Call.run) (fun _ w' => w'.sdk.Tidy rest) w := by
  cases e with
  | listening newfd ts =>
      rw [Ready.plan, Plan.Guard] at hg
      simp only [Ready.plan, Plan.run, wlp, wpe_bind]
      refine wlp_mono (accept_tidy h hg.1.1) ?_
      rintro ⟨ret, errno⟩ w' ⟨h', hb⟩
      dsimp only at hb ⊢
      split_ifs with hpos
      · simp only [Plan.once, Plan.run, wpe_bind]
        exact wlp_mono (register_tidy h' (hb hpos)) fun _ _ h'' => h''
      · exact h'
  | conn fd inn out first more err last =>
      have hout : ∀ w', w'.sdk.Tidy rest → wlp ((if out then outPlan fd err last else .done).run Call.run)
          (fun _ w' => w'.sdk.Tidy rest) w' := by
        intro w' h'
        split_ifs
        · exact outPlan_tidy h' fd err last
        · exact h'
      cases inn with
      | true => exact recvPlan_tidy h (hfd fd rfl) hg hout
      | false => exact hout w h.weaken

end Plans

/-! ### Runs -/

/-- The kernel can report the event. -/
def World.Reports (w : World) : Ready → Prop
  | .listening _ _ => True
  | .conn fd inn out _ _ _ _ => ∃ m, w.sdk.epoll fd = some m ∧ (inn → m.inn) ∧ (out → m.out)

instance (w : World) : (e : Ready) → Decidable (w.Reports e)
  | .listening _ _ => .isTrue trivial
  | .conn fd inn out _ _ _ _ =>
      decidable_of_iff ((w.sdk.epoll fd).any fun m => (!inn || m.inn) && (!out || m.out)) <| by
        cases h : w.sdk.epoll fd <;> simp [World.Reports, h, imp_iff_not_or]

/-- The states of the main loop, with the events of the batch that are still to be handled, where the kernel keeps its
promise and all calls meet `P`.  The application logs in at any time. -/
inductive ReachableBy (P : World → Call → Prop) (w₀ : World) : World → List Ready → Prop
  | start : ReachableBy P w₀ w₀ []
  | wait {w : World} (batch : List Ready) (h : ReachableBy P w₀ w []) (hr : ∀ e ∈ batch, w.Reports e)
      (hd : (batch.filterMap Ready.fd).Nodup) : ReachableBy P w₀ w batch
  | event {w w' : World} {e : Ready} {rest : List Ready} (h : ReachableBy P w₀ w (e :: rest))
      (hP : e.plan.Guard Call.run (fun w c => c.Spare w ∧ P w c) w) (he : e.plan.run Call.run w = .ok ((), w')) :
      ReachableBy P w₀ w' rest
  | scan {w w' : World} {r : ℤ × ℕ} (ts : List Timeval) (h : ReachableBy P w₀ w [])
      (he : (Call.scan ts).run w = .ok (r, w')) : ReachableBy P w₀ w' []
  | login {w w' : World} {r : ℤ × ℕ} {pending : List Ready} {a : LoginArgs} {k : Answers}
      (h : ReachableBy P w₀ w pending) (hs : (Call.login a k).Spare w) (he : (Call.login a k).run w = .ok (r, w')) :
      ReachableBy P w₀ w' pending
  | loginEnd {w w' : World} {r : ℤ × ℕ} {pending : List Ready} (p : Ptr) (h : ReachableBy P w₀ w pending)
      (he : (Call.loginEnd p).run w = .ok (r, w')) : ReachableBy P w₀ w' pending

section Runs

variable {w w₀ : World} {pending rest : List Ready} {e : Ready} {P : World → Call → Prop}

theorem ReachableBy.nodup (h : ReachableBy P w₀ w pending) : (pending.filterMap Ready.fd).Nodup := by
  induction h with
  | start | scan => exact List.nodup_nil
  | wait _ _ _ hd _ => exact hd
  | @event _ _ e rest _ _ _ ih =>
      rw [List.filterMap_cons] at ih
      cases he : e.fd with
      | none => simpa [he] using ih
      | some fd =>
          simp only [he, List.nodup_cons] at ih
          exact ih.2
  | login _ _ _ ih | loginEnd _ _ _ ih => exact ih

/-- The descriptor of the next event is not that of a later one. -/
theorem ReachableBy.head_notMem (h : ReachableBy P w₀ w (e :: rest)) : ∀ fd ∈ e.fd, fd ∉ rest.filterMap Ready.fd := by
  intro fd hfd
  have hnd := h.nodup
  rw [List.filterMap_cons, hfd] at hnd
  exact (List.nodup_cons.mp hnd).1

theorem filterMap_cons_fd (e : Ready) (rest : List Ready) :
    (e :: rest).filterMap Ready.fd = e.fd.toList ++ rest.filterMap Ready.fd := by
  cases he : e.fd <;> simp [he]

/-- An SDK that has just been started has no connections. -/
theorem World.Fresh.tidy (h : w.Fresh) : w.sdk.Tidy [] :=
  ⟨fun hc => absurd hc (by simp [h.conns]), fun he => absurd he (by simp [h.connMap]),
    fun hc => absurd hc (by simp [h.conns]), fun hc => absurd hc (by simp [h.conns])⟩

theorem ReachableBy.tidy (hw : w₀.Fresh) (h : ReachableBy (fun w c => c.Fits w) w₀ w pending) :
    w.sdk.Tidy (pending.filterMap Ready.fd) := by
  induction h with
  | start => exact hw.tidy
  | @wait w batch _ hr _ ih =>
      refine ⟨ih.known, ih.entry, ih.inj, fun hc hty => ?_⟩
      obtain ⟨hpeer, hroom, hhung, hfwd⟩ := ih.tunnel hc hty
      refine ⟨hpeer, hroom, fun hs => ?_, hfwd⟩
      obtain ⟨hv, hnone, -⟩ := hhung hs
      refine ⟨hv, hnone, fun hmem => ?_⟩
      obtain ⟨e, he, hfd⟩ := List.mem_filterMap.mp hmem
      have hrep := hr e he
      cases e with
      | listening => cases hfd
      | conn fd inn out first more err last =>
          obtain ⟨m, hm, -⟩ := hrep
          obtain rfl : fd = _ := Option.some.inj hfd
          cases hnone.symm.trans hm
  | @event w w' e rest hreach hP he ih =>
      rw [filterMap_cons_fd] at ih
      exact (wlp_iff _ _ _).mp (plan_tidy ih hreach.head_notMem hP) () w' he
  | @scan w w' r ts _ he ih => exact (wlp_iff _ _ _).mp (scan_tidy ih ts) r w' he
  | @login w w' r pending a k _ hs he ih => exact (wlp_iff _ _ _).mp (login_tidy ih hs) r w' he
  | @loginEnd w w' r pending p _ he ih => exact (wlp_iff _ _ _).mp (loginEnd_tidy ih p) r w' he

/-- The tunnel that the loop reads for the next event can be read. -/
theorem ReachableBy.legible (hw : w₀.Fresh) {fd err : ℕ} {inn out : Bool} {first last : Answers} {more : List Answers}
    (h : ReachableBy (fun w c => c.Fits w) w₀ w (.conn fd inn out first more err last :: rest)) {p : Ptr} {c : Connect}
    (he : w.sdk.connMap fd = some (some p)) (hc : w.sdk.conns p = some c) (hty : c.type ≠ .proxy) :
    Legible fd p (rest.filterMap Ready.fd)
      (State.setConn { w.sdk with writes := first.writes, dials := [first.dial] } p { c with host := [] }) := by
  have htidy := h.tidy hw
  rw [filterMap_cons_fd] at htidy
  exact (htidy.loses (answering_loses _ first)).legible he hc hty

/-- As long as no header has announced more than the buffer holds and no CONNECT_HOST_RSP has let a tunnel forward, a
read has room exactly if no header announces too much now. -/
theorem ReachableBy.room_iff (hw : w₀.Fresh) (h : ReachableBy (fun w c => c.Fits w) w₀ w (e :: rest)) :
    (∀ r ∈ e.readings w, r.dec.Room buffSize) ↔ ∀ r ∈ e.readings w, r.Bounded hdrFormat buffSize := by
  cases e with
  | listening => simp [Ready.readings]
  | conn fd inn out first more err last =>
      rw [Ready.readings]
      split_ifs
      · dsimp only [Call.readings, State.readings]
        rcases he : w.sdk.connMap fd with _ | _ | p
        · simp
        · simp
        · dsimp only [Option.join_some]
          cases hc : w.sdk.conns p with
          | none => simp
          | some c =>
              dsimp only
              split_ifs with hty
              · simp
              · have hleg := h.legible hw he hc hty
                refine (endpoint_fits p).room_iff (fun hv d n => ?_) (fun c' hc' => ?_) fun _ _ => trivial
                · obtain ⟨c', hc', -⟩ := Option.map_eq_some_iff.mp hv
                  rw [put_onRead hc']
                  simp [endpoint, State.setConn, Connect.stored]
                · obtain ⟨hty', -, hup⟩ := hleg.self c' hc'
                  exact (hleg.tidy.tunnel hc' hty').room hup
      · simp

end Runs

section Each

variable (P : World → Call → Prop) [∀ w c, Decidable (P w c)] {w₀ w w' : World}

/-- Handle events, each in a batch of its own; none if one cannot be reported, a call does not meet `P` or the program
stops. -/
def handleEach : List Ready → World → Option World
  | [], w => some w
  | e :: es, w =>
      if w.Reports e ∧ e.plan.Guard Call.run (fun w c => c.Spare w ∧ P w c) w then
        (e.plan.run Call.run w).toOption.bind fun r => handleEach es r.2
      else none

variable {P}

theorem handleEach_reachable {es : List Ready} (h : ReachableBy P w₀ w []) (hr : handleEach P es w = some w') :
    ReachableBy P w₀ w' [] := by
  induction es generalizing w with
  | nil =>
      cases hr
      exact h
  | cons e es ih =>
      rw [handleEach] at hr
      split_ifs at hr with hok
      obtain ⟨⟨⟨⟩, w₁⟩, hrun, hr⟩ := Option.bind_eq_some_iff.mp hr
      have hnd : ([e].filterMap Ready.fd).Nodup := by
        cases he : e.fd <;> simp [he]
      have hwait : ReachableBy P w₀ w [e] := .wait [e] h (by simpa using hok.1) hnd
      exact ih (.event hwait hok.2 (eq_ok_of_toOption hrun)) hr

end Each

end HttpsTunnel.Sdk

import HttpsTunnel.Tms.Steps
import HttpsTunnel.Tms.Download
import HttpsTunnel.Lib.Meter

/-! # Edges the main loop does not use

All descriptors are registered edge triggered: what an event says is not said again.  The main loop accepts
one connection for an event of the listening socket, however many are waiting, and it goes to the next event
without looking at `EPOLLOUT` when the read part of an event ends with `EAGAIN`, as it does whenever the
socket has been read empty.

`watchedEvent` is the body of the loop with what it does not see beside the state (`Kernel`): the connections
that wait to be accepted, and the descriptors for which `HandleEPOEvent` was called.  `edges_used_iff` says
which events are used up. -/

namespace HttpsTunnel.Tms

open HttpsTunnel.Lib HttpsTunnel.Wire Relation

/-! ### The loop and the kernel -/

/-- The connections waiting to be accepted, each with the descriptor it will get and the address of its peer, and
the descriptors for which `HandleEPOEvent` has been called. -/
structure Kernel where
  backlog : List (ℕ × ℕ × ℕ)
  tried : List ℕ := []
deriving DecidableEq, Repr

abbrev KernelM := Prog (Server × Kernel) Fault

/-- `accept` returns the first connection that waits. -/
def Kernel.Answers (k : Kernel) (e : Event) : Prop := e.accept = k.backlog.head?

instance (k : Kernel) (e : Event) : Decidable (k.Answers e) := inferInstanceAs (Decidable (_ = _))

/-- The connection that is accepted no longer waits. -/
def Kernel.accepted (k : Kernel) (s : Server) (e : Event) : Kernel :=
  if e.accept.any fun w => s.fdFree w.1 then { k with backlog := k.backlog.tail } else k

/-- `acceptConn`. -/
def acceptWaiting (e : Event) : KernelM Unit := do
  modify (fun w => (w.1, w.2.accepted w.1 e))
  aside (acceptConn e)

/-- `outputEvent`. -/
def tryOutput (e : Event) : KernelM Unit := do
  aside (fetchError e)
  let w ← get
  if w.1.err = 0 ∨ w.1.err = EAGAIN then
    modify (fun w => (w.1, { w.2 with tried := w.2.tried ++ [e.fd] }))
    if (← aside (handleEPOEvent e.fd)) = -1 then aside (shutdownFd e.fd) else pure ()
  else pure ()

def tryOutputPart (e : Event) : KernelM Unit := if e.out then tryOutput e else pure ()

/-- `handleEvent`. -/
def watchedEvent (e : Event) : KernelM Unit := do
  aside (modify (·.load e))
  if e.inn then
    if e.fd = listenFd then
      acceptWaiting e
      tryOutputPart e
    else if ← aside (inputEvent e) then tryOutputPart e
    else pure ()
  else tryOutputPart e

theorem tryOutputPart_erases (e : Event) : Erases (tryOutputPart e) (outputPart e) := by
  unfold tryOutputPart outputPart
  split_ifs
  · refine (Erases.of_aside _).bind fun _ => .of_get fun w => ?_
    split_ifs
    · refine .modify_bind (fun _ => rfl) ((Erases.of_aside _).bind fun ret => ?_)
      split_ifs
      · exact .of_aside _
      · exact .of_pure _
    · exact .of_pure _
  · exact .of_pure _

/-- The body of the loop is `handleEvent`. -/
theorem watchedEvent_erases (e : Event) : Erases (watchedEvent e) (handleEvent e) := by
  unfold watchedEvent handleEvent
  refine (Erases.of_aside _).bind fun _ => ?_
  split_ifs
  · exact Erases.bind (.modify_bind (fun _ => rfl) (.of_aside _)) fun _ => tryOutputPart_erases e
  · refine (Erases.of_aside _).bind fun ok => ?_
    split_ifs
    · exact tryOutputPart_erases e
    · exact .of_pure _
  · exact tryOutputPart_erases e

/-! ### What is used of an event -/

/-- The agent of the tunnel `t` with descriptor `fd` holds bytes back. -/
def Server.HoldsBack (s : Server) (fd : ℕ) (t : Ptr) : Prop :=
  s.connMap fd = some t ∧ ∃ c ∈ s.conns t, c.type = .tunnel ∧ ∃ k ∈ c.scb, ∃ a ∈ (s.scbs k).agentConn,
    ∃ ac ∈ s.conns a, ac.status = .hangup ∧ 0 < ac.datalen

instance (s : Server) (fd : ℕ) (t : Ptr) : Decidable (s.HoldsBack fd t) := inferInstanceAs (Decidable (_ ∧ _))

/-- At most one connection waits, and it can be accepted. -/
def AcceptsAll (e : Event) (s : Server) (k : Kernel) : Prop :=
  k.backlog = [] ∨ e.inn ∧ k.backlog.length = 1 ∧ ∀ w ∈ k.backlog, s.fdFree w.1

/-- The reads of the event end with 0: at the end of the stream of `t`, at a read of no bytes (a message without a
body), or in forward mode without a stream to forward to. -/
def Event.ReadsEnd (e : Event) (s : Server) (t : Ptr) : Prop :=
  ∃ r ∈ (recvLoop (endpoint t) e.reads (s.load e)).toOption, r.1.code = 0

/-- The event has no input part, or it finds `EINTR` in `err` and its reads end with 0. -/
def ComesToOutput (e : Event) (s : Server) (t : Ptr) : Prop :=
  e.inn → e.fd ≠ listenFd → s.err = EINTR ∧ e.ReadsEnd s t

/-- For a connection that asks for bytes the reads end with 0 if the first one returns none, and not if it fails or
there is nothing to read. -/
theorem Event.readsEnd_iff {e : Event} {s : Server} {t : Ptr} {c : Connect} (hc : s.conns t = some c)
    (hask : c.dec.stillneedtoread ≠ 0) (hread : ∀ bs, e.reads.head? = some (.data bs) → bs = []) :
    e.ReadsEnd s t ↔ e.reads.head? = some (.data []) := by
  have hview : (endpoint t).view (s.load e) = some c.dec := congrArg (Option.map Connect.dec) hc
  rw [Event.ReadsEnd]
  cases hr : e.reads with
  | nil =>
      simp only [recvLoop, readBound, recvN, Endpoint.reading, run_get_bind, hview, hask, if_false]
      exact iff_of_false (by rintro ⟨_, ⟨⟩, ⟨⟩⟩) (by simp)
  | cons r rs =>
      cases r with
      | fail n =>
          simp only [recvLoop, readBound, recvN, Endpoint.reading, run_get_bind, hview, hask, if_false]
          exact iff_of_false (by rintro ⟨_, ⟨⟩, ⟨⟩⟩) (by simp)
      | data bs =>
          obtain rfl := hread bs (by rw [hr]; rfl)
          simp only [recvLoop, readBound, recvN, Endpoint.reading, run_get_bind, hview, hask, if_false, if_true]
          exact iff_of_true ⟨_, rfl, rfl⟩ rfl

/-- `getsockopt` finds no error. -/
def Event.NoError (e : Event) : Prop := e.soError = 0 ∨ e.soError = EAGAIN

instance (e : Event) : Decidable e.NoError := inferInstanceAs (Decidable (_ ∨ _))

section Output

variable {s s' : Server} {e : Event} {fd : ℕ} {t : Ptr}

/-- An entry of the table for a connection that existed was there before. -/
theorem Runs.table_old (h : Runs s s') (hw : s.net.Wf) (ht : t < s.nextConn) (hs' : s'.connMap fd = some t) :
    s.connMap fd = some t := by
  have hall : ∀ {w : Net}, ReflTransGen Net.Big s.net w → s.net.next ≤ w.next ∧
      (w.table fd = some t → s.net.table fd = some t) := by
    intro w hbig
    induction hbig with
    | refl => exact ⟨le_rfl, id⟩
    | tail _ hb ih =>
        refine ⟨ih.1.trans hb.next_le, fun hw => ?_⟩
        obtain hold | ⟨rfl, -⟩ := hb.table_cases hw
        · exact ih.2 hold
        · exact absurd (ht.trans_le ih.1) (lt_irrefl _)
  exact (hall (h hw)).2 hs'

theorem Runs.next_le (h : Runs s s') (hw : s.net.Wf) : s.nextConn ≤ s'.nextConn := by
  have hall : ∀ {w : Net}, ReflTransGen Net.Big s.net w → s.net.next ≤ w.next := by
    intro w hbig
    induction hbig with
    | refl => exact le_rfl
    | tail _ hb ih => exact ih.trans hb.next_le
  exact hall (h hw)

/-- The output part, on a tunnel that is not closed. -/
theorem tryOutputPart_spec (hw : s.net.Wf) (k : Kernel) :
    wlp (tryOutputPart e) (fun _ w => w.2.backlog = k.backlog ∧ (e.out → e.fd ∉ k.tried → ∀ t < s.nextConn,
      w.1.connMap e.fd = some t → (e.fd ∈ w.2.tried ↔ e.NoError))) (s, k) := by
  have hruns : wlp (tryOutputPart e) (fun _ w => Runs s w.1) (s, k) :=
    (tryOutputPart_erases e).wlp (outputPart_runs e s)
  have htry : wlp (tryOutputPart e) (fun _ w => w.2.backlog = k.backlog ∧ (e.out → e.fd ∈ s.openFds → e.fd ∉ k.tried →
      (e.fd ∈ w.2.tried ↔ e.NoError))) (s, k) := by
    unfold tryOutputPart
    rw [wlp, wpe_ite]
    refine ⟨fun _ => ?_, fun hout => ⟨rfl, fun h => absurd h hout⟩⟩
    have herr : wlp (fetchError e) (fun _ s₁ => e.fd ∈ s.openFds → s₁.err = e.soError) s := by
      simp only [fetchError, setErrno, wlp, wpe_bind, wpe_get, wpe_ite, wpe_set, wpe_modify]
      exact ⟨fun _ _ => trivial, fun hno h => absurd h hno⟩
    simp only [tryOutput, wpe_bind, wpe_aside, wpe_get, wpe_ite, wpe_modify, wpe_pure]
    refine wlp_mono herr fun _ s₁ herr => ⟨fun hok => ?_, fun hno => ⟨trivial, fun _ hfd hk => ?_⟩⟩
    · have hdone : e.out = true → e.fd ∈ s.openFds → e.fd ∉ k.tried → (e.fd ∈ k.tried ++ [e.fd] ↔ e.NoError) :=
        fun _ hfd _ => iff_of_true (by simp) (by rwa [Event.NoError, ← herr hfd])
      refine (wlp_iff _ _ _).mpr fun ret s₂ _ => ⟨fun _ => ?_, fun _ => ⟨trivial, hdone⟩⟩
      exact (wlp_iff _ _ _).mpr fun _ _ _ => ⟨trivial, hdone⟩
    · rw [Event.NoError, ← herr hfd]
      exact iff_of_false hk hno
  refine wlp_mono (wlp_and hruns htry) ?_
  rintro - w ⟨hr, hback, htried⟩
  refine ⟨hback, fun hout hk t ht hopen => htried hout ?_ hk⟩
  exact hw.entry_open (hr.table_old hw ht hopen)

/-- `err` is the same. -/
def SameErr (s s' : Server) : Prop := s'.err = s.err

instance : Unwatched SameErr := ⟨fun _ _ _ => rfl⟩

instance : Receiving SameErr where
  refl _ := rfl
  trans _ _ _ h h' := Eq.trans h' h
  tables h _ := congrArg Tables.err h
  desk _ _ := rfl
  clear _ _ := rfl
  unregister := removeEvent_does
  close fd s := by
    simp only [closeFd, wlp, wpe_bind, wpe_get, wpe_ite]
    exact ⟨fun _ => rfl, fun _ => rfl⟩
  erase _ _ := rfl
  delete _ _ := rfl
  pool _ _ := rfl
  conn _ _ _ := rfl
  create _ _ _ := rfl

/-- The codes of the read loop of a connection. -/
theorem recvLoop_code (p : Ptr) (reads : List ReadRes) :
    Ensures (recvLoop (endpoint p) reads) fun r _ => r.code = 0 ∨ r.code = -1 ∨ r.code = -2 := by
  have hhang : ∀ wrote n, Ensures (hangUp p wrote n) fun r _ => ∀ code ∈ r, code = 0 ∨ code = -1 ∨ code = -2 :=
    fun _ _ => .bind fun _ => .bind fun _ => .bind fun _ => .ite (.pure fun _ => by simp) (.pure fun _ => by simp)
  refine recvLoop_codes (C := fun code => code = 0 ∨ code = -1 ∨ code = -2) (by simp) (fun n => ?_) (fun n => ?_) reads
  · refine .bind fun _ => .bind fun _ => .bind fun c => .bind fun _ => ?_
    split
    · exact .bind fun _ => .ite (.bind fun _ => .pure fun _ => by simp) (.pure fun _ => by simp)
    · exact .bind fun _ => .pure fun _ => by simp
  · refine .bind fun c => .bind fun _ => ?_
    split
    · exact .pure fun _ => by simp
    · refine .bind fun b => ?_
      split
      · split
        · refine .bind fun _ => .bind fun r => ?_
          cases r with
          | none => exact hhang 0 n
          | some wrote =>
              exact .bind fun _ => .bind fun _ => .bind fun _ => .ite (.bind fun _ => .pure fun _ => by simp)
                (.ite (hhang wrote n) (.pure fun _ => by simp))
        · exact .bind fun _ => .bind fun _ => .bind fun _ => .ite (.bind fun _ => .pure fun _ => by simp)
            (.bind fun _ => .bind fun _ => .pure fun _ => by simp)
        · exact .pure fun _ => by simp
      · exact .bind fun _ => .pure fun _ => by simp

/-- What `HandleRecvEvent` returns for a tunnel. -/
theorem handleRecvEvent_code {c : Connect} (hm : s.connMap e.fd = some t) (hc : s.conns t = some c)
    (hty : c.type = .tunnel) : wlp (handleRecvEvent e.fd e.reads) (fun ret s' => (ret = 0 ↔ e.ReadsEnd s t) ∧
      (ret = 0 ∨ ret = -1 ∨ ret = -2) ∧ s'.err = s.err) (s.load e) := by
  have hm' : (s.load e).connMap e.fd = some t := hm
  have hc' : (s.load e).conns t = some c := hc
  have hloop : wlp (recvLoop (endpoint t) e.reads) (fun r _ => (r.code = 0 ↔ e.ReadsEnd s t) ∧
      (r.code = 0 ∨ r.code = -1 ∨ r.code = -2)) (s.load e) := by
    refine wlp_and ((wlp_iff _ _ _).mpr fun r s₁ hrun => ?_) (recvLoop_code t e.reads _)
    simp [Event.ReadsEnd, hrun, Except.toOption]
  suffices hret : wlp (handleRecvEvent e.fd e.reads) (fun ret _ => (ret = 0 ↔ e.ReadsEnd s t) ∧
      (ret = 0 ∨ ret = -1 ∨ ret = -2)) (s.load e) from
    wlp_mono (wlp_and hret (handleRecvEvent_receiving (R := SameErr) _ _ _)) fun _ _ h => ⟨h.1.1, h.1.2, h.2⟩
  rw [handleRecvEvent, wlp, wpe_bind, wpe_get, hm']
  simp only [recvEvent, streamRecvEvent, wpe_bind, wpe_deref, found hc', hty, wpe_ite, wpe_mapFault, wpe_pure]
  refine ⟨fun h => absurd h (by decide), fun _ => wlp_mono hloop fun r s₁ hr => ?_⟩
  refine ⟨fun _ => hr, fun _ => ⟨fun _ => trivial, fun c₁ _ => ⟨fun _ => ?_, fun _ => hr⟩⟩⟩
  exact (wlp_iff _ _ _).mpr fun _ _ _ => hr

/-- The loop goes on to the output part only after reads that end with 0. -/
theorem inputEvent_goesOn {c : Connect} (hm : s.connMap e.fd = some t) (hc : s.conns t = some c)
    (hty : c.type = .tunnel) (hinn : e.inn = true) (hfd : e.fd ≠ listenFd) :
    wlp (inputEvent e) (fun ok _ => ok = true ↔ ComesToOutput e s t) (s.load e) := by
  have hcomes : ComesToOutput e s t ↔ s.err = EINTR ∧ e.ReadsEnd s t := by simp [ComesToOutput, hinn, hfd]
  rw [inputEvent, hcomes]
  refine wlp_bind (handleRecvEvent_code hm hc hty) ?_
  rintro ret s₁ ⟨hends, hcode, herr⟩
  simp only [wpe_ite, wpe_bind, wpe_pure, wpe_get, ← hends, ← herr]
  refine ⟨fun h => ?_, fun h2 => ⟨fun h => ?_, fun h1 => ⟨fun h => ⟨fun hno => ?_, fun hno => ?_⟩, fun h => ?_⟩⟩⟩
  · simp [h]
  · exact (wlp_iff _ _ _).mpr fun _ _ _ => by simp [h]
  · exact (wlp_iff _ _ _).mpr fun _ _ _ => by simp [hno]
  · simp [h, not_not.mp hno]
  · simp [h2, h1, h] at hcode

/-- What the input part does with the event, and with the connections that wait. -/
theorem watchedEvent_spec (hw : s.net.Wf) (k : Kernel) :
    wlp (watchedEvent e) (fun _ w =>
      (w.2.backlog = if e.inn ∧ e.fd = listenFd then (k.accepted (s.load e) e).backlog else k.backlog) ∧
        (e.out → e.fd ∉ k.tried → ∀ t c, s.connMap e.fd = some t → s.conns t = some c → c.type = .tunnel →
          w.1.connMap e.fd = some t → (e.fd ∈ w.2.tried ↔ ComesToOutput e s t ∧ e.NoError))) (s, k) := by
  have hload : (s.load e).net = s.net := load_same s e
  have hw₁ : (s.load e).net.Wf := hload ▸ hw
  have hkept : ∀ s₁, (k.accepted s₁ e).tried = k.tried := fun s₁ => by
    unfold Kernel.accepted
    split_ifs <;> rfl
  simp only [watchedEvent, wlp, wpe_bind, wpe_aside, wpe_modify, wpe_ite, wpe_pure]
  refine ⟨fun hinn => ⟨fun hfd => ?_, fun hfd => ?_⟩, fun hinn => ?_⟩
  · -- the listening socket
    have hcomes : ∀ t, ComesToOutput e s t := fun _ _ hne => absurd hfd hne
    simp only [acceptWaiting, wpe_bind, wpe_modify, wpe_aside, if_pos (And.intro hinn hfd)]
    refine wlp_mono (acceptConn_moves e _) fun _ s₁ h₁ => ?_
    have h₁ := h₁.runs
    refine wlp_mono (tryOutputPart_spec (bigs_wf (h₁ hw₁) hw₁) _) ?_
    rintro - w ⟨hback, htried⟩
    refine ⟨hback, fun hout hk t c hm hc _ hopen => ?_⟩
    rw [htried hout (by rwa [hkept]) t ((hw.fresh (net_conns_of hc)).trans_le (h₁.next_le hw₁)) hopen,
      and_iff_right (hcomes t)]
  · -- another descriptor
    simp only [if_neg (fun h : e.inn = true ∧ e.fd = listenFd => hfd h.2)]
    have hgoes : wlp (inputEvent e) (fun ok _ => ∀ t c, s.connMap e.fd = some t → s.conns t = some c →
        c.type = .tunnel → (ok = true ↔ ComesToOutput e s t)) (s.load e) :=
      (wlp_iff _ _ _).mpr fun ok s₁ hrun t c hm hc hty =>
        (wlp_iff _ _ _).mp (inputEvent_goesOn hm hc hty hinn hfd) ok s₁ hrun
    refine wlp_mono (wlp_and (inputEvent_runs e _) hgoes) ?_
    rintro ok s₁ ⟨h₁, hok⟩
    refine ⟨fun htrue => ?_, fun hfalse => ⟨trivial, fun _ hk t c hm hc hty _ => ?_⟩⟩
    · refine wlp_mono (tryOutputPart_spec (bigs_wf (h₁ hw₁) hw₁) k) ?_
      rintro - w ⟨hback, htried⟩
      refine ⟨hback, fun hout hk t c hm hc hty hopen => ?_⟩
      rw [htried hout hk t ((hw.fresh (net_conns_of hc)).trans_le (h₁.next_le hw₁)) hopen,
        and_iff_right ((hok t c hm hc hty).mp htrue)]
    · exact iff_of_false hk fun h => hfalse ((hok t c hm hc hty).mpr h.1)
  · -- no input part
    have hcomes : ∀ t, ComesToOutput e s t := fun _ h => absurd h hinn
    simp only [if_neg (fun h : e.inn = true ∧ e.fd = listenFd => hinn h.1)]
    refine wlp_mono (tryOutputPart_spec hw₁ k) ?_
    rintro - w ⟨hback, htried⟩
    refine ⟨hback, fun hout hk t c _ hc _ hopen => ?_⟩
    rw [htried hout hk t (hw.fresh (net_conns_of hc)) hopen, and_iff_right (hcomes t)]

end Output

/-- What is left of the connections that wait, after an event of the listening socket. -/
theorem accepted_eq_nil_iff {e : Event} {s : Server} {k : Kernel} (ha : k.Answers e) (hinn : e.inn = true) :
    (k.accepted s e).backlog = [] ↔ AcceptsAll e s k := by
  rw [Kernel.Answers] at ha
  unfold Kernel.accepted AcceptsAll
  rw [ha]
  cases hb : k.backlog with
  | nil => simp [hb]
  | cons w rest =>
      by_cases hfree : s.fdFree w.1
      · simp only [List.head?_cons, Option.any_some, hfree, decide_true, if_true, List.tail_cons, hinn, true_and,
          List.forall_mem_cons, List.length_cons, Nat.add_eq_right, List.length_eq_zero_iff, reduceCtorEq, false_or]
        exact ⟨fun h => ⟨h, by simp [h]⟩, And.left⟩
      · simp [hfree, hb]

/-- A client whose web server sends three bytes, of which the tunnel takes one. -/
def heldBackRun : List (List Event) := writableTwiceRun.take 6

/-- The tunnel is writable and has nothing to read. -/
def readDry : Event := { fd := 10, inn := true, out := true }

end HttpsTunnel.Tms

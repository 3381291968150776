import HttpsTunnel.Dpi.Station
import HttpsTunnel.Lib.Reads

/-! # Receiving in the DPI

The handlers of the DPI do not touch its connections, so that the read loop decodes (`endpoint_lawful`), and a read
has room in the buffer as long as no header announces too much (`Station.Wf`, `endpoint_roomy`). -/

namespace HttpsTunnel.Dpi

open HttpsTunnel.Lib HttpsTunnel.Wire

section Rules

variable {F : Fault → Prop} {s : Station}

@[simp] theorem wpe_deref {p : Ptr} {Q : Connect → Station → Prop} :
    wpe (deref p) Q F s ↔ (s.conns p = none → F .useAfterFree) ∧ ∀ c, s.conns p = some c → Q c s := by
  simp only [deref, wpe_bind, wpe_get]
  cases s.conns p <;> simp

end Rules

/-! ### Handlers -/

/-- The connections, their table and the descriptors. -/
def Station.table (s : Station) : (Ptr → Option Connect) × Ptr × (ℕ → Option Ptr) × List ℕ :=
  (s.conns, s.nextConn, s.connMap, s.openFds)

/-- From `s` to `s'` the connections stay as they are. -/
def SameConns (s s' : Station) : Prop := s'.table = s.table

instance : Std.Refl SameConns := ⟨fun _ => rfl⟩

instance : IsTrans Station SameConns := ⟨fun _ _ _ h h' => h'.trans h⟩

theorem SameConns.conns {s s' : Station} (h : SameConns s s') : s'.conns = s.conns := congrArg Prod.fst h

theorem deref_same (p : Ptr) : Does SameConns (deref p) :=
  fun s => wpe_deref.mpr ⟨fun _ => trivial, fun _ _ => refl_of SameConns s⟩

theorem getCenterConn_same : Does SameConns getCenterConn := by
  refine .get_bind fun s => ?_
  cases s.centerConnPool with
  | nil => exact .throw _
  | cons p _ => exact .pure _

theorem setErrno_same (e : ℕ) : Does SameConns (setErrno e) := fun _ => rfl

theorem sendTmsMsg_same (p : Ptr) (r : TrafficReport) : Does SameConns (sendTmsMsg p r) := by
  refine .bind (deref_same p) fun _ => ?_
  intro s
  simp only [wlp, wpe_bind, wpe_get]
  rcases s.sends with _ | ⟨_ | _, _⟩ <;> rfl

theorem callMgr_same (c : Call) : Does SameConns (callMgr c) := by
  intro s
  simp only [callMgr, wlp, wpe_bind, wpe_get, wpe_set]
  cases (s.mgr.call c).2 with
  | none => exact rfl
  | some r =>
      have hsend := Does.bind getCenterConn_same fun p => sendTmsMsg_same p r
      exact hsend _

theorem handleRecvMsg_same (p : Ptr) (msglen : ℕ) : Does SameConns (handleRecvMsg p msglen) := by
  refine .bind (deref_same p) fun c => .ite (.pure _) ?_
  rcases MsgId.ofNat? (msgId c.dec.buff) with _ | m
  · exact .pure _
  · cases m with
    | synUserTuple => exact .ret (callMgr_same _)
    | trafficReportRsp => exact .get_bind fun _ => .ret (callMgr_same _)
    | _ => exact .pure _

theorem onMsg_same (p : Ptr) (n : ℕ) : Does SameConns ((endpoint p).onMsg n) :=
  .bind (deref_same p) fun c => .ret (handleRecvMsg_same p c.dec.h)

theorem SameConns.view {s s' : Station} (h : SameConns s s') (p : Ptr) : (endpoint p).view s' = (endpoint p).view s :=
  congrArg (fun conns : Ptr → Option Connect => (conns p).map Connect.dec) h.conns

theorem view_put {p : Ptr} {s : Station} {d₀ : Decoder} (h : (endpoint p).view s = some d₀) (d : Decoder) (n : ℕ) :
    (endpoint p).view ((endpoint p).put d ((endpoint p).onRead n s)) = some d := by
  obtain ⟨c, hc, -⟩ := Option.map_eq_some_iff.mp h
  simp [endpoint, hc, Station.setConn]

/-- **Decoding.**  The handlers of the DPI leave decoders alone. -/
theorem endpoint_lawful (p : Ptr) : Lawful (endpoint p) where
  view_put d h := view_put h d 0
  view_errno _ _ := rfl
  view_onRead _ _ := rfl
  onMsg {s d} hv hd n := by
    refine wlp_mono (onMsg_same p n s) fun _ s' h d' hd' => ?_
    obtain rfl : d = d' := Option.mem_unique hv ((h.view p).symm.trans hd')
    exact ⟨rfl, .inl ⟨rfl, rfl⟩⟩
  onForward {s d} hv hd n d' hd' := by
    obtain rfl : d = d' := Option.mem_unique hv hd'
    exact ⟨hd, fun _ hready => hready⟩

/-! ### The table -/

/-- The entry of `fd` is a connection on `fd` with room in its buffer. -/
def Station.Serves (s : Station) (fd : ℕ) (p : Ptr) : Prop :=
  p < s.nextConn ∧ fd ∈ s.openFds ∧ ∃ c, s.conns p = some c ∧ c.sockFd = fd ∧ c.dec.Free buffSize

/-- All entries but that of `gone`, if it is given, are connections with room. -/
def Station.Wf (s : Station) (gone : Option ℕ) : Prop :=
  ∀ fd p, s.connMap fd = some p → some fd ≠ gone → s.Serves fd p

section Table

variable {s s' : Station} {p q : Ptr} {fd : ℕ} {gone : Option ℕ} {c : Connect}

theorem SameConns.wf (h : SameConns s s') (hs : s.Wf gone) : s'.Wf gone := by
  simp only [SameConns, Station.table, Prod.mk.injEq] at h
  obtain ⟨hconns, hnext, hmap, hopen⟩ := h
  intro fd p hp hfd
  obtain ⟨hlt, hmem, hc⟩ := hs fd p (hmap ▸ hp) hfd
  exact ⟨hnext ▸ hlt, hopen ▸ hmem, hconns ▸ hc⟩

/-- A connection has one descriptor. -/
theorem Station.Wf.fd_eq (hs : s.Wf gone) (hp : s.connMap fd = some p) (hfd : some fd ≠ gone)
    (hc : s.conns p = some c) : c.sockFd = fd := by
  obtain ⟨-, -, d, hd, hsock, -⟩ := hs fd p hp hfd
  obtain rfl : d = c := Option.mem_unique hd hc
  exact hsock

/-- A read leaves the table in order. -/
theorem Station.Wf.setConn {c' : Connect} (hs : s.Wf gone) (hc : s.conns p = some c) (hsock : c'.sockFd = c.sockFd)
    (hroom : c'.dec.Free buffSize) : (s.setConn p c').Wf gone := by
  intro fd q hq hfd
  obtain ⟨hlt, hmem, d, hd, hd', hr⟩ := hs fd q hq hfd
  refine ⟨hlt, hmem, ?_⟩
  by_cases hqp : q = p
  · subst hqp
    obtain rfl : d = c := Option.mem_unique hd hc
    exact ⟨c', Function.update_self _ _ _, hsock.trans hd', hroom⟩
  · exact ⟨d, (Function.update_of_ne hqp _ _).trans hd, hd', hr⟩

theorem removeEvent_same (fd : ℕ) : Does SameConns (removeEvent fd) := by
  refine .get_bind fun s => ?_
  cases s.epoll fd with
  | none => exact setErrno_same _
  | some m => exact .modify fun _ => rfl

theorem SameConns.connMap (h : SameConns s s') : s'.connMap = s.connMap := congrArg (fun t => t.2.2.1) h

/-- Closing a descriptor that no entry but its own needs. -/
theorem closeFd_wf (hs : s.Wf (some fd)) :
    wlp (closeFd fd) (fun _ s' => s'.Wf (some fd) ∧ s'.connMap = s.connMap) s := by
  simp only [closeFd, wlp, wpe_bind, wpe_get, wpe_ite, wpe_set, and_true]
  refine ⟨fun _ => ?_, fun _ => ⟨SameConns.wf rfl hs, rfl⟩⟩
  intro fd' p hp hfd
  obtain ⟨hlt, hmem, hc⟩ := hs fd' p hp hfd
  have hne : fd' ≠ fd := fun h => hfd (h ▸ rfl)
  exact ⟨hlt, List.mem_filter.mpr ⟨hmem, by simpa using hne⟩, hc⟩

theorem Station.Wf.weaken (hs : s.Wf none) (fd : ℕ) : s.Wf (some fd) :=
  fun fd' p hp _ => hs fd' p hp (Option.some_ne_none fd')

/-- Deleting the connection of `fd` leaves the other entries in order. -/
theorem Station.Wf.delete (hs : s.Wf (some fd)) (hp : ∀ fd', s.connMap fd' = some p → fd' = fd) :
    Station.Wf { s with conns := Function.update s.conns p none } (some fd) := by
  intro fd' q hq hfd
  obtain ⟨hlt, hmem, c, hc, hrest⟩ := hs fd' q hq hfd
  have hqp : q ≠ p := by
    rintro rfl
    exact hfd (congrArg some (hp fd' hq))
  exact ⟨hlt, hmem, c, (Function.update_of_ne hqp _ _).trans hc, hrest⟩

theorem Station.Wf.erase (hs : s.Wf (some fd)) :
    Station.Wf { s with connMap := Function.update s.connMap fd none } none := by
  intro fd' p hp _
  obtain ⟨hne, hp⟩ := update_none_eq hp
  exact hs fd' p hp fun h => hne (Option.some.inj h)

theorem destroy_wf (hs : s.Wf none) (hp : s.connMap fd = some p) :
    wlp (destroy p) (fun _ s' => s'.Wf (some fd)) s := by
  have hown : ∀ fd', s.connMap fd' = some p → fd' = fd := by
    intro fd' hp'
    obtain ⟨-, -, c, hc, hfd, -⟩ := hs fd p hp (Option.some_ne_none fd)
    exact (hs.fd_eq hp' (Option.some_ne_none fd') hc).symm.trans hfd
  simp only [destroy, wlp, wpe_bind, wpe_deref, wpe_ite, wpe_modify]
  refine ⟨fun _ => trivial, fun c hc => ?_⟩
  obtain rfl : c.sockFd = fd := hs.fd_eq hp (Option.some_ne_none fd) hc
  refine ⟨fun _ => ?_, fun _ => (hs.weaken _).delete hown⟩
  refine wlp_mono (removeEvent_same _ s) fun _ s₁ h₁ => ?_
  refine wlp_mono (closeFd_wf (h₁.wf (hs.weaken _))) fun _ s₂ h₂ => ?_
  exact h₂.1.delete fun fd' hp' => hown fd' (h₁.connMap ▸ h₂.2 ▸ hp')

theorem removeConn_wf (hs : s.Wf none) (fd : ℕ) :
    wlp (removeConn fd) (fun _ s' => s'.Wf none ∧ s'.connMap fd = none) s := by
  simp only [removeConn, wlp, wpe_bind, wpe_get]
  cases hp : s.connMap fd with
  | none => exact ⟨hs, hp⟩
  | some p =>
      simp only [wpe_bind, wpe_deref, wpe_ite, wpe_modify]
      refine ⟨fun _ => trivial, fun c _ => ⟨fun _ => ?_, fun _ => ?_⟩⟩
      · exact wlp_mono (destroy_wf (SameConns.wf rfl hs) hp) fun _ s' h => ⟨h.erase, Function.update_self _ _ _⟩
      · exact wlp_mono (destroy_wf hs hp) fun _ s' h => ⟨h.erase, Function.update_self _ _ _⟩

/-! ### Events -/

theorem addEvent_same (fd : ℕ) (m : Mask) : Does SameConns (addEvent fd m) := by
  refine .get_bind fun s => ?_
  cases s.epoll fd with
  | none => exact .modify fun _ => rfl
  | some _ => exact setErrno_same _

/-- The descriptor of a new connection is in no entry: no object is used again. -/
theorem handleAcceptEvent_wf (hs : s.Wf none) (hfd : fd ∉ s.openFds) :
    wlp (handleAcceptEvent fd) (fun _ s' => s'.Wf none) s := by
  have hmap : s.connMap fd = none := by
    cases hp : s.connMap fd with
    | none => rfl
    | some p => exact absurd (hs fd p hp (Option.some_ne_none fd)).2.1 hfd
  simp only [handleAcceptEvent, wlp, wpe_bind, wpe_get, hmap, wpe_set]
  intro fd' p hp _
  obtain ⟨rfl, rfl⟩ | ⟨-, hp⟩ := update_some_eq hp
  · exact ⟨Nat.lt_succ_self _, List.mem_cons_self, _, Function.update_self _ _ _, rfl,
      Decoder.AtStart.free ⟨rfl, rfl, rfl⟩ (show hdrFormat.hdrLen ≤ buffSize by decide)⟩
  · obtain ⟨hlt, hmem, c, hc, hrest⟩ := hs fd' p hp (Option.some_ne_none fd')
    exact ⟨Nat.lt_succ_of_lt hlt, List.mem_cons_of_mem _ hmem, c,
      (Function.update_of_ne (Nat.ne_of_lt hlt) _ _).trans hc, hrest⟩

theorem acceptConn_wf (hs : s.Wf none) (e : LoopEvent) : wlp (acceptConn e) (fun _ s' => s'.Wf none) s := by
  simp only [acceptConn, wlp, wpe_bind, wpe_get]
  cases e.accept with
  | none => exact SameConns.wf rfl hs
  | some fd =>
      simp only [wpe_ite, wpe_bind]
      refine ⟨fun h => wlp_mono (handleAcceptEvent_wf hs h.2) fun _ s₁ h₁ => ?_, fun _ => SameConns.wf rfl hs⟩
      exact wlp_mono (addEvent_same fd _ s₁) fun _ s₂ h₂ => h₂.wf h₁

theorem outputPart_same (e : LoopEvent) : Does SameConns (outputPart e) := by
  intro s
  simp only [outputPart, wlp, wpe_ite, wpe_bind, wpe_get, wpe_set]
  exact ⟨fun _ => ⟨fun _ => rfl, fun _ => rfl⟩, fun _ => rfl⟩

/-- The reads of an event. -/
def Station.readings (s : Station) (e : LoopEvent) : List Reading :=
  if e.inn ∧ e.fd ≠ listenFd then
    match s.connMap e.fd with
    | none => []
    | some p => (endpoint p).readings e.reads (s.load e)
  else []

/-- Before each read of `p` the table is in order and `p` is in it. -/
theorem endpoint_roomy (p : Ptr) : Roomy (endpoint p) (fun _ => True) (fun s => s.Wf none ∧ ∃ fd, s.connMap fd = some p)
    (fun s => s.Wf none) where
  fits := show hdrSize ≤ buffSize by decide
  room {s d} hs hv := by
    obtain ⟨hwf, fd, hp⟩ := hs
    obtain ⟨-, -, c, hc, -, hroom⟩ := hwf fd p hp (Option.some_ne_none fd)
    obtain ⟨c', hc', rfl⟩ := Option.map_eq_some_iff.mp hv
    obtain rfl : c = c' := Option.mem_unique hc hc'
    exact hroom
  put {s d₀ d} hs hv hroom _ n := by
    obtain ⟨c, hc, -⟩ := Option.map_eq_some_iff.mp hv
    have hput : (endpoint p).put d ((endpoint p).onRead n s) = s.setConn p { c with dec := d } := by
      simp [endpoint, hc]
    refine ⟨?_, view_put hv d n⟩
    rw [hput]
    exact ⟨hs.1.setConn hc rfl hroom, hs.2⟩
  ends hs := hs.1
  errno hs e := SameConns.wf rfl hs.1
  onMsg {s d chunk} hs _ _ _ := by
    refine wlp_mono (onMsg_same p chunk.length s) fun _ s' h => ?_
    exact ⟨fun _ => ⟨h.wf hs.1, hs.2.imp fun fd hp => h.connMap ▸ hp⟩, h.wf hs.1⟩
  onForward hs _ _ _ := ⟨fun _ => hs, hs.1⟩

theorem handleRecvEvent_wf (hs : s.Wf none) (fd : ℕ) (reads : List ReadRes)
    (hb : ∀ p, s.connMap fd = some p → ∀ r ∈ (endpoint p).readings reads s, r.Bounded hdrFormat buffSize) :
    wlp (handleRecvEvent fd reads) (fun _ s' => s'.Wf none) s := by
  simp only [handleRecvEvent, wlp, wpe_bind, wpe_get]
  cases hp : s.connMap fd with
  | none => exact hs
  | some p =>
      have hloop := ((endpoint_roomy p).loop ⟨hs, fd, hp⟩ (hb p hp) fun _ _ => trivial).1
      simp only [streamRecvEvent, wpe_bind, wpe_mapFault]
      refine wlp_mono hloop fun r s₁ h₁ => ?_
      simp only [wpe_pure, wpe_ite, wpe_bind, wpe_deref]
      refine ⟨fun _ => h₁, fun _ => ⟨fun _ => trivial, fun c _ => ⟨fun _ => ?_, fun _ => h₁⟩⟩⟩
      exact wlp_mono (removeConn_wf h₁ _) fun _ _ h => h.1

/-- A failed read: the connection is removed and, after an error event, its descriptor closed once more. -/
theorem recvFailed_wf (hs : s.Wf none) (e : LoopEvent) : wlp (recvFailed e) (fun _ s' => s'.Wf none) s := by
  simp only [recvFailed, wlp, wpe_bind, wpe_get, wpe_ite, wpe_pure]
  refine ⟨fun _ => hs, fun _ => ⟨fun _ => ?_, fun _ => wlp_mono (removeConn_wf hs e.fd) fun _ _ h => h.1⟩⟩
  refine wlp_mono (removeConn_wf hs e.fd) fun _ s₁ h₁ => ?_
  refine wlp_mono (closeFd_wf (h₁.1.weaken e.fd)) fun _ s₂ h₂ fd p hp _ => ?_
  refine h₂.1 fd p hp ?_
  rintro ⟨rfl⟩
  rw [h₂.2, h₁.2] at hp
  cases hp

theorem inputEvent_wf (hs : s.Wf none) (e : LoopEvent)
    (hb : ∀ p, s.connMap e.fd = some p → ∀ r ∈ (endpoint p).readings e.reads s, r.Bounded hdrFormat buffSize) :
    wlp (inputEvent e) (fun _ s' => s'.Wf none) s := by
  simp only [inputEvent, wlp, wpe_bind]
  refine wlp_mono (handleRecvEvent_wf hs e.fd e.reads hb) fun ret s₁ h₁ => ?_
  simp only [wpe_ite, wpe_bind, wpe_pure, wpe_get]
  refine ⟨fun _ => h₁, fun _ => ⟨fun _ => recvFailed_wf h₁ e, fun _ => ⟨fun _ => ⟨fun _ => ?_, fun _ => h₁⟩,
    fun _ => h₁⟩⟩⟩
  exact wlp_mono (removeConn_wf h₁ e.fd) fun _ _ h => h.1

theorem handleEvent_wf (hs : s.Wf none) (e : LoopEvent) (hb : ∀ r ∈ s.readings e, r.Bounded hdrFormat buffSize) :
    wlp (handleEvent e) (fun _ s' => s'.Wf none) s := by
  have hload : (s.load e).Wf none := SameConns.wf rfl hs
  have hout : ∀ t : Station, t.Wf none → wlp (outputPart e) (fun _ s' => s'.Wf none) t := fun t ht =>
    wlp_mono (outputPart_same e t) fun _ s' h => h.wf ht
  simp only [handleEvent, wlp, wpe_bind, wpe_modify, wpe_ite, wpe_pure]
  refine ⟨fun hinn => ⟨fun _ => ?_, fun hfd => ?_⟩, fun _ => hout _ hload⟩
  · exact wlp_mono (acceptConn_wf hload e) fun _ s₁ h₁ => hout s₁ h₁
  · refine wlp_mono (inputEvent_wf hload e fun p hp => ?_) fun b s₁ h₁ => ⟨fun _ => hout s₁ h₁, fun _ => h₁⟩
    have hp : s.connMap e.fd = some p := hp
    simpa [Station.readings, hinn, hfd, hp] using hb

theorem capture_wf (hs : s.Wf none) (tmsAddr : ℕ) (pkt : Packet) (t : Clock) :
    wlp (capture tmsAddr pkt t) (fun _ s' => s'.Wf none) s :=
  wlp_mono (callMgr_same _ s) fun _ _ h => h.wf hs

end Table

/-! ### Runs -/

/-- The states of the DPI whose events all meet `P`: events of the loop and packets of the other thread, in any
order. -/
inductive ReachableBy (P : Station → LoopEvent → Prop) (s₀ : Station) : Station → Prop
  | start : ReachableBy P s₀ s₀
  | event {s s' : Station} {e : LoopEvent} (h : ReachableBy P s₀ s) (hP : P s e) (he : handleEvent e s = .ok ((), s')) :
      ReachableBy P s₀ s'
  | packet {s s' : Station} {tmsAddr : ℕ} {pkt : Packet} {t : Clock} (h : ReachableBy P s₀ s)
      (he : capture tmsAddr pkt t s = .ok ((), s')) : ReachableBy P s₀ s'

/-- No header that is read announces more than the buffer holds. -/
def Station.Announced (s : Station) (e : LoopEvent) : Prop := ∀ r ∈ s.readings e, r.Bounded hdrFormat buffSize

instance (s : Station) (e : LoopEvent) : Decidable (s.Announced e) :=
  inferInstanceAs (Decidable (∀ r ∈ s.readings e, r.Bounded hdrFormat buffSize))

theorem init_wf (errno err : ℕ) (mem : Buff) : (Station.init errno err mem).Wf none := by
  intro fd p hp _
  have hp : (if fd = 5 then some 0 else none) = some p := hp
  split_ifs at hp with hfd
  obtain rfl : 0 = p := Option.some.inj hp
  subst hfd
  exact ⟨show 0 < 1 by decide, show 5 ∈ [5, 4, 3, 2, 1, 0] by decide, _, rfl, rfl,
    Decoder.AtStart.free ⟨rfl, rfl, rfl⟩ (show hdrFormat.hdrLen ≤ buffSize by decide)⟩

theorem ReachableBy.wf {errno err : ℕ} {mem : Buff} {s : Station}
    (h : ReachableBy Station.Announced (Station.init errno err mem) s) : s.Wf none := by
  induction h with
  | start => exact init_wf errno err mem
  | @event s s' e _ hP he ih => exact (wlp_iff _ _ _).mp (handleEvent_wf ih e hP) () s' he
  | @packet s s' tmsAddr pkt t _ he ih => exact (wlp_iff _ _ _).mp (capture_wf ih tmsAddr pkt t) () s' he

/-- As long as no header has announced more than the buffer holds, a read has room exactly if none does now. -/
theorem ReachableBy.room_iff {errno err : ℕ} {mem : Buff} {s : Station}
    (h : ReachableBy Station.Announced (Station.init errno err mem) s) (e : LoopEvent) :
    (∀ r ∈ s.readings e, r.dec.Room buffSize) ↔ s.Announced e := by
  rw [Station.Announced, Station.readings]
  split_ifs
  · cases hp : s.connMap e.fd with
    | none => simp
    | some p =>
        have hload : (s.load e).Wf none := SameConns.wf rfl h.wf
        exact (endpoint_roomy p).room_iff view_put ⟨hload, e.fd, hp⟩ fun _ _ => trivial
  · simp

end HttpsTunnel.Dpi

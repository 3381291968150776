import HttpsTunnel.Sdk.Receive
import HttpsTunnel.Sdk.Loop

/-! # The receive buffers of the SDK

A tunnel that the loop may read has room in its buffer for the bytes it still needs, and one that is hung up, whose
buffer holds bytes for its browser, is verified and has no event to come (`State.Tidy`).  Two things break this: a
header that announces more than the buffer holds, and a CONNECT_HOST_RSP, which lets a tunnel forward that is not
verified: what its browser sends is then taken for the start of a login, and the tunnel is registered again while it is
hung up.

Here the invariant is carried through the handlers; `Batch.lean` carries it through the runs of the main loop. -/

namespace HttpsTunnel.Sdk

open HttpsTunnel.Lib HttpsTunnel.Wire

/-! ### The invariant -/

/-- What holds of a tunnel: its peer is a browser, and its buffer has room unless it is hung up. -/
structure State.Calm (s : State) (pending : List ℕ) (c : Connect) : Prop where
  peer : ∀ q, c.peer = some q → q < s.nextConn ∧ ∀ d, s.conns q = some d → d.type = .proxy
  room : c.status ≠ .hangup → c.dec.Free buffSize
  hung : c.status = .hangup → c.verified = true ∧ s.epoll c.sockFd = none ∧ c.sockFd ∉ pending
  forward : c.dec.cstate = .forward → c.verified = true

/-- The table leads to connections with the descriptor, descriptors are distinct, and tunnels are in order. -/
structure State.Tidy (s : State) (pending : List ℕ) : Prop where
  known : ∀ {p c}, s.conns p = some c → p < s.nextConn ∧ c.sockFd ≠ 0
  entry : ∀ {fd p}, s.connMap fd = some (some p) → p < s.nextConn ∧ ∀ c, s.conns p = some c → c.sockFd = fd
  inj : ∀ {p q c d}, s.conns p = some c → s.conns q = some d → c.sockFd = d.sockFd → p = q
  tunnel : ∀ {p c}, s.conns p = some c → c.type ≠ .proxy → s.Calm pending c

section Tidy

variable {s s' : State} {p q : Ptr} {c c' d : Connect} {fd : ℕ} {pending : List ℕ}

/-- Connections, entries and registrations may go. -/
structure Loses (s s' : State) : Prop where
  conn : ∀ {p c'}, s'.conns p = some c' → ∃ c, s.conns p = some c ∧ c'.desk = c.desk
  entry : ∀ {fd p}, s'.connMap fd = some (some p) → s.connMap fd = some (some p)
  next : s'.nextConn = s.nextConn
  epoll : ∀ {fd}, s'.epoll fd ≠ none → s.epoll fd ≠ none

instance : Std.Refl Loses := ⟨fun _ => ⟨fun h => ⟨_, h, rfl⟩, id, rfl, id⟩⟩

instance : IsTrans State Loses where
  trans _ _ _ h h' := by
    refine ⟨fun hc => ?_, fun he => h.entry (h'.entry he), h'.next.trans h.next, fun he => h.epoll (h'.epoll he)⟩
    obtain ⟨c₁, hc₁, hd₁⟩ := h'.conn hc
    obtain ⟨c, hc, hd⟩ := h.conn hc₁
    exact ⟨c, hc, hd₁.trans hd⟩

theorem SameDesks.loses (h : SameDesks s s') : Loses s s' := by
  have hmap : s'.connMap = s.connMap := congrArg (fun t => t.2.1) h
  have hnext : s'.nextConn = s.nextConn := congrArg (fun t => t.2.2.1) h
  have hepoll : s'.epoll = s.epoll := congrArg (fun t => t.2.2.2.1) h
  exact ⟨h.conn, fun he => hmap ▸ he, hnext, fun he => hepoll ▸ he⟩

theorem ident_of_desk (hd : c'.desk = c.desk) : c'.ident = c.ident := congrArg Desk.ident hd

theorem type_of_desk (hd : c'.desk = c.desk) : c'.type = c.type := (Connect.ident_eq (ident_of_desk hd)).1

theorem sockFd_of_desk (hd : c'.desk = c.desk) : c'.sockFd = c.sockFd := (Connect.ident_eq (ident_of_desk hd)).2.2

theorem status_of_desk (hd : c'.desk = c.desk) : c'.status = c.status := congrArg Desk.status hd

theorem verified_of_desk (hd : c'.desk = c.desk) : c'.verified = c.verified := congrArg Desk.verified hd

theorem free_of_desk (hd : c'.desk = c.desk) (h : c.dec.Free buffSize) : c'.dec.Free buffSize := by
  have ho : c'.dec.offset = c.dec.offset := congrArg Desk.offset hd
  have hs : c'.dec.stillneedtoread = c.dec.stillneedtoread := congrArg Desk.still hd
  have hm : c'.dec.cstate = c.dec.cstate := congrArg Desk.cstate hd
  rw [Decoder.Free, Decoder.Room, ho, hs, hm]
  exact h

theorem State.Calm.loses (h : s.Calm pending c) (hl : Loses s s') (hd : c'.desk = c.desk) : s'.Calm pending c' where
  peer q hq := by
    rw [(Connect.ident_eq (ident_of_desk hd)).2.1] at hq
    obtain ⟨hlt, hty⟩ := h.peer q hq
    refine ⟨hl.next ▸ hlt, fun e he => ?_⟩
    obtain ⟨e₀, he₀, hde⟩ := hl.conn he
    exact (type_of_desk hde).trans (hty e₀ he₀)
  room hs := free_of_desk hd (h.room (status_of_desk hd ▸ hs))
  hung hs := by
    obtain ⟨hv, he, hp⟩ := h.hung ((status_of_desk hd).symm.trans hs)
    rw [verified_of_desk hd, sockFd_of_desk hd]
    exact ⟨hv, by_contra fun hne => hl.epoll hne he, hp⟩
  forward hm := by
    have hmode : c'.dec.cstate = c.dec.cstate := congrArg Desk.cstate hd
    exact (verified_of_desk hd).trans (h.forward (hmode ▸ hm))

namespace State.Tidy

theorem loses (h : s.Tidy pending) (hl : Loses s s') : s'.Tidy pending where
  known hc := by
    obtain ⟨c, hc, hd⟩ := hl.conn hc
    rw [hl.next, sockFd_of_desk hd]
    exact h.known hc
  entry he := by
    obtain ⟨hlt, hfd⟩ := h.entry (hl.entry he)
    refine ⟨hl.next ▸ hlt, fun c' hc' => ?_⟩
    obtain ⟨c, hc, hd⟩ := hl.conn hc'
    exact (sockFd_of_desk hd).trans (hfd c hc)
  inj hc hd hfd := by
    obtain ⟨c₀, hc₀, hdc⟩ := hl.conn hc
    obtain ⟨d₀, hd₀, hdd⟩ := hl.conn hd
    refine h.inj hc₀ hd₀ ?_
    rw [← sockFd_of_desk hdc, ← sockFd_of_desk hdd, hfd]
  tunnel hc hty := by
    obtain ⟨c, hc, hd⟩ := hl.conn hc
    exact (h.tunnel hc (type_of_desk hd ▸ hty)).loses hl hd

theorem same (h : s.Tidy pending) (hs : SameDesks s s') : s'.Tidy pending := h.loses hs.loses

/-- Fields of a connection change, but not its kind and descriptor. -/
theorem setConn (h : s.Tidy pending) (hc : s.conns p = some c) (hty : c'.type = c.type) (hfd : c'.sockFd = c.sockFd)
    (hcalm : c'.type ≠ .proxy → s.Calm pending c') : (s.setConn p c').Tidy pending := by
  have hold : ∀ {q d}, (s.setConn p c').conns q = some d → ∃ d₀, s.conns q = some d₀ ∧ d.type = d₀.type ∧
      d.sockFd = d₀.sockFd ∧ (d.type ≠ .proxy → s.Calm pending d) := by
    intro q d hq
    obtain ⟨rfl, rfl⟩ | ⟨-, hq⟩ := update_some_eq hq
    · exact ⟨c, hc, hty, hfd, hcalm⟩
    · exact ⟨d, hq, rfl, rfl, h.tunnel hq⟩
  constructor
  · intro q d hq
    obtain ⟨d₀, hd₀, -, hfd', -⟩ := hold hq
    exact hfd' ▸ h.known hd₀
  · intro fd q he
    refine ⟨(h.entry he).1, fun d hq => ?_⟩
    obtain ⟨d₀, hd₀, -, hfd', -⟩ := hold hq
    exact hfd'.trans ((h.entry he).2 d₀ hd₀)
  · intro q r d e hq hr hde
    obtain ⟨d₀, hd₀, -, hfd₁, -⟩ := hold hq
    obtain ⟨e₀, he₀, -, hfd₂, -⟩ := hold hr
    exact h.inj hd₀ he₀ (hfd₁.symm.trans (hde.trans hfd₂))
  · intro q d hq hdty
    obtain ⟨-, -, -, -, hd⟩ := hold hq
    have hd := hd hdty
    refine ⟨fun r hr => ⟨(hd.peer r hr).1, fun e he => ?_⟩, hd.room, hd.hung, hd.forward⟩
    obtain ⟨e₀, he₀, hety, -, -⟩ := hold he
    exact hety.trans ((hd.peer r hr).2 e₀ he₀)

/-- A registration for a descriptor that no tunnel has that is hung up. -/
theorem addEvent_of (h : s.Tidy pending)
    (hup : ∀ q d, s.conns q = some d → d.type ≠ .proxy → d.sockFd = fd → d.status ≠ .hangup) (m : Mask) :
    wlp (addEvent fd m) (fun _ s' => s'.Tidy pending ∧ s'.conns = s.conns) s := by
  simp only [Sdk.addEvent, wlp, wpe_ite, wpe_bind, wpe_get]
  refine ⟨fun _ => ⟨h, rfl⟩, fun _ => ?_⟩
  cases s.epoll fd with
  | some _ => exact ⟨h.same rfl, rfl⟩
  | none =>
      refine ⟨⟨h.known, h.entry, h.inj, fun {q d} hq hty => ?_⟩, rfl⟩
      have hd := h.tunnel hq hty
      refine ⟨hd.peer, hd.room, fun hs => ?_, hd.forward⟩
      have hne : d.sockFd ≠ fd := fun hfd => hup q d hq hty hfd hs
      obtain ⟨hv, he, hp⟩ := hd.hung hs
      exact ⟨hv, (Function.update_of_ne hne _ _).trans he, hp⟩

/-- A registration for a connection that is no tunnel hung up. -/
theorem addEvent (h : s.Tidy pending) (hc : s.conns p = some c) (hup : c.type ≠ .proxy → c.status ≠ .hangup)
    (m : Mask) : wlp (addEvent c.sockFd m) (fun _ s' => s'.Tidy pending ∧ s'.conns = s.conns) s := by
  refine h.addEvent_of (fun q d hq hty hfd => ?_) m
  obtain rfl := h.inj hq hc hfd
  obtain rfl : d = c := Option.mem_unique hq hc
  exact hup hty

/-- Tunnel `p`, which forwards and is not in the rest of the batch, is hung up. -/
theorem hangUp (h : s.Tidy pending) (hc : s.conns p = some c) (hty : c.type ≠ .proxy) (hm : c.dec.cstate = .forward)
    (hfd : c.sockFd ∉ pending) (hup : HungUp p s s') : s'.Tidy pending := by
  obtain ⟨c₀, c', o, hc₀, hc', hd, hnone⟩ := hup.self
  obtain rfl : c₀ = c := Option.mem_unique hc₀ hc
  have hold : ∀ {q d'}, s'.conns q = some d' → ∃ d, s.conns q = some d ∧ d'.ident = d.ident ∧
      (q ≠ p → d'.desk = d.desk) := by
    intro q d' hq
    by_cases hqp : q = p
    · subst hqp
      obtain rfl : c' = d' := Option.mem_unique hc' hq
      exact ⟨c₀, hc, congrArg Desk.ident hd, fun hne => absurd rfl hne⟩
    · have hmap := hup.others q hqp
      rw [hq, Option.map_some, eq_comm, Option.map_eq_some_iff] at hmap
      obtain ⟨d, hd, hde⟩ := hmap
      exact ⟨d, hd, ident_of_desk hde.symm, fun _ => hde.symm⟩
  have hpeer : ∀ {c : Connect}, s.Calm pending c → ∀ q, c.peer = some q →
      q < s'.nextConn ∧ ∀ d, s'.conns q = some d → d.type = .proxy := by
    intro c hcalm q hq
    refine ⟨hup.nextConn ▸ (hcalm.peer q hq).1, fun d' hd' => ?_⟩
    obtain ⟨d, hd, hid, -⟩ := hold hd'
    exact (Connect.ident_eq hid).1.trans ((hcalm.peer q hq).2 d hd)
  constructor
  · intro q d' hq
    obtain ⟨d, hd, hid, -⟩ := hold hq
    rw [hup.nextConn, (Connect.ident_eq hid).2.2]
    exact h.known hd
  · intro fd q he
    rw [hup.connMap] at he
    refine ⟨hup.nextConn ▸ (h.entry he).1, fun d' hq => ?_⟩
    obtain ⟨d, hd, hid, -⟩ := hold hq
    exact (Connect.ident_eq hid).2.2.trans ((h.entry he).2 d hd)
  · intro q r d' e' hq hr hde
    obtain ⟨d, hd, hid, -⟩ := hold hq
    obtain ⟨e, he, hie, -⟩ := hold hr
    rw [(Connect.ident_eq hid).2.2, (Connect.ident_eq hie).2.2] at hde
    exact h.inj hd he hde
  · intro q d' hq hdty
    obtain ⟨d, hdq, hid, hdesk⟩ := hold hq
    obtain ⟨htype, hpe, hsock⟩ := Connect.ident_eq hid
    have hcalm := h.tunnel hdq (htype ▸ hdty)
    by_cases hqp : q = p
    · subst hqp
      obtain rfl : c' = d' := Option.mem_unique hc' hq
      obtain rfl : c₀ = d := Option.mem_unique hc hdq
      have hv : c'.verified = true := (congrArg Desk.verified hd).trans (hcalm.forward hm)
      refine ⟨fun r hr => hpeer hcalm r (hpe ▸ hr), fun hs => absurd (congrArg Desk.status hd) hs, fun _ => ?_,
        fun _ => hv⟩
      rw [hsock]
      exact ⟨hv, hnone (h.known hc).2, hfd⟩
    · have hde := hdesk hqp
      refine ⟨fun r hr => hpeer hcalm r (hpe ▸ hr), fun hs => free_of_desk hde (hcalm.room (status_of_desk hde ▸ hs)),
        fun hs => ?_, fun hmode => ?_⟩
      · obtain ⟨hv, he, hp⟩ := hcalm.hung ((status_of_desk hde).symm.trans hs)
        rw [verified_of_desk hde, hsock]
        exact ⟨hv, by_contra fun hne => hup.epoll _ hne he, hp⟩
      · have hmode' : d'.dec.cstate = d.dec.cstate := congrArg Desk.cstate hde
        exact (verified_of_desk hde).trans (hcalm.forward (hmode' ▸ hmode))

end State.Tidy

end Tidy

/-! ### Reading a tunnel -/

/-- The read completes a CONNECT_HOST_RSP that lets the tunnel forward. -/
def HostConnected (r : Reading) : Prop :=
  (r.dec.recv hdrFormat r.chunk).2 = .message ∧ 4 ≤ (r.dec.recv hdrFormat r.chunk).1.h ∧
    MsgId.ofNat? (msgId (r.dec.recv hdrFormat r.chunk).1.buff) = some .connectHostRsp ∧
    (ConnectHostRsp.read (r.dec.recv hdrFormat r.chunk).1.buff).rspCode = RespCode.ready.toNat

instance (r : Reading) : Decidable (HostConnected r) := inferInstanceAs (Decidable (_ ∧ _))

/-- Before each read of `p` for an event of `fd`: `p` is a tunnel with this descriptor and not hung up. -/
structure Legible (fd : ℕ) (p : Ptr) (rest : List ℕ) (s : State) : Prop where
  tidy : s.Tidy rest
  self : ∀ c, s.conns p = some c → c.type ≠ .proxy ∧ c.sockFd = fd ∧ c.status ≠ .hangup

section Tunnel

variable {s s' : State} {p q : Ptr} {c : Connect} {fd : ℕ} {rest : List ℕ}

theorem Legible.same (h : Legible fd p rest s) (hs : SameDesks s s') : Legible fd p rest s' := by
  refine ⟨h.tidy.same hs, fun c' hc' => ?_⟩
  obtain ⟨c, hc, hd⟩ := hs.conn hc'
  rw [type_of_desk hd, sockFd_of_desk hd, status_of_desk hd]
  exact h.self c hc

/-- A change of the tunnel itself. -/
theorem Legible.setConn {c' : Connect} (h : Legible fd p rest s) (hc : s.conns p = some c) (hid : c'.ident = c.ident)
    (hst : c'.status = c.status) (hroom : c'.dec.Free buffSize) (hfwd : c'.dec.cstate = .forward → c'.verified = true) :
    Legible fd p rest (s.setConn p c') := by
  obtain ⟨hty, hpeer, hfd⟩ := Connect.ident_eq hid
  obtain ⟨htun, hsock, hup⟩ := h.self c hc
  refine ⟨h.tidy.setConn hc hty hfd fun _ => ⟨fun q hq => ?_, fun _ => hroom, fun hs => ?_, hfwd⟩, fun d hd => ?_⟩
  · exact (h.tidy.tunnel hc htun).peer q (hpeer ▸ hq)
  · exact absurd (hst.symm.trans hs) hup
  · obtain rfl : c' = d := Option.mem_unique (State.setConn_self s p c') hd
    rw [hty, hfd, hst]
    exact ⟨htun, hsock, hup⟩

theorem activatePeer_legible (h : Legible fd p rest s) (hq : ∀ d, s.conns q = some d → d.type = .proxy) :
    wlp (activatePeer p q) (fun _ s' => Legible fd p rest s') s := by
  simp only [activatePeer, wlp, wpe_bind, wpe_deref]
  refine ⟨fun _ => trivial, fun d hd => wlp_mono (answerPeer_still p q d s) fun _ s₁ h₁ => ?_⟩
  refine wpe_modConn.mpr ⟨fun _ => trivial, fun d₁ hd₁ => ?_⟩
  obtain ⟨d₀, hd₀, hdesk⟩ := h₁.conn hd₁
  obtain rfl : d = d₀ := Option.mem_unique hd hd₀
  have hproxy : d₁.type = .proxy := (type_of_desk hdesk).trans (hq d hd)
  have hleg := h.same h₁
  have hpq : p ≠ q := by
    rintro rfl
    exact (hleg.self d₁ hd₁).1 hproxy
  generalize hfree : { d₁ with rDataLen := 0, dec := { d₁.dec with offset := 0, stillneedtoread := buffSize } } = e
  have hety : e.type = .proxy := hfree ▸ hproxy
  have hsock : e.sockFd = d₁.sockFd := hfree ▸ rfl
  have htidy : (s₁.setConn q e).Tidy rest :=
    hleg.tidy.setConn hd₁ (hety.trans hproxy.symm) hsock fun hne => absurd hety hne
  have hadd := htidy.addEvent (State.setConn_self s₁ q e) (fun hne => absurd hety hne) ⟨true, false, true⟩
  rw [hsock, sockFd_of_desk hdesk] at hadd
  refine wlp_mono hadd ?_
  rintro _ s₂ ⟨h₂, hconns⟩
  refine ⟨h₂, fun c hc => hleg.self c ?_⟩
  rw [hconns, State.setConn_ne s₁ e hpq] at hc
  exact hc

theorem loginReady_legible (h : Legible fd p rest s) (r : LoginRsp) :
    wlp (loginReady p r) (fun _ s' => Legible fd p rest s') s := by
  simp only [loginReady, switchConnModeForw, wlp, wpe_bind, wpe_deref, wpe_ite, wpe_throw, wpe_modConn, wpe_get,
    State.setConn_self, Option.some.injEq, forall_eq', State.setConn_setConn]
  refine ⟨fun _ => trivial, fun c hc => ⟨fun _ => trivial, fun _ => ⟨fun _ => trivial, fun c₁ hc₁ =>
    ⟨fun _ => trivial, ?_⟩⟩⟩⟩
  obtain rfl : c = c₁ := Option.mem_unique hc hc₁
  have hcalm := h.tidy.tunnel hc (h.self c hc).1
  refine wlp_mono (sendTmsMsg_still p _ _) fun _ s₁ h₁ => ?_
  have hleg : Legible fd p rest s₁ := by
    refine Legible.same (h.setConn hc ?_ ?_ ?_ ?_) h₁
    · rfl
    · rfl
    · exact .whole rfl rfl
    · exact fun _ => rfl
  cases hpeer : c.peer with
  | none => exact hleg.same rfl
  | some q =>
      refine activatePeer_legible (s := { s₁ with avalTraffic := c.avalTraffic }) (hleg.same rfl) fun d hd => ?_
      obtain ⟨d₀, hd₀, hdesk⟩ := h₁.conn hd
      rw [type_of_desk hdesk]
      by_cases hqp : q = p
      · subst hqp
        exact absurd ((hcalm.peer q hpeer).2 c hc) (h.self c hc).1
      · rw [State.setConn_ne _ _ hqp] at hd₀
        exact (hcalm.peer q hpeer).2 d₀ hd₀

theorem handleLoginRsp_legible (h : Legible fd p rest s) (r : LoginRsp) :
    wlp (handleLoginRsp p r) (fun _ s' => Legible fd p rest s') s := by
  have hanswer : ∀ t : State, Legible fd p rest t → wlp (loginAnswered p r) (fun _ s' => Legible fd p rest s') t := by
    intro t ht
    rw [loginAnswered]
    split_ifs
    · exact loginReady_legible ht r
    · exact wlp_mono (loginFailed_still p r.rspCode t) fun _ s' h' => ht.same h'
  rw [handleLoginRsp]
  split_ifs
  · have htraffic : Does SameDesks (modConn p fun c => { c with avalTraffic := toU64 r.avalableTraffic }) :=
      modConn_still fun _ => rfl
    exact wlp_bind (htraffic s) fun _ s₁ h₁ => hanswer s₁ (h.same h₁)
  · exact hanswer s h

theorem onMsg_legible {d : Decoder} {chunk : List UInt8} (h : Legible fd p rest s)
    (hm : (d.recv hdrFormat chunk).2 = .message) (hv : (endpoint p).view s = some (d.recv hdrFormat chunk).1)
    (hP : ¬ HostConnected ⟨d, chunk⟩) : wlp ((endpoint p).onMsg chunk.length) (fun _ s' => Legible fd p rest s') s := by
  obtain ⟨c, hc, hdec⟩ := Option.map_eq_some_iff.mp hv
  have hs : Legible fd p rest (s.emit (.msg p c.dec.buff c.dec.h)) := h.same rfl
  simp only [endpoint, handleRecvMsg, wlp, wpe_bind, wpe_deref, hc, found_iff, wpe_emit, wpe_ite, wpe_pure]
  refine ⟨fun _ => hs, fun hlen => ?_⟩
  cases hid : MsgId.ofNat? (msgId c.dec.buff) with
  | none => exact hs
  | some m =>
      cases m with
      | loginRsp =>
          generalize LoginRsp.read c.dec.buff = r
          exact (wpe_bind _ _ _ _ _).mpr (handleLoginRsp_legible hs r)
      | connectHostRsp =>
          have hcode : (ConnectHostRsp.read c.dec.buff).rspCode ≠ RespCode.ready.toNat := fun hcode =>
            hP ⟨hm, hdec ▸ not_lt.mp hlen, hdec ▸ hid, hdec ▸ hcode⟩
          generalize ConnectHostRsp.read c.dec.buff = r at hcode
          simp only [handleConnectHostRsp, wpe_ite, wpe_pure]
          exact ⟨fun _ => hs, fun hready => absurd hcode hready⟩
      | _ => exact hs

/-- Before each read of a tunnel its buffer has room. -/
theorem endpoint_roomy (hfd : fd ∉ rest) :
    Roomy (endpoint p) (fun r => ¬ HostConnected r) (Legible fd p rest) (fun s => s.Tidy rest) where
  fits := show hdrSize ≤ buffSize by decide
  room {s d} hs hv := by
    obtain ⟨c, hc, rfl⟩ := Option.map_eq_some_iff.mp hv
    obtain ⟨hty, -, hup⟩ := hs.self c hc
    exact (hs.tidy.tunnel hc hty).room hup
  put {s d₀ d} hs hv hroom hmode n := by
    obtain ⟨c, hc, rfl⟩ := Option.map_eq_some_iff.mp hv
    have hcalm := hs.tidy.tunnel hc (hs.self c hc).1
    rw [put_onRead hc]
    refine ⟨?_, by simp [endpoint, State.setConn, Connect.stored]⟩
    have hset : Legible fd p rest (s.setConn p (c.stored (trafficEst s.accurate n) d)) :=
      hs.setConn hc rfl rfl hroom fun hm => hcalm.forward (hmode.mp hm)
    exact hset.same rfl
  ends hs := hs.tidy
  errno hs e := hs.tidy.same rfl
  onMsg {s d chunk} hs hm hv hP :=
    wlp_mono (onMsg_legible hs hm hv hP) fun _ _ h => ⟨fun _ => h, h.tidy⟩
  onForward {s d} hs hv hmode n := by
    obtain ⟨c, hc, rfl⟩ := Option.map_eq_some_iff.mp hv
    refine wlp_mono (onForward_passesOn n) fun r s' h => ?_
    obtain ⟨h, -⟩ | ⟨⟨s₁, h₁, h⟩, hr⟩ := h
    · exact ⟨fun _ => hs.same h, hs.tidy.same h⟩
    · refine ⟨fun hnone => absurd hnone hr, ?_⟩
      obtain ⟨c₁, -, -, hc₁, -⟩ := h.self
      obtain ⟨c₀, hc₀, hdesk⟩ := h₁.conn hc₁
      obtain rfl : c₀ = c := Option.mem_unique hc₀ hc
      obtain ⟨hty, hsock, -⟩ := (hs.same h₁).self c₁ hc₁
      have hm : c₁.dec.cstate = .forward := (congrArg Desk.cstate hdesk).trans hmode
      exact (hs.same h₁).tidy.hangUp hc₁ hty hm (hsock ▸ hfd) h

/-- A tunnel that has room keeps it while it is read, whatever it receives. -/
theorem endpoint_fits (p : Ptr) : Roomy (endpoint p) (fun _ => True)
    (fun s => ∀ c, s.conns p = some c → c.dec.Free buffSize) (fun _ => True) where
  fits := show hdrSize ≤ buffSize by decide
  room {s d} hs hv := by
    obtain ⟨c, hc, rfl⟩ := Option.map_eq_some_iff.mp hv
    exact hs c hc
  put {s d₀ d} _ hv hroom _ n := by
    obtain ⟨c, hc, rfl⟩ := Option.map_eq_some_iff.mp hv
    rw [put_onRead hc]
    refine ⟨fun c' hc' => ?_, by simp [endpoint, State.setConn, Connect.stored]⟩
    obtain rfl : c.stored (trafficEst s.accurate n) d = c' := by simpa [State.setConn] using hc'
    exact hroom
  ends _ := trivial
  errno _ _ := trivial
  onMsg {s d chunk} _ hm hv _ := by
    have hstart := Decoder.recv_message_atStart hm
    refine wlp_mono (onMsg_keeps hv hstart chunk.length) fun _ s' h => ⟨fun _ c hc => ?_, trivial⟩
    have hkeeps : (endpoint p).Keeps (d.recv hdrFormat chunk).1 c.dec := h c hc
    exact hkeeps.free hstart (show hdrSize ≤ buffSize by decide)
  onForward {s d} hs _ _ n := by
    refine wlp_mono (onForward_passesOn n) fun r s' h => ⟨fun hr c' hc' => ?_, trivial⟩
    obtain ⟨h, -⟩ | ⟨-, hne⟩ := h
    · obtain ⟨c, hc, hd⟩ := h.conn hc'
      exact free_of_desk hd (hs c hc)
    · exact absurd hr hne

end Tunnel

/-! ### Reading a browser -/

/-- No connection has descriptor `fd`. -/
def State.Spare (s : State) (fd : ℕ) : Prop := ∀ p < s.nextConn, ∀ c ∈ s.conns p, c.sockFd ≠ fd

instance (s : State) (fd : ℕ) : Decidable (s.Spare fd) :=
  inferInstanceAs (Decidable (∀ p < s.nextConn, ∀ c ∈ s.conns p, c.sockFd ≠ fd))

/-- While browser `p` is read: at most one descriptor is given out, and no connection has it. -/
structure Browsing (p : Ptr) (rest : List ℕ) (s : State) : Prop where
  tidy : s.Tidy rest
  self : ∀ c, s.conns p = some c → c.type = .proxy
  dials : s.dials.length ≤ 1
  spare : ∀ fd, .opened fd ∈ s.dials → s.Spare fd

section Browser

variable {s s' : State} {p t : Ptr} {c d : Connect} {fd : ℕ} {rest : List ℕ}

theorem SameDesks.dials (h : SameDesks s s') : s'.dials = s.dials := congrArg (fun t => t.2.2.2.2) h

theorem State.Spare.loses (h : s.Spare fd) (hl : Loses s s') : s'.Spare fd := by
  intro q hq c' hc'
  obtain ⟨c, hc, hd⟩ := hl.conn hc'
  exact sockFd_of_desk hd ▸ h q (hl.next ▸ hq) c hc

theorem Browsing.same (h : Browsing p rest s) (hs : SameDesks s s') : Browsing p rest s' := by
  refine ⟨h.tidy.same hs, fun c' hc' => ?_, hs.dials ▸ h.dials,
    fun fd hfd => (h.spare fd (hs.dials ▸ hfd)).loses hs.loses⟩
  obtain ⟨c, hc, hd⟩ := hs.conn hc'
  exact (type_of_desk hd).trans (h.self c hc)

/-- Fields of a connection change, but not its kind and descriptor. -/
theorem Browsing.setConn {q : Ptr} {c' : Connect} (h : Browsing p rest s) (hc : s.conns q = some c)
    (hty : c'.type = c.type) (hfd : c'.sockFd = c.sockFd) (hcalm : c'.type ≠ .proxy → s.Calm rest c') :
    Browsing p rest (s.setConn q c') := by
  have hold : ∀ {r d}, (s.setConn q c').conns r = some d → ∃ d₀, s.conns r = some d₀ ∧ d.type = d₀.type ∧
      d.sockFd = d₀.sockFd := by
    intro r d hr
    obtain ⟨rfl, rfl⟩ | ⟨-, hr⟩ := update_some_eq hr
    · exact ⟨c, hc, hty, hfd⟩
    · exact ⟨d, hr, rfl, rfl⟩
  refine ⟨h.tidy.setConn hc hty hfd hcalm, fun d hd => ?_, h.dials, fun fd' hfd' r hlt d hr => ?_⟩
  · obtain ⟨d₀, hd₀, hdty, -⟩ := hold hd
    exact hdty.trans (h.self d₀ hd₀)
  · obtain ⟨d₀, hd₀, -, hsock⟩ := hold hr
    exact hsock ▸ h.spare fd' hfd' r hlt d₀ hd₀

/-- A new connection, with a descriptor that no other has; a tunnel starts with a header. -/
theorem State.Tidy.added (h : s.Tidy rest) (hconns : s'.conns = Function.update s.conns s.nextConn (some c))
    (hnext : s'.nextConn = s.nextConn + 1)
    (hmap : s'.connMap = Function.update s.connMap c.sockFd (some (some s.nextConn))) (hepoll : s'.epoll = s.epoll)
    (h0 : c.sockFd ≠ 0) (hfd : s.Spare c.sockFd) (hnew : c.type ≠ .proxy → c.peer = none ∧ c.dec.Free buffSize ∧
      c.status ≠ .hangup ∧ c.dec.cstate ≠ .forward) : s'.Tidy rest := by
  have hcases : ∀ {q e}, s'.conns q = some e → q = s.nextConn ∧ c = e ∨ s.conns q = some e := by
    intro q e hq
    rw [hconns] at hq
    exact (update_some_eq hq).imp_right And.right
  have hold : ∀ {q e}, q < s.nextConn → s'.conns q = some e → s.conns q = some e := by
    intro q e hlt hq
    obtain ⟨rfl, -⟩ | hq := hcases hq
    · exact absurd hlt (lt_irrefl _)
    · exact hq
  have hlt : ∀ {q}, q < s.nextConn → q < s'.nextConn := fun hq => hnext ▸ Nat.lt_succ_of_lt hq
  constructor
  · intro q e hq
    obtain ⟨rfl, rfl⟩ | hq := hcases hq
    · exact ⟨hnext ▸ Nat.lt_succ_self _, h0⟩
    · exact ⟨hlt (h.known hq).1, (h.known hq).2⟩
  · intro fd' q he
    rw [hmap] at he
    obtain ⟨rfl, ⟨⟩⟩ | ⟨-, he⟩ := update_some_eq he
    · refine ⟨hnext ▸ Nat.lt_succ_self _, fun e hq => ?_⟩
      obtain ⟨-, rfl⟩ | hq := hcases hq
      · rfl
      · exact absurd (h.known hq).1 (lt_irrefl _)
    · exact ⟨hlt (h.entry he).1, fun e hq => (h.entry he).2 e (hold (h.entry he).1 hq)⟩
  · intro q r e e' hq hr hee
    obtain ⟨rfl, rfl⟩ | hq := hcases hq <;> obtain ⟨rfl, rfl⟩ | hr := hcases hr
    · rfl
    · exact absurd hee.symm (hfd r (h.known hr).1 e' hr)
    · exact absurd hee (hfd q (h.known hq).1 e hq)
    · exact h.inj hq hr hee
  · intro q e hq hty
    obtain ⟨rfl, rfl⟩ | hq := hcases hq
    · obtain ⟨hpeer, hroom, hup, hmode⟩ := hnew hty
      exact ⟨fun _ hn => absurd (hpeer.symm.trans hn) (by simp), fun _ => hroom, fun hs => absurd hs hup,
        fun hm => absurd hm hmode⟩
    · have hcalm := h.tunnel hq hty
      refine ⟨fun r hr => ?_, hcalm.room, hepoll ▸ hcalm.hung, hcalm.forward⟩
      exact ⟨hlt (hcalm.peer r hr).1, fun e' he' => (hcalm.peer r hr).2 e' (hold (hcalm.peer r hr).1 he')⟩

theorem State.Tidy.dialled (h : s.Tidy rest) (h0 : fd ≠ 0) (hfd : s.Spare fd) (more : List DialRes) :
    (s.dialled fd more).Tidy rest := by
  refine h.added (c := tunnelConnect fd) rfl rfl rfl rfl h0 hfd fun _ => ⟨rfl, ?_, ?_, ?_⟩
  · exact Decoder.AtStart.free ⟨rfl, rfl, rfl⟩ (show hdrFormat.hdrLen ≤ buffSize by decide)
  · simp [tunnelConnect]
  · simp [tunnelConnect]

theorem State.Tidy.admitted (h : s.Tidy rest) (h0 : fd ≠ 0) (hfd : s.Spare fd) : (s.admitted fd).Tidy rest :=
  h.added (c := browserConnect fd) rfl rfl rfl rfl h0 hfd fun hne => absurd rfl hne

theorem wlp_createConn (s : State) : wlp createConn (fun r s' =>
    (r = none ∧ ∃ more e, more <:+ s.dials ∧ s' = { s with dials := more, errno := e }) ∨
    ∃ fd more, r = some s.nextConn ∧ fd ≠ 0 ∧ s.dials = .opened fd :: more ∧ s' = s.dialled fd more) s := by
  simp only [createConn, sockOpen, setErrno, wlp, wpe_bind, wpe_get]
  rcases hd : s.dials with _ | ⟨fd | e, more⟩
  · exact .inl ⟨rfl, [], ECONNREFUSED, List.suffix_rfl, hd ▸ rfl⟩
  · by_cases hfd : fd = 0
    · simp only [wpe_bind, wpe_set, wpe_pure, hfd, ↓reduceIte]
      exact .inl ⟨trivial, more, s.errno, List.suffix_cons _ _, rfl⟩
    · simp only [wpe_bind, wpe_set, wpe_pure, wpe_get, hfd, ↓reduceIte]
      exact .inr ⟨fd, more, trivial, hfd, rfl, rfl⟩
  · exact .inl ⟨rfl, more, e, List.suffix_cons _ _, rfl⟩

theorem loses_of_eq (hc : s'.conns = s.conns) (hm : s'.connMap = s.connMap) (hn : s'.nextConn = s.nextConn)
    (he : s'.epoll = s.epoll) : Loses s s' :=
  ⟨fun h => ⟨_, hc ▸ h, rfl⟩, fun h => hm ▸ h, hn, fun h => he ▸ h⟩

theorem createConn_browsing (h : Browsing p rest s) (hp : s.conns p = some c) :
    wlp createConn (fun _ s' => Browsing p rest s') s := by
  refine wlp_mono (wlp_createConn s) ?_
  rintro r s' (⟨-, more, e, hmore, rfl⟩ | ⟨fd, more, -, h0, hd, rfl⟩)
  · exact ⟨h.tidy.loses (loses_of_eq rfl rfl rfl rfl), h.self, hmore.length_le.trans h.dials,
      fun fd hfd => h.spare fd (hmore.subset hfd)⟩
  · have hspare : s.Spare fd := h.spare fd (hd ▸ List.mem_cons_self)
    have hnil : more = [] := by
      have hlen := h.dials
      rw [hd, List.length_cons] at hlen
      exact List.length_eq_zero_iff.mp (Nat.le_zero.mp (Nat.le_of_succ_le_succ hlen))
    refine ⟨h.tidy.dialled h0 hspare more, fun c' hc' => h.self c' ?_, by simp [State.dialled, hnil],
      by simp [State.dialled, hnil]⟩
    exact (Function.update_of_ne (h.tidy.known hp).1.ne _ _).symm.trans hc'

theorem addEvent_dials (fd : ℕ) (m : Mask) : Does (fun s s' : State => s'.dials = s.dials) (addEvent fd m) := by
  intro s
  simp only [addEvent, wlp, wpe_ite, wpe_bind, wpe_get]
  refine ⟨fun _ => rfl, fun _ => ?_⟩
  cases s.epoll fd <;> rfl

/-- Linking a connection to browser `p`. -/
theorem Browsing.link (h : Browsing p rest s) (hp : s.conns p = some c) (ht : s.conns t = some d) :
    Browsing p rest (s.setConn t { d with peer := some p }) := by
  refine h.setConn ht rfl rfl fun hty => ?_
  have hcalm := h.tidy.tunnel ht hty
  refine ⟨fun q hq => ?_, hcalm.room, hcalm.hung, hcalm.forward⟩
  obtain rfl : p = q := Option.some.inj hq
  exact ⟨(h.tidy.known hp).1, h.self⟩

theorem openTunnel_browsing (h : Browsing p rest s) : wlp (openTunnel p) (fun _ s' => Browsing p rest s') s := by
  simp only [openTunnel, wlp, wpe_bind, wpe_deref, wpe_ite, wpe_pure]
  refine ⟨fun _ => trivial, fun c hc => ⟨fun _ => h, fun _ => wlp_mono (createConn_browsing h hc) ?_⟩⟩
  rintro (_ | t) s₁ h₁
  · exact h₁
  · simp only [wpe_bind, wpe_modConn, wpe_pure]
    refine ⟨fun _ => trivial, fun c₁ hc₁ => ⟨fun _ => trivial, fun d hd => ?_⟩⟩
    have hproxy := h₁.self c₁ hc₁
    have h₂ : Browsing p rest (s₁.setConn p { c₁ with peer := some t }) :=
      h₁.setConn hc₁ rfl rfl fun hne => absurd hproxy hne
    exact h₂.link (State.setConn_self _ _ _) hd

theorem handleProxyProtocol_browsing (h : Browsing p rest s) (n : ℕ) :
    wlp (handleProxyProtocol p n) (fun _ s' => Browsing p rest s') s := by
  have hmod : ∀ {f : Connect → Connect}, (∀ c, (f c).desk = c.desk) →
      wlp (do modConn p f; openTunnel p : SdkM ℤ) (fun _ s' => Browsing p rest s') s := fun hf =>
    wlp_bind (modConn_still hf s) fun _ _ h₁ => openTunnel_browsing (h.same h₁)
  simp only [handleProxyProtocol, wlp, wpe_bind, wpe_deref]
  refine ⟨fun _ => trivial, fun c _ => ?_⟩
  rcases findRequest (c.dec.buff.slice 0 buffSize) n with e | ⟨host, port⟩ | _ | host
  · exact trivial
  · exact hmod fun _ => rfl
  · have hver : Does SameDesks (modConn p fun c => { c with httpVersion := .https }) := modConn_still fun _ => rfl
    exact wlp_bind (hver s) fun _ _ h₁ => h.same h₁
  · exact hmod fun _ => rfl

/-- A login is made only for a tunnel that is not verified, which is not hung up. -/
theorem login_browsing (h : Browsing p rest s) (ht : s.conns t = some d) (hv : d.verified = false) (n : ℕ) :
    wlp (login p t n) (fun _ s' => Browsing p rest s') s := by
  have hlen : Does SameDesks (modConn p fun c => { c with rDataLen := (c.rDataLen + n) % 2 ^ 32 }) :=
    modConn_still fun _ => rfl
  simp only [login, wlp, wpe_bind, wpe_get, wpe_deref, wpe_ite, wpe_throw]
  refine wlp_mono (hlen s) fun _ s₁ h₁ => ⟨fun _ => trivial, fun c _ => ⟨fun _ => trivial, fun _ => ?_⟩⟩
  have hfields : Does SameDesks (modConn t fun d => { d with
      auth := s₁.config.auth, uid := atollOf s₁.config.appid, mobile := atollOf s₁.config.phone, host := c.host,
      webPort := c.webPort }) := modConn_still fun _ => rfl
  refine wlp_mono (hfields s₁) fun _ s₂ h₂ => ⟨fun _ => trivial, fun d₂ hd₂ => ⟨fun _ => trivial, fun _ => ?_⟩⟩
  refine wlp_mono (sendTmsMsg_still t _ s₂) fun _ s₃ h₃ => ?_
  have hsame := trans_of SameDesks h₁ (trans_of SameDesks h₂ h₃)
  have hb := h.same hsame
  obtain ⟨d₃, hd₃, hde₃⟩ : ∃ d₃, s₃.conns t = some d₃ ∧ d₃.desk = d₂.desk := by
    have hmap := h₃.conns t
    rw [hd₂, Option.map_some] at hmap
    exact Option.map_eq_some_iff.mp hmap
  obtain ⟨d₀, hd₀, hde⟩ := hsame.conn hd₃
  obtain rfl : d = d₀ := Option.mem_unique ht hd₀
  have hup : d₃.type ≠ .proxy → d₃.status ≠ .hangup := by
    intro hty hs
    have hver := ((hb.tidy.tunnel hd₃ hty).hung hs).1
    rw [verified_of_desk hde, hv] at hver
    cases hver
  have hadd := hb.tidy.addEvent hd₃ hup ⟨true, true, true⟩
  rw [sockFd_of_desk hde₃] at hadd
  refine wlp_mono (wlp_and hadd (addEvent_dials _ _ s₃)) ?_
  rintro _ s₄ ⟨⟨h₄, hconns⟩, hdials⟩
  refine ⟨h₄, fun c hc => hb.self c (hconns ▸ hc), hdials ▸ hb.dials, fun fd hfd q _ c hq => ?_⟩
  have hq : s₃.conns q = some c := hconns ▸ hq
  exact hb.spare fd (hdials ▸ hfd) q (hb.tidy.known hq).1 c hq

theorem passUp_browsing (h : Browsing p rest s) (n : ℕ) : wlp (passUp p n) (fun _ s' => Browsing p rest s') s := by
  simp only [passUp, wlp, wpe_bind, wpe_deref]
  refine ⟨fun _ => trivial, fun c _ => ?_⟩
  cases c.peer with
  | none => exact h
  | some t =>
      simp only [wpe_bind, wpe_deref, wpe_ite, wpe_pure]
      refine ⟨fun _ => trivial, fun d hd => ⟨fun _ => h, fun _ => ⟨fun _ => ?_, fun hv => ?_⟩⟩⟩
      · exact wlp_mono (sendRaw_still t _ _ s) fun _ _ h₁ => h.same h₁
      · exact login_browsing h hd (Bool.eq_false_iff.mpr hv) n

theorem onChunk_browsing (h : Browsing p rest s) (n : ℕ) : wlp (onChunk p n) (fun _ s' => Browsing p rest s') s := by
  simp only [onChunk, wlp, wpe_bind, wpe_deref, wpe_emit]
  refine ⟨fun _ => trivial, fun c _ => ?_⟩
  have hrecv : Browsing p rest (s.emit (.recv p (c.dec.buff.slice c.dec.offset n))) := h.same rfl
  cases c.peer with
  | some _ => exact passUp_browsing hrecv n
  | none =>
      simp only [wpe_bind, wpe_ite, wpe_pure]
      refine wlp_mono (handleProxyProtocol_browsing hrecv _) fun ret s₁ h₁ => ⟨fun _ => ?_, fun _ => ⟨fun _ => h₁,
        fun _ => passUp_browsing h₁ n⟩⟩
      exact wlp_mono (ackUserFail_still p _ s₁) fun _ _ h₂ => h₁.same h₂

/-- While `p` is read as a browser. -/
def Browses (p : Ptr) (rest : List ℕ) (s s' : State) : Prop := Browsing p rest s → Browsing p rest s'

instance : Std.Refl (Browses p rest) := ⟨fun _ => id⟩

instance : IsTrans State (Browses p rest) := ⟨fun _ _ _ h h' hs => h' (h hs)⟩

theorem proxyRecvEvent_browsing (h : Browsing p rest s) (reads : List ReadRes) :
    wlp (proxyRecvEvent p reads) (fun _ s' => Browsing p rest s') s := by
  have hput : ∀ d s, Browses p rest s ((proxyEndpoint p).put d s) := by
    intro d s hs
    cases hc : s.conns p with
    | none => simpa [proxyEndpoint, hc] using hs
    | some c =>
        have hproxy := hs.self c hc
        have hset : Browsing p rest (s.setConn p { c with dec := { d with cstate := c.dec.cstate } }) :=
          hs.setConn hc rfl rfl fun hne => absurd hproxy hne
        simpa [proxyEndpoint, hc] using hset
  have hloop : Does (Browses p rest) (recvLoop (proxyEndpoint p) reads) :=
    .recvLoop hput (fun _ _ hs => hs.same rfl) (fun _ _ => id) (fun _ => .pure _)
      (fun n s => wlp_of_imp fun hs => onChunk_browsing hs n) reads
  simp only [proxyRecvEvent, wlp, wpe_bind, wpe_mapFault]
  exact wlp_mono (hloop s) fun _ _ h' => h' h

end Browser

/-! ### Events of a connection -/

/-- The reads of `HandleRecvEvent` from a tunnel. -/
def State.readings (s : State) (fd : ℕ) (reads : List ReadRes) : List Reading :=
  match (s.connMap fd).join with
  | none => []
  | some p =>
      match s.conns p with
      | none => []
      | some c => if c.type = .proxy then [] else (endpoint p).readings reads (s.setConn p { c with host := [] })

section Events

variable {s s' : State} {p t : Ptr} {c d : Connect} {fd : ℕ} {rest : List ℕ}

theorem State.Tidy.weaken (h : s.Tidy (fd :: rest)) : s.Tidy rest := by
  refine ⟨h.known, h.entry, h.inj, fun hq hqty => ?_⟩
  obtain ⟨hpeer, hroom, hhung, hfwd⟩ := h.tunnel hq hqty
  refine ⟨hpeer, hroom, fun hs => ?_, hfwd⟩
  obtain ⟨hv, hnone, hmem⟩ := hhung hs
  exact ⟨hv, hnone, List.not_mem_of_not_mem_cons hmem⟩

/-- The connection an event is for can be read. -/
theorem State.Tidy.legible (h : s.Tidy (fd :: rest)) (he : s.connMap fd = some (some p)) (hc : s.conns p = some c)
    (hty : c.type ≠ .proxy) : Legible fd p rest (s.setConn p { c with host := [] }) := by
  have hsock : c.sockFd = fd := (h.entry he).2 c hc
  have hleg : Legible fd p rest s := by
    refine ⟨h.weaken, fun c' hc' => ?_⟩
    obtain rfl : c = c' := Option.mem_unique hc hc'
    refine ⟨hty, hsock, fun hs => ?_⟩
    exact ((h.tunnel hc hty).hung hs).2.2 (hsock ▸ List.mem_cons_self)
  exact hleg.same (.setConn hc rfl)

theorem handleRecvEvent_tidy (h : s.Tidy (fd :: rest)) (hfd : fd ∉ rest) (hd : s.dials.length ≤ 1)
    (hspare : ∀ fd, .opened fd ∈ s.dials → s.Spare fd) (reads : List ReadRes)
    (hb : ∀ r ∈ s.readings fd reads, r.Bounded hdrFormat buffSize ∧ ¬ HostConnected r) :
    wlp (handleRecvEvent fd reads) (fun _ s' => s'.Tidy rest) s := by
  simp only [handleRecvEvent, wlp, wpe_bind, wpe_get]
  rcases he : s.connMap fd with _ | _ | p
  · exact h.weaken
  · exact h.weaken
  · simp only [wpe_bind, wpe_deref, wpe_ite, wpe_modConn]
    refine ⟨fun _ => trivial, fun c hc => ⟨fun hty => ?_, fun hty => ⟨fun _ => trivial, fun c' hc' => ?_⟩⟩⟩
    · have hbrowse : Browsing p rest s := by
        refine ⟨h.weaken, fun c' hc' => ?_, hd, hspare⟩
        obtain rfl : c = c' := Option.mem_unique hc hc'
        exact hty
      exact wlp_mono (proxyRecvEvent_browsing hbrowse reads) fun _ _ h' => h'.tidy
    · obtain rfl : c = c' := Option.mem_unique hc hc'
      have hreads : s.readings fd reads = (endpoint p).readings reads (s.setConn p { c with host := [] }) := by
        simp [State.readings, he, hc, hty]
      rw [hreads] at hb
      have hloop := ((endpoint_roomy hfd).loop (h.legible he hc hty) (fun r hr => (hb r hr).1)
        fun r hr => (hb r hr).2).1
      simp only [streamRecvEvent, wpe_bind, wpe_mapFault]
      exact wlp_mono hloop fun _ _ h' => h'

/-- A flush leaves bytes in the buffer only of a tunnel that stays hung up. -/
theorem flushed_tidy (h : s.Tidy rest) (hc : s.conns p = some c) (hty : c.type = .proxy) (hd : s.conns t = some d)
    (hs : d.status = .hangup) (wrote : Option ℕ) : wlp (flushed p t wrote) (fun _ s' => s'.Tidy rest) s := by
  have hbrowser : ∀ m, wlp (addEvent c.sockFd m) (fun _ s' => s'.Tidy rest) s := fun m =>
    wlp_mono (h.addEvent hc (fun hne => absurd hty hne) m) fun _ _ h' => h'.1
  simp only [flushed, wlp, wpe_bind, wpe_deref, hc, hd, found_iff]
  cases wrote with
  | none => exact wlp_bind (hbrowser _) fun _ _ h' => h'
  | some n =>
      simp only [wpe_ite, wpe_bind, wpe_modConn, hd, found_iff, wpe_pure]
      refine ⟨fun _ => ?_, fun _ => ⟨fun _ => ?_, fun _ => wlp_mono (hbrowser _) fun _ _ h' => h'⟩⟩
      · generalize hon :
          { d with status := .online, dec := { d.dec with offset := 0, stillneedtoread := buffSize } } = on
        have hon' : on.type = d.type ∧ on.sockFd = d.sockFd ∧ on.status = .online := hon ▸ ⟨rfl, rfl, rfl⟩
        obtain ⟨hoty, hosock, host⟩ := hon'
        have hset : (s.setConn t on).Tidy rest := by
          refine h.setConn hd hoty hosock fun hne => ?_
          have hcalm := h.tunnel hd (hoty ▸ hne)
          rw [← hon]
          exact ⟨hcalm.peer, fun _ => .whole rfl rfl, fun hup => absurd hup (by simp), hcalm.forward⟩
        have hadd := hset.addEvent (State.setConn_self s t on) (fun _ => by simp [host]) ⟨true, false, true⟩
        rw [hosock] at hadd
        exact wlp_mono hadd fun _ _ h' => h'.1
      · refine h.setConn hd rfl rfl fun hne => ?_
        have hcalm := h.tunnel hd hne
        exact ⟨hcalm.peer, fun hup => absurd hs hup, hcalm.hung, hcalm.forward⟩

theorem handleEPOEvent_tidy (h : s.Tidy rest) : wlp (handleEPOEvent fd) (fun _ s' => s'.Tidy rest) s := by
  simp only [handleEPOEvent, wlp, wpe_bind, wpe_get]
  rcases he : s.connMap fd with _ | _ | p
  · refine h.loses ⟨fun hc => ⟨_, hc, rfl⟩, fun {fd' q} hq => ?_, rfl, id⟩
    obtain ⟨-, ⟨⟩⟩ | ⟨-, hq⟩ := update_some_eq hq
    exact hq
  · exact h
  · simp only [wpe_bind, wpe_deref]
    refine ⟨fun _ => trivial, fun c hc => ?_⟩
    cases hpeer : c.peer with
    | none => exact h
    | some t =>
        simp only [wpe_bind, wpe_deref, wpe_ite, wpe_pure, flush, wpe_throw]
        refine ⟨fun _ => trivial, fun d hd => ⟨fun hst => ⟨fun _ => trivial, fun d₁ hd₁ => ⟨fun _ => h, fun _ =>
          ⟨fun _ => trivial, fun _ => ?_⟩⟩⟩, fun _ => h⟩⟩
        refine wlp_mono (sendRaw_still p (some t) _ s) fun wrote s₁ h₁ => ?_
        have hdesk : ∀ {q : Ptr} {e : Connect}, s.conns q = some e → ∃ e₁, s₁.conns q = some e₁ ∧ e₁.desk = e.desk := by
          intro q e hq
          have hmap := h₁.conns q
          rw [hq, Option.map_some] at hmap
          exact Option.map_eq_some_iff.mp hmap
        obtain ⟨c₁, hc₁, hdc⟩ := hdesk hc
        obtain ⟨e₁, he₁, hde⟩ := hdesk hd
        exact wlp_mono (flushed_tidy (h.same h₁) hc₁ ((type_of_desk hdc).trans hst.2) he₁
          ((status_of_desk hde).trans hst.1) wrote) fun _ _ h' => h'

end Events

/-! ### Codes -/

/-- The values `HandleRecvEvent` returns. -/
def RecvCode (code : ℤ) : Prop := code = 0 ∨ code = -1 ∨ code = -2

section Codes

variable {s : State} {p : Ptr} {fd : ℕ}

theorem onForward_code (n : ℕ) : Ensures (onForward p n) fun r _ => ∀ code ∈ r, RecvCode code := by
  have hhang : ∀ wrote, Ensures (hangUp p wrote n) fun r _ => ∀ code ∈ r, RecvCode code := fun wrote =>
    .bind fun _ => .bind fun _ => .bind fun _ => .ite (.pure fun _ => by simp [RecvCode])
      (.pure fun _ => by simp [RecvCode])
  refine .bind fun c => .bind fun _ => ?_
  cases c.peer with
  | none => exact .bind fun _ => .pure fun _ => by simp
  | some q =>
      refine .bind fun wrote => ?_
      cases wrote with
      | none => exact hhang 0
      | some wrote => exact .ite (hhang wrote) (.pure fun _ => by simp)

theorem handleProxyProtocol_code (n : ℕ) : Ensures (handleProxyProtocol p n) fun ret _ => RecvCode ret := by
  have hopen : Ensures (openTunnel p) fun ret _ => RecvCode ret := by
    refine .bind fun c => .ite (.pure fun _ => .inr (.inr rfl)) (.bind fun t => ?_)
    cases t with
    | none => exact .pure fun _ => .inr (.inl rfl)
    | some t => exact .bind fun _ => .bind fun _ => .pure fun _ => .inl rfl
  refine .bind fun c => ?_
  rcases findRequest (c.dec.buff.slice 0 buffSize) n with e | ⟨host, port⟩ | _ | host
  · exact .throw e
  · exact .bind fun _ => hopen
  · exact .bind fun _ => .pure fun _ => .inr (.inl rfl)
  · exact .bind fun _ => hopen

theorem onChunk_code (n : ℕ) : Ensures (onChunk p n) fun r _ => ∀ code ∈ r, RecvCode code := by
  have hnone : Ensures (pure none : SdkM (Option ℤ)) fun r _ => ∀ code ∈ r, RecvCode code := .pure fun _ => by simp
  have hpass : Ensures (passUp p n) fun r _ => ∀ code ∈ r, RecvCode code := by
    refine .bind fun c => ?_
    cases c.peer with
    | none => exact hnone
    | some t => exact .bind fun _ => .ite hnone (.ite (.bind fun _ => hnone) (.bind fun _ => hnone))
  refine .bind fun c => .bind fun _ => ?_
  cases c.peer with
  | some _ => exact hpass
  | none =>
      intro s
      refine wlp_bind (handleProxyProtocol_code _ s) fun ret s₁ hret => ?_
      have hcode : Ensures (pure (some ret) : SdkM (Option ℤ)) fun r _ => ∀ code ∈ r, RecvCode code :=
        .pure fun _ => by simpa using hret
      exact Ensures.ite (.bind fun _ => hcode) (.ite hcode hpass) s₁

theorem handleRecvEvent_code (fd : ℕ) (reads : List ReadRes) (s : State) :
    wlp (handleRecvEvent fd reads) (fun ret _ => RecvCode ret) s := by
  have hown : RecvCode 0 ∧ RecvCode (-1) ∧ RecvCode (-2) := ⟨.inl rfl, .inr (.inl rfl), .inr (.inr rfl)⟩
  simp only [handleRecvEvent, wlp, wpe_bind, wpe_get]
  rcases s.connMap fd with _ | _ | p
  · exact hown.2.1
  · exact hown.2.1
  · simp only [wpe_bind, wpe_deref, wpe_ite, wpe_modConn, proxyRecvEvent, streamRecvEvent, wpe_mapFault, wpe_pure]
    refine ⟨fun _ => trivial, fun c _ => ⟨fun _ => ?_, fun _ => ⟨fun _ => trivial, fun _ _ => ?_⟩⟩⟩
    · exact recvLoop_codes hown (fun _ _ => by simp [proxyEndpoint, wlp, wpe_pure]) onChunk_code reads s
    · exact recvLoop_codes hown (fun _ => .bind fun _ => .bind fun _ => .pure fun _ => by simp) onForward_code reads _

end Codes

end HttpsTunnel.Sdk

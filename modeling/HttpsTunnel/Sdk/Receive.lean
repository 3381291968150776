import HttpsTunnel.Sdk.Proxy
import HttpsTunnel.Lib.Reads

/-! # Receiving in the SDK

What the handlers of the SDK do to the decoders of its connections: only the message that makes a tunnel ready
changes the decoder it was called from, and only the forward branch leaves bytes behind in the buffer.  With this the
read loop decodes (`endpoint_lawful`). -/

namespace HttpsTunnel.Sdk

open HttpsTunnel.Lib HttpsTunnel.Wire

/-! ### What stays -/

/-- What the read loop and the writes depend on. -/
structure Desk where
  ident : ConnType × Option Ptr × ℕ
  status : SockStat
  verified : Bool
  cstate : Mode
  still : ℕ
  offset : ℕ

def Connect.desk (c : Connect) : Desk where
  ident := c.ident
  status := c.status
  verified := c.verified
  cstate := c.dec.cstate
  still := c.dec.stillneedtoread
  offset := c.dec.offset

/-- The connections as far as the read loop goes, their table, the registrations and the descriptors to come. -/
def State.desks (s : State) :
    (Ptr → Option Desk) × (ℕ → Option (Option Ptr)) × Ptr × (ℕ → Option Mask) × List DialRes :=
  (fun p => (s.conns p).map Connect.desk, s.connMap, s.nextConn, s.epoll, s.dials)

/-- From `s` to `s'` the connections stay as they are. -/
def SameDesks (s s' : State) : Prop := s'.desks = s.desks

namespace SameDesks

variable {s s' : State} {p : Ptr} {c c' : Connect}

instance : Std.Refl SameDesks := ⟨fun _ => rfl⟩

instance : IsTrans State SameDesks := ⟨fun _ _ _ h h' => h'.trans h⟩

theorem conns (h : SameDesks s s') (p : Ptr) : (s'.conns p).map Connect.desk = (s.conns p).map Connect.desk :=
  congrArg (fun t : (Ptr → Option Desk) × _ => t.1 p) h

theorem setConn (hc : s.conns p = some c) (hd : c'.desk = c.desk) : SameDesks s (s.setConn p c') := by
  refine Prod.ext (funext fun q => ?_) rfl
  by_cases hq : q = p
  · subst hq
    simp [State.desks, hc, hd]
  · simp [State.desks, State.setConn, hq]

/-- The connection behind a step is the one before it. -/
theorem conn (h : SameDesks s s') (hc : s'.conns p = some c') : ∃ c, s.conns p = some c ∧ c'.desk = c.desk := by
  have hp := h.conns p
  rw [hc, Option.map_some, eq_comm, Option.map_eq_some_iff] at hp
  obtain ⟨c, hc, hd⟩ := hp
  exact ⟨c, hc, hd.symm⟩

end SameDesks

theorem deref_still (p : Ptr) : Does SameDesks (deref p) :=
  fun s => wpe_deref.mpr ⟨fun _ => trivial, fun _ _ => refl_of SameDesks s⟩

theorem modConn_still {p : Ptr} {f : Connect → Connect} (h : ∀ c, (f c).desk = c.desk) : Does SameDesks (modConn p f) :=
  fun _ => wpe_modConn.mpr ⟨fun _ => trivial, fun c hc => .setConn hc (h c)⟩

theorem emit_still (o : Obs) : Does SameDesks (emit o) := fun _ => rfl

theorem count_still (s : State) (p : Ptr) (z : ℤ) : SameDesks s (s.count p z) := by
  cases hp : s.conns p with
  | none =>
      simp only [State.count, hp]
      rfl
  | some c =>
      simp only [State.count, hp]
      exact .setConn hp rfl

theorem sockWrite_still (bs : List UInt8) : Does SameDesks (sockWrite bs) := by
  intro s
  simp only [sockWrite, wlp, wpe_bind, wpe_get]
  rcases s.writes with _ | ⟨_ | _, _⟩ <;> rfl

theorem sendRaw_still (p : Ptr) (src : Option Ptr) (bs : List UInt8) : Does SameDesks (sendRaw p src bs) := by
  refine .seq (deref_still p) <| .bind (sockWrite_still bs) fun n => ?_
  cases n with
  | none => exact .pure _
  | some n => exact .ret (emit_still _)

theorem sendMsg_still (p : Ptr) (src : Option Ptr) (msg : List UInt8) : Does SameDesks (sendMsg p src msg) :=
  .seq (sendRaw_still p src msg) <| .modify fun _ => count_still _ _ _

theorem sendTmsMsg_still (p : Ptr) (msg : List UInt8) : Does SameDesks (sendTmsMsg p msg) := by
  rw [sendTmsMsg]
  split_ifs
  · exact .throw _
  · refine .seq (deref_still p) <| .bind (sockWrite_still _) fun n => ?_
    cases n with
    | none => exact .modify fun _ => count_still _ _ _
    | some n => exact .seq (emit_still _) <| .modify fun _ => count_still _ _ _

theorem ackUserFail_still (p : Ptr) (r : ReplyType) : Does SameDesks (ackUserFail p r) := by
  refine .bind (deref_still p) fun c => ?_
  cases c.peer with
  | none => exact emit_still _
  | some q =>
      exact .seq (deref_still q) <|
        .ite (.seq (sendRaw_still q none _) <| emit_still _) (emit_still _)

theorem loginFailed_still (p : Ptr) (rspCode : ℕ) : Does SameDesks (loginFailed p rspCode) := by
  rw [loginFailed]
  cases loginFailure rspCode with
  | none => exact .pure _
  | some t => exact .seq (modConn_still fun _ => rfl) <| ackUserFail_still p t

theorem answerPeer_still (p q : Ptr) (d : Connect) : Does SameDesks (answerPeer p q d) := by
  rw [answerPeer]
  cases d.httpVersion with
  | http => exact .ite (.throw _) (sendMsg_still p (some q) _)
  | https => exact sendMsg_still q none _

/-! ### Messages -/

section Loop

variable {p : Ptr} {s : State} {d : Decoder}

/-- The decoder of `p`, if it is there, is `d` or has been switched to forward mode. -/
def State.Keeps (p : Ptr) (d : Decoder) (s : State) : Prop :=
  ∀ c, s.conns p = some c → (endpoint p).Keeps d c.dec

/-- `p`, if it is there, forwards. -/
def State.Forwards (p : Ptr) (s : State) : Prop :=
  ∀ c, s.conns p = some c → c.dec.cstate = .forward ∧ c.dec.stillneedtoread = buffSize ∧ c.dec.offset = 0

theorem SameDesks.forwards {s' : State} (h : SameDesks s s') (hs : s.Forwards p) : s'.Forwards p := by
  intro c' hc'
  obtain ⟨c, hc, hd⟩ := h.conn hc'
  obtain ⟨hm, hl, ho⟩ := hs c hc
  exact ⟨(congrArg Desk.cstate hd).trans hm, (congrArg Desk.still hd).trans hl, (congrArg Desk.offset hd).trans ho⟩

theorem SameDesks.keeps {s' : State} (h : SameDesks s s') (hs : s.Keeps p d) : s'.Keeps p d := by
  intro c' hc'
  obtain ⟨c, hc, hd⟩ := h.conn hc'
  have hm : c'.dec.cstate = c.dec.cstate := congrArg Desk.cstate hd
  have hl : c'.dec.stillneedtoread = c.dec.stillneedtoread := congrArg Desk.still hd
  have ho : c'.dec.offset = c.dec.offset := congrArg Desk.offset hd
  simpa only [Endpoint.Keeps, hm, hl, ho] using hs c hc

theorem State.Forwards.keeps (h : s.Forwards p) (hd : d.offset = 0) : s.Keeps p d := by
  intro c hc
  obtain ⟨hm, hl, ho⟩ := h c hc
  exact ⟨ho.trans hd.symm, .inr ⟨hm, hl⟩⟩

theorem addEvent_conns (fd : ℕ) (m : Mask) : Does (fun s s' : State => s'.conns = s.conns) (addEvent fd m) := by
  intro s
  simp only [addEvent, wlp, wpe_ite, wpe_bind, wpe_get]
  refine ⟨fun _ => rfl, fun _ => ?_⟩
  cases s.epoll fd <;> rfl

/-- A change of `q` that leaves its mode alone and frees its buffer. -/
theorem State.Forwards.setConn {q : Ptr} {c c' : Connect} (hs : s.Forwards p) (hc : s.conns q = some c)
    (hm : c'.dec.cstate = c.dec.cstate) (hl : c'.dec.stillneedtoread = buffSize) (ho : c'.dec.offset = 0) :
    (s.setConn q c').Forwards p := by
  intro d hd
  obtain ⟨rfl, rfl⟩ | ⟨-, hd⟩ := update_some_eq hd
  · exact ⟨hm.trans (hs c hc).1, hl, ho⟩
  · exact hs d hd

/-- Telling the browser leaves its tunnel in forward mode, whoever the browser is. -/
theorem activatePeer_forwards (q : Ptr) (hs : s.Forwards p) :
    wlp (activatePeer p q) (fun _ s' => s'.Forwards p) s := by
  simp only [activatePeer, wlp, wpe_bind, wpe_deref]
  refine ⟨fun _ => trivial, fun d hd => wlp_mono (answerPeer_still p q d s) fun _ s₁ h₁ => ?_⟩
  refine wpe_modConn.mpr ⟨fun _ => trivial, fun d₁ hd₁ => ?_⟩
  refine wlp_mono (addEvent_conns _ _ _) fun _ s₂ h₂ c hc => ?_
  have hc₁ := (congrFun h₂ p).symm.trans hc
  refine State.Forwards.setConn (h₁.forwards hs) hd₁ ?_ ?_ ?_ c hc₁ <;> rfl

theorem loginReady_forwards (r : LoginRsp) : wlp (loginReady p r) (fun _ s' => s'.Forwards p) s := by
  have hswitch : ∀ (t : State) (c : Connect), (t.setConn p { c with
      dec := { c.dec with cstate := .forward, stillneedtoread := buffSize, offset := 0 }
      httpTransmitLen := toU64 (c.httpTransmitLen + trafficTcpHss t.accurate) }).Forwards p := by
    intro t c d hd
    cases Option.mem_unique (State.setConn_self _ _ _) hd
    exact ⟨rfl, rfl, rfl⟩
  simp only [loginReady, switchConnModeForw, wlp, wpe_bind, wpe_deref, wpe_ite, wpe_throw, wpe_modConn, wpe_get]
  refine ⟨fun _ => trivial, fun c hc => ⟨fun _ => trivial, fun _ => ⟨fun _ => trivial, fun c₁ hc₁ =>
    ⟨fun _ => trivial, fun c₂ hc₂ => ?_⟩⟩⟩⟩
  refine wlp_mono (sendTmsMsg_still p _ _) fun _ s₁ h₁ => ?_
  have hs₁ := h₁.forwards (hswitch _ c₂)
  cases c.peer with
  | none => exact hs₁
  | some q => exact activatePeer_forwards (s := { s₁ with avalTraffic := c.avalTraffic }) q hs₁

theorem switchConnModeForw_forwards : wlp (switchConnModeForw p) (fun _ s' => s'.Forwards p) s := by
  simp only [switchConnModeForw, wlp, wpe_bind, wpe_get, wpe_modConn]
  refine ⟨fun _ => trivial, fun c _ d hd => ?_⟩
  cases Option.mem_unique (State.setConn_self _ _ _) hd
  exact ⟨rfl, rfl, rfl⟩

theorem handleConnectHostRsp_keeps (hs : s.Keeps p d) (hd : d.offset = 0) (r : ConnectHostRsp) :
    wlp (handleConnectHostRsp p r) (fun _ s' => s'.Keeps p d) s := by
  simp only [handleConnectHostRsp, wlp, wpe_ite, wpe_bind, wpe_pure]
  refine ⟨fun _ => hs, fun _ => wlp_mono switchConnModeForw_forwards fun _ s₁ h₁ => ?_⟩
  refine wlp_mono (sendTmsMsg_still p _ s₁) fun _ s₂ h₂ => ?_
  exact (h₂.forwards h₁).keeps hd

theorem handleLoginRsp_keeps (hs : s.Keeps p d) (hd : d.offset = 0) (r : LoginRsp) :
    wlp (handleLoginRsp p r) (fun _ s' => s'.Keeps p d) s := by
  have hanswer : ∀ t : State, t.Keeps p d → wlp (loginAnswered p r) (fun _ s' => s'.Keeps p d) t := by
    intro t ht
    rw [loginAnswered]
    split_ifs
    · exact wlp_mono (loginReady_forwards r) fun _ s' h => h.keeps hd
    · exact wlp_mono (loginFailed_still p r.rspCode t) fun _ s' h => h.keeps ht
  rw [handleLoginRsp]
  split_ifs
  · have htraffic : Does SameDesks (modConn p fun c => { c with avalTraffic := toU64 r.avalableTraffic }) :=
      modConn_still fun _ => rfl
    exact wlp_bind (htraffic s) fun _ s₁ h₁ => hanswer s₁ (h₁.keeps hs)
  · exact hanswer s hs

theorem onMsg_keeps (hv : (endpoint p).view s = some d) (hd : d.AtStart hdrFormat) (n : ℕ) :
    wlp ((endpoint p).onMsg n) (fun _ s' => s'.Keeps p d) s := by
  obtain ⟨c, hc, rfl⟩ := Option.map_eq_some_iff.mp hv
  have hs : (s.emit (.msg p c.dec.buff c.dec.h)).Keeps p c.dec := by
    intro c' hc'
    obtain rfl : c = c' := Option.mem_unique hc hc'
    exact ⟨rfl, .inl ⟨rfl, rfl⟩⟩
  simp only [endpoint, handleRecvMsg, wlp, wpe_bind, wpe_deref, hc, found_iff, wpe_emit, wpe_ite, wpe_pure]
  refine ⟨fun _ => hs, fun _ => ?_⟩
  rcases MsgId.ofNat? (msgId c.dec.buff) with _ | m
  · exact hs
  · cases m with
    | loginRsp =>
        generalize LoginRsp.read c.dec.buff = r
        exact (wpe_bind _ _ _ _ _).mpr (handleLoginRsp_keeps hs hd.2.1 r)
    | connectHostRsp =>
        generalize ConnectHostRsp.read c.dec.buff = r
        exact handleConnectHostRsp_keeps hs hd.2.1 r
    | _ => exact hs

/-! ### Forwarding -/

/-- From `s` to `s'` the tunnel `p` is hung up: its descriptor is not registered any more. -/
structure HungUp (p : Ptr) (s s' : State) : Prop where
  self : ∃ c c' o, s.conns p = some c ∧ s'.conns p = some c' ∧
    c'.desk = { c.desk with status := .hangup, offset := o } ∧ (c.sockFd ≠ 0 → s'.epoll c.sockFd = none)
  others : ∀ q, q ≠ p → (s'.conns q).map Connect.desk = (s.conns q).map Connect.desk
  connMap : s'.connMap = s.connMap
  nextConn : s'.nextConn = s.nextConn
  epoll : ∀ fd, s'.epoll fd ≠ none → s.epoll fd ≠ none

theorem wlp_removeEvent (fd : ℕ) (s : State) : wlp (removeEvent fd) (fun _ s' => s'.conns = s.conns ∧
    s'.connMap = s.connMap ∧ s'.nextConn = s.nextConn ∧ (fd ≠ 0 → s'.epoll fd = none) ∧
      ∀ fd', s'.epoll fd' ≠ none → s.epoll fd' ≠ none) s := by
  simp only [removeEvent, wlp, wpe_ite, wpe_bind, wpe_get]
  refine ⟨fun h0 => ⟨rfl, rfl, rfl, fun h => absurd h0 h, fun _ => id⟩, fun _ => ?_⟩
  cases hm : s.epoll fd with
  | none => exact ⟨rfl, rfl, rfl, fun _ => hm, fun _ => id⟩
  | some m =>
      refine ⟨rfl, rfl, rfl, fun _ => Function.update_self _ _ _, fun fd' h => ?_⟩
      by_cases hfd : fd' = fd
      · exact absurd (hfd ▸ Function.update_self _ _ _) h
      · exact (Function.update_of_ne hfd none s.epoll) ▸ h

theorem wlp_hangUp (wrote length : ℕ) :
    wlp (hangUp p wrote length) (fun r s' => HungUp p s s' ∧ r ≠ none) s := by
  simp only [hangUp, wlp, wpe_bind, wpe_modConn, wpe_deref]
  refine ⟨fun _ => trivial, fun c hc => ⟨fun _ => trivial, fun c₁ hc₁ => ?_⟩⟩
  cases Option.mem_unique (State.setConn_self _ _ _) hc₁
  refine wlp_mono (wlp_removeEvent _ _) fun ret s' h => ?_
  obtain ⟨hconns, hmap, hnext, hnone, hmore⟩ := h
  have hhung : HungUp p s s' := by
    refine ⟨⟨c, _, wrote, hc, (congrFun hconns p).trans (State.setConn_self _ _ _), rfl, hnone⟩,
      fun q hq => ?_, hmap, hnext, hmore⟩
    rw [hconns, State.setConn_ne _ _ hq]
  simp only [wpe_ite, wpe_pure]
  exact ⟨fun _ => ⟨hhung, Option.some_ne_none _⟩, fun _ => ⟨hhung, Option.some_ne_none _⟩⟩

/-- The bytes go to the browser or to the application, or the tunnel is hung up. -/
theorem onForward_passesOn (n : ℕ) : wlp (onForward p n) (fun r s' => SameDesks s s' ∧ r = none ∨
    (∃ s₁, SameDesks s s₁ ∧ HungUp p s₁ s') ∧ r ≠ none) s := by
  have hhang : ∀ (t : State) (wrote : ℕ), SameDesks s t → wlp (hangUp p wrote n) (fun r s' =>
      SameDesks s s' ∧ r = none ∨ (∃ s₁, SameDesks s s₁ ∧ HungUp p s₁ s') ∧ r ≠ none) t := fun t wrote h =>
    wlp_mono (wlp_hangUp wrote n) fun r s' h' => .inr ⟨⟨t, h, h'.1⟩, h'.2⟩
  simp only [onForward, wlp, wpe_bind, wpe_deref, wpe_emit]
  refine ⟨fun _ => trivial, fun c _ => ?_⟩
  cases c.peer with
  | none => exact .inl ⟨rfl, rfl⟩
  | some q =>
      refine wlp_bind (sendRaw_still q (some p) _ _) fun r s₁ h₁ => ?_
      have hs₁ : SameDesks s s₁ := h₁
      cases r with
      | none => exact hhang s₁ 0 hs₁
      | some wrote =>
          dsimp only
          split_ifs
          · exact hhang s₁ wrote hs₁
          · exact .inl ⟨hs₁, rfl⟩

/-- **Decoding.**  The handlers of the SDK leave decoders alone, but for the switch to forward mode. -/
theorem endpoint_lawful (p : Ptr) : Lawful (endpoint p) where
  view_put {s d₀} d hv := by
    obtain ⟨c, hc, -⟩ := Option.map_eq_some_iff.mp hv
    simp [endpoint, hc, State.setConn]
  view_errno _ _ := rfl
  view_onRead n s := by
    cases hc : s.conns p with
    | none => simp [endpoint, State.count, hc]
    | some c => simp [endpoint, State.count, hc]
  onMsg {s d} hv hd n := by
    refine wlp_mono (onMsg_keeps hv hd n) fun _ s' h d' hd' => ?_
    obtain ⟨c', hc', rfl⟩ := Option.map_eq_some_iff.mp hd'
    exact h c' hc'
  onForward {s d} hv hd n := by
    obtain ⟨c, hc, rfl⟩ := Option.map_eq_some_iff.mp hv
    refine wlp_mono (onForward_passesOn n) fun r s' h d' hd' => ?_
    obtain ⟨c', hc', rfl⟩ := Option.map_eq_some_iff.mp hd'
    obtain ⟨h, -⟩ | ⟨⟨s₁, h₁, h⟩, hr⟩ := h
    · obtain ⟨c₀, hc₀, hdesk⟩ := h.conn hc'
      obtain rfl : c₀ = c := Option.mem_unique hc₀ hc
      refine ⟨(congrArg Desk.cstate hdesk).trans hd, fun _ hready _ => ?_⟩
      obtain ⟨ho, hl⟩ := hready hd
      exact ⟨(congrArg Desk.offset hdesk).trans ho, (congrArg Desk.still hdesk).trans hl⟩
    · obtain ⟨c₁, c₂, o, hc₁, hc₂, hdesk, -⟩ := h.self
      obtain rfl : c₂ = c' := Option.mem_unique hc₂ hc'
      obtain ⟨c₀, hc₀, hdesk₁⟩ := h₁.conn hc₁
      obtain rfl : c₀ = c := Option.mem_unique hc₀ hc
      have hmode : c₂.dec.cstate = c₁.dec.cstate := congrArg Desk.cstate hdesk
      exact ⟨hmode.trans ((congrArg Desk.cstate hdesk₁).trans hd), fun hnone => absurd hnone hr⟩

end Loop

end HttpsTunnel.Sdk

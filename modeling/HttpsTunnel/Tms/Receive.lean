import HttpsTunnel.Lib.Session
import HttpsTunnel.Tms.Simulate

/-! # The read loop of the tunnel server as steps of the net

`StreamRecvEvent` runs the handlers of `Simulate.lean` in the loop of `Lib/Framing.lean`; the
invariant rule of the loop lifts what one handler does to a whole call
(`streamRecvEvent_ends`). -/

namespace HttpsTunnel.Tms

open HttpsTunnel.Lib HttpsTunnel.Wire Relation

variable {s : Server} {p : Ptr} {c : Connect} {d : Decoder}

/-- `t` is the tunnel of the stream that is cut off while `p`, with fields `n`, is read. -/
def Net.CutsAt (w : Net) (p : Ptr) (n : Node) (t : Ptr) : Prop :=
  t = p ∨ n.type = .agent ∧ ∃ k, Net.streamOf n = some k ∧ (w.blocks k).tunnel = some t

/-- While `p` is read the view moves along steps of the net.  If the loop is to stop, the last
thing may be the entry that the stream was cut off. -/
def Ends (s : Server) (p : Ptr) (stop : Prop) (s' : Server) : Prop :=
  s.net.Wf → ∃ w n, ReflTransGen Net.Act s.net w ∧ w.conns p = some n ∧
    (s'.net = w ∨ stop ∧ ∃ t, w.CutsAt p n t ∧ s'.net = w.emit (.cutoff p t (some s'.errno)))

theorem Moves.ends {s s' : Server} {n : Node} (h : Moves s s') (stop : Prop)
    (hp : s'.net.conns p = some n) : Ends s p stop s' :=
  fun hw => ⟨s'.net, n, h hw, hp, .inl rfl⟩

theorem Ends.head {s s₁ s' : Server} {stop : Prop} (h : Moves s s₁) (h' : Ends s₁ p stop s') :
    Ends s p stop s' := by
  intro hw
  obtain ⟨w, n, hacts, hp, hend⟩ := h' (Net.acts_wf (h hw) hw)
  exact ⟨w, n, (h hw).trans hacts, hp, hend⟩

theorem Ends.mono {s s' : Server} {stop stop' : Prop} (h : Ends s p stop s')
    (hs : stop → stop') : Ends s p stop' s' := by
  intro hw
  obtain ⟨w, n, hacts, hp, hend⟩ := h hw
  exact ⟨w, n, hacts, hp, hend.imp_right fun hcut => ⟨hs hcut.1, hcut.2⟩⟩

theorem Ends.moves {s s' : Server} {stop : Prop} (h : Ends s p stop s') (hs : ¬ stop) :
    Moves s s' := by
  intro hw
  obtain ⟨w, n, hacts, -, h | ⟨hstop, -⟩⟩ := h hw
  · exact h ▸ hacts
  · exact absurd hstop hs

theorem Ends.cut {s s' : Server} {stop : Prop} {n : Node} {t : Ptr} (h : Moves s s') (hs : stop)
    (hp : s'.net.conns p = some n) (ht : s'.net.CutsAt p n t) :
    Ends s p stop (s'.emit (.cutoff p t (some s'.errno))) :=
  fun hw => ⟨s'.net, n, h hw, hp, .inr ⟨hs, t, ht, net_emit _ rfl⟩⟩

/-! ### Messages -/

theorem chargeMsg_ends (s : Server) (p : Ptr) (length : ℕ) :
    wlp (chargeMsg p length) (fun r s' => Ends s p (r = some (-1)) s') s := by
  rw [chargeMsg, wlp, wpe_bind, wpe_deref]
  refine ⟨fun _ => trivial, fun c hc => ?_⟩
  -- whatever leaves the view alone ends well
  have hsame : ∀ {s'} (stop : Prop), Same s s' → Ends s p stop s' := fun stop h =>
    (Same.moves h).ends stop (h ▸ net_conns_of hc)
  refine wlp_bind (charge_does (R := Same) _ s) ?_
  intro est s₁ h₁
  split
  · refine wlp_bind (recordTraffic_does (R := Same) _ c.scb est s₁) ?_
    intro ret s₂ h₂
    have h₂ : Same s s₂ := trans_of Same h₁ h₂
    rw [wpe_ite]
    refine ⟨fun _ => ?_, fun _ => hsame _ h₂⟩
    rw [wpe_bind, wpe_ite]
    refine ⟨fun _ => ?_, fun _ => hsame _ h₂⟩
    exact .cut (Same.moves h₂) rfl (h₂ ▸ net_conns_of hc) (.inl rfl)
  · have htmp : Does Same (if c.type = .tunnel then
        modConn p (fun c => { c with trafficTmp := (c.trafficTmp + est) % 2 ^ 64 })
      else pure () : TmsM Unit) := .ite (modConn_same fun _ => rfl) (.pure _)
    exact wlp_bind (htmp s₁) fun _ s₂ h₂ => hsame _ (trans_of Same h₁ h₂)

theorem onMsg_ends (length : ℕ) (hc : s.conns p = some c) (hm : c.dec.cstate = .header) :
    wlp (onMsg p length) (fun r s' => Ends s p (r = some (-1)) s') s := by
  rw [onMsg, wlp, wpe_bind, wpe_deref]
  refine ⟨fun _ => trivial, fun c' hc' => ?_⟩
  refine wlp_bind (handleRecvMsg_moves _ hc hm) ?_
  intro _ s₁ h₁
  exact wlp_mono (chargeMsg_ends s₁ p length) fun _ _ h => Ends.head h₁ h

/-! ### Forwarded bytes -/

theorem sendRelay_spec (s : Server) (dir : Dir) (t a : Ptr) (fd : ℕ) (bs : List UInt8) :
    wlp (sendRelay dir t a fd bs) (fun r s' => match r with
      | none => s'.net = s.net
      | some n => s'.net = s.net.emit (.relay dir t a (bs.take n)) ∧ fd ∉ s.net.shut) s := by
  rw [sendRelay]
  refine wlp_bind (sockSend_spec fd bs s) ?_
  rintro r s₁ ⟨h₁, -, hfd⟩
  cases r with
  | none => exact h₁
  | some n =>
      refine ⟨?_, (hfd n rfl).2.2⟩
      rw [net_emit _ rfl, h₁]

theorem hangUp_spec (wrote length : ℕ) {n : Node} (hn : s.net.conns p = some n) :
    wlp (hangUp p wrote length) (fun _ s' =>
      s'.net = s.net.setConn p { n with connecting := false, offset := wrote }) s := by
  rw [hangUp, wlp, wpe_bind, wpe_modConn]
  refine ⟨fun _ => trivial, fun c hc => ?_⟩
  have hlater : Does Same (do
      let c ← deref p
      if (← removeEvent c.sockFd) ≠ 0 then pure (some (-1)) else pure (some (-2)) :
      TmsM (Option ℤ)) :=
    .seq (deref_does p) <| .seq (removeEvent_does _) <| .ite (.pure _) (.pure _)
  refine wlp_mono (hlater _) ?_
  intro _ s₁ h₁
  rw [h₁, net_setConn, ← Option.mem_unique (net_conns_of hc) hn]
  rfl

/-- `RecordTraffic` fails exactly if the charge cuts the stream off. -/
theorem recordTraffic_spec (s : Server) (u : UserId) (k : ScbPtr) (n : ℕ) :
    wlp (recordTraffic u (some k) n) (fun r s' => s'.net = s.net ∧ ∃ v, s.userMap u = some v ∧
      (r = 0 ↔ cutsOff (s.scbs k).status v.balance n = false)) s := by
  refine wlp_mono (wlp_and (recordTraffic_does (R := Same) u (some k) n s) ?_) fun _ _ h => h
  simp only [recordTraffic, wpe_bind, wpe_derefUser, wpe_getScb, wpe_modScb, wpe_modUser, wpe_ite]
  refine ⟨fun _ => trivial, fun v hv => ⟨fun _ => trivial, fun _ _ => ?_⟩⟩
  exact ⟨fun h => ⟨v, hv, by simp [h]⟩, fun h => ⟨v, hv, by simp [h]⟩⟩

/-- The entry `emitFwd` makes. -/
def Server.fwdObs (s : Server) (p : Ptr) (c : Connect) (length : ℕ) : Obs :=
  .fwd p c (c.sockFd ∈ s.shutFds) (s.tunnelOf c) (s.chargeOf c length) (c.dec.buff.slice 0 length)

theorem tunnelOf_node (s : Server) (c : Connect) :
    (s.tunnelOf c).map Connect.node = s.net.tunnelOf c.node := by
  cases hk : c.scb with
  | none => simp [Server.tunnelOf, Net.tunnelOf, Connect.node, hk]
  | some k =>
      cases ht : (s.scbs k).tunnelConn <;>
        simp [Server.tunnelOf, Net.tunnelOf, Connect.node, hk, Server.net, SCB.block, ht]

/-- Bytes from the client. -/
theorem forwardUp_ends {k : ScbPtr} {a : Ptr} (length : ℕ) (hc : s.conns p = some c)
    (hm : c.dec.cstate = .forward) (hty : c.type = .tunnel) (hk : c.scb = some k)
    (ha : (s.scbs k).agentConn = some a) :
    wlp (forwardUp p c k a length) (fun r s' => Ends s p (r = some (-1)) s')
      (s.emit (s.fwdObs p c length)) := by
  have hn := net_conns_of hc
  have hfwd : Net.Act s.net (s.net.emit (s.fwdObs p c length)) :=
    .forwarded _ _ _ hn hm (tunnelOf_node s c)
  rw [forwardUp, wlp, wpe_bind, wpe_nonNull]
  refine ⟨fun _ => trivial, fun u hu => ?_⟩
  rw [wpe_bind, wpe_charge]
  refine wlp_bind (recordTraffic_spec _ u k _) ?_
  rintro r s₁ ⟨h₁, v, hv, hr⟩
  rw [net_emit _ rfl] at h₁
  have hcut : cuts (s.chargeOf c length) =
      cutsOff (s.scbs k).status v.balance (trafficEst s.accurate length) := by
    have hv : s.userMap u = some v := hv
    simp [cuts, Server.chargeOf, hk, hu, hv]
  have hn₁ : s₁.net.conns p = some c.node := by
    rw [h₁]
    exact hn
  rw [wpe_ite]
  refine ⟨fun _ => ?_, fun h0 => ?_⟩
  · exact .cut (.of_act fun _ => h₁ ▸ hfwd) rfl hn₁ (.inl rfl)
  · have hfalse : cuts (s.chargeOf c length) = false := hcut.trans (hr.mp (not_not.mp h0))
    rw [wpe_bind, wpe_deref]
    refine ⟨fun _ => trivial, fun ag _ => ?_⟩
    refine wlp_bind (sendRelay_spec s₁ _ _ _ _ _) ?_
    intro w s₂ h₂
    cases w with
    | none => exact (Moves.of_act fun _ => (h₂.trans h₁) ▸ hfwd).ends _ (h₂ ▸ hn₁)
    | some wrote =>
        have hn₂ : s₂.net.conns p = some c.node := by
          rw [h₂.1]
          exact hn₁
        refine (Moves.of_act fun _ => ?_).ends _ hn₂
        rw [h₂.1, h₁]
        exact .upload _ _ _ hfalse hn hm (tunnelOf_node s c) hty hk ha

/-- Bytes from the web server. -/
theorem forwardDown_ends {k : ScbPtr} {t : Ptr} (length : ℕ) (hc : s.conns p = some c)
    (hm : c.dec.cstate = .forward) (hty : c.type = .agent) (hk : c.scb = some k)
    (ht : (s.scbs k).tunnelConn = some t) :
    wlp (forwardDown p c k t length) (fun r s' => Ends s p (r = some (-1)) s')
      (s.emit (s.fwdObs p c length)) := by
  have hn := net_conns_of hc
  have hfwd : Net.Act s.net (s.net.emit (s.fwdObs p c length)) :=
    .forwarded _ _ _ hn hm (tunnelOf_node s c)
  -- the rest is kept back, after a step that leaves `p` alone
  have hhang : ∀ {s₁ : Server} (wrote : ℕ), Moves s s₁ → s₁.net.conns p = some c.node →
      wlp (hangUp p wrote length) (fun r s' => Ends s p (r = some (-1)) s') s₁ := by
    intro s₁ wrote h₁ hn₁
    refine wlp_mono (hangUp_spec wrote length hn₁) ?_
    intro _ s₂ h₂
    have hn₂ : s₂.net.conns p = some { c.node with connecting := false, offset := wrote } := by
      rw [h₂]
      exact Function.update_self ..
    exact Ends.head h₁ ((Moves.of_act fun _ => h₂ ▸ .hangUp wrote hn₁ hty hm).ends _ hn₂)
  rw [forwardDown, wlp, wpe_bind, wpe_deref]
  refine ⟨fun _ => trivial, fun tn htn => ?_⟩
  refine wlp_bind (sendRelay_spec _ _ _ _ _ _) ?_
  intro w s₁ h₁
  cases w with
  | none =>
      rw [net_emit _ rfl] at h₁
      have hn₁ : s₁.net.conns p = some c.node := by
        rw [h₁]
        exact hn
      exact hhang 0 (.of_act fun _ => h₁ ▸ hfwd) hn₁
  | some wrote =>
      obtain ⟨h₁, hshut⟩ := h₁
      rw [net_emit _ rfl] at h₁ hshut
      have htun : s.tunnelOf c = some tn := by
        have htn : s.conns t = some tn := htn
        simp [Server.tunnelOf, hk, ht, htn]
      have hstep : Moves s s₁ := by
        refine .of_act fun _ => ?_
        rw [h₁, Server.fwdObs, htun]
        exact .download _ _ _ hn hm hty hk ht (net_conns_of htn) hshut
      have hn₁ : s₁.net.conns p = some c.node := by
        rw [h₁]
        exact hn
      rw [wpe_bind, wpe_nonNull]
      refine ⟨fun _ => trivial, fun u hu => ?_⟩
      rw [wpe_bind, wpe_charge]
      refine wlp_bind (recordTraffic_does (R := Same) u (some k) _ s₁) ?_
      intro r s₂ h₂
      have h₂ : s₂.net = s₁.net := h₂
      have hstep₂ : Moves s s₂ := trans_of Moves hstep (Same.moves h₂)
      rw [wpe_ite]
      refine ⟨fun _ => ?_, fun _ => ?_⟩
      · refine .cut hstep₂ rfl (h₂ ▸ hn₁) (.inr ⟨hty, k, ?_, ?_⟩)
        · simp [Net.streamOf, Connect.node, hty, hu, hk]
        · rw [h₂, h₁]
          exact ht
      · rw [wpe_ite]
        exact ⟨fun _ => hhang wrote hstep₂ (h₂ ▸ hn₁), fun _ => hstep₂.ends _ (h₂ ▸ hn₁)⟩

theorem onForward_ends (length : ℕ) (hc : s.conns p = some c) (hm : c.dec.cstate = .forward) :
    wlp (onForward p length) (fun r s' => Ends s p (r = some (-1)) s') s := by
  have hn := net_conns_of hc
  have hfwd : ∀ stop, Ends s p stop (s.emit (s.fwdObs p c length)) := by
    refine fun stop => (Moves.of_act fun _ => ?_).ends stop hn
    rw [net_emit _ rfl]
    exact .forwarded _ _ _ hn hm (tunnelOf_node s c)
  rw [onForward, wlp, wpe_bind, wpe_deref, found hc]
  rw [wpe_bind, emitFwd, wpe_bind, wpe_get, wpe_emit]
  cases hk : c.scb with
  | none => exact hfwd _
  | some k =>
      rw [wpe_bind, wpe_getScb]
      split
      · next t a ht ha =>
          cases hty : c.type with
          | agent => exact forwardDown_ends length hc hm hty hk ht
          | tunnel => exact forwardUp_ends length hc hm hty hk ha
          | _ => exact hfwd _
      · rw [wpe_bind, wpe_nonNull]
        exact ⟨fun _ => trivial, fun _ _ => hfwd _⟩

/-! ### The loop -/

theorem endpoint_view (h : (endpoint p).view s = some d) : ∃ c, s.conns p = some c ∧ c.dec = d :=
  Option.map_eq_some_iff.mp h

/-- A read advances the decoder of the connection. -/
theorem put_moves {n : ℕ} (chunk : List UInt8) (hc : s.conns p = some c) :
    Moves s ((endpoint p).put (c.dec.recv hdrFormat chunk).1 ((endpoint p).onRead n s)) := by
  refine .of_act fun _ => ?_
  simp only [endpoint, hc]
  rw [net_setConn]
  exact .read _ _ _ (net_conns_of hc) (Decoder.recv_cstate_forward _ _ _)

/-- What a handler does carries the invariant of the loop on. -/
theorem handled_of_ends {s₁ s' : Server} {calls : List Upcall} {got : List UInt8}
    {rs : List ReadRes} {r : Option ℤ} (h₁ : Moves s s₁) (h : Ends s₁ p (r = some (-1)) s') :
    Handled (fun _ _ _ s' => Moves s s') (fun r s' => Ends s p (r.code = -1) s') calls got rs r s' := by
  cases r with
  | some code => exact (Ends.head h₁ h).mono fun hc => Option.some.inj hc
  | none => exact trans_of Moves h₁ (h.moves (by simp))

theorem endpoint_loopInv (s : Server) (p : Ptr) :
    LoopInv (endpoint p) (fun _ _ _ s' => Moves s s') (fun r s' => Ends s p (r.code = -1) s')
      (fun _ => True) where
  freed _ _ := trivial
  overflow _ _ _ := trivial
  fails {_ _ _ s₁ _} h hv _ e := by
    obtain ⟨c, hc, -⟩ := endpoint_view hv
    have herr : Same s₁ ((endpoint p).errno e s₁) := rfl
    exact (trans_of Moves h (Same.moves herr)).ends _ (net_conns_of hc)
  empty h hv _ := by
    obtain ⟨c, hc, -⟩ := endpoint_view hv
    exact h.ends _ (net_conns_of hc)
  eof h hv := by
    obtain ⟨c, hc, -⟩ := endpoint_view hv
    exact h.ends _ (net_conns_of hc)
  read {calls got bs rs s₁ d} h hv _ _ _ := by
    obtain ⟨c, hc, rfl⟩ := endpoint_view hv
    generalize bs.take c.dec.stillneedtoread = chunk
    have hput : Moves s ((endpoint p).put (c.dec.recv hdrFormat chunk).1
        ((endpoint p).onRead chunk.length s₁)) := trans_of Moves h (put_moves chunk hc)
    have hc' : ((endpoint p).put (c.dec.recv hdrFormat chunk).1
        ((endpoint p).onRead chunk.length s₁)).conns p =
          some { c with dec := (c.dec.recv hdrFormat chunk).1 } := by
      simp [endpoint, hc, Server.setConn]
    simp only [Received]
    cases ho : (c.dec.recv (endpoint p).fmt chunk).2 with
    | short | reject => exact hput.ends _ (net_conns_of hc')
    | header | ignored => exact hput
    | message =>
        exact wlp_mono (onMsg_ends chunk.length hc' (Decoder.recv_message _ _ _ ho))
          fun r s' hr => handled_of_ends hput hr
    | forward =>
        exact wlp_mono (onForward_ends chunk.length hc' (Decoder.recv_forward_mode _ _ _ ho))
          fun r s' hr => handled_of_ends hput hr

/-- **A call of the read loop is a sequence of steps of the net**, but for a last entry that the
stream was cut off. -/
theorem streamRecvEvent_ends (s : Server) (p : Ptr) (reads : List ReadRes) :
    wlp (streamRecvEvent p reads) (fun code s' => Ends s p (code = -1) s') s := by
  rw [streamRecvEvent, wlp, wpe_bind, wpe_mapFault]
  exact recvLoop_rule (endpoint_loopInv s p) (refl_of Moves s)

end HttpsTunnel.Tms

import HttpsTunnel.Tms.Refine

/-! # The handlers of the tunnel server as steps of the net

What `HandleRecvMsg` does for each message, the name server's answers, and the two branches of
the read loop, as sequences of `Act` steps.  A handler called while a connection is read may
end the loop because the stream was cut off; what `main` does then depends on it, so the
entry of the log is kept apart (`Ends`). -/

namespace HttpsTunnel.Tms

open HttpsTunnel.Lib HttpsTunnel.Wire Relation

variable {s : Server} {p : Ptr} {c : Connect}

/-- To show that a program moves the view, assume the view well formed. -/
theorem Moves.intro {α : Type} {x : TmsM α} {s₁ : Server}
    (h : s.net.Wf → wlp x (fun _ s' => Moves s s') s₁) : wlp x (fun _ s' => Moves s s') s₁ :=
  wlp_of_imp fun hw => wlp_mono (h hw) fun _ _ hm => hm hw

/-- A step, and then a program that moves the view. -/
theorem Moves.head {α : Type} {x : TmsM α} {s₁ : Server} (h : Moves s s₁)
    (hx : wlp x (fun _ s' => Moves s₁ s') s₁) : wlp x (fun _ s' => Moves s s') s₁ :=
  wlp_mono hx fun _ _ h' => trans_of Moves h h'

/-! ### Agents and names -/

/-- On a deleted tunnel the program stops. -/
theorem connectWebServer_dead {t : Ptr} (u : UserId) (ip port : ℕ) (ht : t < s.net.next)
    (hc : s.conns t = none) : wlp (connectWebServer u t ip port) (fun _ _ => False) s := by
  rw [connectWebServer]
  refine wlp_bind (createAgentConn_spec s) ?_
  rintro r s₁ ⟨-, h₁⟩
  cases r with
  | none =>
      have hc₁ : s₁.conns t = none := by
        have h : s₁.net.conns t = none := by rw [h₁]; simp [Server.net, hc]
        simpa [Server.net] using h
      simp [sendTmsMsg, hc₁]
  | some a =>
      obtain ⟨fd, ca, -, rfl, -, -, hconns⟩ := h₁
      have hc₁ : s₁.conns t = none := by rw [hconns, Function.update_of_ne ht.ne, hc]
      simp [hc₁]

theorem connectWebServer_moves {t : Ptr} (u : UserId) (ip port : ℕ) (ht : t < s.net.next)
    (hm : ∀ n, s.net.conns t = some n → n.scb = none → n.cstate = .header ∧ n.user = some u) :
    wlp (connectWebServer u t ip port) (fun _ s' => Moves s s') s := by
  cases hc : s.conns t with
  | none => exact wlp_mono (connectWebServer_dead u ip port ht hc) fun _ _ h => h.elim
  | some c =>
      refine wlp_mono (connectWebServer_spec u ip port hc ht.ne') ?_
      rintro _ s' (h | ⟨fd, hfd, h⟩)
      · exact Same.moves h
      · refine .of_act fun _ => ?_
        rw [h]
        refine .connect u fd ip port _ (net_conns_of hc) ?_ (hm _ (net_conns_of hc)) hfd
        rw [Option.map_map]
        rfl

theorem createSCB_linked {u : UserId} {k : ScbPtr} (hc : s.conns p = some c) (hk : c.scb = some k) :
    wlp (createSCB u p none) (fun k' s' => k' = k ∧ s' = s) s := by
  rw [createSCB, wlp, wpe_bind, wpe_deref, found (by exact hc)]
  simp only [hk, wpe_pure, and_self]

theorem addWaitLists_spec (s : Server) (host : Host) (k : ScbPtr) :
    wlp (addWaitLists host k) (fun _ s' => ∃ v, (s.scbs k).user = some v ∧
      s' = { s with waitingScb := s.waitingScb ++ [⟨host, v, (s.scbs k).scbid⟩] }) s := by
  simp only [addWaitLists, wpe_bind, wpe_getScb, wpe_nonNull, wpe_modify]
  exact ⟨fun _ => trivial, fun v hv => ⟨v, hv, rfl⟩⟩

/-- The stream of a tunnel is opened, if there is none, and waits for the name. -/
theorem awaitHost_moves {u : UserId} {port : ℕ} (host : Host) (hc : s.conns p = some c)
    (hm : c.dec.cstate = .header) (hu : c.user = some u) (hport : c.destPort = port) :
    wlp (awaitHost p u host port) (fun _ s' => Moves s s') s := by
  subst hport
  rw [awaitHost, wlp, wpe_bind, wpe_deref, found hc]
  rw [wpe_bind, wpe_get, wpe_bind]
  cases hk : c.scb with
  | some k =>
      refine wlp_mono (createSCB_linked hc hk) ?_
      rintro _ s₁ ⟨rfl, rfl⟩
      refine wlp_bind (addWaitLists_spec s₁ _ _) ?_
      rintro - _ ⟨v, hv, rfl⟩
      rw [wpe_bind, wpe_getScb, wpe_emit]
      refine .of_act fun _ => ?_
      rw [net_emit _ rfl]
      exact .askAgain host u (s₁.scbs _) (net_conns_of hc) hk rfl hv hu
  | none =>
      refine wlp_mono (createSCB_tunnel u hc hk) ?_
      rintro _ s₁ ⟨rfl, h₁⟩
      refine wlp_bind (addWaitLists_spec s₁ _ _) ?_
      rintro - _ ⟨v, hv, rfl⟩
      rw [wpe_bind, wpe_getScb, wpe_emit]
      refine .of_act fun _ => ?_
      -- the stream that waits is the new one
      have hblock : s₁.net.blocks s.net.newKey = (s.net.openStream u p c.node none).blocks s.net.newKey := by
        rw [h₁]
      rw [Net.openStream_blocks, if_pos rfl] at hblock
      have hid : (s₁.scbs s.net.newKey).scbid = s.net.lastId + 1 :=
        (congrArg Block.scbid hblock).trans (Net.newBlock_scbid s.net)
      have hv : v = u := Option.mem_unique hv (congrArg Block.user hblock)
      rw [net_emit _ rfl, hid, hv]
      have hask := Net.Act.ask host u (net_conns_of hc) hk hm hu
      rw [← h₁] at hask
      exact hask

theorem resolveHost_moves {u : UserId} {port : ℕ} (host : Host) (hc : s.conns p = some c)
    (hm : c.dec.cstate = .header) (hu : c.user = some u) (hport : c.destPort = port) :
    wlp (resolveHost p u host port) (fun _ s' => Moves s s') s := by
  have hsend : Does Moves (do
      let d ← getDnsConn
      sendMsg d (reqFill s.random host) : TmsM Unit) :=
    Does.moves (.bind getDnsConn_does fun d => sendMsg_does d _)
  rw [resolveHost, wlp, wpe_bind, wpe_get, wpe_ite]
  refine ⟨fun _ => trivial, fun _ => ?_⟩
  refine wlp_bind (awaitHost_moves host hc hm hu hport) ?_
  intro _ s₁ h₁
  exact Moves.head h₁ (hsend s₁)

theorem openStream_moves {u : UserId} {port : ℕ} (host : Host) (hc : s.conns p = some c)
    (hm : c.dec.cstate = .header) (hu : c.user = some u) (hport : c.destPort = port) :
    wlp (openStream p u host port) (fun _ s' => Moves s s') s := by
  have hconnect : ∀ ip, wlp (do return (← connectWebServer u p ip port).isSome : TmsM Bool)
      (fun _ s' => Moves s s') s := by
    intro ip
    refine Moves.intro fun hw => ?_
    rw [wlp]
    refine wlp_bind (connectWebServer_moves u ip port (hw.fresh (net_conns_of hc)) ?_) fun _ _ h => h
    rintro n' hn' -
    exact Option.mem_unique hn' (net_conns_of hc) ▸ ⟨hm, hu⟩
  rw [openStream, wlp, wpe_ite]
  refine ⟨fun _ => hconnect _, fun _ => ?_⟩
  rw [wpe_bind, wpe_get]
  cases s.cache host with
  | some ip => exact hconnect ip
  | none =>
      exact wlp_bind (resolveHost_moves host hc hm hu hport) fun _ _ h => h

theorem informConnect_moves (u : UserId) (k : ScbPtr) (ip : ℕ) :
    Does Moves (informConnect u k ip) := by
  refine fun s => Moves.intro fun hw => ?_
  rw [informConnect, wlp, wpe_bind, wpe_getScb]
  cases ht : (s.scbs k).tunnelConn with
  | none => exact refl_of Moves s
  | some t =>
      have htn : (s.net.blocks k).tunnel = some t := ht
      refine wlp_bind (connectWebServer_moves u ip _ (hw.tunnelOld htn) ?_) ?_
      · intro n hn hs
        cases hs.symm.trans (hw.tunnel htn hn).2
      · intro r s₁ h₁
        cases r with
        | some _ => exact h₁
        | none => exact Moves.head h₁ (Does.moves (sendDnsFail_does k) s₁)

theorem informWaiter_moves (ip : ℕ) (w : Waiter) : Does Moves (informWaiter ip w) :=
  .get_bind fun _ => by
    split
    · exact .pure _
    · split
      · exact .pure _
      · exact .ite (informConnect_moves _ _ _) (Does.moves (sendDnsFail_does _))

theorem informWaiters_moves (ip : ℕ) (ws : List Waiter) : Does Moves (informWaiters ip ws) := by
  induction ws with
  | nil => exact .pure _
  | cons w ws ih => exact .seq (informWaiter_moves ip w) <| ih

theorem informClients_moves (host : Host) (ip : ℕ) : Does Moves (informClients host ip) := by
  have herase : Does Moves (do
      modify fun s => { s with waitingScb := s.waitingScb.filter (·.host ≠ host) }
      emit (.answer host) : TmsM Unit) := by
    refine fun s => .of_act fun _ => ?_
    rw [net_emit _ rfl]
    exact .woken host
  exact .get_bind fun _ => .seq (informWaiters_moves ip _) <| herase

theorem informAll_moves (reps : List Rep) : Does Moves (informAll reps) := by
  induction reps with
  | nil => exact .pure _
  | cons r rs ih => exact .seq (informClients_moves r.host r.ip) <| ih

theorem lift_same {α : Type} (e : Except Fault α) : Does Same (monadLift e : TmsM α) := by
  intro s
  cases e with
  | error f => exact trivial
  | ok a => exact refl_of Same s

theorem dnsReply_moves (p : Ptr) (bs : List UInt8) : Does Moves (dnsReply p bs) :=
  .seq (Does.moves (modConn_same fun _ => rfl)) <| .seq (Does.moves (deref_does p)) <|
    .bind (Does.moves (lift_same _)) fun reps => .seq (.modify fun _ => Same.moves rfl) <|
    informAll_moves reps

/-- An answer of the name server is handled by steps of the net. -/
theorem dnsRecvEvent_moves (p : Ptr) (rs : List ReadRes) (s : Server) :
    wlp (dnsRecvEvent p rs) (fun _ s' => Moves s s' ∧ s'.conns p ≠ none) s := by
  induction rs generalizing s with
  | nil =>
      simp only [dnsRecvEvent, setErrno, wpe_bind, wpe_deref, wpe_modify, wpe_pure]
      exact ⟨fun _ => trivial, fun c hc => ⟨Same.moves rfl, by simp [hc]⟩⟩
  | cons r rs ih =>
      cases r with
      | fail e =>
          simp only [dnsRecvEvent, setErrno, wpe_bind, wpe_deref, wpe_modify, wpe_pure]
          exact ⟨fun _ => trivial, fun c hc => ⟨Same.moves rfl, by simp [hc]⟩⟩
      | data bs =>
          rw [dnsRecvEvent, wlp, wpe_bind, wpe_deref]
          refine ⟨fun _ => trivial, fun c hc => ?_⟩
          rw [wpe_ite]
          refine ⟨fun _ => ⟨refl_of Moves s, by simp [hc]⟩, fun _ => ?_⟩
          refine wlp_bind (dnsReply_moves p _ s) ?_
          intro _ s₁ h₁
          exact wlp_mono (ih s₁) fun _ _ h => ⟨trans_of Moves h₁ h.1, h.2⟩

/-! ### Messages -/

theorem requestToken_spec {n : Node} (r : LoginReq) (hn : s.net.conns p = some n) :
    wlp (requestToken p r) (fun _ s' =>
      s'.net = s.net.emit (.tokenReq p ⟨n.fd, r.app, r.mobile, r.token⟩)) s := by
  rw [requestToken, wlp, wpe_bind, wpe_deref]
  refine ⟨fun _ => trivial, fun c hc => ?_⟩
  have hfd : c.sockFd = n.fd := congrArg Node.fd (Option.mem_unique (net_conns_of hc) hn)
  refine wlp_bind (getCenterConn_does (R := Same) s) ?_
  intro cn s₁ h₁
  rw [wpe_bind, wpe_emit]
  refine wlp_bind (sendTmsMsg_does (R := Same) cn _ _) ?_
  intro _ s₂ h₂
  rw [wpe_pure, h₂, net_emit _ rfl, h₁, hfd]

theorem retrieveUser_spec (s : Server) (u : UserId) :
    wlp (retrieveUser u) (fun _ s' => s'.net = s.net.addUser u) s := by
  rw [retrieveUser, wlp, wpe_bind, wpe_get]
  cases hu : s.userMap u with
  | some v => simp [Net.addUser, Server.net, hu]
  | none =>
      have hn : s.net.trees u = none := by simp [Server.net, hu]
      simp only [wpe_set, Net.addUser, hn]
      simp only [Server.net, Server.setUser, Net.mk.injEq, true_and, and_true]
      funext x
      by_cases hx : x = u <;> simp [hx, Function.update]

theorem login_eq (w : Net) (p : Ptr) (c : Connect) (len : ℕ) (r : LoginReq) :
    ((((w.emit (.msg p c len)).setConn p (c.login r).node).emit
      (.tokenReq p ⟨c.sockFd, r.app, r.mobile, r.token⟩)).addUser ⟨r.mobile, r.app⟩).setConn p
        (Net.loggedIn c.node r) = w.login p c len r := by
  cases h : w.trees ⟨r.mobile, r.app⟩ <;>
    simp [Net.login, Net.addUser, Net.emit, Net.setConn, h]

theorem enterLogin_spec (len : ℕ) (r : LoginReq) (hc : s.conns p = some c) :
    wlp (enterLogin p r) (fun _ s' => s'.net = s.net.login p c len r) (s.emit (.msg p c len)) := by
  rw [enterLogin, wlp, wpe_bind, wpe_modConn, found (by exact hc)]
  refine wlp_bind (refuseParams_does (R := Same) p r _) ?_
  intro _ s₁ h₁
  have h₁ : s₁.net = (s.net.emit (.msg p c len)).setConn p (c.login r).node := by
    rw [h₁, net_setConn, net_emit _ rfl]
  have hp₁ : s₁.net.conns p = some (c.login r).node := by
    rw [h₁, Net.setConn_conns, if_pos rfl]
  refine wlp_bind (requestToken_spec r hp₁) ?_
  intro _ s₂ h₂
  refine wlp_bind (retrieveUser_spec s₂ _) ?_
  intro _ s₃ h₃
  rw [wpe_modConn]
  refine ⟨fun _ => trivial, fun c₃ hc₃ => ?_⟩
  have hnode : c₃.node = (c.login r).node := by
    have hp₃ : s₃.net.conns p = some (c.login r).node := by
      rw [h₃, Net.addUser_conns, h₂]
      exact hp₁
    exact Option.mem_unique (net_conns_of hc₃) hp₃
  have hlogged : Connect.node { c₃ with user := some ⟨r.mobile, r.app⟩ } = Net.loggedIn c.node r :=
    congrArg (fun n : Node => { n with user := some ⟨r.mobile, r.app⟩ }) hnode
  rw [net_setConn, h₃, h₂, h₁, hlogged]
  exact login_eq s.net p c len r

/-- LOGIN_REQ: the login, then what opens the stream. -/
theorem handleLoginReq_moves (len : ℕ) (hc : s.conns p = some c) (hm : c.dec.cstate = .header)
    (hid : c.Gets len .loginReq) :
    wlp (handleLoginReq p) (fun _ s' => Moves s s') (s.emit (.msg p c len)) := by
  rw [handleLoginReq, wlp, wpe_bind, wpe_deref, found (by exact hc)]
  rw [wpe_ite]
  refine ⟨fun _ => trivial, fun htok => ?_⟩
  refine wlp_bind (enterLogin_spec len _ hc) ?_
  intro _ s₁ h₁
  have hstep : Moves s s₁ := by
    refine .of_act fun _ => ?_
    rw [h₁]
    exact .login len _ (net_conns_of hc) hm hid rfl (not_not.mp fun h => htok (.inl h))
  refine Moves.head hstep ?_
  have hp₁ : s₁.net.conns p = some (Net.loggedIn c.node (LoginReq.read c.dec.buff)) := by
    rw [h₁]
    simp [Net.login, Net.emit, Net.addUser_conns, Net.setConn]
  obtain ⟨c₁, hc₁, hnode⟩ := conns_of_net hp₁
  rw [wlp]
  refine wlp_bind (openStream_moves _ hc₁ ((congrArg Node.cstate hnode).trans hm)
    (congrArg Node.user hnode) (congrArg Node.destPort hnode)) ?_
  intro ok s₂ h₂
  have hlater : Does Same (if ok then do
      let _ ← sendTmsMsg p (loginRsp .prog)
      pure 0
    else pure (-1) : TmsM ℤ) :=
    .ite (.ret (sendTmsMsg_does p _)) (.pure _)
  exact Moves.head h₂ (Does.moves hlater s₂)

theorem Moves.message (len : ℕ) (hc : s.conns p = some c) (hm : c.dec.cstate = .header) :
    Moves s (s.emit (.msg p c len)) := by
  refine .of_act fun _ => ?_
  rw [net_emit _ rfl]
  exact .message len (net_conns_of hc) hm

/-- BEGIN_TRANSMIT. -/
theorem handleBeginTransmit_moves (len : ℕ) (hc : s.conns p = some c) (hm : c.dec.cstate = .header)
    (hid : c.Gets len .beginTransmit) :
    wlp (handleBeginTransmit p) (fun _ s' => Moves s s') (s.emit (.msg p c len)) := by
  have hmsg := Moves.message len hc hm
  rw [handleBeginTransmit, wlp, wpe_bind, wpe_deref, found (by exact hc)]
  cases hk : c.scb with
  | none => exact hmsg
  | some k =>
      rw [wpe_bind, wpe_getScb, wpe_ite]
      refine ⟨fun h => ?_, fun _ => hmsg⟩
      rw [wpe_bind, wpe_modConn, found (by exact hc)]
      refine .of_act fun _ => ?_
      rw [net_setConn, net_emit _ rfl]
      exact .switch len (net_conns_of hc) hm hid hk h.2

theorem rejectClient_moves (q : Ptr) (r : ReadTokenRsp) : Does Moves (rejectClient q r) :=
  .seq (Does.moves (sendTmsMsg_does q _)) <|
    .seq (Does.moves (modConn_same fun _ => rfl)) <|
    .bind (Does.moves (deref_does q)) fun c => removeConn_moves c.sockFd

theorem beforeRemove_none (w : Net) (n : Node) (hk : n.scb = none) : w.beforeRemove n = w := by
  cases h : Net.streamOf n with
  | none => simp [Net.beforeRemove, h]
  | some k => cases (Net.streamOf_scb h).symm.trans hk

/-- A connection without stream is removed with or without its flag. -/
theorem remove_verified (w : Net) (fd : ℕ) (q : Ptr) {n : Node} (hk : n.scb = none) :
    w.remove fd q n =
      (w.setConn q { n with verified := true }).remove fd q { n with verified := true } := by
  rw [Net.remove, Net.remove, beforeRemove_none w n hk,
    beforeRemove_none _ { n with verified := true } hk, delete_setConn w rfl rfl rfl]
  rfl

/-- A client without stream is removed. -/
theorem removeVerified_moves {q : Ptr} {cl : Connect} (hq : s.connMap cl.sockFd = some q)
    (hcl : s.conns q = some cl) (hk : cl.scb = none) :
    wlp (do modConn q (fun c => { c with sdkVerified := true }); removeConn cl.sockFd : TmsM Unit)
      (fun _ s' => Moves s s') s := by
  refine Moves.intro fun hw => ?_
  rw [wlp, wpe_bind, wpe_modConn, found hcl]
  have hn := net_conns_of hcl
  have hnet := net_setConn s q { cl with sdkVerified := true }
  have hw₁ : (s.setConn q { cl with sdkVerified := true }).net.Wf := by
    rw [hnet]
    exact hw.setConn hn _ rfl rfl rfl id id
  have hc₁ : (s.setConn q { cl with sdkVerified := true }).conns q =
      some { cl with sdkVerified := true } := Function.update_self ..
  refine wlp_mono (removeConn_spec hw₁ hq hc₁) ?_
  intro _ s' h
  refine .of_act fun _ => ?_
  rw [h, hnet]
  exact (remove_verified s.net cl.sockFd q (n := cl.node) hk) ▸ .remove hq hn

theorem setVerified_spec {q : Ptr} {cl : Connect} {k : ScbPtr} (len : ℕ) (r : ReadTokenRsp)
    (hc : s.conns p = some c) (hcl : s.conns q = some cl) :
    wlp (setVerified p q cl k r) (fun _ s' => ∃ u, cl.user = some u ∧
      s'.net = s.net.verify p c len r q cl.node k u) (s.emit (.msg p c len)) := by
  rw [setVerified, wlp, wpe_bind, wpe_deref, found (by exact hc)]
  rw [wpe_bind, wpe_nonNull]
  refine ⟨fun _ => trivial, fun u hu => ?_⟩
  rw [wpe_bind, wpe_modConn, found (by exact hcl)]
  have huser : Does Same (modUser u (fun v => { v with balance := r.balance })) :=
    modUser_does fun _ => rfl
  rw [wpe_bind, wpe_modScb]
  refine wlp_bind (huser _) ?_
  intro _ s₁ h₁
  refine ⟨u, hu, ?_⟩
  rw [net_emit _ rfl, h₁, net_setScb, net_setConn, net_emit _ rfl]
  rfl

theorem acceptClient_moves {q : Ptr} {cl : Connect} {r : ReadTokenRsp} (len : ℕ)
    (hc : s.conns p = some c) (hm : c.dec.cstate = .header)
    (hid : c.Gets len .readTokenRsp)
    (hr : r = ReadTokenRsp.read c.dec.buff) (hq : s.connMap (Net.tokenCid r) = some q)
    (hcl : s.conns q = some cl) (hcode : r.rspCode = 0) (htok : cstr cl.token = cstr r.token) :
    wlp (acceptClient p q cl r) (fun _ s' => Moves s s') (s.emit (.msg p c len)) := by
  refine Moves.intro fun hw => ?_
  have hfd : cl.sockFd = Net.tokenCid r := (hw.entry hq (net_conns_of hcl)).1
  cases hk : cl.scb with
  | none =>
      simp only [acceptClient, hk]
      refine Moves.head (Moves.message len hc hm) ?_
      exact removeVerified_moves (s := s.emit _) (hfd ▸ hq) hcl hk
  | some k =>
      simp only [acceptClient, hk]
      rw [wlp]
      refine wlp_bind (setVerified_spec len r hc hcl) ?_
      rintro - s₁ ⟨u, hu, h₁⟩
      have hstep : Moves s s₁ := by
        refine .of_act fun _ => ?_
        rw [h₁]
        exact .verify len r (net_conns_of hc) hm hid hr hq (net_conns_of hcl) hcode htok hk hu
      have hlater : Does Same (do
          let b ← getScb k
          let _ ← sendTmsMsg q (verifiedRsp b r.balance).bytes
          synUserTuple q : TmsM Unit) :=
        .seq (getScb_does k) <| .seq (sendTmsMsg_does q _) <| synUserTuple_does q
      exact Moves.head hstep (Does.moves hlater s₁)

/-- READ_TOKEN_RSP. -/
theorem handleReadTokenRsp_moves (len : ℕ) (hc : s.conns p = some c) (hm : c.dec.cstate = .header)
    (hid : c.Gets len .readTokenRsp) :
    wlp (handleReadTokenRsp p) (fun _ s' => Moves s s') (s.emit (.msg p c len)) := by
  have hmsg := Moves.message len hc hm
  rw [handleReadTokenRsp, wlp, wpe_bind, wpe_deref, found (by exact hc)]
  rw [wpe_bind, wpe_get]
  split
  · exact hmsg
  · next q hq =>
      rw [wpe_bind, wpe_deref]
      refine ⟨fun _ => trivial, fun cl hcl => ?_⟩
      rw [wpe_ite]
      refine ⟨fun _ => ?_, fun h => ?_⟩
      · exact Moves.head hmsg (Does.bind (rejectClient_moves q _) (fun _ => .pure _) _)
      · rw [not_or, not_not, not_not] at h
        exact wlp_bind (acceptClient_moves len hc hm hid rfl hq hcl h.1 h.2) fun _ _ h => h

/-- **A message is handled by steps of the net.** -/
theorem handleRecvMsg_moves (len : ℕ) (hc : s.conns p = some c) (hm : c.dec.cstate = .header) :
    wlp (handleRecvMsg p len) (fun _ s' => Moves s s') s := by
  have hmsg := Moves.message len hc hm
  rw [handleRecvMsg, wlp, wpe_bind, wpe_deref, found hc]
  rw [wpe_bind, wpe_emit, wpe_ite]
  refine ⟨fun _ => hmsg, fun hlen => ?_⟩
  cases hid : MsgId.ofNat? (msgId c.dec.buff) with
  | none => exact hmsg
  | some id =>
      replace hid : c.Gets len id := ⟨not_lt.mp hlen, hid⟩
      cases id with
      | loginReq => exact handleLoginReq_moves len hc hm hid
      | beginTransmit => exact handleBeginTransmit_moves len hc hm hid
      | readTokenRsp => exact handleReadTokenRsp_moves len hc hm hid
      | trafficReportRsp => exact Moves.head hmsg (Does.moves (handleTrafficReportRsp_does p) _)
      | _ => exact hmsg

end HttpsTunnel.Tms

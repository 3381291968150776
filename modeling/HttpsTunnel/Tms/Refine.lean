import HttpsTunnel.Tms.Quiet
import HttpsTunnel.Tms.WellFormed

/-! # The tunnel server refines the net

Every function of the server moves the abstract view along the steps of the net.  `Moves`
relates two states whose views are connected by `Act` steps, provided the first is well
formed; it is reflexive and transitive, so that the handlers are composed from their parts.
The functions that change the view in one go (a block handed out, an agent started, a
connection removed) have a specification that gives the new view outright. -/

namespace HttpsTunnel.Tms

open HttpsTunnel.Lib HttpsTunnel.Wire Relation

/-- The view of `s'` is reached from that of `s` by steps of the net. -/
def Moves (s s' : Server) : Prop := s.net.Wf → ReflTransGen Net.Act s.net s'.net

instance : Std.Refl Moves := ⟨fun _ _ => .refl⟩

instance : IsTrans Server Moves :=
  ⟨fun _ _ _ h h' hw => (h hw).trans (h' (Net.acts_wf (h hw) hw))⟩

theorem Same.moves {s s' : Server} (h : Same s s') : Moves s s' := fun _ => h ▸ .refl

theorem Moves.of_act {s s' : Server} (h : s.net.Wf → Net.Act s.net s'.net) : Moves s s' :=
  fun hw => .single (h hw)

theorem Does.moves {α : Type} {x : TmsM α} (h : Does Same x) : Does Moves x :=
  h.mono fun _ _ => Same.moves

/-! ### Blocks and agents -/

section Blocks

variable {s : Server}

theorem newSCB_spec (s : Server) :
    wlp newSCB (fun k s' => k = s.net.newKey ∧ s'.net = s.net.newBlock ∧ s'.conns = s.conns ∧
      s'.userMap = s.userMap) s := by
  simp only [newSCB, wpe_bind, wpe_get]
  cases hf : s.scbFreeList with
  | cons k rest =>
      have hfree : s.net.free = k :: rest := hf
      refine ⟨by simp [Net.newKey, hfree], ?_, rfl, rfl⟩
      rw [Net.newBlock_cons hfree]
      have hset := net_setScb s k { s.scbs k with scbid := s.avalPcbId + 1 }
      exact congrArg (fun w : Net => { w with free := rest, lastId := s.avalPcbId + 1 }) hset
  | nil =>
      have hfree : s.net.free = [] := hf
      refine ⟨by simp [Net.newKey, hfree]; rfl, ?_, rfl, rfl⟩
      rw [Net.newBlock_nil hfree]
      have hset := net_setScb s s.nextScb { scbid := s.avalPcbId + 1 }
      exact congrArg (fun w : Net =>
        { w with nextBlock := s.nextScb + 1, lastId := s.avalPcbId + 1 }) hset

theorem net_insertScb {u : UserId} {v : User} (h : s.userMap u = some v) (id : ℕ) (k : ScbPtr) :
    (s.setUser u (v.insertScb id k)).net = s.net.insertTree u id k := by
  simp only [Server.net, Server.setUser, Net.insertTree, Net.mk.injEq, true_and, and_true]
  funext x
  by_cases hx : x = u <;> simp [hx, Function.update, h, User.insertScb]

theorem newBlock_setConn (w : Net) (p : Ptr) (n : Node) :
    (w.setConn p n).newBlock = w.newBlock.setConn p n := by
  cases h : w.free with
  | cons k rest =>
      rw [Net.newBlock_cons h, Net.newBlock_cons (w := w.setConn p n) h]
      rfl
  | nil =>
      rw [Net.newBlock_nil h, Net.newBlock_nil (w := w.setConn p n) h]
      rfl

theorem linkTunnel_spec {t : Ptr} {c : Connect} (u : UserId) (hc : s.conns t = some c) :
    wlp (linkTunnel u t c) (fun k s' => k = s.net.newKey ∧
      s'.net = (s.net.newBlock.setBlock k { s.net.newBlock.blocks k with
        user := some u, destPort := c.destPort, tunnel := some t }).setConn t
          { c.node with user := some u, scb := some k } ∧
      (s'.scbs k).scbid = s.net.lastId + 1 ∧ ∀ q, q ≠ t → s'.conns q = s.conns q) s := by
  simp only [linkTunnel, wpe_bind]
  refine wlp_mono (newSCB_spec s) ?_
  rintro k s₁ ⟨rfl, hnet, hconns, -⟩
  simp only [wpe_get, wpe_modScb, wpe_modConn, wpe_pure]
  refine ⟨fun _ => trivial, fun c₁ hc₁ => ⟨trivial, ?_, ?_, fun q hq => ?_⟩⟩
  · rw [show (s₁.setScb s.net.newKey _).conns = s₁.conns from rfl, hconns, hc] at hc₁
    cases hc₁
    rw [net_setConn, net_setScb, ← hnet]
    rfl
  · have hid := Net.newBlock_scbid s.net
    rw [← hnet] at hid
    simpa [Server.setConn, Server.setScb, Server.net, SCB.block] using hid
  · simp [Server.setConn, Server.setScb, hq, hconns]

theorem linkAgent_spec {c : Connect} (u : UserId) (k : ScbPtr) (a : Ptr) (hc : s.conns a = some c) :
    wlp (linkAgent u k a) (fun _ s' => s'.net =
      (s.net.setBlock k { s.net.blocks k with agent := some a }).setConn a
        { c.node with user := some u, scb := some k } ∧
      (s'.scbs k).scbid = (s.scbs k).scbid) s := by
  simp only [linkAgent, wpe_bind, wpe_deref, wpe_modScb, wpe_modConn]
  refine ⟨fun _ => trivial, fun c' hc' => ⟨fun _ => trivial, fun c'' hc'' => ⟨?_, ?_⟩⟩⟩
  · rw [net_setConn, net_setScb]
    rw [show (s.setScb k _).conns = s.conns from rfl, hc] at hc''
    cases hc''
    rfl
  · simp [Server.setConn, Server.setScb]

/-- A tunnel without stream is given one. -/
theorem createSCB_tunnel {t : Ptr} {c : Connect} (u : UserId) (hc : s.conns t = some c)
    (hs : c.scb = none) :
    wlp (createSCB u t none) (fun k s' => k = s.net.newKey ∧
      s'.net = s.net.openStream u t c.node none) s := by
  simp only [createSCB, wpe_bind, wpe_deref, found hc]
  simp only [hs, wpe_bind]
  refine wlp_mono (linkTunnel_spec u hc) ?_
  rintro k s₁ ⟨rfl, hnet, hid, -⟩
  simp only [wpe_pure, wpe_getScb, wpe_modUser]
  refine ⟨fun _ => trivial, fun v hv => ⟨trivial, ?_⟩⟩
  rw [net_insertScb hv, hnet, hid]
  rfl

/-- A tunnel without stream is given one, together with an agent. -/
theorem createSCB_agent {t a : Ptr} {c ca : Connect} (u : UserId) (hc : s.conns t = some c)
    (hs : c.scb = none) (ha : s.conns a = some ca) (hat : a ≠ t) :
    wlp (createSCB u t (some a)) (fun k s' => k = s.net.newKey ∧
      s'.net = (s.net.setConn a { ca.node with user := some u, scb := some k }).openStream u t
        c.node (some a)) s := by
  simp only [createSCB, wpe_bind, wpe_deref, found hc]
  simp only [hs, wpe_bind]
  refine wlp_mono (linkTunnel_spec u hc) ?_
  rintro k s₁ ⟨rfl, hnet, hid, hconns⟩
  refine wlp_mono (linkAgent_spec u _ a ((hconns a hat).trans ha)) ?_
  rintro - s₂ ⟨hnet₂, hid₂⟩
  simp only [wpe_pure, wpe_getScb, wpe_modUser]
  refine ⟨fun _ => trivial, fun v hv => ⟨trivial, ?_⟩⟩
  rw [net_insertScb hv, hnet₂, hid₂, hid, hnet]
  have hkey : (s.net.setConn a { ca.node with user := some u, scb := some s.net.newKey }).newKey =
      s.net.newKey := rfl
  simp only [Net.openStream, newBlock_setConn, hkey]
  simp only [Net.setBlock, Net.setConn, Net.insertTree, Function.update_idem, Function.update_self,
    Function.update_comm hat]
  rfl

theorem sockOpen_spec (s : Server) :
    wlp sockOpen (fun r s' => s'.net = s.net ∧ s'.conns = s.conns ∧ s'.scbs = s.scbs ∧
      ∀ fd, r = some fd → s.fdFree fd) s := by
  simp only [sockOpen, wpe_bind, wpe_get]
  rcases s.socks with _ | ⟨⟨fd, inprogress⟩ | e, rest⟩
  · exact ⟨rfl, rfl, rfl, by simp⟩
  · simp only [wpe_ite]
    exact ⟨fun hf => ⟨rfl, rfl, rfl, fun fd' h => by cases h; exact hf⟩,
      fun _ => ⟨rfl, rfl, rfl, by simp⟩⟩
  · exact ⟨rfl, rfl, rfl, by simp⟩

theorem newConn_spec (fd : ℕ) (c : Connect) :
    wlp (newConn fd c) (fun p s' => p = s.net.next ∧ s'.net = s.net.newConn fd c.node ∧
      s'.conns = Function.update s.conns p (some c) ∧ s'.scbs = s.scbs) s := by
  refine ⟨rfl, ?_, rfl, rfl⟩
  have hset := net_setConn s s.nextConn c
  have hemit := net_emit ({ (s.setConn s.nextConn c).setMap fd (some s.nextConn) with
    nextConn := s.nextConn + 1, openFds := fd :: s.openFds }) (o := .newfd fd s.nextConn) rfl
  refine hemit.trans ?_
  exact congrArg (fun w : Net => { w with
    next := s.nextConn + 1
    table := Function.update w.table fd (some s.nextConn)
    fds := fd :: w.fds
    log := w.log ++ [Obs.newfd fd s.nextConn] }) hset

/-- The agent is a new connection under a new descriptor. -/
theorem createAgentConn_spec (s : Server) :
    wlp createAgentConn (fun r s' => s'.scbs = s.scbs ∧ match r with
      | none => s'.net = s.net
      | some a => ∃ fd c, s.fdFree fd ∧ a = s.net.next ∧ c.node = Net.agentNode fd ∧
          s'.net = s.net.newConn fd c.node ∧ s'.conns = Function.update s.conns a (some c)) s := by
  simp only [createAgentConn, wpe_bind]
  refine wlp_mono (sockOpen_spec s) ?_
  rintro r s₁ ⟨hnet, hconns, hscbs, hfd⟩
  cases r with
  | none => exact ⟨hscbs, hnet⟩
  | some fd =>
      simp only [wpe_bind, wpe_get]
      refine wlp_mono (newConn_spec fd _) ?_
      rintro a s₂ ⟨rfl, hnet₂, hconns₂, hscbs₂⟩
      rw [hnet] at hnet₂
      exact ⟨hscbs₂.trans hscbs, fd, agentConnect fd s₁.mem, hfd fd rfl, by rw [hnet], rfl, hnet₂,
        by rw [hconns₂, hconns]⟩

theorem attachAgent_spec {t a : Ptr} {c ca : Connect} (u : UserId) (port : ℕ)
    (hc : s.conns t = some c) (ha : s.conns a = some ca) (hat : a ≠ t) :
    wlp (attachAgent u t a port) (fun _ s' => s'.net = match c.scb with
      | some k => (s.net.setConn a { ca.node with user := some u, scb := some k }).setBlock k
          { s.net.blocks k with destPort := port, agent := some a }
      | none => (s.net.setConn a { ca.node with user := some u, scb := some s.net.newKey }).openStream
          u t c.node (some a)) s := by
  simp only [attachAgent, wpe_bind, wpe_deref, found hc]
  cases hs : c.scb with
  | none =>
      refine wlp_mono (createSCB_agent u hc hs ha hat) ?_
      rintro _ s₁ ⟨rfl, h⟩
      exact h
  | some k =>
      simp only [wpe_bind, wpe_modScb]
      refine wlp_mono (linkAgent_spec u k a (s := s.setScb k _) ha) ?_
      rintro - s₁ ⟨h, -⟩
      simp only [wpe_pure]
      rw [h, net_setScb]
      simp only [Net.setBlock, Net.setConn, Function.update_idem, Function.update_self]
      rfl

theorem newConn_emit_setConn (w : Net) (fd : ℕ) (n m : Node) (o : Obs) :
    ((w.newConn fd n).emit o).setConn w.next m = (w.newConn fd m).emit o := by
  simp [Net.newConn, Net.setConn, Net.emit]

/-- `ConnectWebServer` either leaves the view alone or starts an agent. -/
theorem connectWebServer_spec {t : Ptr} {c : Connect} (u : UserId) (ip port : ℕ)
    (hc : s.conns t = some c) (ht : s.net.next ≠ t) :
    wlp (connectWebServer u t ip port) (fun _ s' => s'.net = s.net ∨ ∃ fd, s.fdFree fd ∧
      s'.net = s.net.connectAgent u t c.node fd port
        (.connect s.net.next ip port u t (c.scb.map s.scbs))) s := by
  simp only [connectWebServer, wpe_bind]
  refine wlp_mono (createAgentConn_spec s) ?_
  rintro r s₁ ⟨hscbs, h₁⟩
  cases r with
  | none =>
      simp only [wpe_bind]
      refine wlp_mono (sendTmsMsg_does (R := Same) t _ s₁) ?_
      intro _ s₂ h₂
      exact .inl (Eq.trans h₂ h₁)
  | some a =>
      obtain ⟨fd, ca, hfd, rfl, hca, hnet, hconns⟩ := h₁
      have hct : s₁.conns t = some c := by rw [hconns, Function.update_of_ne ht.symm, hc]
      have haa : s₁.conns s.net.next = some ca := by rw [hconns, Function.update_self]
      rw [wpe_bind, wpe_deref, found hct]
      rw [wpe_bind, wpe_get, wpe_bind, wpe_emit]
      refine wlp_bind (attachAgent_spec (s := s₁.emit _) u port hct haa ht) ?_
      intro k s₂ h₂
      have hlater : Does Same (do
          let a ← deref s.net.next
          let _ ← addEvent a.sockFd ⟨false, true, true⟩
          let _ ← sendTmsMsg t (ConnectHostRsp.bytes ⟨RespCode.prog.toNat, 0⟩)
          pure (some k) : TmsM (Option ScbPtr)) :=
        .seq (deref_does _) <| .seq (addEvent_does _ _) <|
          .ret (sendTmsMsg_does _ _)
      refine wlp_mono (hlater s₂) ?_
      intro _ s₃ h₃
      refine .inr ⟨fd, hfd, ?_⟩
      rw [h₃, h₂, net_emit _ rfl, hnet, hca, hscbs]
      simp only [Net.connectAgent, show c.node.scb = c.scb from rfl]
      cases hs : c.scb with
      | none =>
          exact congrArg (Net.openStream · u t c.node (some s.net.next))
            (newConn_emit_setConn s.net fd _ _ _)
      | some k =>
          exact congrArg (Net.setBlock · k _) (newConn_emit_setConn s.net fd _ _ _)

end Blocks

/-! ### Taking connections down -/

section Down

variable {s : Server} {p : Ptr} {c : Connect}

theorem closeFd_spec {fd : ℕ} (ho : fd ∈ s.openFds) :
    wlp (closeFd fd) (fun _ s' => s'.net = s.net.closeFd fd) s := by
  simp only [closeFd, wpe_bind, wpe_get, wpe_ite]
  exact ⟨fun _ => rfl, fun h => absurd ho h⟩

theorem closeFd_gone {fd : ℕ} (ho : fd ∉ s.openFds) :
    wlp (closeFd fd) (fun _ s' => s'.net = s.net) s := by
  simp only [closeFd, wpe_bind, wpe_get, wpe_ite]
  exact ⟨fun h => absurd h ho, fun _ => rfl⟩

theorem unlinkScb_spec (s : Server) (c : Connect) :
    wlp (unlinkScb c) (fun _ s' => s'.net = s.net.unlink c.node) s := by
  cases hs : c.scb with
  | none => simp [unlinkScb, Net.unlink, Connect.node, hs]
  | some k =>
      cases ht : c.type with
      | tunnel | agent =>
          simp only [unlinkScb, Net.unlink, Connect.node, hs, ht]
          exact net_setScb s _ _
      | _ => simp [unlinkScb, Net.unlink, Connect.node, hs, ht]

theorem net_free (s : Server) (p : Ptr) : Server.net { s with conns := Function.update s.conns p none } =
    { s.net with conns := Function.update s.net.conns p none } := by
  simp only [Server.net, Net.mk.injEq, and_self, and_true]
  funext q
  by_cases h : q = p <;> simp [h, Function.update]

theorem deleteConn_spec (hc : s.conns p = some c) (ho : c.sockFd ∈ s.openFds) :
    wlp (deleteConn p) (fun _ s' => s'.net = s.net.delete p c.node) s := by
  have hclose : wlp (if 0 < c.sockFd then do
        let _ ← removeEvent c.sockFd
        closeFd c.sockFd
      else pure () : TmsM Unit)
      (fun _ s' => s'.net = if 0 < c.sockFd then s.net.closeFd c.sockFd else s.net) s := by
    rw [wlp, wpe_ite]
    refine ⟨fun h0 => ?_, fun h0 => by simp [h0]⟩
    rw [wpe_bind, if_pos h0]
    refine wlp_mono (removeEvent_does (R := Same) _ s) ?_
    intro _ s₁ h₁
    have ho₁ : c.sockFd ∈ s₁.net.fds := by rw [h₁]; exact ho
    exact wlp_mono (closeFd_spec ho₁) fun _ s₂ h₂ => h₁ ▸ h₂
  rw [deleteConn, wlp, wpe_bind, wpe_deref, found hc]
  refine wlp_bind hclose ?_
  intro _ s₁ h₁
  refine wlp_bind (unlinkScb_spec s₁ c) ?_
  intro _ s₂ h₂
  rw [wpe_modify, net_free, h₂, h₁]
  rfl

theorem dropPeer_spec (s : Server) (q : Option Ptr)
    (hq : ∀ a m, q = some a → s.net.conns a = some m → m.fd ∈ s.net.fds) :
    wlp (dropPeer q) (fun _ s' => s'.net = s.net.dropPeer q) s := by
  cases q with
  | none => rfl
  | some a =>
      rw [dropPeer, wlp, wpe_bind, wpe_deref]
      refine ⟨fun _ => trivial, fun c hc => ?_⟩
      rw [wpe_bind, wpe_mapErase, Net.dropPeer_some (net_conns_of hc)]
      exact deleteConn_spec (s := s.setMap c.sockFd none) hc (hq a c.node rfl (net_conns_of hc))

theorem recycleSCB_spec (s : Server) (k : ScbPtr) :
    wlp (recycleSCB k) (fun _ s' => s'.net = s.net.recycle k) s := by
  rw [recycleSCB, wlp, wpe_modify]
  exact congrArg (fun w : Net => { w with free := w.free ++ [k] }) (net_setScb s k SCB.reset)

theorem takeDownStream_spec {k : ScbPtr} (u : UserId) (hw : s.net.Wf) (hc : s.conns p = some c)
    (hk : Net.streamOf c.node = some k) :
    wlp (takeDownStream p c u k) (fun _ s' =>
      s'.net = (s.net.takeDown c.node k).setConn p { c.node with user := none }) s := by
  have hn := net_conns_of hc
  -- the last two statements, once the other side is gone
  have hend : ∀ s₃ : Server, s₃.net.recycle k = s.net.takeDown c.node k →
      wlp (do recycleSCB k; modConn p (fun c => { c with user := none }) : TmsM Unit) (fun _ s' =>
        s'.net = (s.net.takeDown c.node k).setConn p { c.node with user := none }) s₃ := by
    intro s₃ h₃
    rw [wlp]
    refine wlp_bind (recycleSCB_spec s₃ k) ?_
    intro _ s₄ h₄
    rw [wpe_modConn]
    refine ⟨fun _ => trivial, fun c₄ hc₄ => ?_⟩
    rw [h₃] at h₄
    have hnode : some c₄.node = some c.node := by
      rw [← net_conns_of hc₄, h₄, (hw.takeDown hn hk).2]
    rw [net_setConn, h₄, ← Option.some.inj hnode]
    rfl
  rw [takeDownStream]
  refine wlp_bind (reportOrAccumulate_does (R := Same) u k s) ?_
  intro _ s₁ h₁
  have h₁ : s₁.net = s.net := h₁
  rw [wpe_bind]
  rcases Net.streamOf_type hk with hty | hty
  · have h₂ : (s₁.setScb k { s₁.scbs k with tunnelConn := none }).net =
        s.net.setBlock k { s.net.blocks k with tunnel := none } := by
      rw [net_setScb, ← h₁]
      rfl
    have hpeer : ((s₁.setScb k { s₁.scbs k with tunnelConn := none }).scbs k).agentConn =
        (s.net.blocks k).agent := by
      rw [← h₁]
      simp [Server.setScb, Server.net, SCB.block]
    simp only [show c.type = .tunnel from hty]
    rw [wpe_bind, wpe_modScb, wpe_bind, wpe_getScb, hpeer]
    refine wlp_mono (dropPeer_spec _ _ ?_) ?_
    · intro a m ha hm
      rw [h₂] at hm ⊢
      exact hw.isOpen hm ((hw.agent_peer hn hty ha).2 m hm)
    · intro _ s₃ h₃
      refine hend s₃ ?_
      rw [h₃, h₂]
      simp [Net.takeDown, hty, Net.setBlock]
  · have h₂ : (s₁.setScb k { s₁.scbs k with agentConn := none }).net =
        s.net.setBlock k { s.net.blocks k with agent := none } := by
      rw [net_setScb, ← h₁]
      rfl
    have hpeer : ((s₁.setScb k { s₁.scbs k with agentConn := none }).scbs k).tunnelConn =
        (s.net.blocks k).tunnel := by
      rw [← h₁]
      simp [Server.setScb, Server.net, SCB.block]
    simp only [show c.type = .agent from hty]
    rw [wpe_bind, wpe_modScb, wpe_bind, wpe_getScb, hpeer]
    refine wlp_mono (dropPeer_spec _ _ ?_) ?_
    · intro t m ht hm
      rw [h₂] at hm ⊢
      exact hw.isOpen hm ((hw.tunnel_peer hn hty ht).2 m hm)
    · intro _ s₃ h₃
      refine hend s₃ ?_
      rw [h₃, h₂]
      simp [Net.takeDown, hty, Net.setBlock]

theorem delete_setConn (w : Net) {n n' : Node} (hfd : n'.fd = n.fd) (hty : n'.type = n.type)
    (hs : n'.scb = n.scb) : (w.setConn p n').delete p n' = w.delete p n := by
  simp only [Net.delete, Net.unlink, hfd, hty, hs]
  split_ifs <;> split <;> simp [Net.closeFd, Net.setConn, Net.setBlock]

theorem beforeRemove_spec (hw : s.net.Wf) (hc : s.conns p = some c) :
    wlp (beforeRemove p c) (fun _ s' => ∃ u, s'.net =
      (s.net.beforeRemove c.node).setConn p { c.node with user := u }) s := by
  have hn := net_conns_of hc
  have hself : s.net.setConn p { c.node with user := c.user } = s.net := Net.setConn_self hn
  have hnone : Net.streamOf c.node = none → s.net = (s.net.beforeRemove c.node).setConn p
      { c.node with user := c.user } := by
    intro h
    rw [Net.beforeRemove, h, hself]
  have hsome : ∀ u k, Net.streamOf c.node = some k → wlp (takeDownStream p c u k) (fun _ s' =>
      ∃ u, s'.net = (s.net.beforeRemove c.node).setConn p { c.node with user := u }) s := by
    intro u k hk
    refine wlp_mono (takeDownStream_spec u hw hc hk) fun _ s' h => ⟨none, ?_⟩
    rw [h, Net.beforeRemove, hk]
  cases hty : c.type with
  | center =>
      simp only [beforeRemove, hty, wpe_modify]
      exact ⟨_, hnone (by simp [Net.streamOf, Connect.node, hty])⟩
  | tunnel | agent =>
      cases hu : c.user with
      | none =>
          simp only [beforeRemove, hty, hu, wpe_pure]
          exact ⟨_, hnone (by simp [Net.streamOf, Connect.node, hty, hu])⟩
      | some u =>
          cases hk : c.scb with
          | none =>
              simp only [beforeRemove, hty, hu, hk, wpe_pure]
              exact ⟨_, hnone (by simp [Net.streamOf, Connect.node, hty, hu, hk])⟩
          | some k =>
              simp only [beforeRemove, hty, hu, hk]
              exact hsome u k (by simp [Net.streamOf, Connect.node, hty, hu, hk])
  | _ =>
      simp only [beforeRemove, hty, wpe_pure]
      exact ⟨_, hnone (by simp [Net.streamOf, Connect.node, hty])⟩

/-- `RemoveConn` of a descriptor in the table. -/
theorem removeConn_spec {fd : ℕ} (hw : s.net.Wf) (ht : s.connMap fd = some p)
    (hc : s.conns p = some c) :
    wlp (removeConn fd) (fun _ s' => s'.net = s.net.remove fd p c.node) s := by
  have hn := net_conns_of hc
  obtain ⟨hw₁, hn₁⟩ := hw.beforeRemove hn
  have hlost : ¬ c.node.Lost := (hw.entry ht hn).2
  rw [removeConn, wlp, wpe_bind, wpe_get]
  simp only [ht]
  rw [wpe_bind, wpe_deref, found hc]
  refine wlp_bind (beforeRemove_spec hw hc) ?_
  rintro - s₁ ⟨u, h₁⟩
  have hp : s₁.net.conns p = some { c.node with user := u } := by
    rw [h₁, Net.setConn_conns, if_pos rfl]
  obtain ⟨c₁, hc₁, hnode⟩ := conns_of_net hp
  have hfd : c₁.sockFd = c.sockFd := congrArg Node.fd hnode
  have ho : c₁.sockFd ∈ s₁.openFds := by
    rw [show s₁.openFds = (s.net.beforeRemove c.node).fds from congrArg Net.fds h₁, hfd]
    exact hw₁.isOpen hn₁ hlost
  refine wlp_bind (deleteConn_spec hc₁ ho) ?_
  intro _ s₂ h₂
  rw [wpe_mapErase, net_setMap, h₂, h₁, hnode, delete_setConn _ rfl rfl rfl]
  rfl

theorem removeConn_none {fd : ℕ} (ht : s.connMap fd = none) :
    wlp (removeConn fd) (fun _ s' => s'.net = s.net) s := by
  rw [removeConn, wlp, wpe_bind, wpe_get]
  simp only [ht, wpe_pure]

theorem removeConn_moves (fd : ℕ) : Does Moves (removeConn fd) := by
  intro s
  cases ht : s.connMap fd with
  | none => exact wlp_mono (removeConn_none ht) fun _ _ h => Same.moves h
  | some p =>
      rw [wlp_iff]
      intro _ s' hrun hw
      obtain ⟨n, hn, -, -⟩ := hw.table (show s.net.table fd = some p from ht)
      obtain ⟨c, hc, rfl⟩ := conns_of_net hn
      rw [(wlp_iff _ _ _).mp (removeConn_spec hw ht hc) _ s' hrun]
      exact .single (.remove ht hn)

/-- `InformShutdownUser` gives up an agent of a stream. -/
theorem informShutdownUser_spec {fd : ℕ} {k : ScbPtr} {u : UserId} (hw : s.net.Wf)
    (ht : s.connMap fd = some p) (hc : s.conns p = some c) (hty : c.type = .agent)
    (hu : c.user = some u) (hk : c.scb = some k) :
    wlp (informShutdownUser fd) (fun _ s' => s'.net = s.net.agentDown fd p c.node k) s := by
  have hn := net_conns_of hc
  rw [informShutdownUser, wlp, wpe_bind, wpe_get]
  simp only [ht]
  rw [wpe_bind, wpe_deref, found hc]
  simp only [hty, hu, hk]
  rw [wpe_bind, wpe_nonNull]
  refine ⟨fun _ => trivial, fun k' hk' => ?_⟩
  cases hk'
  refine wlp_bind (reportOrAccumulate_does (R := Same) u k s) ?_
  intro _ s₁ h₁
  have h₁ : s₁.net = s.net := h₁
  have hpeer : ((s₁.setMap fd none).scbs k).tunnelConn = (s.net.blocks k).tunnel := by
    rw [← h₁]
    rfl
  rw [wpe_bind, wpe_mapErase, wpe_bind, wpe_getScb, wpe_bind, hpeer]
  refine wlp_mono (dropPeer_spec _ _ ?_) ?_
  · intro t m htn hm
    rw [net_setMap, h₁] at hm ⊢
    exact hw.isOpen hm ((hw.tunnel_peer hn hty htn).2 m hm)
  · intro _ s₂ h₂
    rw [net_setMap, h₁] at h₂
    simp only [wpe_bind, wpe_modScb, wpe_modConn, wpe_emit]
    refine ⟨fun _ => trivial, fun c₂ hc₂ => ?_⟩
    have hp : s₂.net.conns p = some c.node := by
      rw [h₂, Net.dropPeer_conns_ne _ fun h => (hw.tunnel_peer hn hty h).1 rfl]
      exact hn
    have hnode : c₂.node = c.node := Option.mem_unique (net_conns_of hc₂) hp
    rw [net_emit _ rfl, net_setConn, net_setScb, Net.agentDown, ← h₂, ← hnode]
    rfl

/-- `InformShutdownUser` does nothing to other connections. -/
theorem informShutdownUser_other {fd : ℕ}
    (h : ∀ p c, s.connMap fd = some p → s.conns p = some c → c.type ≠ .agent ∨ c.user = none) :
    wlp (informShutdownUser fd) (fun _ s' => s'.net = s.net) s := by
  rw [informShutdownUser, wlp, wpe_bind, wpe_get]
  cases ht : s.connMap fd with
  | none => rfl
  | some p =>
      rw [wpe_bind, wpe_deref]
      refine ⟨fun _ => trivial, fun c hc => ?_⟩
      rcases h p c ht hc with hty | hu
      · cases hct : c.type with
        | agent => exact absurd hct hty
        | _ => rfl
      · rw [hu]
        cases c.type <;> rfl

end Down

end HttpsTunnel.Tms

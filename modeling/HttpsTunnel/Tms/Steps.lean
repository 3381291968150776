import HttpsTunnel.Lib.Trace
import HttpsTunnel.Tms.Run

/-! # What a step of the net can do

One statement for each part of the state, from which the invariants are derived without
going through the steps again:

* `Logs`: the entries a step appends to the log, with the state they are made in;
* `NodeStep`: how the fields of a connection come about;
* `Big.table_cases`: how an entry of the connection table comes about. -/

namespace HttpsTunnel.Tms

open HttpsTunnel.Lib HttpsTunnel.Wire Relation

/-- Bytes were relayed on the stream with tunnel `t`. -/
def Obs.Relays (t : Ptr) (o : Obs) : Prop := ∃ dir a bs, o = .relay dir t a bs

/-- The bytes relayed, with direction and tunnel. -/
def relaysOf (l : List Obs) : List (Dir × Ptr × List UInt8) :=
  l.filterMap fun
    | .relay dir t _ bs => some (dir, t, bs)
    | _ => none

theorem exists_of_mem_relaysOf {l : List Obs} {dir : Dir} {t : Ptr} {bs : List UInt8}
    (h : (dir, t, bs) ∈ relaysOf l) : ∃ a, .relay dir t a bs ∈ l := by
  obtain ⟨o, ho, he⟩ := List.mem_filterMap.mp h
  split at he
  · next dir' t' a bs' =>
      cases he
      exact ⟨a, ho⟩
  · cases he

namespace Net

variable {w w' : Net} {p q t a : Ptr} {n m : Node} {k : ScbPtr} {fd fd' : ℕ}

/-! ### Removal -/

theorem closeFd_log (w : Net) (fd : ℕ) : (w.closeFd fd).log = w.log := rfl

theorem unlink_log (w : Net) (n : Node) : (w.unlink n).log = w.log := by
  unfold unlink; split <;> rfl

theorem delete_log (w : Net) (p : Ptr) (n : Node) : (w.delete p n).log = w.log := by
  by_cases h : 0 < n.fd <;> simp [delete, h, closeFd, unlink_log]

theorem dropPeer_log (w : Net) (q : Option Ptr) : (w.dropPeer q).log = w.log := by
  unfold dropPeer
  split
  · rfl
  · split
    · rfl
    · exact delete_log _ _ _

theorem takeDown_log (w : Net) (n : Node) (k : ScbPtr) : (w.takeDown n k).log = w.log := by
  unfold takeDown; split <;> exact dropPeer_log _ _

theorem remove_log (w : Net) (fd : ℕ) (p : Ptr) (n : Node) : (w.remove fd p n).log = w.log := by
  unfold remove beforeRemove
  split
  · exact (delete_log _ p n).trans (takeDown_log w n _)
  · exact delete_log _ p n

/-- Dropping the other side of a stream leaves other connections as they are. -/
theorem dropPeer_conns {x : Option Ptr} (h : (w.dropPeer x).conns q = some m) :
    w.conns q = some m := by
  by_cases hx : x = some q
  · subst hx
    cases hq : w.conns q with
    | none => rwa [dropPeer_gone hq, hq] at h
    | some n => simp [dropPeer_some hq, delete_conns] at h
  · rwa [dropPeer_conns_ne w hx] at h

theorem remove_conns (h : (w.remove fd p n).conns q = some m) : q ≠ p ∧ w.conns q = some m := by
  change ((w.beforeRemove n).delete p n).conns q = some m at h
  rw [delete_conns] at h
  split_ifs at h with hqp
  refine ⟨hqp, ?_⟩
  unfold beforeRemove at h
  split at h
  · unfold takeDown at h
    split at h <;> exact dropPeer_conns (w := w.setBlock _ _) h
  · exact h

theorem remove_table (h : (w.remove fd p n).table fd' = some q) : w.table fd' = some q := by
  change (((w.beforeRemove n).delete p n).setTable fd none).table fd' = some q at h
  rw [setTable_table] at h
  split_ifs at h
  rw [delete_table] at h
  unfold beforeRemove at h
  split at h
  · unfold takeDown at h
    split at h <;> exact dropPeer_table (w.setBlock _ _) _ h
  · exact h

theorem dropPeer_next (w : Net) (x : Option Ptr) : (w.dropPeer x).next = w.next := by
  unfold dropPeer
  split
  · rfl
  · split
    · rfl
    · exact delete_next _ _ _

theorem remove_next (w : Net) (fd : ℕ) (p : Ptr) (n : Node) : (w.remove fd p n).next = w.next := by
  have h : (w.beforeRemove n).next = w.next := by
    unfold beforeRemove takeDown
    split
    · split <;> exact dropPeer_next _ _
    · rfl
  exact (delete_next _ p n).trans h

/-! ### Streams -/

theorem newBlock_log (w : Net) : w.newBlock.log = w.log := by
  unfold newBlock; split <;> rfl

theorem addUser_log (w : Net) (u : UserId) : (w.addUser u).log = w.log := by
  unfold addUser; split <;> rfl

theorem openStream_log (w : Net) (u : UserId) (t : Ptr) (n : Node) (agent : Option Ptr) :
    (w.openStream u t n agent).log = w.log := newBlock_log w

theorem openStream_table (w : Net) (u : UserId) (t : Ptr) (n : Node) (agent : Option Ptr) :
    (w.openStream u t n agent).table = w.table := newBlock_table w

theorem openStream_next (w : Net) (u : UserId) (t : Ptr) (n : Node) (agent : Option Ptr) :
    (w.openStream u t n agent).next = w.next := newBlock_next w

theorem openStream_shut (w : Net) (u : UserId) (t : Ptr) (n : Node) (agent : Option Ptr) :
    (w.openStream u t n agent).shut = w.shut := by
  show w.newBlock.shut = w.shut
  unfold newBlock
  split <;> rfl

theorem openStream_conns (w : Net) (u : UserId) (t : Ptr) (n : Node) (agent : Option Ptr) (q : Ptr) :
    (w.openStream u t n agent).conns q =
      if q = t then some { n with user := some u, scb := some w.newKey } else w.conns q := by
  show (w.newBlock.setConn t { n with user := some u, scb := some w.newKey }).conns q = _
  rw [setConn_conns, newBlock_conns]

theorem connectAgent_log (w : Net) (u : UserId) (t : Ptr) (n : Node) (fd port : ℕ) (o : Obs) :
    (w.connectAgent u t n fd port o).log = w.log ++ [.newfd fd w.next, o] := by
  have h : ((w.newConn fd (linkedAgent fd u w.newKey)).emit o).log =
      w.log ++ [.newfd fd w.next, o] := by simp [newConn, emit]
  unfold connectAgent
  split
  · simp [newConn, emit, setBlock]
  · rw [openStream_log, h]

theorem connectAgent_table (w : Net) (u : UserId) (t : Ptr) (n : Node) (fd port : ℕ) (o : Obs) :
    (w.connectAgent u t n fd port o).table = Function.update w.table fd (some w.next) := by
  unfold connectAgent
  split
  · rfl
  · rw [openStream_table]
    rfl

theorem connectAgent_next (w : Net) (u : UserId) (t : Ptr) (n : Node) (fd port : ℕ) (o : Obs) :
    (w.connectAgent u t n fd port o).next = w.next + 1 := by
  unfold connectAgent
  split
  · rfl
  · rw [openStream_next]
    rfl

theorem connectAgent_shut (w : Net) (u : UserId) (t : Ptr) (n : Node) (fd port : ℕ) (o : Obs) :
    (w.connectAgent u t n fd port o).shut = w.shut := by
  unfold connectAgent
  split
  · rfl
  · rw [openStream_shut]
    rfl

/-- The agent is the new connection; a tunnel without stream is linked to the new one. -/
theorem connectAgent_conns {u : UserId} {port : ℕ} {o : Obs}
    (h : (w.connectAgent u t n fd port o).conns q = some m) :
    q = w.next ∧ (∃ k, m = linkedAgent fd u k) ∨
      q = t ∧ n.scb = none ∧ m = { n with user := some u, scb := some w.newKey } ∨
      w.conns q = some m := by
  unfold connectAgent at h
  split at h
  · change (w.newConn fd _).conns q = some m at h
    rw [newConn_conns] at h
    split_ifs at h with hq
    · cases h
      exact .inl ⟨hq, _, rfl⟩
    · exact .inr (.inr h)
  · next hs =>
      rw [openStream_conns] at h
      split_ifs at h with ht
      · cases h
        exact .inr (.inl ⟨ht, hs, rfl⟩)
      · change (w.newConn fd _).conns q = some m at h
        rw [newConn_conns] at h
        split_ifs at h with hq
        · cases h
          exact .inl ⟨hq, _, rfl⟩
        · exact .inr (.inr h)

/-! ### Giving up an agent -/

theorem agentDown_log (w : Net) (fd : ℕ) (p : Ptr) (n : Node) (k : ScbPtr) :
    (w.agentDown fd p n k).log = w.log ++ [.agentDown p] :=
  congrArg (· ++ [Obs.agentDown p]) (dropPeer_log _ _)

theorem agentDown_next (w : Net) (fd : ℕ) (p : Ptr) (n : Node) (k : ScbPtr) :
    (w.agentDown fd p n k).next = w.next := dropPeer_next _ _

theorem agentDown_conns (h : (w.agentDown fd p n k).conns q = some m) :
    q = p ∧ m = { n with scb := none, user := none } ∨ w.conns q = some m := by
  change (Net.setConn _ p { n with scb := none, user := none }).conns q = some m at h
  rw [setConn_conns] at h
  split_ifs at h with hq
  · cases h
    exact .inl ⟨hq, rfl⟩
  · exact .inr (dropPeer_conns (w := w.setTable fd none) h)

theorem agentDown_table' (h : (w.agentDown fd p n k).table fd' = some q) : w.table fd' = some q := by
  have h' := dropPeer_table (w.setTable fd none) _ (show _ = some q from h)
  rw [setTable_table] at h'
  split_ifs at h'
  exact h'

/-! ### The log -/

/-- The entries a step appends to the log of `w`. -/
inductive Logs (w w' : Net) : List Obs → Prop
  | quiet : Logs w w' []
  | msg {p : Ptr} {c : Connect} (len : ℕ) (hc : w.conns p = some c.node) : Logs w w' [.msg p c len]
  | login {p : Ptr} {c : Connect} (len : ℕ) (r : LoginReq) (hc : w.conns p = some c.node)
      (hm : c.dec.cstate = .header) (hid : c.Gets len .loginReq)
      (hr : r = LoginReq.read c.dec.buff) (ht : 0 ∈ r.token)
      (hp : w'.conns p = some (loggedIn c.node r)) (hu : w'.trees ⟨r.mobile, r.app⟩ ≠ none) :
      Logs w w' [.msg p c len, .tokenReq p ⟨c.sockFd, r.app, r.mobile, r.token⟩]
  | auth {p q : Ptr} {c : Connect} {m : Node} {u : UserId} (len : ℕ) (r : ReadTokenRsp)
      (hc : w.conns p = some c.node) (hid : c.Gets len .readTokenRsp)
      (hr : r = ReadTokenRsp.read c.dec.buff) (hq : w.table (tokenCid r) = some q)
      (hn : w.conns q = some m) (hcode : r.rspCode = 0) (htok : cstr m.token = cstr r.token)
      (hu : m.user = some u) : Logs w w' [.msg p c len, .auth p c.type q r u]
  | newfd (fd : ℕ) (hfd : fd ∉ w.fds) : Logs w w' [.newfd fd w.next]
  | connect (fd ip port : ℕ) (u : UserId) (t : Ptr) (k : Option SCB) (hfd : fd ∉ w.fds) :
      Logs w w' [.newfd fd w.next, .connect w.next ip port u t k]
  | wait (host : Host) (u : UserId) (id : ℕ) (t : Ptr) (port : ℕ) (k : Option SCB) :
      Logs w w' [.wait host u id t port k]
  | answer (host : Host) : Logs w w' [.answer host]
  | fwd (p : Ptr) (c : Connect) (shut : Bool) (tn : Option Connect) (x : Option Charge)
      (bs : List UInt8) : Logs w w' [.fwd p c shut tn x bs]
  | upload {p : Ptr} {c : Connect} (a : Ptr) (tn : Option Connect) {x : Option Charge} (bs bs' : List UInt8)
      (hx : cuts x = false) (hc : w.conns p = some c.node) (hm : c.dec.cstate = .forward) (hty : c.type = .tunnel) :
      Logs w w' [.fwd p c (c.sockFd ∈ w.shut) tn x bs, .relay .up p a bs']
  | download {p t : Ptr} {c tn : Connect} {k : ScbPtr} (shut : Bool) (x : Option Charge) (bs bs' : List UInt8)
      (hty : c.type = .agent) (hk : (w.blocks k).tunnel = some t) (ht : w.conns t = some tn.node)
      (hfd : tn.sockFd ∉ w.shut) :
      Logs w w' [.fwd p c shut (some tn) x bs, .relay .down t p bs']
  | flush {fd : ℕ} {p a : Ptr} {n m : Node} (bs : List UInt8) (h : w.Flushable fd p a n m) :
      Logs w w' [.relay .down p a bs]
  | agentDown (p : Ptr) : Logs w w' [.agentDown p]
  | cut (p t : Ptr) (e : ℕ) : Logs w w' [.cutoff p t (some e)]
  | cutDown (p t : Ptr) (e : ℕ) : Logs w w' [.cutoff p t (some e), .agentDown p]
  | cutFlush {fd : ℕ} {p a : Ptr} {n m : Node} (bs : List UInt8) (h : w.Flushable fd p a n m) :
      Logs w w' [.relay .down p a bs, .cutoff p p none]

theorem login_conns (w : Net) (p : Ptr) (c : Connect) (len : ℕ) (r : LoginReq) :
    (w.login p c len r).conns = Function.update w.conns p (some (loggedIn c.node r)) :=
  addUser_conns _ _

theorem addUser_trees (w : Net) (u : UserId) : (w.addUser u).trees u ≠ none := by
  unfold addUser
  split
  · next tr htr => simp [htr]
  · simp

theorem Act.logs (h : Act w w') : ∃ l, w'.log = w.log ++ l ∧ Logs w w' l := by
  cases h with
  | message len hc hm => exact ⟨_, rfl, .msg len hc⟩
  | login len r hc hm hid hr ht =>
      refine ⟨_, ?_, .login len r hc hm hid hr ht ?_ (addUser_trees _ _)⟩
      · simp [Net.login, emit, addUser_log, setConn]
      · rw [login_conns, Function.update_self]
  | switch len hc hm hid hk ha => exact ⟨_, rfl, .msg len hc⟩
  | verify len r hc hm hid hr hq hn hcode htok hk hu =>
      refine ⟨_, ?_, .auth len r hc hid hr hq hn hcode htok hu⟩
      simp [Net.verify, emit, setConn, setBlock]
  | ask host u hn hs hm hu =>
      exact ⟨_, congrArg (· ++ _) (openStream_log ..), .wait host u _ _ _ none⟩
  | connect u fd ip port k hn hk hm hfd =>
      exact ⟨_, connectAgent_log .., .connect fd ip port u _ k hfd.2.2⟩
  | askAgain host u b hn hk hb hv hu => exact ⟨_, rfl, .wait host u _ _ _ _⟩
  | woken host => exact ⟨_, rfl, .answer host⟩
  | accept fd mem now ht hfd => exact ⟨_, rfl, .newfd fd hfd.2.2⟩
  | remove ht hn => exact ⟨[], by rw [remove_log, List.append_nil], .quiet⟩
  | read mode still offset hn hm => exact ⟨[], (List.append_nil _).symm, .quiet⟩
  | forwarded tn x bs hc hm ht => exact ⟨_, rfl, .fwd _ _ _ _ _ _⟩
  | upload tn bs bs' hx hc hm ht hty hk ha =>
      exact ⟨_, List.append_assoc .., .upload _ tn bs bs' hx hc hm hty⟩
  | download x bs bs' hc hm hty hk ht htn hfd =>
      exact ⟨_, List.append_assoc .., .download _ x bs bs' hty ht htn hfd⟩
  | hangUp offset hn hty hm => exact ⟨[], (List.append_nil _).symm, .quiet⟩
  | flush bs connecting still offset h hc => exact ⟨_, rfl, .flush bs h⟩
  | establish connecting hn hc hk ht => exact ⟨[], (List.append_nil _).symm, .quiet⟩

theorem Big.logs (h : Big w w') : ∃ l, w'.log = w.log ++ l ∧ Logs w w' l := by
  cases h with
  | act h => exact h.logs
  | giveUp ht hn hty hu hk => exact ⟨_, agentDown_log .., .agentDown _⟩
  | cutIgnored p t => exact ⟨_, rfl, .cut p t EAGAIN⟩
  | cutRemove e ht hn htn => exact ⟨_, remove_log .., .cut _ _ e⟩
  | @cutGiveUp fd p t n k e ht hn hty hu hk htn =>
      refine ⟨_, ?_, .cutDown p t e⟩
      rw [closeFd_log, agentDown_log]
      exact List.append_assoc ..
  | cutShut bs connecting still offset h hc => exact ⟨_, List.append_assoc .., .cutFlush bs h⟩
  | orphan ht hn hc hk => exact ⟨[], (List.append_nil _).symm, .quiet⟩

theorem big_grows : Grows Big Net.log := by
  intro w w' h
  obtain ⟨l, hl, -⟩ := h.logs
  exact ⟨l, hl.symm⟩

/-! ### Connections -/

/-- How connection `q` of a net comes to its fields by a step from `w` that leaves the log `log`. -/
inductive NodeStep (w : Net) (log : List Obs) (q : Ptr) : Node → Prop
  | same {m : Node} (h : w.conns q = some m) : NodeStep w log q m
  | moved {m : Node} (mode : Mode) (still offset : ℕ) (connecting : Bool) (h : w.conns q = some m)
      (hm : mode = .forward ↔ m.cstate = .forward) :
      NodeStep w log q
        { m with cstate := mode, still := still, offset := offset, connecting := connecting }
  | linked {m : Node} (k : ScbPtr) (h : w.conns q = some m) (hs : m.scb = none)
      (hm : m.cstate = .header) : NodeStep w log q { m with scb := some k }
  | lost {m : Node} (h : w.conns q = some m) (hty : m.type = .agent) :
      NodeStep w log q { m with scb := none, user := none }
  | login {c : Connect} (len : ℕ) (r : LoginReq) (h : w.conns q = some c.node)
      (hid : c.Gets len .loginReq)
      (hr : r = LoginReq.read c.dec.buff) (ht : 0 ∈ r.token)
      (hlog : log = w.log ++ [.msg q c len, .tokenReq q ⟨c.sockFd, r.app, r.mobile, r.token⟩]) :
      NodeStep w log q (loggedIn c.node r)
  | switch {c : Connect} (len : ℕ) (h : w.conns q = some c.node)
      (hid : c.Gets len .beginTransmit)
      (hlog : log = w.log ++ [.msg q c len]) :
      NodeStep w log q { c.node with cstate := .forward, still := buffSize }
  | verify {p : Ptr} {c : Connect} {m : Node} {u : UserId} (len : ℕ) (r : ReadTokenRsp)
      (h : w.conns q = some m) (hc : w.conns p = some c.node)
      (hid : c.Gets len .readTokenRsp)
      (hr : r = ReadTokenRsp.read c.dec.buff) (hq : w.table (tokenCid r) = some q)
      (hcode : r.rspCode = 0) (htok : cstr m.token = cstr r.token) (hu : m.user = some u)
      (hlog : log = w.log ++ [.msg p c len, .auth p c.type q r u]) :
      NodeStep w log q { m with verified := true }
  | accepted (fd : ℕ) (mem : Buff) (now : Timeval) (hq : q = w.next) (hfd : fd ∉ w.fds) :
      NodeStep w log q ((Connect.fresh mem).accepted fd now).node
  | agent (fd : ℕ) (u : UserId) (k : ScbPtr) (hq : q = w.next) (hfd : fd ∉ w.fds) :
      NodeStep w log q (linkedAgent fd u k)

/-- The connection whose fields a step sets has them; the others keep theirs. -/
theorem NodeStep.update {log : List Obs} {m' : Node} (hq : Function.update w.conns p (some m) q = some m')
    (h : NodeStep w log p m) : NodeStep w log q m' := by
  rw [Function.update_apply] at hq
  split_ifs at hq with hqp
  · cases hq
    exact hqp ▸ h
  · exact .same hq

theorem Act.node (h : Act w w') (hq : w'.conns q = some m) : NodeStep w w'.log q m := by
  cases h with
  | message | askAgain | woken | forwarded | upload | download => exact .same hq
  | login len r hc hm hid hr ht =>
      rw [login_conns] at hq
      refine .update hq (.login len r hc hid hr ht ?_)
      simp [Net.login, emit, addUser_log, setConn]
  | switch len hc hm hid hk ha => exact .update hq (.switch len hc hid rfl)
  | verify len r hc hm hid hr hq' hn hcode htok hk hu =>
      refine .update hq (.verify len r hn hc hid hr hq' hcode htok hu ?_)
      simp [Net.verify, emit, setConn, setBlock]
  | @ask t n host u hn hs hm hu =>
      change (w.openStream u t n none).conns q = some m at hq
      rw [openStream_conns] at hq
      split_ifs at hq with hqt
      · cases hq
        subst hqt
        exact hu ▸ .linked w.newKey hn hs hm
      · exact .same hq
  | connect u fd ip port k hn hk hm hfd =>
      rcases connectAgent_conns hq with ⟨hnext, j, rfl⟩ | ⟨rfl, hs, rfl⟩ | hq
      · exact .agent fd u j hnext hfd.2.2
      · exact (hm hs).2 ▸ .linked w.newKey hn hs (hm hs).1
      · exact .same hq
  | accept fd mem now ht hfd =>
      rw [newConn_conns] at hq
      split_ifs at hq with hnext
      · cases hq
        exact .accepted fd mem now hnext hfd.2.2
      · exact .same hq
  | remove ht hn => exact .same (remove_conns hq).2
  | read mode still offset hn hm => exact .update hq (.moved mode still offset _ hn hm)
  | hangUp offset hn hty hm => exact .update hq (.moved _ _ offset false hn Iff.rfl)
  | flush bs connecting still offset h hc =>
      exact .update hq (.moved _ still offset connecting h.agent Iff.rfl)
  | establish connecting hn hc hk ht => exact .update hq (.moved _ _ _ connecting hn Iff.rfl)

theorem Big.node (h : Big w w') (hq : w'.conns q = some m) : NodeStep w w'.log q m := by
  cases h with
  | act h => exact h.node hq
  | giveUp ht hn hty hu hk =>
      rcases agentDown_conns hq with ⟨rfl, rfl⟩ | hq
      · exact .lost hn hty
      · exact .same hq
  | cutIgnored p t => exact .same hq
  | cutRemove e ht hn htn => exact .same (remove_conns hq).2
  | cutGiveUp e ht hn hty hu hk htn =>
      rcases agentDown_conns hq with ⟨rfl, rfl⟩ | hq
      · exact .lost hn hty
      · exact .same hq
  | cutShut bs connecting still offset h hc =>
      exact .update hq (.moved _ still offset connecting h.agent Iff.rfl)
  | orphan ht hn hc hk => exact .update hq (.moved _ _ _ false hn Iff.rfl)

theorem Big.next_le (h : Big w w') : w.next ≤ w'.next := by
  cases h with
  | act h =>
      cases h with
      | login len r hc hm hid hr ht => exact (addUser_next (w.setConn _ _) _).ge
      | @ask t n host u hn hs hm hu => exact (openStream_next w u t n none).ge
      | connect u fd ip port k hn hk hm hfd =>
          rw [connectAgent_next]
          exact Nat.le_succ _
      | accept fd mem now ht hfd => exact Nat.le_succ _
      | remove ht hn => exact (remove_next ..).ge
      | _ => exact le_rfl
  | @giveUp fd p n k ht hn hty hu hk => exact (agentDown_next w fd p n k).ge
  | cutIgnored p t => exact le_rfl
  | cutRemove e ht hn htn => exact (remove_next (w.emit _) _ _ _).ge
  | @cutGiveUp fd p t n k e ht hn hty hu hk htn => exact (agentDown_next (w.emit _) fd p n k).ge
  | cutShut bs connecting still offset h hc => exact le_rfl
  | orphan ht hn hc hk => exact le_rfl

/-! ### The connection table -/

theorem Big.table_cases (h : Big w w') (ht : w'.table fd = some p) :
    w.table fd = some p ∨
      p = w.next ∧ fd ∉ w.fds ∧ ∃ l, w'.log = w.log ++ .newfd fd p :: l := by
  have hupd : ∀ {fd' l}, fd' ∉ w.fds → Function.update w.table fd' (some w.next) fd = some p →
      w'.log = w.log ++ .newfd fd' w.next :: l →
      w.table fd = some p ∨
        p = w.next ∧ fd ∉ w.fds ∧ ∃ l, w'.log = w.log ++ .newfd fd p :: l := by
    intro fd' l hfd' h hl
    rw [Function.update_apply] at h
    split_ifs at h with hf
    · cases h
      exact .inr ⟨rfl, hf ▸ hfd', l, hf ▸ hl⟩
    · exact .inl h
  cases h with
  | act h =>
      cases h with
      | @login p' c len r hc hm hid hr ht' =>
          have htable : (w.login p' c len r).table = w.table := addUser_table _ _
          exact .inl (htable ▸ ht)
      | @ask t n host u hn hs hm hu =>
          change (w.openStream u t n none).table fd = some p at ht
          exact .inl (openStream_table .. ▸ ht)
      | connect u fd ip port k hn hk hm hfd =>
          rw [connectAgent_table] at ht
          exact hupd hfd.2.2 ht (connectAgent_log ..)
      | accept fd mem now ht' hfd => exact hupd hfd.2.2 ht rfl
      | remove ht' hn => exact .inl (remove_table ht)
      | _ => exact .inl ht
  | @giveUp _ p' n k ht' hn hty hu hk => exact .inl (agentDown_table' (p := p') (n := n) (k := k) ht)
  | cutIgnored p t => exact .inl ht
  | cutRemove e ht' hn htn => exact .inl (remove_table (w := w.emit _) ht)
  | @cutGiveUp _ p' _ n k e ht' hn hty hu hk htn =>
      exact .inl (agentDown_table' (w := w.emit _) (p := p') (n := n) (k := k) ht)
  | cutShut bs connecting still offset h hc => exact .inl ht
  | orphan ht' hn hc hk =>
      change (Net.setTable _ _ none).table fd = some p at ht
      rw [setTable_table] at ht
      split_ifs at ht
      exact .inl ht

/-! ### Sockets shut down -/

/-- A descriptor is shut down, or has been closed. -/
def Held (fd : ℕ) (w : Net) : Prop := fd ∈ w.shut ∨ fd ∉ w.fds

theorem Held.congr (h : w.Held fd) (hs : w'.shut = w.shut) (hf : w'.fds = w.fds) : w'.Held fd := by
  unfold Held
  rwa [hs, hf]

theorem Held.closeFd (h : w.Held fd) (fd' : ℕ) : (w.closeFd fd').Held fd := by
  unfold Held at h ⊢
  unfold Net.closeFd
  by_cases hfd : fd = fd'
  · simp [hfd]
  · simpa [hfd] using h

theorem Held.delete (h : w.Held fd) (p : Ptr) (n : Node) : (w.delete p n).Held fd := by
  have h₁ : (if 0 < n.fd then w.closeFd n.fd else w).Held fd := by
    split_ifs
    · exact h.closeFd n.fd
    · exact h
  refine h₁.congr ?_ (unlink_fds _ n)
  unfold Net.delete unlink
  split <;> rfl

theorem Held.dropPeer (h : w.Held fd) (x : Option Ptr) : (w.dropPeer x).Held fd := by
  cases x with
  | none => exact h
  | some a =>
      cases hm : w.conns a with
      | none => rwa [dropPeer_gone hm]
      | some m =>
          rw [dropPeer_some hm]
          exact Held.delete (w := w.setTable m.fd none) h a m

theorem Held.remove (h : w.Held fd) (fd' : ℕ) (p : Ptr) (n : Node) : (w.remove fd' p n).Held fd := by
  have h₁ : (w.beforeRemove n).Held fd := by
    unfold Net.beforeRemove
    split
    · unfold Net.takeDown
      split <;> exact Held.dropPeer (w := w.setBlock _ _) h _
    · exact h
  exact h₁.delete p n

theorem Held.agentDown (h : w.Held fd) (fd' : ℕ) (p : Ptr) (n : Node) (k : ScbPtr) :
    (w.agentDown fd' p n k).Held fd :=
  Held.dropPeer (w := w.setTable fd' none) h _

/-- A socket stays shut down until it is closed. -/
theorem Big.held (h : Big w w') (hfd : fd ∈ w.shut) : w'.Held fd := by
  cases h with
  | act h =>
      cases h with
      | @login p c len r hc hm hid hr ht =>
          have hshut : (w.login p c len r).shut = w.shut := by
            unfold Net.login Net.addUser
            split <;> rfl
          exact .inl (hshut ▸ hfd)
      | @ask t n host u hn hs hm hu => exact .inl ((openStream_shut w u t n none).symm ▸ hfd)
      | connect u fd' ip port k hn hk hm hfd' => exact .inl ((connectAgent_shut ..).symm ▸ hfd)
      | remove ht hn => exact Held.remove (.inl hfd) _ _ _
      | _ => exact .inl hfd
  | giveUp ht hn hty hu hk => exact (Held.agentDown (.inl hfd) _ _ _ _).closeFd _
  | cutIgnored p t => exact .inl hfd
  | cutRemove e ht hn htn => exact Held.remove (w := w.emit _) (.inl hfd) _ _ _
  | cutGiveUp e ht hn hty hu hk htn =>
      exact (Held.agentDown (w := w.emit _) (.inl hfd) _ _ _ _).closeFd _
  | cutShut bs connecting still offset h hc => exact .inl (List.mem_cons_of_mem _ hfd)
  | orphan ht hn hc hk => exact .inl (List.mem_cons_of_mem _ hfd)

end Net

/-- **Induction over the runs of the server** under a condition on the log: what holds after
start-up and is kept by every step holds of every state reached. -/
theorem Runs.invariant_of_log {accurate : Bool} {errno err : ℕ} {mem : Buff} {s : Server}
    {P : List Obs → Prop} {I : Net → Prop} (h : Runs (Server.init accurate errno err mem) s)
    (hlog : P s.net.log) (hP : ∀ ⦃l l'⦄, l <+: l' → P l' → P l)
    (hinit : I (Server.init accurate errno err mem).net)
    (hstep : ∀ ⦃w w' : Net⦄, w.Big w' → w.Wf → P w'.log → I w → I w') : I s.net := by
  have hwf := init_wf accurate errno err mem
  have hI : s.net.Wf ∧ I s.net :=
    Net.big_grows.invariant (I := fun w => w.Wf ∧ I w) hP
      (fun _ _ hb hlog hI => ⟨hb.wf hI.1, hstep hb hI.1 hlog hI.2⟩) (h hwf) hlog ⟨hwf, hinit⟩
  exact hI.2

/-- The same for a condition on each entry. -/
theorem Runs.invariant {accurate : Bool} {errno err : ℕ} {mem : Buff} {s : Server} {ok : Obs → Prop}
    {I : Net → Prop} (h : Runs (Server.init accurate errno err mem) s) (hok : ∀ o ∈ s.log, ok o)
    (hinit : I (Server.init accurate errno err mem).net)
    (hstep : ∀ ⦃w w' : Net⦄, w.Big w' → w.Wf → (∀ o ∈ w'.log, ok o) → I w → I w') : I s.net :=
  h.invariant_of_log (P := fun l => ∀ o ∈ l, ok o) (fun o ho => hok o (List.mem_filter.mp ho).1)
    (fun _ _ hp hl o ho => hl o (hp.subset ho)) hinit hstep

end HttpsTunnel.Tms

import HttpsTunnel.Tms.Links

/-! # Streams that wait for an address

A stream that asks for the address of a host is entered into `waiting_scb` as a pair of a user and
a stream id, to be looked up in the user's `scb_tree` when the answer comes.  The log says who
really asked: `asks host` are the questions for `host` without an answer.

`WakeInv` relates the two: the waiters of a host are its questions, in order, and as long as the
tunnel that asked exists its tree entry leads to its own block, with the port it asked for.  It is
kept in runs in which a tunnel asks once (`Obs.AsksOnce`). -/

namespace HttpsTunnel.Tms

open HttpsTunnel.Lib HttpsTunnel.Wire Relation

/-! ### Questions -/

/-- A question for an address: who asked, for which stream, on which tunnel and for which port. -/
structure Ask where
  user : UserId
  scbid : ℕ
  tunnel : Ptr
  port : ℕ
deriving DecidableEq, Repr

/-- The entry of `waiting_scb` for a question. -/
def Ask.waiter (host : Host) (a : Ask) : Waiter := ⟨host, a.user, a.scbid⟩

/-- The questions for `host` without answer after an entry of the log. -/
def asksAfter (host : Host) (out : List Ask) : Obs → List Ask
  | .wait h u id t port _ => if h = host then out ++ [⟨u, id, t, port⟩] else out
  | .answer h => if h = host then [] else out
  | _ => out

/-- The questions for `host` without answer. -/
def asks (host : Host) (l : List Obs) : List Ask := l.foldl (asksAfter host) []

theorem asks_append (host : Host) (l m : List Obs) :
    asks host (l ++ m) = m.foldl (asksAfter host) (asks host l) := List.foldl_append

/-- The server's own messages and reports do not count. -/
theorem asks_filter (host : Host) (l : List Obs) : asks host (l.filter Obs.isKey) = asks host l := by
  induction l using List.reverseRecOn with
  | nil => rfl
  | append_singleton l o ih =>
      rw [List.filter_append, asks_append, asks_append, ih]
      cases o <;> rfl

/-- Neither a question nor an answer. -/
def Obs.isUnrelated : Obs → Bool
  | .wait _ _ _ _ _ _ => false
  | .answer _ => false
  | _ => true

theorem asks_unrelated (host : Host) (l m : List Obs) (h : m.all Obs.isUnrelated = true) :
    asks host (l ++ m) = asks host l := by
  rw [asks_append]
  induction m with
  | nil => rfl
  | cons o m ih =>
      rw [List.all_cons, Bool.and_eq_true] at h
      have hskip : asksAfter host (asks host l) o = asks host l := by
        cases o <;> first | rfl | cases h.1
      rw [List.foldl_cons, hskip, ih h.2]

/-- LOGIN_REQ is handled on a tunnel; a web server is connected for a stream without agent, to the
port of the stream; and a tunnel that waits for an address had no stream before. -/
def Obs.AsksOnce : Obs → Prop
  | .msg _ c len => c.Gets len .loginReq → c.type = .tunnel
  | .connect _ _ port _ _ k => k.all (fun b => b.agentConn = none ∧ b.destPort = port) = true
  | .wait _ _ _ _ _ k => k = none
  | _ => True

instance : DecidablePred Obs.AsksOnce
  | .msg _ _ _ => inferInstanceAs (Decidable (_ → _))
  | .connect _ _ _ _ _ _ => inferInstanceAs (Decidable (_ = _))
  | .wait _ _ _ _ _ _ => inferInstanceAs (Decidable (_ = _))
  | .fwd .. | .relay .. | .ctl .. | .sent .. | .tokenReq .. | .auth .. | .cutoff ..
  | .newfd .. | .answer .. | .agentDown .. | .report .. => isTrue trivial

theorem Obs.AsksOnce.linkable {o : Obs} (h : o.AsksOnce) : o.Linkable := by
  cases o with
  | msg p c len => exact h
  | connect p ip port u t k =>
      cases k with
      | none => rfl
      | some b =>
          simp only [Obs.AsksOnce, Option.all_some, decide_eq_true_eq] at h
          simpa [Obs.Linkable] using h.1
  | _ => exact trivial

namespace Net

variable {w w' : Net} {p q t : Ptr} {n m : Node} {k j : ScbPtr} {a : Ask}

/-! ### Trees and waiting lists -/

/-- What removal leaves alone. -/
def rest (w : Net) : (UserId → Option (ℕ → Option ScbPtr)) × ℕ × List Waiter :=
  (w.trees, w.lastId, w.waiting)

theorem unlink_rest (w : Net) (n : Node) : (w.unlink n).rest = w.rest := by
  unfold unlink; split <;> rfl

theorem delete_rest (w : Net) (p : Ptr) (n : Node) : (w.delete p n).rest = w.rest := by
  by_cases h : 0 < n.fd
  · simp only [delete, h, if_true]
    exact unlink_rest (w.closeFd n.fd) n
  · simp only [delete, h, if_false]
    exact unlink_rest w n

theorem dropPeer_rest (w : Net) (x : Option Ptr) : (w.dropPeer x).rest = w.rest := by
  unfold dropPeer
  split
  · rfl
  · split
    · rfl
    · exact delete_rest _ _ _

theorem takeDown_rest (w : Net) (n : Node) (k : ScbPtr) : (w.takeDown n k).rest = w.rest := by
  unfold takeDown; split <;> exact dropPeer_rest _ _

theorem remove_rest (w : Net) (fd : ℕ) (p : Ptr) (n : Node) : (w.remove fd p n).rest = w.rest := by
  unfold remove beforeRemove
  split
  · exact (delete_rest _ p n).trans (takeDown_rest w n _)
  · exact delete_rest _ p n

theorem agentDown_rest (w : Net) (fd : ℕ) (p : Ptr) (n : Node) (k : ScbPtr) :
    (w.agentDown fd p n k).rest = w.rest := dropPeer_rest _ _

theorem newBlock_rest (w : Net) : w.newBlock.rest = (w.trees, w.lastId + 1, w.waiting) := by
  unfold newBlock; split <;> rfl

theorem openStream_rest (w : Net) (u : UserId) (t : Ptr) (n : Node) (agent : Option Ptr) :
    (w.openStream u t n agent).rest =
      ((w.insertTree u (w.lastId + 1) w.newKey).trees, w.lastId + 1, w.waiting) := by
  have h := newBlock_rest w
  simp only [rest, Prod.mk.injEq] at h
  obtain ⟨ht, hid, hwait⟩ := h
  simp only [openStream, rest, insertTree, setConn, setBlock, ht, hid, hwait]

theorem addUser_rest (w : Net) (u : UserId) : (w.addUser u).lastId = w.lastId ∧
    (w.addUser u).waiting = w.waiting := by
  unfold addUser; split <;> exact ⟨rfl, rfl⟩

/-- What a step does to the trees. -/
inductive TreeStep (w w' : Net) : Prop
  | same (ht : w'.trees = w.trees) (hid : w'.lastId = w.lastId)
  | user (u : UserId) (ht : w'.trees = (w.addUser u).trees) (hid : w'.lastId = w.lastId)
  | opened (u : UserId) (k : ScbPtr) (ht : w'.trees = (w.insertTree u (w.lastId + 1) k).trees)
      (hid : w'.lastId = w.lastId + 1)

/-- Tree entries are kept. -/
theorem TreeStep.mono (h : TreeStep w w') {u : UserId} {tr : ℕ → Option ScbPtr}
    (hu : w.trees u = some tr) :
    ∃ tr', w'.trees u = some tr' ∧ ∀ {id k}, tr id = some k → tr' id = some k := by
  cases h with
  | same ht hid => exact ⟨tr, ht ▸ hu, fun hk => hk⟩
  | user v ht hid =>
      rw [ht]
      unfold addUser
      split
      · exact ⟨tr, hu, fun hk => hk⟩
      · next hv =>
          have hne : u ≠ v := fun he => by simp [he, hv] at hu
          exact ⟨tr, (Function.update_of_ne hne _ _).trans hu, fun hk => hk⟩
  | opened v j ht hid =>
      rw [ht]
      simp only [insertTree]
      by_cases hv : u = v
      · subst hv
        rw [Function.update_self, hu, Option.map_some]
        refine ⟨_, rfl, fun hk => ?_⟩
        rw [Function.update_apply]
        split_ifs with hi
        · rw [← hi, hk, Option.getD_some]
        · exact hk
      · exact ⟨tr, by rw [Function.update_of_ne hv, hu], fun hk => hk⟩

/-- The ids of tree entries have been given out. -/
def TreeIds (w : Net) : Prop := ∀ {u tr id k}, w.trees u = some tr → tr id = some k → id ≤ w.lastId

theorem TreeStep.ids (h : TreeStep w w') (hI : w.TreeIds) : w'.TreeIds := by
  intro u tr id k hu hk
  cases h with
  | same ht hid => exact hid ▸ hI (ht ▸ hu) hk
  | user v ht hid =>
      rw [hid]
      rw [ht] at hu
      unfold addUser at hu
      split at hu
      · exact hI hu hk
      · simp only [Function.update_apply] at hu
        split_ifs at hu
        · cases hu
          cases hk
        · exact hI hu hk
  | opened v j ht hid =>
      rw [hid]
      rw [ht] at hu
      simp only [insertTree, Function.update_apply] at hu
      split_ifs at hu with hv
      · obtain ⟨tr', htr', rfl⟩ := Option.map_eq_some_iff.mp hu
        rw [Function.update_apply] at hk
        split_ifs at hk with hi
        · omega
        · exact (hI htr' hk).trans (Nat.le_succ _)
      · exact (hI hu hk).trans (Nat.le_succ _)

theorem TreeStep.of_rest (h : w'.rest = w.rest) : TreeStep w w' :=
  .same (congrArg Prod.fst h) (congrArg (fun x => x.2.1) h)

theorem connectAgent_rest (w : Net) (u : UserId) (t : Ptr) (n : Node) (fd port : ℕ) (o : Obs) :
    TreeStep w (w.connectAgent u t n fd port o) ∧
      (w.connectAgent u t n fd port o).waiting = w.waiting := by
  cases hs : n.scb with
  | some k =>
      rw [connectAgent_some hs]
      exact ⟨.same rfl rfl, rfl⟩
  | none =>
      have h := openStream_rest ((w.newConn fd (linkedAgent fd u w.newKey)).emit o) u t n (some w.next)
      simp only [connectAgent, hs]
      exact ⟨.opened u _ (congrArg Prod.fst h) (congrArg (fun x => x.2.1) h),
        congrArg (fun x => x.2.2) h⟩

theorem Act.trees (h : Act w w') : TreeStep w w' := by
  cases h with
  | login len r hc hm hid hr ht =>
      refine .user ⟨r.mobile, r.app⟩ ?_ (addUser_rest _ _).1
      show (addUser _ _).trees = (addUser _ _).trees
      unfold addUser setConn
      simp only
      split <;> rfl
  | @ask t n host u hn hs hm hu =>
      have h := openStream_rest w u t n none
      exact .opened u _ (congrArg Prod.fst h) (congrArg (fun x => x.2.1) h)
  | connect u fd ip port k hn hk hm hfd => exact (connectAgent_rest ..).1
  | @remove fd p n ht hn => exact .of_rest (remove_rest w fd p n)
  | _ => exact .same rfl rfl

theorem Big.trees (h : Big w w') : TreeStep w w' := by
  cases h with
  | act h => exact h.trees
  | @giveUp fd p n k ht hn hty hu hk => exact .of_rest (agentDown_rest w fd p n k)
  | @cutRemove fd p t n e ht hn htn => exact .of_rest (remove_rest (w.emit _) fd p n)
  | @cutGiveUp fd p t n k e ht hn hty hu hk htn => exact .of_rest (agentDown_rest (w.emit _) fd p n k)
  | _ => exact .same rfl rfl

/-- What a step does to the waiting streams. -/
inductive WaitStep (w w' : Net) : Prop
  | same (hw : w'.waiting = w.waiting) (hl : ∀ host, asks host w'.log = asks host w.log)
  | ask {t : Ptr} {n : Node} (host : Host) (u : UserId) (hn : w.conns t = some n)
      (hs : n.scb = none) (hm : n.cstate = .header) (hu : n.user = some u)
      (he : w' = (w.openStream u t n none).addWaiter host u u (w.lastId + 1) t n.destPort none)
  | again (host : Host) (u : UserId) (id : ℕ) (t : Ptr) (port : ℕ) (b : SCB)
      (hlog : .wait host u id t port (some b) ∈ w'.log)
  | woken (host : Host) (hw : w'.waiting = w.waiting.filter (·.host ≠ host))
      (hlog : w'.log = w.log ++ [.answer host])

theorem WaitStep.of_log {l : List Obs} (hw : w'.waiting = w.waiting) (hl : w'.log = w.log ++ l)
    (h : l.all Obs.isUnrelated = true) : WaitStep w w' :=
  .same hw fun host => hl ▸ asks_unrelated host w.log l h

theorem Act.waits (h : Act w w') : WaitStep w w' := by
  cases h with
  | @login p c len r hc hm hid hr ht =>
      refine .of_log (l := [.msg p c len, .tokenReq p ⟨c.sockFd, r.app, r.mobile, r.token⟩])
        (addUser_rest _ _).2 ?_ rfl
      simp [Net.login, emit, addUser_log, setConn]
  | ask host u hn hs hm hu => exact .ask host u hn hs hm hu rfl
  | askAgain host u b hn hk hb hv hu =>
      exact .again host u _ _ _ b (List.mem_append_right _ (List.mem_singleton_self _))
  | woken host => exact .woken host rfl rfl
  | @connect t n u fd ip port k hn hk hm hfd =>
      exact .of_log (connectAgent_rest w u t n fd port _).2 (connectAgent_log ..)
        rfl
  | @remove fd p n ht hn =>
      refine .of_log (l := []) (congrArg (fun x => x.2.2) (remove_rest w fd p n)) ?_ rfl
      rw [remove_log, List.append_nil]
  | message len hc hm => exact .of_log rfl rfl rfl
  | switch len hc hm hid hk ha => exact .of_log rfl rfl rfl
  | @verify p q c m k u len r hc hm hid hr hq hn hcode htok hk hu =>
      refine .of_log (l := [.msg p c len, .auth p c.type q r u]) rfl ?_ rfl
      simp [Net.verify, emit, setConn, setBlock]
  | accept fd mem now ht hfd => exact .of_log rfl rfl rfl
  | forwarded tn x bs hc hm ht => exact .of_log rfl rfl rfl
  | @upload p a c k tn x bs bs' hx hc hm ht hty hk ha =>
      refine .of_log (l := [.fwd p c (c.sockFd ∈ w.shut) tn x bs, .relay .up p a bs']) rfl ?_ rfl
      simp [emit]
  | @download p t c tn k x bs bs' hc hm hty hk ht htn hfd =>
      refine .of_log (l := [.fwd p c (c.sockFd ∈ w.shut) (some tn) x bs, .relay .down t p bs']) rfl
        ?_ rfl
      simp [emit]
  | flush bs connecting still offset hf hc => exact .of_log rfl rfl rfl
  | read | hangUp | establish => exact .of_log (l := []) rfl (List.append_nil _).symm rfl

theorem Big.waits (h : Big w w') : WaitStep w w' := by
  cases h with
  | act h => exact h.waits
  | @giveUp fd p n k ht hn hty hu hk =>
      exact .of_log (congrArg (fun x => x.2.2) (agentDown_rest w fd p n k)) (agentDown_log ..)
        rfl
  | cutIgnored p t => exact .of_log rfl rfl rfl
  | @cutRemove fd p t n e ht hn htn =>
      exact .of_log (congrArg (fun x => x.2.2) (remove_rest (w.emit _) fd p n)) (remove_log ..)
        rfl
  | @cutGiveUp fd p t n k e ht hn hty hu hk htn =>
      refine .of_log (l := [.cutoff p t (some e), .agentDown p])
        (congrArg (fun x => x.2.2) (agentDown_rest (w.emit _) fd p n k)) ?_ rfl
      simp [closeFd_log, agentDown_log, emit]
  | @cutShut fd p a n m bs connecting still offset hf hc =>
      refine .of_log (l := [.relay .down p a bs, .cutoff p p none]) rfl ?_ rfl
      simp [flushed, emit, setConn]
  | orphan ht hn hc hk => exact .of_log (l := []) rfl (List.append_nil _).symm rfl

/-! ### The invariant -/

/-- The block `k` that a question leads to: the block of its tunnel while that exists, and then no
tunnel's block until it is given a new id. -/
structure Holds (w : Net) (a : Ask) (k : ScbPtr) : Prop where
  live : w.conns a.tunnel ≠ none → (w.blocks k).tunnel = some a.tunnel ∧
    (w.blocks k).scbid = a.scbid ∧ (w.blocks k).destPort = a.port
  dead : w.conns a.tunnel = none → (w.blocks k).scbid = a.scbid → (w.blocks k).tunnel = none

theorem Holds.congr (h : w.Holds a k) (hc : w'.conns a.tunnel = none ↔ w.conns a.tunnel = none)
    (ht : (w'.blocks k).tunnel = (w.blocks k).tunnel) (hid : (w'.blocks k).scbid = (w.blocks k).scbid)
    (hp : (w'.blocks k).destPort = (w.blocks k).destPort) : w'.Holds a k := by
  constructor
  · rw [ne_eq, hc, ht, hid, hp]
    exact h.live
  · rw [hc, ht, hid]
    exact h.dead

theorem Holds.sameLinks (h : w.Holds a k) (hs : SameLinks w w') : w'.Holds a k :=
  h.congr (by rw [hs.conns]) (hs.tunnel k) (congrArg Block.scbid (hs.block k) :)
    (congrArg Block.destPort (hs.block k) :)

theorem Holds.setConn (h : w.Holds a k) (hn : w.conns p = some n) (m : Node) :
    (w.setConn p m).Holds a k := by
  refine h.congr ?_ rfl rfl rfl
  rw [setConn_conns]
  split_ifs with hp
  · simp [hp, hn]
  · rfl

/-- The tunnel that asked is linked to its block. -/
theorem Holds.scb (h : w.Holds a k) (hw : w.Wf) (hn : w.conns a.tunnel = some n) :
    n.type ≠ .agent ∧ n.scb = some k :=
  hw.tunnel (h.live (hn ▸ Option.some_ne_none n)).1 hn

theorem Holds.openStream (h : w.Holds a k) (hl : w.Links) (hw : w.Wf) (hid : a.scbid ≤ w.lastId)
    (hn : w.conns t = some n) (u : UserId) : (w.openStream u t n none).Holds a k := by
  have hconn : (w.openStream u t n none).conns a.tunnel = none ↔ w.conns a.tunnel = none := by
    rw [openStream_conns]
    split_ifs with ht
    · simp [ht, hn]
    · rfl
  by_cases hk : k = w.newKey
  · -- the block was free, so the tunnel that asked is gone, and the new id is another one
    have hgone : w.conns a.tunnel = none := by
      by_contra hne
      obtain ⟨m, hm⟩ := Option.ne_none_iff_exists'.mp hne
      exact hl.scb_ne_newKey hm (h.scb hw hm).2 hk
    refine ⟨fun hne => absurd (hconn.mpr hgone) hne, fun _ he => ?_⟩
    rw [openStream_blocks, if_pos hk] at he
    change (w.newBlock.blocks w.newKey).scbid = a.scbid at he
    rw [newBlock_scbid] at he
    omega
  · have hb : (w.openStream u t n none).blocks k = w.blocks k := by
      rw [openStream_blocks, if_neg hk, (newBlock_other w hk).1]
    exact h.congr hconn (by rw [hb]) (by rw [hb]) (by rw [hb])

theorem Holds.newConn (h : w.Holds a k) (hlt : a.tunnel < w.next) (fd : ℕ) (n : Node) :
    (w.newConn fd n).Holds a k := by
  refine h.congr ?_ rfl rfl rfl
  rw [newConn_conns, if_neg hlt.ne]

theorem Holds.attach (h : w.Holds a k) (hlt : a.tunnel < w.next) {port : ℕ}
    (hp : (w.blocks j).destPort = port) (fd : ℕ) (u : UserId) (o : Obs) :
    (w.attach fd u j port o).Holds a k := by
  refine h.congr ?_ (attach_tunnel ..) ?_ ?_
  · rw [attach_conns, if_neg hlt.ne]
  · rw [attach_blocks]
    split_ifs with hk
    · rw [hk]
    · rfl
  · rw [attach_blocks]
    split_ifs with hk
    · rw [hk, hp]
    · rfl

theorem Holds.erase {gone : Ptr → Prop} {cut freed : List ScbPtr} (h : w.Holds a k) (hw : w.Wf)
    (he : Erased w w' gone cut freed) : w'.Holds a k := by
  constructor
  · intro hne
    obtain ⟨m, hm⟩ := Option.ne_none_iff_exists'.mp hne
    rcases he.conns hm with ⟨hg, hm⟩ | ⟨-, -, n, hn, hty⟩
    · have hnc : k ∉ cut := fun hc => hg (he.sidesGone hc hm (h.scb hw hm).2)
      rw [he.other hnc]
      exact h.live (hm ▸ Option.some_ne_none m)
    · exact absurd hty (h.scb hw hn).1
  · intro hnone hid
    by_cases hc : k ∈ cut
    · exact (he.self hc).1
    · rw [he.other hc] at hid ⊢
      refine h.dead ?_ hid
      by_contra hne
      obtain ⟨m, hm⟩ := Option.ne_none_iff_exists'.mp hne
      have hg : gone a.tunnel := by
        by_contra hg
        cases hnone.symm.trans (he.stays hg hm)
      exact hc (he.linksCut hg hm (h.scb hw hm).2)

theorem Holds.step (h : w.Holds a k) (hl : w.Links) (hw : w.Wf) (hid : a.scbid ≤ w.lastId)
    (hlt : a.tunnel < w.next) (hs : LinkStep w w') (hok : ∀ o ∈ w'.log, o.AsksOnce) :
    w'.Holds a k := by
  cases hs with
  | same hs => exact h.sameLinks hs
  | moved hn hfd hty hscb hu hcl hs => exact (h.setConn hn _).sameLinks hs
  | opened u hn hty hs => exact (h.openStream hl hw hid hn u).sameLinks hs
  | accepted hfd hty hu hscb he => exact he ▸ h.newConn hlt _ _
  | @connected t n fd u ip port b hfd hn hty hb hag he =>
      have hport : b.all (fun b => b.agentConn = none ∧ b.destPort = port) = true :=
        hok (.connect w.next ip port u t b) (by simp [he, connectAgent_log])
      subst he
      cases hs : n.scb with
      | some j =>
          rw [hs, Option.map_some] at hb
          obtain ⟨b, rfl, hbj⟩ := Option.map_eq_some_iff.mp hb
          rw [Option.all_some, decide_eq_true_eq] at hport
          rw [connectAgent_some hs]
          exact h.attach hlt (hbj ▸ hport.2) fd u _
      | none =>
          rw [connectAgent_none hs (hw.fresh hn).ne]
          refine (h.openStream hl hw hid hn u).attach ?_ ?_ fd u _
          · rw [openStream_next]
            exact hlt
          · rw [openStream_blocks, if_pos rfl]
  | removed he => exact h.erase hw he
  | lost p he hlog => exact h.erase hw he

/-- What holds of a question without answer. -/
structure Asked (w : Net) (a : Ask) : Prop where
  id : a.scbid ≤ w.lastId
  old : a.tunnel < w.next
  entry : ∃ tr k, w.trees a.user = some tr ∧ tr a.scbid = some k ∧ w.Holds a k

theorem Asked.step (h : w.Asked a) (hl : w.Links) (hw : w.Wf) (hs : Big w w')
    (hok : ∀ o ∈ w'.log, o.AsksOnce) : w'.Asked a := by
  obtain ⟨tr, k, htr, hk, hh⟩ := h.entry
  obtain ⟨tr', htr', hk'⟩ := hs.trees.mono htr
  refine ⟨?_, h.old.trans_le hs.next_le, tr', k, htr', hk' hk, ?_⟩
  · cases hs.trees with
    | same ht hid => exact hid ▸ h.id
    | user u ht hid => exact hid ▸ h.id
    | opened u k ht hid => exact hid ▸ h.id.trans (Nat.le_succ _)
  · exact hh.step hl hw h.id h.old (hl.big_step hw hs fun o ho => (hok o ho).linkable) hok

/-- The waiting streams and the questions asked. -/
structure WakeInv (w : Net) : Prop where
  ids : w.TreeIds
  /-- The user of a tunnel exists. -/
  user : ∀ {p n u}, w.conns p = some n → n.type ≠ .agent → n.user = some u → w.trees u ≠ none
  waiting : ∀ host, w.waiting.filter (·.host = host) = (asks host w.log).map (Ask.waiter host)
  asked : ∀ {host a}, a ∈ asks host w.log → w.Asked a
  /-- Streams ask in the order of their ids. -/
  sorted : ∀ host, (asks host w.log).Pairwise fun a b => a.scbid < b.scbid

/-- The user a token request is made for exists. -/
theorem Logs.user {l : List Obs} {x : ReadTokenReq} (h : Logs w w' l) (hx : .tokenReq p x ∈ l) :
    w'.trees ⟨x.mobile, x.app⟩ ≠ none := by
  cases h with
  | login len r hc hm hid hr ht hp hu =>
      simp only [List.mem_cons, reduceCtorEq, Obs.tokenReq.injEq, List.not_mem_nil, or_false,
        false_or] at hx
      rw [hx.2]
      exact hu
  | _ => simp at hx

theorem WakeInv.user_step (hI : w.WakeInv) (h : Big w w') {u : UserId} (hn : w'.conns p = some n)
    (hty : n.type ≠ .agent) (hu : n.user = some u) : w'.trees u ≠ none := by
  have hmono : ∀ {v}, w.trees v ≠ none → w'.trees v ≠ none := by
    intro v hv
    obtain ⟨tr, htr⟩ := Option.ne_none_iff_exists'.mp hv
    obtain ⟨tr', htr', -⟩ := h.trees.mono htr
    exact htr' ▸ Option.some_ne_none tr'
  cases h.node hn with
  | same h => exact hmono (hI.user h hty hu)
  | moved mode still offset connecting h hm => exact hmono (hI.user h hty hu)
  | linked k h hs hm => exact hmono (hI.user h hty hu)
  | lost h hty => cases hu
  | login len r hq hid hr ht hlog =>
      obtain ⟨l, hl, hlogs⟩ := h.logs
      obtain rfl := List.append_cancel_left (hl.symm.trans hlog)
      cases hu
      exact hlogs.user (List.mem_cons_of_mem _ (List.mem_singleton_self _))
  | switch len h hid hlog => exact hmono (hI.user h hty hu)
  | verify len r h hc hid hr hq hcode htok hu' hlog => exact hmono (hI.user h hty hu)
  | accepted fd mem now hq hfd => cases hu
  | agent fd u k hq hfd => exact absurd rfl hty

theorem filter_host_ne {host host' : Host} (l : List Waiter) (h : host' ≠ host) :
    (l.filter (·.host ≠ host)).filter (·.host = host') = l.filter (·.host = host') := by
  rw [List.filter_filter]
  refine List.filter_congr fun x _ => ?_
  by_cases hx : x.host = host'
  · simp [hx, h]
  · simp [hx]

/-- A stream that asks is found under its id. -/
theorem WakeInv.openStream_asked (hI : w.WakeInv) (hw : w.Wf) (hn : w.conns t = some n)
    (hm : n.cstate = .header) {u : UserId} (hu : n.user = some u) :
    (w.openStream u t n none).Asked ⟨u, w.lastId + 1, t, n.destPort⟩ := by
  obtain ⟨tr, htr⟩ := Option.ne_none_iff_exists'.mp (hI.user hn (hw.not_agent hn hm) hu)
  have hnew : tr (w.lastId + 1) = none := by
    by_contra hne
    obtain ⟨k, hk⟩ := Option.ne_none_iff_exists'.mp hne
    exact absurd (hI.ids htr hk) (Nat.not_succ_le_self _)
  have hrest := openStream_rest w u t n none
  have hid : (w.openStream u t n none).lastId = w.lastId + 1 := congrArg (fun x => x.2.1) hrest
  have htrees : (w.openStream u t n none).trees = (w.insertTree u (w.lastId + 1) w.newKey).trees :=
    congrArg Prod.fst hrest
  refine ⟨hid.ge, ?_, Function.update tr (w.lastId + 1) (some w.newKey), w.newKey, ?_, ?_, ?_, ?_⟩
  · rw [openStream_next]
    exact hw.fresh hn
  · rw [htrees]
    simp [insertTree, htr, hnew]
  · rw [Function.update_self]
  · intro _
    rw [openStream_blocks, if_pos rfl]
    exact ⟨rfl, newBlock_scbid w, rfl⟩
  · intro hnone
    rw [openStream_conns, if_pos rfl] at hnone
    cases hnone

/-- **The waiting streams stay in step with the questions.** -/
theorem WakeInv.step (hI : w.WakeInv) (hl : w.Links) (hw : w.Wf) (h : Big w w')
    (hok : ∀ o ∈ w'.log, o.AsksOnce) : w'.WakeInv := by
  have hold : ∀ {host a}, a ∈ asks host w.log → w'.Asked a := fun ha => (hI.asked ha).step hl hw h hok
  cases h.waits with
  | same hwait hask =>
      exact ⟨h.trees.ids hI.ids, hI.user_step h, fun host => by rw [hwait, hask, hI.waiting],
        fun ha => hold (hask _ ▸ ha), fun host => hask host ▸ hI.sorted host⟩
  | @ask t n host u hn hs hm hu he =>
      have hwait : w'.waiting = w.waiting ++ [⟨host, u, w.lastId + 1⟩] := by
        rw [he]
        exact congrArg (· ++ _) (congrArg (fun x => x.2.2) (openStream_rest w u t n none))
      have hask : ∀ host', asks host' w'.log = asks host' w.log ++
          if host = host' then [⟨u, w.lastId + 1, t, n.destPort⟩] else [] := by
        intro host'
        have hlog : w'.log = w.log ++ [.wait host u (w.lastId + 1) t n.destPort none] := by
          rw [he]
          exact congrArg (· ++ _) (openStream_log ..)
        rw [hlog, asks_append]
        simp only [List.foldl_cons, List.foldl_nil, asksAfter]
        split_ifs <;> simp
      have hnew : w'.Asked ⟨u, w.lastId + 1, t, n.destPort⟩ := by
        obtain ⟨hid, hold, hentry⟩ := hI.openStream_asked hw hn hm hu
        rw [he]
        obtain ⟨tr, k, htr, hk, hlive, hdead⟩ := hentry
        exact ⟨hid, hold, tr, k, htr, hk, hlive, hdead⟩
      refine ⟨h.trees.ids hI.ids, hI.user_step h, fun host' => ?_, fun {host' a} ha => ?_,
        fun host' => ?_⟩
      · rw [hwait, hask, List.filter_append, hI.waiting, List.map_append]
        congr 1
        split_ifs with hh
        · simp [hh, Ask.waiter]
        · simp [hh]
      · rw [hask] at ha
        rcases List.mem_append.mp ha with ha | ha
        · exact hold ha
        · split_ifs at ha
          · exact List.mem_singleton.mp ha ▸ hnew
          · cases ha
      · rw [hask]
        refine List.pairwise_append.mpr ⟨hI.sorted host', ?_, fun a ha b hb => ?_⟩
        · split_ifs <;> simp
        · split_ifs at hb
          · rw [List.mem_singleton.mp hb]
            exact Nat.lt_succ_of_le (hI.asked ha).id
          · cases hb
  | again host u id t port b hlog => cases hok _ hlog
  | woken host hwait hlog =>
      have hask : ∀ host', asks host' w'.log = if host = host' then [] else asks host' w.log := by
        intro host'
        rw [hlog, asks_append]
        rfl
      refine ⟨h.trees.ids hI.ids, hI.user_step h, fun host' => ?_, fun {host' a} ha => ?_,
        fun host' => ?_⟩
      · rw [hwait, hask]
        split_ifs with hh
        · subst hh
          rw [List.filter_filter]
          simp
        · rw [filter_host_ne _ (Ne.symm hh), hI.waiting]
      · rw [hask] at ha
        split_ifs at ha
        · cases ha
        · exact hold ha
      · rw [hask]
        split_ifs
        · exact List.Pairwise.nil
        · exact hI.sorted host'

theorem init_wakeInv (accurate : Bool) (errno err : ℕ) (mem : Buff) :
    (Server.init accurate errno err mem).net.WakeInv where
  ids h := by cases h
  user h _ hu := by simp [(init_conns h).user] at hu
  waiting _ := rfl
  asked h := by cases h
  sorted _ := List.Pairwise.nil

end Net

end HttpsTunnel.Tms

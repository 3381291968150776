import HttpsTunnel.Tms.Links

/-! # Who owns a stream control block

A block is either in the free list, or it belongs to a stream: a tunnel, perhaps with an agent,
whose connections and block point at each other.  This is kept as long as streams are used as they
are meant to be (`Obs.Orderly`): logins come on tunnels, an agent is connected for a stream that
has none, and no agent is taken down by `InformShutdownUser`, which deletes the tunnel but does not
recycle the block (`block_leak`).

`ownership` says it of the program's variables. -/

namespace HttpsTunnel.Tms

open HttpsTunnel.Lib HttpsTunnel.Wire Relation

/-- LOGIN_REQ is handled on a tunnel, a web server is connected for a stream without agent, and
`InformShutdownUser` finds no agent of a stream. -/
def Obs.Orderly : Obs → Prop
  | .msg _ c len => c.Gets len .loginReq → c.type = .tunnel
  | .connect _ _ _ _ _ k => k.all (·.agentConn = none) = true
  | .agentDown _ => False
  | _ => True

instance : DecidablePred Obs.Orderly
  | .msg _ _ _ => inferInstanceAs (Decidable (_ → _))
  | .connect _ _ _ _ _ _ => inferInstanceAs (Decidable (_ = true))
  | .agentDown _ => isFalse id
  | .fwd .. | .relay .. | .ctl .. | .sent .. | .tokenReq .. | .auth .. | .cutoff ..
  | .newfd .. | .wait .. | .answer .. | .report .. => isTrue trivial

theorem Obs.Orderly.linkable {o : Obs} (h : o.Orderly) : o.Linkable := by
  cases o <;> first | exact h | exact trivial

namespace Net

variable {w w' : Net}

/-- A block in use has a tunnel. -/
def Used (w : Net) : Prop := ∀ k < w.nextBlock, k ∉ w.free → w.HasTunnel k

theorem Used.congr (h : w.Used) (hs : SameLinks w w') : w'.Used :=
  fun k hk hf => (h k (hs.nextBlock ▸ hk) (hs.free ▸ hf)).congr hs

theorem Used.openStream (h : w.Used) (u : UserId) (t : Ptr) (n : Node) :
    (w.openStream u t n none).Used := by
  intro k hk hf
  by_cases hne : k = w.newKey
  · exact hne ▸ hasTunnel_newKey w u t n
  · obtain ⟨-, hfree, hlt⟩ := newBlock_other w hne
    exact (h k (hlt.mp hk) fun hx => hf (hfree.mpr hx)).openStream hne u t n

theorem Used.attach (h : w.Used) (hw : w.Wf) (fd : ℕ) (u : UserId) (k : ScbPtr) (port : ℕ)
    (o : Obs) : (w.attach fd u k port o).Used :=
  fun j hj hf => (h j hj hf).attach hw fd u k port o

theorem Used.connectAgent (h : w.Used) (hw : w.Wf) {t : Ptr} {n : Node} (hn : w.conns t = some n)
    (hty : n.scb = none → n.type = .tunnel) (u : UserId) (fd port : ℕ) (o : Obs) :
    (w.connectAgent u t n fd port o).Used := by
  cases hs : n.scb with
  | some k =>
      rw [connectAgent_some hs]
      exact h.attach hw fd u k port o
  | none =>
      have hw₁ := hw.openStream hn hs (by rw [hty hs]; decide) u none (by simp)
      rw [connectAgent_none hs (hw.fresh hn).ne]
      exact (h.openStream u t n).attach hw₁ fd u w.newKey n.destPort o

theorem Used.erase {gone : Ptr → Prop} {cut : List ScbPtr} (h : w.Used) (hw : w.Wf)
    (he : Erased w w' gone cut cut) : w'.Used := by
  intro k hk hf
  rw [he.free, List.mem_append, not_or] at hf
  exact (h k (he.nextBlock ▸ hk) hf.1).erase hw he hf.2

theorem Used.step (h : w.Used) (hl : w.Links) (hw : w.Wf) (hs : Big w w')
    (hok : ∀ o ∈ w'.log, o.Orderly) : w'.Used := by
  cases hl.big_step hw hs fun o ho => (hok o ho).linkable with
  | same hs => exact h.congr hs
  | moved hn hfd hty hscb hu hcl hs =>
      exact Used.congr (w := w.setConn _ _) (fun k hk hf => (h k hk hf).setConn _ _) hs
  | opened u hn hty hs => exact (h.openStream u _ _).congr hs
  | accepted hfd hty hu hscb he => exact he ▸ fun k hk hf => (h k hk hf).newConn hw _ _
  | connected u ip port b hfd hn hty hb hag he => exact he ▸ h.connectAgent hw hn hty u _ port _
  | removed he => exact h.erase hw he
  | lost p he hlog => exact (hok _ hlog).elim

end Net

/-- **Every stream control block has one owner**, in a run in which logins come on tunnels, agents
are connected for streams that have none, and no agent of a stream is taken down by
`InformShutdownUser`: the free list has no block twice, no connection of the table refers to a free
block, blocks point back at the connections that refer to them, and every block in use is referred
to by a connection of the table. -/
theorem ownership {accurate : Bool} {errno err : ℕ} {mem : Buff} {s : Server}
    {pending : List Event} (h : Reachable (Server.init accurate errno err mem) s pending)
    (hok : ∀ o ∈ s.log, o.Orderly) :
    s.scbFreeList.Nodup ∧
      (∀ fd p c k, s.connMap fd = some p → s.conns p = some c → c.scb = some k →
        k ∉ s.scbFreeList ∧ (c.type = .tunnel → (s.scbs k).tunnelConn = some p) ∧
          (c.type = .agent → (s.scbs k).agentConn = some p)) ∧
      ∀ k < s.nextScb, k ∉ s.scbFreeList →
        ∃ fd p c, s.connMap fd = some p ∧ s.conns p = some c ∧ c.scb = some k := by
  obtain ⟨hL, hU⟩ := h.runs.invariant (I := fun w => w.Links ∧ w.Used) hok
    ⟨Net.init_links accurate errno err mem, fun k hk => absurd hk (Nat.not_lt_zero k)⟩
    fun _ _ hb hw hok hI =>
      ⟨hI.1.step hw hb fun o ho => (hok o ho).linkable, hI.2.step hI.1 hw hb hok⟩
  have hnode : ∀ {p c}, s.conns p = some c → s.net.conns p = some c.node := by
    intro p c hc
    simp [Server.net, hc]
  refine ⟨hL.nodup, ?_, ?_⟩
  · intro fd p c k _ hc hk
    refine ⟨hL.not_free (hnode hc) hk, fun hty => ?_, fun hty => ?_⟩ <;>
      rcases (hL.linked (hnode hc) hk).2.2 with ⟨hty', hl⟩ | ⟨hty', hl⟩
    · exact hl
    · cases hty.symm.trans hty'
    · cases hty.symm.trans hty'
    · exact hl
  · intro k hk hf
    obtain ⟨t, ht, htn⟩ := hU k hk hf
    obtain ⟨m, hm⟩ := Option.ne_none_iff_exists'.mp htn
    obtain ⟨c, hc, rfl⟩ := Option.map_eq_some_iff.mp hm
    obtain ⟨hty, hs⟩ := h.wf.tunnel ht hm
    exact ⟨c.sockFd, t, c, hL.mapped hm (Net.not_lost_of_type hty), hc, hs⟩

/-! ### Runs -/

/-- A client logs in, its agent is connected, and then the web server resets the connection. -/
def failedAgentRun : List (List Event) :=
  [[.connects 10], [{ Event.arrives 10 sampleLogin with socks := [.opened 11 true] }], [.writable 11],
    [{ fd := 11, inn := true, err := true, reads := [.fail 104] }]]

/-- **A block is lost**: it was handed out, is not free, and no connection refers to it. -/
theorem block_leak : ∃ s k, Reachable (Server.init false 0 0 fun _ => 0) s [] ∧ k < s.nextScb ∧
    k ∉ s.scbFreeList ∧
      ∀ fd p c, s.connMap fd = some p → s.conns p = some c → c.scb ≠ some k := by
  have hrun : (mainLoop failedAgentRun (Server.init false 0 0 fun _ => 0)).map (fun s =>
      (s.nextScb, s.scbFreeList, (List.range s.nextConn).all fun p =>
        (s.conns p).all (·.scb ≠ some 0))) = some (1, [], true) := by
    decide +kernel
  obtain ⟨s, hs, he⟩ := Option.map_eq_some_iff.mp hrun
  simp only [Prod.mk.injEq] at he
  obtain ⟨hnext, hfree, hall⟩ := he
  have hreach := mainLoop_reachable .start hs
  refine ⟨s, 0, hreach, hnext ▸ Nat.one_pos, hfree ▸ List.not_mem_nil, fun fd p c _ hc => ?_⟩
  have hlt : p < s.nextConn := hreach.wf.fresh (n := c.node) (by simp [Server.net, hc])
  have hp := List.all_eq_true.mp hall p (List.mem_range.mpr hlt)
  simpa [hc] using hp

/-- The web server closes one stream; another client has a stream of its own. -/
def closedAgentRun : List (List Event) :=
  [[.connects 10], [{ Event.arrives 10 sampleLogin with socks := [.opened 11 true] }],
    [.writable 11], [.arrives 11 []],
    [.connects 10], [{ Event.arrives 10 sampleLogin with socks := [.opened 11 true] }]]

/-- The property holds of a run in which a block is used again. -/
theorem ownership_closedAgentRun : ∃ s, Reachable (Server.init false 0 0 fun _ => 0) s [] ∧
    (∀ o ∈ s.log, o.Orderly) ∧ s.scbFreeList.Nodup ∧
      (∀ fd p c k, s.connMap fd = some p → s.conns p = some c → c.scb = some k →
        k ∉ s.scbFreeList ∧ (c.type = .tunnel → (s.scbs k).tunnelConn = some p) ∧
          (c.type = .agent → (s.scbs k).agentConn = some p)) ∧
      ∀ k < s.nextScb, k ∉ s.scbFreeList →
        ∃ fd p c, s.connMap fd = some p ∧ s.conns p = some c ∧ c.scb = some k := by
  have hrun : (mainLoop closedAgentRun (Server.init false 0 0 fun _ => 0)).map
      (fun s => decide (∀ o ∈ s.log, o.Orderly)) = some true := by
    decide +kernel
  obtain ⟨s, hs, he⟩ := Option.map_eq_some_iff.mp hrun
  have hok : ∀ o ∈ s.log, o.Orderly := of_decide_eq_true he
  have hreach := mainLoop_reachable .start hs
  exact ⟨s, hreach, hok, ownership hreach hok⟩

end HttpsTunnel.Tms

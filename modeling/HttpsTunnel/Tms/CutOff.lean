import HttpsTunnel.Tms.Steps

/-! # Cutting off a stream without balance

When `RecordTraffic` finds the balance of a validated stream below the limit, the read loop
returns -1 and the main loop is to close the connection; a flush makes it shut the socket
down.  But `main` takes -1 with `errno` left at EAGAIN for a read that would block, and does
nothing.  A stream cut off that way goes on: bytes of the web server are sent before they are
charged (`relay_after_cutoff`).

With another `errno` at the cut-off, and as long as bytes still read from a socket that was
shut down find the balance too low, nothing is forwarded any more (`no_relay_after_cutoff`).
A message of the server's own must not use up the balance: `SendTmsMsg` then only sets `exit`. -/

namespace HttpsTunnel.Tms

open HttpsTunnel.Lib HttpsTunnel.Wire Relation

/-- A cut-off while a connection is read does not find EAGAIN in `errno`; bytes read from a socket that has
been shut down find a balance that is still too low for them; and a message of the server's own finds one
that is not. -/
def Obs.Effective : Obs → Prop
  | .cutoff _ _ e => e ≠ some EAGAIN
  | .fwd _ _ shut _ x _ => shut = true → cuts x = true
  | .sent _ x => cuts x = false
  | _ => True

instance : DecidablePred Obs.Effective
  | .cutoff _ _ _ => inferInstanceAs (Decidable (_ ≠ _))
  | .fwd _ _ _ _ _ _ => inferInstanceAs (Decidable (_ → _))
  | .sent _ _ => inferInstanceAs (Decidable (_ = _))
  | .msg .. | .relay .. | .ctl .. | .tokenReq .. | .auth .. | .newfd ..
  | .connect .. | .wait .. | .answer .. | .agentDown .. | .report .. => isTrue trivial

/-- `RecordTraffic` returned -1 for the stream with tunnel `t`, the balance being too low: for what was read
or flushed, or for a message sent on the tunnel. -/
def Obs.Cuts (t : Ptr) (o : Obs) : Prop := (∃ p e, o = .cutoff p t e) ∨ ∃ x, o = .sent t x ∧ cuts x = true

namespace Net

variable {w w' : Net} {t : Ptr}

/-- Connection `t` is gone, or its socket has been shut down.  An agent is no tunnel. -/
structure Silent (t : Ptr) (w : Net) : Prop where
  old : t < w.next
  shut : ∀ {m}, w.conns t = some m → m.type ≠ .agent → m.fd ∈ w.shut

/-- Tunnels of streams cut off are silent, and no bytes are relayed on them after the cut-off. -/
structure CutInv (w : Net) : Prop where
  silent : ∀ {o t}, o ∈ w.log → o.Cuts t → w.Silent t
  relays : ∀ t, w.log.Pairwise fun o o' => o.Cuts t → ¬ o'.Relays t

/-- Silence lasts. -/
theorem Silent.step (hs : w.Silent t) (h : Big w w') (hw : w.Wf) : w'.Silent t := by
  refine ⟨hs.old.trans_le h.next_le, fun {m} hm hty => ?_⟩
  -- the connection was there before, of the same type and with the same descriptor
  have hold : ∃ n, w.conns t = some n ∧ n.type = m.type ∧ n.fd = m.fd := by
    cases h.node hm with
    | same h => exact ⟨m, h, rfl, rfl⟩
    | moved mode still offset connecting h hm => exact ⟨_, h, rfl, rfl⟩
    | linked k h hs hm => exact ⟨_, h, rfl, rfl⟩
    | lost h hag => exact ⟨_, h, rfl, rfl⟩
    | login len r h hid hr ht hlog => exact ⟨_, h, rfl, rfl⟩
    | switch len h hid hlog => exact ⟨_, h, rfl, rfl⟩
    | verify len r h hc hid hr hq hcode htok hu hlog => exact ⟨_, h, rfl, rfl⟩
    | accepted fd mem now hq hfd => exact absurd hq hs.old.ne
    | agent fd u k hq hfd => exact absurd hq hs.old.ne
  obtain ⟨n, hn, hnty, hfd⟩ := hold
  have hshut : m.fd ∈ w.shut := hfd ▸ hs.shut hn (hnty ▸ hty)
  rcases h.held hshut with h' | h'
  · exact h'
  · exact absurd ((h.wf hw).isOpen hm (not_lost_of_type hty)) h'

theorem dropPeer_self (w : Net) (t : Ptr) : (w.dropPeer (some t)).conns t = none := by
  cases hm : w.conns t with
  | none => rwa [dropPeer_gone hm]
  | some m => simp [dropPeer_some hm, delete_conns]

/-- Removing one side of a stream takes its tunnel down. -/
theorem remove_silent {fd : ℕ} {p : Ptr} {n : Node} (hw : w.Wf) (hn : w.conns p = some n)
    (hcut : w.CutsAt p n t) : (w.remove fd p n).Silent t := by
  have hold : t < w.next := by
    rcases hcut with rfl | ⟨-, k, -, htn⟩
    · exact hw.fresh hn
    · exact hw.tunnelOld htn
  refine ⟨by rwa [remove_next], fun {m} hm _ => ?_⟩
  obtain ⟨hne, -⟩ := remove_conns hm
  rcases hcut with rfl | ⟨hty, k, hk, htn⟩
  · exact absurd rfl hne
  · -- the tunnel is the side that is dropped
    change ((w.beforeRemove n).delete p n).conns t = some m at hm
    rw [delete_conns, if_neg hne, Net.beforeRemove, hk] at hm
    simp only [Net.takeDown, hty, setBlock_blocks, if_true, htn] at hm
    change ((w.setBlock k _).dropPeer (some t)).conns t = some m at hm
    rw [dropPeer_self] at hm
    cases hm

theorem giveUp_silent {fd : ℕ} {p : Ptr} {n : Node} {k : ScbPtr} (hw : w.Wf)
    (hn : w.conns p = some n) (hty : n.type = .agent)
    (htn : t = p ∨ (w.blocks k).tunnel = some t) : ((w.agentDown fd p n k).closeFd fd).Silent t := by
  have hold : t < w.next := by
    rcases htn with rfl | htn
    · exact hw.fresh hn
    · exact hw.tunnelOld htn
  refine ⟨(agentDown_next w fd p n k).symm ▸ hold, fun {m} hm hmty => ?_⟩
  change (Net.setConn _ p { n with scb := none, user := none }).conns t = some m at hm
  rw [setConn_conns] at hm
  split_ifs at hm with htp
  · cases hm
    exact absurd hty hmty
  · rcases htn with htn | htn
    · exact absurd htn htp
    · change ((w.setTable fd none).dropPeer (w.blocks k).tunnel).conns t = some m at hm
      rw [htn, dropPeer_self] at hm
      cases hm

/-- The tunnel of a stream cut off while it is flushed is shut down. -/
theorem flushed_silent {fd : ℕ} {a : Ptr} {n m : Node} (hw : w.Wf) (h : w.Flushable fd t a n m)
    (bs : List UInt8) (connecting : Bool) (still offset : ℕ) (o : Obs) :
    Silent t { (w.flushed t a m bs connecting still offset).emit o with shut := fd :: w.shut } := by
  refine ⟨hw.fresh h.conn, fun {m'} hm' _ => ?_⟩
  obtain ⟨rfl, -⟩ := hw.entry h.table h.conn
  have hfd : m'.fd = n.fd := by
    change (Net.setConn (w.emit _) a _).conns t = some m' at hm'
    rw [setConn_conns] at hm'
    split_ifs at hm' with hta
    · subst hta
      cases Option.mem_unique h.conn h.agent
      cases hm'
      rfl
    · cases h.conn.symm.trans hm'
      rfl
  exact hfd ▸ List.mem_cons_self

theorem Act.cutoffs {p : Ptr} {e : Option ℕ} (h : Act w w') (ho : .cutoff p t e ∈ w'.log) :
    .cutoff p t e ∈ w.log := by
  cases h <;> simpa [emit, setConn, setBlock, Net.login, Net.verify, addUser_log, openStream_log,
    connectAgent_log, remove_log, flushed, addWaiter, newConn] using ho

/-- A cut-off in the log is an old one, or it has silenced its tunnel. -/
theorem Big.cutoffs {p : Ptr} {e : Option ℕ} (h : Big w w') (hw : w.Wf)
    (ho : .cutoff p t e ∈ w'.log) (he : e ≠ some EAGAIN) :
    .cutoff p t e ∈ w.log ∨ w'.Silent t := by
  cases h with
  | act h => exact .inl (h.cutoffs ho)
  | giveUp ht hn hty hu hk =>
      rw [closeFd_log, agentDown_log] at ho
      exact .inl (by simpa using ho)
  | cutIgnored p' t' =>
      rcases List.mem_append.mp ho with ho | ho
      · exact .inl ho
      · simp only [List.mem_cons, Obs.cutoff.injEq, List.not_mem_nil, or_false] at ho
        exact absurd ho.2.2 he
  | cutRemove e' ht hn htn =>
      rw [remove_log] at ho
      rcases List.mem_append.mp ho with ho | ho
      · exact .inl ho
      · simp only [List.mem_cons, Obs.cutoff.injEq, List.not_mem_nil, or_false] at ho
        obtain ⟨-, rfl, -⟩ := ho
        exact .inr (remove_silent (hw.emit _) hn htn)
  | cutGiveUp e' ht hn hty hu hk htn =>
      rw [closeFd_log, agentDown_log] at ho
      simp only [emit, List.append_assoc, List.mem_append, List.mem_cons, Obs.cutoff.injEq,
        reduceCtorEq, List.not_mem_nil, or_false] at ho
      rcases ho with ho | ⟨-, rfl, -⟩
      · exact .inl ho
      · exact .inr (giveUp_silent (hw.emit _) hn hty htn)
  | cutShut bs connecting still offset h hc =>
      simp only [emit, flushed, setConn, List.append_assoc, List.mem_append, List.mem_cons,
        Obs.cutoff.injEq, reduceCtorEq, List.not_mem_nil, or_false, false_or] at ho
      rcases ho with ho | ⟨-, rfl, -⟩
      · exact .inl ho
      · exact .inr (flushed_silent hw h _ _ _ _ _)
  | orphan ht hn hc hk => exact .inl ho

theorem Flushable.not_silent {fd : ℕ} {a : Ptr} {n m : Node} (h : w.Flushable fd t a n m)
    (hw : w.Wf) : ¬ w.Silent t := by
  intro hs
  obtain ⟨rfl, -⟩ := hw.entry h.table h.conn
  exact h.notShut (hs.shut h.conn (by rw [h.type]; decide))

/-- No step relays after a cut-off. -/
theorem Logs.cut_last {l : List Obs} (h : Logs w w' l) (t : Ptr) :
    l.Pairwise fun o o' => o.Cuts t → ¬ o'.Relays t := by
  cases h <;> simp [Obs.Cuts, Obs.Relays]

/-- Bytes are relayed on a tunnel that is not silent, or on a silent one by bytes read from its
socket that do not cut it off. -/
theorem Logs.not_silent {l : List Obs} {o : Obs} (h : Logs w w' l) (hw : w.Wf)
    (hok : ∀ o ∈ l, o.Effective) (ho : o ∈ l) (hr : o.Relays t) : ¬ w.Silent t := by
  obtain ⟨dir, a, bs, rfl⟩ := hr
  intro hs
  cases h with
  | @upload p c a tn x bs bs' hx hc hm hty =>
      simp only [List.mem_cons, reduceCtorEq, Obs.relay.injEq, List.not_mem_nil, or_false,
        false_or] at ho
      obtain ⟨-, rfl, -⟩ := ho
      have hfd : c.sockFd ∈ w.shut := hs.shut hc (by simp [Connect.node, hty])
      have hcut : cuts x = true := hok (.fwd t c (c.sockFd ∈ w.shut) tn x bs) (by simp) (by simpa using hfd)
      cases hx.symm.trans hcut
  | download shut x bs bs' hty hk ht hfd =>
      simp only [List.mem_cons, reduceCtorEq, Obs.relay.injEq, List.not_mem_nil, or_false,
        false_or] at ho
      obtain ⟨-, rfl, -⟩ := ho
      exact hfd (hs.shut ht (hw.tunnel hk ht).1)
  | flush bs hf =>
      simp only [List.mem_cons, Obs.relay.injEq, List.not_mem_nil, or_false] at ho
      obtain ⟨-, rfl, -⟩ := ho
      exact hf.not_silent hw hs
  | cutFlush bs hf =>
      simp only [List.mem_cons, reduceCtorEq, Obs.relay.injEq, List.not_mem_nil, or_false] at ho
      obtain ⟨-, rfl, -⟩ := ho
      exact hf.not_silent hw hs
  | _ => simp at ho

theorem CutInv.step (hI : w.CutInv) (hw : w.Wf) (h : Big w w')
    (hok : ∀ o ∈ w'.log, o.Effective) : w'.CutInv := by
  obtain ⟨l, hlog, hl⟩ := h.logs
  refine ⟨?_, fun t => ?_⟩
  · rintro _ t ho (⟨p, e, rfl⟩ | ⟨x, rfl, hx⟩)
    · rcases h.cutoffs hw ho (hok _ ho) with ho | hs
      · exact (hI.silent ho (.inl ⟨p, e, rfl⟩)).step h hw
      · exact hs
    · cases (hok _ ho).symm.trans hx
  · rw [hlog, List.pairwise_append]
    have hnew : ∀ o ∈ l, o.Relays t → ¬ w.Silent t :=
      fun o ho => hl.not_silent hw (fun o ho => hok o (by simp [hlog, ho])) ho
    refine ⟨hI.relays t, ?_, fun o ho o' ho' hc hr => hnew o' ho' hr (hI.silent ho hc)⟩
    exact hl.cut_last t

theorem init_cutInv (accurate : Bool) (errno err : ℕ) (mem : Buff) :
    (Server.init accurate errno err mem).net.CutInv where
  silent ho := absurd ho List.not_mem_nil
  relays _ := List.Pairwise.nil

end Net

/-- **Nothing is relayed on a stream after it was cut off**, in a run in which no cut-off finds EAGAIN in
`errno`, bytes read from a socket shut down find a balance that is still too low, and the messages of the
server find one that is not. -/
theorem no_relay_after_cutoff {accurate : Bool} {errno err : ℕ} {mem : Buff} {s : Server}
    {pending : List Event} (h : Reachable (Server.init accurate errno err mem) s pending)
    (hok : ∀ o ∈ s.log, o.Effective) {l₁ l₂ : List Obs} {o : Obs} {t : Ptr} (ho : o.Cuts t)
    (hlog : s.log = l₁ ++ o :: l₂) (dir : Dir) (a : Ptr) (bs : List UInt8) : .relay dir t a bs ∉ l₂ := by
  obtain ⟨p, e, rfl⟩ | ⟨x, rfl, hx⟩ := ho
  case inr =>
    have hnot : cuts x = false := hok (.sent t x) (by simp [hlog])
    cases hnot.symm.trans hx
  have hI : s.net.CutInv := h.runs.invariant hok (Net.init_cutInv accurate errno err mem)
    fun _ _ hb hw hok hI => hI.step hw hb hok
  have hkey : s.net.log = l₁.filter Obs.isKey ++ .cutoff p t e :: l₂.filter Obs.isKey := by
    change s.log.filter Obs.isKey = _
    rw [hlog, List.filter_append, List.filter_cons_of_pos rfl]
  intro hmem
  have hpair := hI.relays t
  rw [hkey, List.pairwise_append, List.pairwise_cons] at hpair
  exact hpair.2.1.1 (.relay dir t a bs) (List.mem_filter.mpr ⟨hmem, rfl⟩) (.inl ⟨p, e, rfl⟩)
    ⟨dir, a, bs, rfl⟩

/-! ### Runs -/

/-- What was relayed after the stream with tunnel `t` was first cut off. -/
def relaysAfterCut (t : Ptr) : List Obs → List (Dir × Ptr × List UInt8)
  | [] => []
  | .cutoff _ t' _ :: l => if t' = t then relaysOf l else relaysAfterCut t l
  | _ :: l => relaysAfterCut t l

theorem exists_of_mem_relaysAfterCut {l : List Obs} {dir : Dir} {t t' : Ptr} {bs : List UInt8}
    (h : (dir, t', bs) ∈ relaysAfterCut t l) :
    ∃ l₁ l₂ p e a, l = l₁ ++ .cutoff p t e :: l₂ ∧ .relay dir t' a bs ∈ l₂ := by
  fun_induction relaysAfterCut t l with
  | case1 => cases h
  | case2 p e l =>
      obtain ⟨a, ha⟩ := exists_of_mem_relaysOf h
      exact ⟨[], l, p, e, a, rfl, ha⟩
  | case3 p t₁ e l hne ih =>
      obtain ⟨l₁, l₂, p', e', a, rfl, ha⟩ := ih h
      exact ⟨_ :: l₁, l₂, p', e', a, rfl, ha⟩
  | case4 o l _ ih =>
      obtain ⟨l₁, l₂, p', e', a, rfl, ha⟩ := ih h
      exact ⟨_ :: l₁, l₂, p', e', a, rfl, ha⟩

/-- The cut-offs, with the connection being read and `errno`. -/
def cutoffsOf (l : List Obs) : List (Ptr × Ptr × Option ℕ) :=
  l.filterMap fun
    | .cutoff p t e => some (p, t, e)
    | _ => none

theorem mem_of_mem_cutoffsOf {l : List Obs} {p t : Ptr} {e : Option ℕ}
    (h : (p, t, e) ∈ cutoffsOf l) : .cutoff p t e ∈ l := by
  obtain ⟨o, ho, he⟩ := List.mem_filterMap.mp h
  split at he
  · cases he
    exact ho
  · cases he

/-- A client whose balance leaves 12 bytes of traffic starts to transmit. -/
def lowBalanceRun : List (List Event) :=
  [[.connects 10], [{ Event.arrives 10 sampleLogin with socks := [.opened 11 true] }], [.writable 11],
    [.arrives 6 (frame (ReadTokenRsp.bytes ⟨0, 10, 1, 2, 4050, 65 :: List.replicate 31 0⟩))],
    [.arrives 10 (frame (BeginTransmit.bytes ⟨1⟩))]]

/-- **A stream that was cut off goes on**: the web server sends 20 bytes, which use up the balance,
and then two more. -/
theorem relay_after_cutoff : ∃ s l₁ l₂ p t e a bs,
    Reachable (Server.init false 0 0 fun _ => 0) s [] ∧ s.log = l₁ ++ .cutoff p t e :: l₂ ∧
      .relay .down t a bs ∈ l₂ := by
  have hrun : (mainLoop (lowBalanceRun ++ [[.arrives 11 (List.replicate 20 7)], [.arrives 11 [4, 5]]])
      (Server.init false 0 0 fun _ => 0)).map (fun s => relaysAfterCut 3 s.log) =
        some [(.down, 3, [4, 5])] := by
    decide +kernel
  obtain ⟨s, hs, hrelays⟩ := Option.map_eq_some_iff.mp hrun
  have hmem : ((.down, 3, [4, 5]) : Dir × Ptr × List UInt8) ∈ relaysAfterCut 3 s.log := by
    simp [hrelays]
  obtain ⟨l₁, l₂, p, e, a, hlog, ha⟩ := exists_of_mem_relaysAfterCut hmem
  exact ⟨s, l₁, l₂, p, 3, e, a, [4, 5], mainLoop_reachable .start hs, hlog, ha⟩

/-- With a failed `accept` in between, `errno` is not EAGAIN and the agent is removed. -/
theorem no_relay_after_cutoff_lowBalanceRun : ∃ s l₁ l₂ p e,
    Reachable (Server.init false 0 0 fun _ => 0) s [] ∧ (∀ o ∈ s.log, o.Effective) ∧
      s.log = l₁ ++ .cutoff p 3 e :: l₂ ∧ ∀ dir a bs, .relay dir 3 a bs ∉ l₂ := by
  have hrun : (mainLoop (lowBalanceRun ++ [[{ fd := listenFd, inn := true }],
      [.arrives 11 (List.replicate 20 7)]]) (Server.init false 0 0 fun _ => 0)).map
        (fun s => (cutoffsOf s.log, decide (∀ o ∈ s.log, o.Effective))) =
        some ([(4, 3, some EBADF)], true) := by
    decide +kernel
  obtain ⟨s, hs, he⟩ := Option.map_eq_some_iff.mp hrun
  obtain ⟨hcuts, hok⟩ := Prod.mk.inj he
  have hreach := mainLoop_reachable .start hs
  have hok : ∀ o ∈ s.log, o.Effective := of_decide_eq_true hok
  have hmem : (4, 3, some EBADF) ∈ cutoffsOf s.log := by simp [hcuts]
  obtain ⟨l₁, l₂, hlog⟩ := List.append_of_mem (mem_of_mem_cutoffsOf hmem)
  exact ⟨s, l₁, l₂, 4, some EBADF, hreach, hok, hlog,
    no_relay_after_cutoff hreach hok (.inl ⟨_, _, rfl⟩) hlog⟩

end HttpsTunnel.Tms

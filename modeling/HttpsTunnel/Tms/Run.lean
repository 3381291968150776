import HttpsTunnel.Tms.Receive

/-! # Runs of the tunnel server as runs of the net

Every event the main loop handles is a sequence of `Big` steps (`handleEvent_runs`), and so is
every run of the server (`Reachable.runs`).  With it, what is proved of the net along its steps
holds of the server in every state it can reach. -/

namespace HttpsTunnel.Tms

open HttpsTunnel.Lib HttpsTunnel.Wire Relation

/-! ### Entries of the connection table -/

namespace Net

variable {w w' : Net} {fd : ℕ} {p : Ptr}

/-- Connection `p` is in the table under `fd` unless it is gone. -/
structure Stays (fd : ℕ) (p : Ptr) (w : Net) : Prop where
  old : p < w.next
  table : ∀ n, w.conns p = some n → w.table fd = some p

theorem Stays.congr (h : w.Stays fd p) (hx : w.next ≤ w'.next) (ht : w'.table = w.table)
    (hc : ∀ n, w'.conns p = some n → ∃ m, w.conns p = some m) : w'.Stays fd p := by
  refine ⟨h.old.trans_le hx, fun n hn => ?_⟩
  obtain ⟨m, hm⟩ := hc n hn
  rw [ht]
  exact h.table m hm

/-- The fields of a connection do not matter. -/
theorem Stays.update {q : Ptr} {n m : Node} (h : w.Stays fd p) (hq : w.conns q = some m)
    (hx : w'.next = w.next) (ht : w'.table = w.table)
    (hc : w'.conns = Function.update w.conns q (some n)) : w'.Stays fd p := by
  refine h.congr hx.ge ht fun n' hn' => ?_
  rw [hc, Function.update_apply] at hn'
  split_ifs at hn' with hpq
  · exact ⟨m, hpq ▸ hq⟩
  · exact ⟨n', hn'⟩

theorem Stays.newConn {fd' : ℕ} {n : Node} (h : w.Stays fd p) (hw : w.Wf) (hfd : fd' ∉ w.fds) :
    (w.newConn fd' n).Stays fd p := by
  refine ⟨h.old.trans (Nat.lt_succ_self _), fun m hm => ?_⟩
  rw [newConn_conns, if_neg h.old.ne] at hm
  have ht := h.table m hm
  rw [newConn_table, if_neg ?_]
  · exact ht
  · rintro rfl
    exact hfd (hw.entry_open ht)

theorem Stays.drop {q : Ptr} {n : Node} (h : w.Stays fd p) (hw : w.Wf) (hq : w.conns q = some n)
    (hl : ¬ n.Lost) : ((w.setTable n.fd none).delete q n).Stays fd p := by
  refine ⟨?_, fun m hm => ?_⟩
  · rw [delete_next]
    exact h.old
  rw [delete_conns] at hm
  split_ifs at hm with hpq
  have ht := h.table m hm
  rw [delete_table, setTable_table, if_neg ?_]
  · exact ht
  · intro hfd
    obtain ⟨m', hm', hfd', hl'⟩ := hw.table ht
    exact hpq (hw.inj hm' hq hl' hl (hfd'.trans hfd))

theorem Stays.dropPeer {q : Option Ptr} (h : w.Stays fd p) (hw : w.Wf)
    (hq : ∀ a m, q = some a → w.conns a = some m → ¬ m.Lost) : (w.dropPeer q).Stays fd p := by
  cases q with
  | none => exact h
  | some a =>
      cases hm : w.conns a with
      | none => rwa [dropPeer_gone hm]
      | some m =>
          rw [dropPeer_some hm]
          exact h.drop hw hm (hq a m rfl hm)

theorem Stays.takeDown {q : Ptr} {n : Node} {k : ScbPtr} (h : w.Stays fd p) (hw : w.Wf)
    (hn : w.conns q = some n) (hk : streamOf n = some k) : (w.takeDown n k).Stays fd p := by
  have hblock : ∀ b, (w.setBlock k b).Stays fd p := fun b =>
    h.congr le_rfl rfl fun n' hn' => ⟨n', hn'⟩
  have hrecycle : ∀ {w' : Net}, w'.Stays fd p → (w'.recycle k).Stays fd p := fun h' =>
    h'.congr le_rfl rfl fun n' hn' => ⟨n', hn'⟩
  rcases streamOf_type hk with hty | hty
  · simp only [Net.takeDown, hty, setBlock_blocks, if_true]
    exact hrecycle ((hblock _).dropPeer (hw.cutBlock (.inr rfl) (.inl rfl)) fun a m ha hm =>
      (hw.agent_peer hn hty ha).2 m hm)
  · simp only [Net.takeDown, hty, setBlock_blocks, if_true]
    exact hrecycle ((hblock _).dropPeer (hw.cutBlock (.inl rfl) (.inr rfl)) fun t m ht hm =>
      (hw.tunnel_peer hn hty ht).2 m hm)

theorem Stays.remove {fd' : ℕ} {q : Ptr} {n : Node} (h : w.Stays fd p) (hw : w.Wf)
    (ht : w.table fd' = some q) (hn : w.conns q = some n) : (w.remove fd' q n).Stays fd p := by
  obtain ⟨rfl, hl⟩ := hw.entry ht hn
  obtain ⟨hw₁, hn₁⟩ := hw.beforeRemove hn
  have h₁ : (w.beforeRemove n).Stays fd p := by
    unfold Net.beforeRemove
    cases hk : streamOf n with
    | none => exact h
    | some k => exact h.takeDown hw hn hk
  rw [Net.remove, delete_setTable]
  exact h₁.drop hw₁ hn₁ hl

theorem Stays.openStream {t : Ptr} {n : Node} (h : w.Stays fd p) (u : UserId)
    (hn : w.conns t = some n) (agent : Option Ptr) : (w.openStream u t n agent).Stays fd p := by
  have h₁ : w.newBlock.Stays fd p := h.congr (newBlock_next w).ge (newBlock_table w) fun n' hn' =>
    ⟨n', newBlock_conns w ▸ hn'⟩
  exact h₁.update (newBlock_conns w ▸ hn) rfl rfl rfl

/-- A handler takes a connection out of the table only by deleting it. -/
theorem Act.stays (ha : Act w w') (hw : w.Wf) (h : w.Stays fd p) : w'.Stays fd p := by
  have hsame : ∀ {w'' : Net}, w''.next = w.next → w''.table = w.table → w''.conns = w.conns →
      w''.Stays fd p := fun hx ht hc => h.congr hx.ge ht fun n hn => ⟨n, hc ▸ hn⟩
  cases ha with
  | message | askAgain | woken | forwarded | upload | download => exact hsame rfl rfl rfl
  | login len r hc hm hid hr ht =>
      exact h.update hc (addUser_next _ _) (addUser_table _ _) (addUser_conns _ _)
  | switch len hc hm hid hk ha => exact h.update hc rfl rfl rfl
  | verify len r hc hm hid hr hq hn hcode htok hk hu => exact h.update hn rfl rfl rfl
  | ask host u hn hs hm hu =>
      exact (h.openStream u hn none).congr le_rfl rfl fun n' hn' => ⟨n', hn'⟩
  | @connect t n u fd' ip port k hn hk hm hfd =>
      have hnew : ∀ m o, ((w.newConn fd' m).emit o).Stays fd p := fun m o =>
        (h.newConn hw hfd.2.2).congr le_rfl rfl fun n' hn' => ⟨n', hn'⟩
      unfold Net.connectAgent
      cases hs : n.scb with
      | some j =>
          exact (hnew (linkedAgent fd' u j) (.connect w.next ip port u t k)).congr le_rfl rfl
            fun n' hn' => ⟨n', hn'⟩
      | none =>
          refine (hnew _ _).openStream u ?_ _
          simp [Net.emit, newConn_conns, (hw.fresh hn).ne, hn]
  | accept fd' mem now ht hfd => exact h.newConn hw hfd.2.2
  | remove ht hn => exact h.remove hw ht hn
  | read mode still offset hn hm => exact h.update hn rfl rfl rfl
  | hangUp offset hn hty hm => exact h.update hn rfl rfl rfl
  | flush bs connecting still offset hf hc => exact h.update hf.agent rfl rfl rfl
  | establish connecting hn hc hk ht => exact h.update hn rfl rfl rfl

theorem acts_stay (ha : ReflTransGen Act w w') (hw : w.Wf) (h : w.Stays fd p) : w'.Stays fd p := by
  induction ha with
  | refl => exact h
  | tail hacts hact ih => exact hact.stays (acts_wf hacts hw) ih

end Net

/-! ### Input events -/

/-- The view of `s'` is reached from that of `s` by steps of the main loop. -/
def Runs (s s' : Server) : Prop := s.net.Wf → ReflTransGen Net.Big s.net s'.net

theorem bigs_wf {w w' : Net} (h : ReflTransGen Net.Big w w') (hw : w.Wf) : w'.Wf := by
  induction h with
  | refl => exact hw
  | tail _ h ih => exact h.wf ih

instance : Std.Refl Runs := ⟨fun _ _ => .refl⟩

instance : IsTrans Server Runs :=
  ⟨fun _ _ _ h h' hw => (h hw).trans (h' (bigs_wf (h hw) hw))⟩

theorem acts_bigs {w w' : Net} (h : ReflTransGen Net.Act w w') : ReflTransGen Net.Big w w' :=
  ReflTransGen.mono (fun _ _ => Net.Big.act) _ _ h

theorem Moves.runs {s s' : Server} (h : Moves s s') : Runs s s' := fun hw => acts_bigs (h hw)

theorem Does.runs {α : Type} {x : TmsM α} (h : Does Moves x) : Does Runs x :=
  h.mono fun _ _ => Moves.runs

variable {s : Server} {p : Ptr} {c : Connect} {fd : ℕ}

theorem recvEvent_ends (s : Server) (p : Ptr) (reads : List ReadRes) :
    wlp (recvEvent p reads) (fun code s' => Ends s p (code = -1) s') s := by
  rw [recvEvent, wlp, wpe_bind, wpe_deref]
  refine ⟨fun _ => trivial, fun c _ => ?_⟩
  rw [wpe_ite]
  refine ⟨fun _ => ?_, fun _ => streamRecvEvent_ends s p reads⟩
  refine wlp_mono (dnsRecvEvent_moves p reads s) ?_
  rintro code s' ⟨h, hp⟩
  obtain ⟨c', hc'⟩ := Option.ne_none_iff_exists'.mp hp
  exact h.ends _ (net_conns_of hc')

theorem handleRecvEvent_ends (s : Server) (fd : ℕ) (reads : List ReadRes) :
    wlp (handleRecvEvent fd reads) (fun ret s' => (ret ≠ -1 → Moves s s') ∧
      (ret = -1 → ∃ p, s.connMap fd = some p ∧ Ends s p True s')) s := by
  rw [handleRecvEvent, wlp, wpe_bind, wpe_get]
  cases ht : s.connMap fd with
  | none => exact ⟨fun _ => refl_of Moves s, fun h => absurd h (by decide)⟩
  | some p =>
      refine wlp_bind (recvEvent_ends s p reads) ?_
      intro ret s₁ h₁
      rw [wpe_ite]
      refine ⟨fun hret => ⟨fun h => absurd hret h, fun _ => ⟨p, rfl, h₁.mono fun _ => trivial⟩⟩,
        fun hret => ?_⟩
      have h₁ : Moves s s₁ := h₁.moves hret
      rw [wpe_bind, wpe_deref]
      refine ⟨fun _ => trivial, fun c _ => ?_⟩
      rw [wpe_ite]
      refine ⟨fun _ => ?_, fun _ => ⟨fun _ => h₁, fun h => absurd h hret⟩⟩
      refine wlp_bind (removeConn_moves c.sockFd s₁) fun _ s₂ h₂ => ?_
      exact ⟨fun _ => trans_of Moves h₁ h₂, fun h => absurd h hret⟩

/-- What `main` does to a connection after an error. -/
inductive Net.Downs (w : Net) (fd : ℕ) (p : Ptr) (n : Node) (w' : Net) : Prop
  | remove (h : w' = w.remove fd p n)
  | giveUp {k : ScbPtr} (hty : n.type = .agent) (hu : n.user ≠ none) (hk : n.scb = some k)
      (h : w' = (w.agentDown fd p n k).closeFd fd)

theorem remove_fds {w : Net} {n : Node} (hw : w.Wf) (ht : w.table fd = some p)
    (hn : w.conns p = some n) : fd ∉ (w.remove fd p n).fds := by
  obtain ⟨rfl, -⟩ := hw.entry ht hn
  have h0 : 0 < n.fd := (hw.range hn).1
  simp [Net.remove, Net.setTable, Net.delete, h0, Net.closeFd]

theorem agentDown_fds {w : Net} {n : Node} {k : ScbPtr} (hw : w.Wf) (ht : w.table fd = some p)
    (hn : w.conns p = some n) (hty : n.type = .agent) : fd ∈ (w.agentDown fd p n k).fds := by
  obtain ⟨rfl, hl⟩ := hw.entry ht hn
  show n.fd ∈ ((w.setTable n.fd none).dropPeer (w.blocks k).tunnel).fds
  cases htn : (w.blocks k).tunnel with
  | none => exact hw.isOpen hn hl
  | some t =>
      cases hm : (w.setTable n.fd none).conns t with
      | none =>
          rw [Net.dropPeer_gone hm]
          exact hw.isOpen hn hl
      | some m =>
          rw [Net.dropPeer_some hm]
          refine Net.mem_delete_fds (hw.isOpen hn hl) fun hfd => ?_
          obtain ⟨hne, hlost⟩ := hw.tunnel_peer hn hty htn
          exact hne (hw.inj hm hn (hlost m hm) hl hfd.symm)

theorem agentDown_table {w : Net} {n : Node} {k : ScbPtr} :
    (w.agentDown fd p n k).table fd = none := by
  cases h : (w.agentDown fd p n k).table fd with
  | none => rfl
  | some q =>
      have h' := Net.dropPeer_table (w.setTable fd none) _ (show _ = some q from h)
      simp [Net.setTable] at h'

/-- `InformShutdownUser`, `RemoveConn` and `close` in a row. -/
theorem shutDown_spec (hw : s.net.Wf) (ht : s.connMap fd = some p) (hc : s.conns p = some c) :
    wlp (do informShutdownUser fd; removeConn fd; closeFd fd : TmsM Unit)
      (fun _ s' => s.net.Downs fd p c.node s'.net) s := by
  have hn := net_conns_of hc
  rw [wlp, wpe_bind]
  by_cases hag : c.type = .agent ∧ c.user ≠ none
  · obtain ⟨hty, hu⟩ := hag
    obtain ⟨u, hu'⟩ := Option.ne_none_iff_exists'.mp hu
    cases hk : c.scb with
    | none => exact ((hw.entry ht hn).2 ⟨hty, hk⟩).elim
    | some k =>
        refine wlp_mono (informShutdownUser_spec hw ht hc hty hu' hk) ?_
        intro _ s₁ h₁
        rw [wpe_bind]
        have ht₁ : s₁.connMap fd = none := by
          rw [show s₁.connMap = s₁.net.table from rfl, h₁]
          exact agentDown_table
        refine wlp_mono (removeConn_none ht₁) ?_
        intro _ s₂ h₂
        have ho : fd ∈ s₂.net.fds := by
          rw [h₂, h₁]
          exact agentDown_fds hw ht hn hty
        refine wlp_mono (closeFd_spec ho) ?_
        intro _ s₃ h₃
        exact .giveUp hty hu hk (by rw [h₃, h₂, h₁])
  · refine wlp_mono (informShutdownUser_other ?_) ?_
    · intro p' c' ht' hc'
      rw [ht] at ht'
      cases ht'
      rw [hc] at hc'
      cases hc'
      by_cases hty : c.type = .agent
      · exact .inr (not_not.mp fun hu => hag ⟨hty, hu⟩)
      · exact .inl hty
    · intro _ s₁ h₁
      have hn₁ : s₁.net.conns p = some c.node := by rw [h₁]; exact hn
      obtain ⟨c₁, hc₁, hnode⟩ := conns_of_net hn₁
      have ht₁ : s₁.connMap fd = some p := by
        rw [show s₁.connMap = s₁.net.table from rfl, h₁]
        exact ht
      refine wlp_bind (removeConn_spec (h₁ ▸ hw) ht₁ hc₁) ?_
      intro _ s₂ h₂
      rw [hnode, h₁] at h₂
      have ho : fd ∉ s₂.net.fds := by
        rw [h₂]
        exact remove_fds hw ht hn
      refine wlp_mono (closeFd_gone ho) ?_
      intro _ s₃ h₃
      exact .remove (h₃.trans h₂)

/-- Taking down a connection, whether or not its stream was cut off, is a step of the loop. -/
theorem Net.Downs.runs {w v v' : Net} {n : Node} {e : ℕ} (h : v.Downs fd p n v')
    (ht : w.table fd = some p) (hn : w.conns p = some n)
    (hv : v = w ∨ ∃ t, w.CutsAt p n t ∧ v = w.emit (.cutoff p t (some e))) : Net.Big w v' := by
  rcases hv with rfl | ⟨t, hcut, rfl⟩
  · cases h with
    | remove h => exact h ▸ .act (.remove ht hn)
    | giveUp hty hu hk h => exact h ▸ .giveUp ht hn hty hu hk
  · cases h with
    | remove h => exact h ▸ .cutRemove e ht hn hcut
    | @giveUp k hty hu hk h =>
        refine h ▸ .cutGiveUp e ht hn hty hu hk (hcut.imp_right ?_)
        rintro ⟨-, j, hj, htn⟩
        rw [← Option.mem_unique (Net.streamOf_scb hj) hk]
        exact htn

theorem recvFailed_runs {s s' : Server} (e : Event) (ht : s.connMap e.fd = some p)
    (h : Ends s p True s') : wlp (recvFailed e) (fun _ s'' => Runs s s'') s' := by
  rw [wlp_iff]
  intro r s'' hrun hw
  obtain ⟨w, n, hacts, hn, hend⟩ := h hw
  have hww := Net.acts_wf hacts hw
  obtain ⟨m, hm, -⟩ := hw.table ht
  have htw : w.table e.fd = some p :=
    (Net.acts_stay hacts hw ⟨hw.fresh hm, fun _ _ => ht⟩).table n hn
  -- the entry of the log aside, the state is the one the steps lead to
  have hv : s'.net = w ∨ ∃ t, w.CutsAt p n t ∧ s'.net = w.emit (.cutoff p t (some s'.errno)) :=
    hend.imp_right And.right
  have hsame : s'.net.Wf ∧ s'.connMap e.fd = some p ∧ s'.net.conns p = some n := by
    rcases hv with hv | ⟨t, -, hv⟩
    · exact ⟨hv ▸ hww, by rw [show s'.connMap = s'.net.table from rfl, hv]; exact htw, hv ▸ hn⟩
    · refine ⟨hv ▸ hww.emit _, ?_, ?_⟩
      · rw [show s'.connMap = s'.net.table from rfl, hv]
        exact htw
      · rw [hv]
        exact hn
  obtain ⟨hw', ht', hn'⟩ := hsame
  obtain ⟨c, hc, rfl⟩ := conns_of_net hn'
  suffices hbig : ReflTransGen Net.Big w s''.net from (acts_bigs hacts).trans hbig
  suffices hwlp : wlp (recvFailed e) (fun _ s'' => ReflTransGen Net.Big w s''.net) s' from
    (wlp_iff _ _ _).mp hwlp r s'' hrun
  rw [recvFailed, wlp, wpe_bind, wpe_get, wpe_ite]
  refine ⟨fun he => ?_, fun _ => ?_⟩
  · rcases hv with hv | ⟨t, -, hv⟩
    · rw [wpe_pure, hv]
    · rw [wpe_pure, hv, he]
      exact .single (.cutIgnored p t)
  · rw [wpe_ite]
    refine ⟨fun _ => ?_, fun _ => ?_⟩
    · exact wlp_mono (shutDown_spec hw' ht' hc) fun _ _ h => .single (h.runs htw hn hv)
    · exact wlp_mono (removeConn_spec hw' ht' hc) fun _ _ h =>
        .single (Net.Downs.runs (.remove h) htw hn hv)

theorem inputEvent_runs (e : Event) : Does Runs (inputEvent e) := by
  intro s
  rw [inputEvent]
  refine wlp_bind (handleRecvEvent_ends s e.fd e.reads) ?_
  rintro ret s₁ ⟨hmoves, hfail⟩
  rw [wpe_ite]
  refine ⟨fun h2 => (hmoves (by omega)).runs, fun _ => ?_⟩
  rw [wpe_ite]
  refine ⟨fun h1 => ?_, fun h1 => ?_⟩
  · obtain ⟨p, ht, hends⟩ := hfail h1
    exact wlp_bind (recvFailed_runs e ht hends) fun _ _ h => h
  · have h₁ : Runs s s₁ := (hmoves h1).runs
    have hlater : Does Moves (if ret = 0 then do
        if (← get).err ≠ EINTR then
          removeConn e.fd
          pure false
        else pure true
      else pure true : TmsM Bool) :=
      .ite (.get_bind fun _ => .ite (.ret (removeConn_moves e.fd)) (.pure _))
        (.pure _)
    exact wlp_mono (Does.runs hlater s₁) fun _ _ h => trans_of Runs h₁ h

theorem handleAcceptEvent_moves {fd : ℕ} (hfd : s.fdFree fd) :
    wlp (handleAcceptEvent fd) (fun _ s' => Moves s s') s := by
  refine Moves.intro fun hw => ?_
  rw [handleAcceptEvent, wlp, wpe_bind, wpe_get]
  cases ht : s.connMap fd with
  | some p =>
      -- the descriptor of an entry of the table is open
      exact absurd (hw.entry_open ht) hfd.2.2
  | none =>
      refine wlp_bind (newConn_spec fd _) ?_
      rintro _ s' ⟨-, h, -⟩
      refine .of_act fun _ => ?_
      rw [h]
      exact .accept fd s.mem s.now ht hfd

theorem acceptConn_moves (e : Event) : Does Moves (acceptConn e) := by
  intro s
  rw [acceptConn, wlp, wpe_bind, wpe_get]
  rcases e.accept with _ | ⟨fd, ip, port⟩
  · exact Does.moves (setErrno_does _) s
  · rw [wpe_ite]
    refine ⟨fun hfd => ?_, fun _ => Does.moves (setErrno_does _) s⟩
    rw [wpe_bind, wpe_set]
    refine wlp_bind (handleAcceptEvent_moves (s := { s with
      peer := Function.update s.peer fd (some (ip, port)) }) hfd) ?_
    intro _ s₁ h₁
    refine wlp_mono (Does.moves (.ret (addEvent_does fd ⟨true, true, true⟩)) s₁) ?_
    intro _ s₂ h₂
    exact trans_of Moves (show Moves s s₁ from h₁) h₂

/-! ### Output events -/

theorem agentReady_spec {n : Node} {k : ScbPtr} {t : Ptr} (hn : s.net.conns p = some n) :
    wlp (agentReady p k t) (fun _ s' => ∃ b, s'.net = s.net.setConn p { n with connecting := b }) s := by
  have hstatus : Does Same (modConn t (fun c => { c with agentStatus := true })) :=
    modConn_same fun _ => rfl
  have hself : s.net = s.net.setConn p { n with connecting := n.connecting } :=
    (Net.setConn_self hn).symm
  rw [agentReady]
  refine wlp_bind (hstatus s) ?_
  intro _ s₁ h₁
  refine wlp_bind (newForwardId_same s₁) ?_
  intro id s₂ h₂
  have hblock : Does Same (modScb k (fun b => { b with forwardId := id, connected := true })) :=
    modScb_same fun _ => rfl
  refine wlp_bind (hblock s₂) ?_
  intro _ s₃ h₃
  have h₃ : s₃.net = s.net := Eq.trans h₃ (Eq.trans h₂ h₁)
  rw [wpe_bind, wpe_getScb, wpe_ite]
  refine ⟨fun _ => ?_, fun _ => ?_⟩
  · rw [wpe_bind, wpe_modConn]
    refine ⟨fun _ => trivial, fun c hc => ?_⟩
    have hlater : Does Same (do
        let c ← deref p
        let v ← derefUser (← nonNull c.user)
        let _ ← sendTmsMsg t (LoginRsp.bytes ⟨RespCode.ready.toNat, v.balance, id⟩) : TmsM Unit) :=
      .seq (deref_does p) <| .seq (nonNull_does _) <| .seq (derefUser_does _) <|
        .ret (sendTmsMsg_does t _)
    refine wlp_mono (hlater _) fun _ s₄ h₄ => ⟨true, ?_⟩
    have hnode : c.node = n :=
      Option.mem_unique (net_conns_of hc) (by rw [h₃]; exact hn)
    rw [h₄, net_setConn, h₃, ← hnode]
    rfl
  · have hlater : Does Same (do
        let _ ← sendTmsMsg t (LoginRsp.bytes ⟨RespCode.agentEstablished.toNat, 0, id⟩) :
        TmsM Unit) := .ret (sendTmsMsg_does t _)
    refine wlp_mono (hlater _) fun _ s₄ h₄ => ⟨n.connecting, ?_⟩
    rw [h₄, h₃]
    exact hself

theorem shutdownFd_spec (ho : fd ∈ s.openFds) :
    wlp (shutdownFd fd) (fun _ s' => s'.net = { s.net with shut := fd :: s.net.shut }) s := by
  simp only [shutdownFd, wpe_bind, wpe_get, wpe_ite]
  exact ⟨fun _ => rfl, fun h => absurd ho h⟩

/-- What `HandleEPOEvent` leads to: steps of the net, or a step that ends with the descriptor shut
down. -/
def Writes (s : Server) (fd : ℕ) (ret : ℤ) (s' : Server) : Prop :=
  s.net.Wf → if ret = -1 then
    Net.Big s.net { s'.net with shut := fd :: s'.net.shut } ∧ fd ∈ s'.net.fds
  else ReflTransGen Net.Act s.net s'.net

theorem establish_writes (ht : s.connMap fd = some p) (hc : s.conns p = some c)
    (hst : c.status = .inprogress) :
    wlp (establish fd p c) (fun ret s' => Writes s fd ret s') s := by
  have hn := net_conns_of hc
  have hcon : c.node.connecting = true := by simp [Connect.node, hst]
  rw [establish, wlp, wpe_bind, wpe_modConn, found hc]
  have h₁ := net_setConn s p { c with status := .online, agentStatus := true }
  have hn₁ : (s.setConn p { c with status := .online, agentStatus := true }).net.conns p =
      some { c.node with connecting := false } := by
    rw [h₁]
    exact Function.update_self ..
  rw [wpe_bind, wpe_get]
  split
  · next k t hk ht' =>
      refine wlp_bind (agentReady_spec hn₁) ?_
      rintro - s₂ ⟨b, h₂⟩
      refine wlp_bind (modifyEvent_does (R := Same) fd _ s₂) ?_
      intro _ s₃ h₃
      rw [wpe_pure]
      intro _
      rw [if_neg (by decide)]
      have hnet : s₃.net = s.net.setConn p { c.node with connecting := b } := by
        rw [h₃, h₂, h₁]
        simp [Net.setConn]
      have htn : (s.net.blocks k).tunnel = some t := by
        rw [hk] at ht'
        exact ht'
      exact .single (hnet ▸ .establish b hn hcon hk htn)
  · next hnone =>
      rw [wpe_bind, wpe_mapErase, wpe_pure]
      intro hw
      rw [if_pos rfl, net_setMap, h₁]
      refine ⟨.orphan ht hn hcon ?_, hw.entry_open ht⟩
      cases hk : c.scb with
      | none => simp [Connect.node, hk]
      | some k =>
          cases htn : (s.scbs k).tunnelConn with
          | none => simp [Connect.node, hk, Server.net, SCB.block, htn]
          | some t => exact (hnone k t hk (by rw [hk]; exact htn)).elim

theorem flushed_spec {a : Ptr} {m : Node} (wrote : ℕ) (hm : s.net.conns a = some m) :
    wlp (flushed a wrote) (fun _ s' => ∃ b still offset, (b = true → m.connecting = true) ∧
      s'.net = s.net.setConn a { m with connecting := b, still := still, offset := offset }) s := by
  have hnode : ∀ {c}, s.conns a = some c → c.node = m := fun hc =>
    Option.mem_unique (net_conns_of hc) hm
  rw [flushed, wlp, wpe_bind, wpe_deref]
  refine ⟨fun _ => trivial, fun c hc => ?_⟩
  rw [wpe_ite]
  refine ⟨fun _ => ?_, fun _ => ?_⟩
  · rw [wpe_bind, wpe_modConn]
    refine ⟨fun _ => trivial, fun c' hc' => ?_⟩
    have hadd : Does Same (do let _ ← addEvent c.sockFd ⟨true, false, false⟩ : TmsM Unit) :=
      .ret (addEvent_does _ _)
    refine wlp_mono (hadd _) fun _ s₁ h₁ => ⟨false, buffSize, 0, by simp, ?_⟩
    rw [h₁, net_setConn, ← hnode hc']
    rfl
  · rw [wpe_ite]
    refine ⟨fun _ => ?_, fun _ => ?_⟩
    · rw [wpe_modConn]
      refine ⟨fun _ => trivial, fun c' hc' => ⟨m.connecting, m.still, m.offset + wrote, id, ?_⟩⟩
      rw [net_setConn, ← hnode hc']
      rfl
    · exact ⟨m.connecting, m.still, m.offset, id, (Net.setConn_self hm).symm⟩

theorem chargeFlush_spec (s : Server) (p : Ptr) (c : Connect) (k : ScbPtr) (wrote : ℕ) :
    wlp (chargeFlush p c k wrote) (fun ret s' => ret ≠ -1 ∧ s'.net = s.net ∨
      ret = -1 ∧ s'.net = s.net.emit (.cutoff p p none)) s := by
  rw [chargeFlush, wlp, wpe_ite]
  refine ⟨fun _ => ?_, fun _ => .inl ⟨by decide, rfl⟩⟩
  rw [wpe_bind, wpe_nonNull]
  refine ⟨fun _ => trivial, fun u _ => ?_⟩
  rw [wpe_bind, wpe_charge]
  refine wlp_bind (recordTraffic_does (R := Same) u (some k) _ s) ?_
  intro r s₁ h₁
  rw [wpe_ite]
  refine ⟨fun _ => .inr ⟨rfl, ?_⟩, fun _ => .inl ⟨by decide, h₁⟩⟩
  rw [net_emit _ rfl, h₁]

theorem flush_writes (ht : s.connMap fd = some p) (hc : s.conns p = some c) (hty : c.type = .tunnel)
    (hm : c.dec.cstate = .forward) :
    wlp (flush fd p c) (fun ret s' => Writes s fd ret s') s := by
  have hn := net_conns_of hc
  have hsame : ∀ s' : Server, s'.net = s.net → Writes s fd 0 s' := by
    intro s' h _
    rw [if_neg (by decide), h]
  rw [flush, wlp, wpe_bind, wpe_nonNull]
  refine ⟨fun _ => trivial, fun k hk => ?_⟩
  rw [wpe_bind, wpe_getScb, wpe_bind, wpe_nonNull]
  refine ⟨fun _ => trivial, fun a ha => ?_⟩
  rw [wpe_bind, wpe_deref]
  refine ⟨fun _ => trivial, fun ac hac => ?_⟩
  rw [wpe_ite]
  refine ⟨fun _ => hsame s rfl, fun _ => ?_⟩
  refine wlp_bind (sendRelay_spec s _ _ _ _ _) ?_
  intro w s₁ h₁
  cases w with
  | none => exact hsame s₁ h₁
  | some wrote =>
      obtain ⟨h₁, hshut⟩ := h₁
      have hf : s.net.Flushable fd p a c.node ac.node :=
        ⟨ht, hn, hty, hm, ⟨k, hk, ha⟩, net_conns_of hac, hshut⟩
      have ha₁ : s₁.net.conns a = some ac.node := by
        rw [h₁]
        exact net_conns_of hac
      refine wlp_bind (flushed_spec wrote ha₁) ?_
      rintro - s₂ ⟨b, still, offset, hb, h₂⟩
      rw [h₁] at h₂
      refine wlp_mono (chargeFlush_spec s₂ p c k wrote) ?_
      rintro ret s₃ (⟨hret, h₃⟩ | ⟨rfl, h₃⟩)
      · intro _
        rw [if_neg hret, h₃, h₂]
        exact .single (.flush _ b still offset hf hb)
      · intro hw
        rw [if_pos rfl, h₃, h₂]
        exact ⟨.cutShut _ b still offset hf hb, hw.entry_open ht⟩

theorem handleEPOEvent_writes (s : Server) (fd : ℕ) :
    wlp (handleEPOEvent fd) (fun ret s' => Writes s fd ret s') s := by
  have hsame : ∀ ret : ℤ, ret ≠ -1 → Writes s fd ret s := by
    intro ret h _
    rw [if_neg h]
  rw [handleEPOEvent, wlp, wpe_bind, wpe_get]
  cases ht : s.connMap fd with
  | none => exact hsame _ (by decide)
  | some p =>
      rw [wpe_bind, wpe_deref]
      refine ⟨fun _ => trivial, fun c hc => ?_⟩
      rw [wpe_ite]
      refine ⟨fun hst => establish_writes ht hc hst, fun _ => ?_⟩
      rw [wpe_ite]
      refine ⟨fun _ => hsame _ (by decide), fun hm => ?_⟩
      rw [wpe_ite]
      exact ⟨fun _ => hsame _ (by decide),
        fun hty => flush_writes ht hc (not_not.mp hty) (not_not.mp hm)⟩

theorem outputEvent_runs (e : Event) : Does Runs (outputEvent e) := by
  intro s
  rw [outputEvent]
  refine wlp_bind (fetchError_same e s) ?_
  intro _ s₁ h₁
  have h₁ : s₁.net = s.net := h₁
  rw [wpe_bind, wpe_get, wpe_ite]
  refine ⟨fun _ => ?_, fun _ => (Same.moves h₁).runs⟩
  refine wlp_bind (handleEPOEvent_writes s₁ e.fd) ?_
  intro ret s₂ h₂
  rw [wpe_ite]
  refine ⟨fun hret => ?_, fun hret hw => ?_⟩
  · refine wlp_of_imp fun hw => ?_
    have hbig := h₂ (h₁ ▸ hw)
    rw [if_pos hret, h₁] at hbig
    exact wlp_mono (shutdownFd_spec hbig.2) fun _ s₃ h₃ => .single (h₃ ▸ hbig.1)
  · have hacts := h₂ (h₁ ▸ hw)
    rw [if_neg hret, h₁] at hacts
    exact acts_bigs hacts

theorem outputPart_runs (e : Event) : Does Runs (outputPart e) := .ite (outputEvent_runs e) (.pure _)

/-! ### The main loop -/

/-- **Every event is handled by steps of the net.** -/
theorem handleEvent_runs (e : Event) : Does Runs (handleEvent e) := by
  have hload : Does Runs (modify (·.load e) : TmsM PUnit) :=
    .modify fun s => (Same.moves (load_same s e)).runs
  refine .seq hload <| .ite (.ite ?_ ?_) (outputPart_runs e)
  · exact .seq (Does.runs (acceptConn_moves e)) <| outputPart_runs e
  · exact .seq (inputEvent_runs e) <| .ite (outputPart_runs e) (.pure _)

section Init

variable {accurate : Bool} {errno err : ℕ} {mem : Buff}

/-- The connections after start-up are those to the services. -/
structure Service (p : Ptr) (n : Node) : Prop where
  lt : p < 3
  fd : n.fd = 5 + p
  notAgent : n.type ≠ .agent
  notTunnel : n.type ≠ .tunnel
  notVerified : n.verified = false
  notConnecting : n.connecting = false
  user : n.user = none
  scb : n.scb = none

/-- At start-up there are the connections to the three services. -/
theorem init_conns {p : Ptr} {n : Node}
    (h : (Server.init accurate errno err mem).net.conns p = some n) : Service p n := by
  match p with
  | 0 | 1 | 2 =>
      simp only [Server.net, Server.init, Option.map_some, Option.some.injEq] at h
      subst h
      constructor <;> simp [serviceConnect, Connect.node]
  | _ + 3 => simp [Server.net, Server.init] at h

theorem init_table {fd : ℕ} {p : Ptr}
    (h : (Server.init accurate errno err mem).net.table fd = some p) : fd = 5 + p ∧ p < 3 := by
  simp only [Server.net, Server.init] at h
  split at h <;> cases h <;> decide

theorem init_wf (accurate : Bool) (errno err : ℕ) (mem : Buff) :
    (Server.init accurate errno err mem).net.Wf where
  fresh h := (init_conns h).lt
  table {fd p} h := by
    obtain ⟨rfl, hp⟩ := init_table h
    cases hn : (Server.init accurate errno err mem).net.conns p with
    | none => interval_cases p <;> simp [Server.net, Server.init] at hn
    | some n =>
        have hs := init_conns hn
        exact ⟨n, rfl, hs.fd, Net.not_lost_of_type hs.notAgent⟩
  isOpen {p n} h _ := by
    have hp := (init_conns h).lt
    rw [(init_conns h).fd]
    interval_cases p <;> simp [Server.net, Server.init]
  inj h h' _ _ hfd := by
    exact Nat.add_left_cancel (((init_conns h).fd.symm.trans hfd).trans (init_conns h').fd)
  agent h := by simp [Server.net, Server.init, SCB.block] at h
  tunnel h := by simp [Server.net, Server.init, SCB.block] at h
  tunnelOld h := by simp [Server.net, Server.init, SCB.block] at h
  mode h hty := absurd hty (init_conns h).notAgent
  connecting h hc := by simp [(init_conns h).notConnecting] at hc
  range h := by
    rw [(init_conns h).fd]
    exact ⟨by simp, lt_of_lt_of_le (Nat.add_lt_add_left (init_conns h).lt 5) (by norm_num)⟩

end Init

/-- **Every run of the server is a run of the net.** -/
theorem Reachable.runs {s₀ s : Server} {pending : List Event} (h : Reachable s₀ s pending) :
    Runs s₀ s := by
  induction h with
  | start => exact refl_of Runs s₀
  | wait batch _ _ _ ih => exact ih
  | event _ he ih => exact trans_of Runs ih ((handleEvent_runs _).run he)

theorem Reachable.wf {accurate : Bool} {errno err : ℕ} {mem : Buff} {s : Server}
    {pending : List Event} (h : Reachable (Server.init accurate errno err mem) s pending) :
    s.net.Wf :=
  bigs_wf (h.runs (init_wf accurate errno err mem)) (init_wf accurate errno err mem)

/-- **No pointer of `_ConnMap` or `agent_conn` dangles**, whatever happens. -/
theorem connMap_live {accurate : Bool} {errno err : ℕ} {mem : Buff} {s : Server}
    {pending : List Event} (h : Reachable (Server.init accurate errno err mem) s pending) :
    (∀ fd p, s.connMap fd = some p → fd ∈ s.openFds ∧ ∃ c, s.conns p = some c ∧ c.sockFd = fd) ∧
      ∀ k a, (s.scbs k).agentConn = some a →
        ∃ c, s.conns a = some c ∧ c.type = .agent ∧ c.scb = some k := by
  refine ⟨fun fd p ht => ⟨h.wf.entry_open ht, ?_⟩, fun k a ha => ?_⟩
  · obtain ⟨n, hn, hfd, -⟩ := h.wf.table ht
    obtain ⟨c, hc, rfl⟩ := Option.map_eq_some_iff.mp hn
    exact ⟨c, hc, hfd⟩
  · obtain ⟨n, hn, hty, hk⟩ := h.wf.agent ha
    obtain ⟨c, hc, rfl⟩ := Option.map_eq_some_iff.mp hn
    exact ⟨c, hc, hty, hk⟩

/-- A client logs in and its web server is being connected. -/
def servedRun : List (List Event) :=
  [[.connects 10], [{ Event.arrives 10 sampleLogin with socks := [.opened 11 true] }]]

theorem connMap_live_served :
    ∃ s, Reachable (Server.init true 0 0 fun _ => 0) s [] ∧
      s.connMap 10 = some 3 ∧ s.connMap 11 = some 4 ∧ (s.scbs 0).agentConn = some 4 ∧
      (10 ∈ s.openFds ∧ ∃ c, s.conns 3 = some c ∧ c.sockFd = 10) ∧
      (11 ∈ s.openFds ∧ ∃ c, s.conns 4 = some c ∧ c.sockFd = 11) ∧
      ∃ c, s.conns 4 = some c ∧ c.type = .agent ∧ c.scb = some 0 := by
  have hrun : (mainLoop servedRun (Server.init true 0 0 fun _ => 0)).map (fun s =>
      (s.connMap 10, s.connMap 11, (s.scbs 0).agentConn)) = some (some 3, some 4, some 4) := by
    decide +kernel
  obtain ⟨s, hs, he⟩ := Option.map_eq_some_iff.mp hrun
  simp only [Prod.mk.injEq] at he
  obtain ⟨hclient, hagent, hblock⟩ := he
  have hr : Reachable (Server.init true 0 0 fun _ => 0) s [] := mainLoop_reachable .start hs
  have hlive := connMap_live hr
  exact ⟨s, hr, hclient, hagent, hblock, hlive.1 10 3 hclient, hlive.1 11 4 hagent, hlive.2 0 4 hblock⟩

end HttpsTunnel.Tms

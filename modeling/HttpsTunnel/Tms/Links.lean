import HttpsTunnel.Tms.Steps

/-! # Streams and their control blocks

Connections and stream control blocks point at each other, and blocks in the free list point
nowhere.  `Links` is this invariant.  It is kept as long as streams are used as they are meant to
be (`Obs.Linkable`): logins come on tunnels, and an agent is connected for a stream that has
none.  `Links.step` is the result; `Ownership.lean` and `Wake.lean` build on it. -/

namespace HttpsTunnel.Tms

open HttpsTunnel.Lib HttpsTunnel.Wire Relation

/-- LOGIN_REQ is handled on a tunnel, and a web server is connected for a stream without agent. -/
def Obs.Linkable : Obs → Prop
  | .msg _ c len => c.Gets len .loginReq → c.type = .tunnel
  | .connect _ _ _ _ _ k => k.all (·.agentConn = none) = true
  | _ => True

namespace Net

variable {w w' : Net} {p q t a : Ptr} {n m : Node} {k j : ScbPtr} {fd : ℕ}

/-- The block of connection `p` with fields `n` points back at it. -/
def Linked (w : Net) (p : Ptr) (n : Node) (k : ScbPtr) : Prop :=
  n.type = .tunnel ∧ (w.blocks k).tunnel = some p ∨ n.type = .agent ∧ (w.blocks k).agent = some p

/-- Block `k` has a tunnel. -/
def HasTunnel (w : Net) (k : ScbPtr) : Prop := ∃ t, (w.blocks k).tunnel = some t ∧ w.conns t ≠ none

/-- Connections and blocks point at each other. -/
structure Links (w : Net) : Prop where
  nodup : w.free.Nodup
  /-- Free blocks are linked to nothing. -/
  idle : ∀ {k}, k ∈ w.free →
    k < w.nextBlock ∧ (w.blocks k).tunnel = none ∧ (w.blocks k).agent = none
  mapped : ∀ {p n}, w.conns p = some n → ¬ n.Lost → w.table n.fd = some p
  client : ∀ {p n}, w.conns p = some n → n.user ≠ none → n.type = .tunnel ∨ n.type = .agent
  linked : ∀ {p n k}, w.conns p = some n → n.scb = some k →
    k < w.nextBlock ∧ n.user ≠ none ∧ w.Linked p n k
  stream : ∀ {p n k}, w.conns p = some n → n.scb = some k → w.HasTunnel k

/-- A linked block is not free. -/
theorem Links.not_free (h : w.Links) (hn : w.conns p = some n) (hk : n.scb = some k) :
    k ∉ w.free := by
  intro hf
  obtain ⟨t, ht, -⟩ := h.stream hn hk
  cases (h.idle hf).2.1.symm.trans ht

/-! ### Updates that keep the links -/

/-- The nets agree in connections and in blocks, up to the status of a block. -/
structure SameLinks (w w' : Net) : Prop where
  conns : w'.conns = w.conns
  table : w'.table = w.table
  block : ∀ k, { w'.blocks k with status := (w.blocks k).status } = w.blocks k
  free : w'.free = w.free
  nextBlock : w'.nextBlock = w.nextBlock

theorem SameLinks.tunnel (h : SameLinks w w') (k : ScbPtr) :
    (w'.blocks k).tunnel = (w.blocks k).tunnel :=
  (congrArg Block.tunnel (h.block k) :)

theorem SameLinks.agent (h : SameLinks w w') (k : ScbPtr) :
    (w'.blocks k).agent = (w.blocks k).agent :=
  (congrArg Block.agent (h.block k) :)

theorem SameLinks.of_blocks (hc : w'.conns = w.conns) (ht : w'.table = w.table)
    (hb : w'.blocks = w.blocks) (hf : w'.free = w.free) (hx : w'.nextBlock = w.nextBlock) :
    SameLinks w w' :=
  ⟨hc, ht, fun _ => by rw [hb], hf, hx⟩

theorem HasTunnel.congr (h : w.HasTunnel k) (hs : SameLinks w w') : w'.HasTunnel k := by
  unfold HasTunnel
  rw [hs.tunnel, hs.conns]
  exact h

theorem Links.congr (h : w.Links) (hs : SameLinks w w') : w'.Links where
  nodup := hs.free ▸ h.nodup
  idle hk := by
    rw [hs.tunnel, hs.agent, hs.nextBlock]
    exact h.idle (hs.free ▸ hk)
  mapped hp := hs.table ▸ h.mapped (hs.conns ▸ hp)
  client hp := h.client (hs.conns ▸ hp)
  linked hp hk := by
    unfold Linked
    rw [hs.tunnel, hs.agent, hs.nextBlock]
    exact h.linked (hs.conns ▸ hp) hk
  stream hp hk := (h.stream (hs.conns ▸ hp) hk).congr hs

theorem HasTunnel.setConn (h : w.HasTunnel k) (p : Ptr) (m : Node) : (w.setConn p m).HasTunnel k := by
  obtain ⟨t, ht, htn⟩ := h
  refine ⟨t, ht, ?_⟩
  rw [setConn_conns]
  split_ifs
  · exact Option.some_ne_none m
  · exact htn

/-- A connection may change in all but its descriptor, type and block; a tunnel or agent may get
a user. -/
theorem Links.setConn (h : w.Links) (hn : w.conns p = some n) (hfd : m.fd = n.fd)
    (hty : m.type = n.type) (hscb : m.scb = n.scb) (hu : n.user ≠ none → m.user ≠ none)
    (hcl : m.user ≠ none → n.type = .tunnel ∨ n.type = .agent) : (w.setConn p m).Links := by
  have hold : ∀ {q m'}, (w.setConn p m).conns q = some m' → ∃ n', w.conns q = some n' ∧
      m'.fd = n'.fd ∧ m'.type = n'.type ∧ m'.scb = n'.scb ∧ (n'.user ≠ none → m'.user ≠ none) ∧
        (m'.user ≠ none → n'.type = .tunnel ∨ n'.type = .agent) := by
    intro q m' hq
    rw [setConn_conns] at hq
    split_ifs at hq with hqp
    · cases hq
      exact ⟨n, hqp ▸ hn, hfd, hty, hscb, hu, hcl⟩
    · exact ⟨m', hq, rfl, rfl, rfl, id, h.client hq⟩
  refine ⟨h.nodup, h.idle, ?_, ?_, ?_, ?_⟩
  · intro q m' hq hl
    obtain ⟨n', hq', hf, hty', hs, -⟩ := hold hq
    rw [hf]
    exact h.mapped hq' fun hl' => hl ⟨hty'.trans hl'.1, hs.trans hl'.2⟩
  · intro q m' hq hm'
    obtain ⟨n', -, -, hty', -, -, hcl'⟩ := hold hq
    rw [hty']
    exact hcl' hm'
  · intro q m' k hq hk
    obtain ⟨n', hq', -, hty', hs, hu', -⟩ := hold hq
    obtain ⟨hlt, hun, hl⟩ := h.linked hq' (hs ▸ hk)
    refine ⟨hlt, hu' hun, ?_⟩
    unfold Linked at hl ⊢
    rw [hty']
    exact hl
  · intro q m' k hq hk
    obtain ⟨n', hq', -, -, hs, -⟩ := hold hq
    exact (h.stream hq' (hs ▸ hk)).setConn p m

/-! ### New streams -/

theorem newBlock_other (w : Net) (hj : j ≠ w.newKey) : w.newBlock.blocks j = w.blocks j ∧
    (j ∈ w.newBlock.free ↔ j ∈ w.free) ∧ (j < w.newBlock.nextBlock ↔ j < w.nextBlock) := by
  cases hf : w.free with
  | cons k rest =>
      rw [newKey, hf, List.headD_cons] at hj
      simp [newBlock_cons hf, setBlock, hj]
  | nil =>
      rw [newKey, hf, List.headD_nil] at hj
      have hlt : j < w.nextBlock + 1 ↔ j < w.nextBlock :=
        ⟨fun h => (Nat.lt_succ_iff_lt_or_eq.mp h).resolve_right hj, Nat.lt_succ_of_lt⟩
      simp [newBlock_nil hf, setBlock, hj, hlt, hf]

/-- The block that is handed out was free or is new. -/
theorem Links.newBlock_key (h : w.Links) : w.newBlock.free.Nodup ∧ w.newKey ∉ w.newBlock.free ∧
    w.newKey < w.newBlock.nextBlock ∧ (w.newBlock.blocks w.newKey).agent = none := by
  cases hf : w.free with
  | cons k rest =>
      have hnd := hf ▸ h.nodup
      rw [List.nodup_cons] at hnd
      obtain ⟨hlt, -, hag⟩ := h.idle (k := k) (hf ▸ List.mem_cons_self)
      simp [newBlock_cons hf, newKey, hf, setBlock, hnd, hlt, hag]
  | nil => simp [newBlock_nil hf, newKey, hf, setBlock, SCB.block]

theorem Links.scb_ne_newKey (h : w.Links) (hn : w.conns p = some n) (hk : n.scb = some k) :
    k ≠ w.newKey := by
  rintro rfl
  cases hf : w.free with
  | cons j rest =>
      refine h.not_free hn hk ?_
      rw [newKey, hf, List.headD_cons]
      exact List.mem_cons_self
  | nil =>
      have hlt := (h.linked hn hk).1
      rw [newKey, hf, List.headD_nil] at hlt
      exact lt_irrefl _ hlt

theorem HasTunnel.openStream (h : w.HasTunnel j) (hj : j ≠ w.newKey) (u : UserId) (t : Ptr)
    (n : Node) : (w.openStream u t n none).HasTunnel j := by
  obtain ⟨t', ht', htn⟩ := h
  refine ⟨t', by rw [openStream_blocks, if_neg hj, (newBlock_other w hj).1, ht'], ?_⟩
  rw [openStream_conns]
  split_ifs
  · exact Option.some_ne_none _
  · exact htn

theorem hasTunnel_newKey (w : Net) (u : UserId) (t : Ptr) (n : Node) :
    (w.openStream u t n none).HasTunnel w.newKey := by
  refine ⟨t, by rw [openStream_blocks, if_pos rfl], ?_⟩
  rw [openStream_conns, if_pos rfl]
  exact Option.some_ne_none _

theorem Links.openStream (h : w.Links) (hn : w.conns t = some n) (hty : n.type = .tunnel)
    (u : UserId) : (w.openStream u t n none).Links := by
  obtain ⟨hnd, hkf, hklt, -⟩ := h.newBlock_key
  have hnext : (w.openStream u t n none).nextBlock = w.newBlock.nextBlock := rfl
  refine ⟨hnd, ?_, ?_, ?_, ?_, ?_⟩
  · intro k hk
    have hne : k ≠ w.newKey := fun he => hkf (he ▸ hk)
    obtain ⟨hb, hf, hlt⟩ := newBlock_other w hne
    rw [openStream_blocks, if_neg hne, hb, hnext, hlt]
    exact h.idle (hf.mp hk)
  · intro q m hq hl
    rw [openStream_table]
    rw [openStream_conns] at hq
    split_ifs at hq with hqt
    · cases hq
      subst hqt
      exact (h.mapped hn (not_lost_of_type (by rw [hty]; decide)) :)
    · exact h.mapped hq hl
  · intro q m hq hu
    rw [openStream_conns] at hq
    split_ifs at hq with hqt
    · cases hq
      exact .inl hty
    · exact h.client hq hu
  · intro q m k hq hk
    rw [openStream_conns] at hq
    unfold Linked
    split_ifs at hq with hqt
    · cases hq
      cases hk
      rw [openStream_blocks, if_pos rfl]
      exact ⟨hklt, Option.some_ne_none u, .inl ⟨hty, by rw [hqt]⟩⟩
    · have hne := h.scb_ne_newKey hq hk
      obtain ⟨hb, -, hlt⟩ := newBlock_other w hne
      rw [openStream_blocks, if_neg hne, hb, hnext, hlt]
      exact h.linked hq hk
  · intro q m k hq hk
    rw [openStream_conns] at hq
    split_ifs at hq with hqt
    · cases hq
      cases hk
      exact hasTunnel_newKey w u t n
    · exact (h.stream hq hk).openStream (h.scb_ne_newKey hq hk) u t n

/-- A new descriptor is not that of a connection. -/
theorem Wf.fd_ne (hw : w.Wf) (hfd : fd ∉ w.fds) (hn : w.conns p = some n) (hl : ¬ n.Lost) :
    n.fd ≠ fd := by
  rintro rfl
  exact hfd (hw.isOpen hn hl)

theorem HasTunnel.newConn (h : w.HasTunnel k) (hw : w.Wf) (fd : ℕ) (n : Node) :
    (w.newConn fd n).HasTunnel k := by
  obtain ⟨t, ht, htn⟩ := h
  refine ⟨t, ht, ?_⟩
  rw [newConn_conns, if_neg (hw.tunnelOld ht).ne]
  exact htn

theorem Links.accept (h : w.Links) (hw : w.Wf) (hfd : fd ∉ w.fds) (hn : n.fd = fd)
    (hu : n.user = none) (hs : n.scb = none) : (w.newConn fd n).Links := by
  refine ⟨h.nodup, h.idle, ?_, ?_, ?_, ?_⟩
  · intro q m hq hl
    rw [newConn_conns] at hq
    rw [newConn_table]
    split_ifs at hq with hqn
    · cases hq
      rw [if_pos hn, hqn]
    · rw [if_neg (hw.fd_ne hfd hq hl), h.mapped hq hl]
  · intro q m hq hum
    rw [newConn_conns] at hq
    split_ifs at hq with hqn
    · cases hq
      exact absurd hu hum
    · exact h.client hq hum
  · intro q m k hq hk
    rw [newConn_conns] at hq
    split_ifs at hq with hqn
    · cases hq
      cases hs.symm.trans hk
    · exact h.linked hq hk
  · intro q m k hq hk
    rw [newConn_conns] at hq
    split_ifs at hq with hqn
    · cases hq
      cases hs.symm.trans hk
    · exact (h.stream hq hk).newConn hw fd n

/-- An agent is started for stream `k`. -/
def attach (w : Net) (fd : ℕ) (u : UserId) (k : ScbPtr) (port : ℕ) (o : Obs) : Net :=
  ((w.newConn fd (linkedAgent fd u k)).emit o).setBlock k
    { w.blocks k with destPort := port, agent := some w.next }

theorem connectAgent_some (hs : n.scb = some k) (u : UserId) (t : Ptr) (fd port : ℕ) (o : Obs) :
    w.connectAgent u t n fd port o = w.attach fd u k port o := by
  simp [connectAgent, hs, attach]

theorem newBlock_newConn (w : Net) (fd : ℕ) (n : Node) (o : Obs) :
    ((w.newConn fd n).emit o).newBlock = (w.newBlock.newConn fd n).emit o := by
  cases hf : w.free with
  | cons k rest =>
      rw [newBlock_cons hf, newBlock_cons (w := (w.newConn fd n).emit o) hf]
      rfl
  | nil =>
      rw [newBlock_nil hf, newBlock_nil (w := (w.newConn fd n).emit o) hf]
      rfl

/-- A tunnel without stream gets one first and the agent then. -/
theorem connectAgent_none (hs : n.scb = none) (ht : t ≠ w.next) (u : UserId) (fd port : ℕ) (o : Obs) :
    w.connectAgent u t n fd port o =
      (w.openStream u t n none).attach fd u w.newKey n.destPort o := by
  have hkey : ((w.newConn fd (linkedAgent fd u w.newKey)).emit o).newKey = w.newKey := rfl
  have hnext := newBlock_next w
  unfold connectAgent attach
  rw [hs]
  unfold Net.openStream
  simp only [hkey, newBlock_newConn]
  simp only [newConn, Net.emit, Net.setConn, Net.setBlock, insertTree, hnext,
    Function.update_idem, Function.update_self, Function.update_comm ht]

theorem attach_conns (w : Net) (fd : ℕ) (u : UserId) (k : ScbPtr) (port : ℕ) (o : Obs) (q : Ptr) :
    (w.attach fd u k port o).conns q =
      if q = w.next then some (linkedAgent fd u k) else w.conns q :=
  newConn_conns w fd _ q

theorem attach_blocks (w : Net) (fd : ℕ) (u : UserId) (k : ScbPtr) (port : ℕ) (o : Obs) (j : ScbPtr) :
    (w.attach fd u k port o).blocks j =
      if j = k then { w.blocks k with destPort := port, agent := some w.next } else w.blocks j :=
  setBlock_blocks _ k _ j

theorem attach_tunnel (w : Net) (fd : ℕ) (u : UserId) (k : ScbPtr) (port : ℕ) (o : Obs) (j : ScbPtr) :
    ((w.attach fd u k port o).blocks j).tunnel = (w.blocks j).tunnel := by
  rw [attach_blocks]
  split_ifs with hj
  · rw [hj]
  · rfl

theorem HasTunnel.attach (h : w.HasTunnel j) (hw : w.Wf) (fd : ℕ) (u : UserId) (k : ScbPtr)
    (port : ℕ) (o : Obs) : (w.attach fd u k port o).HasTunnel j := by
  obtain ⟨t, ht, htn⟩ := h
  refine ⟨t, (attach_tunnel ..).trans ht, ?_⟩
  rw [attach_conns, if_neg (hw.tunnelOld ht).ne]
  exact htn

/-- An agent for a stream that has none. -/
theorem Links.attach (h : w.Links) (hw : w.Wf) (hfd : fd ∉ w.fds) (hn : w.conns t = some n)
    (hk : n.scb = some k) (hag : (w.blocks k).agent = none) (u : UserId) (port : ℕ) (o : Obs) :
    (w.attach fd u k port o).Links := by
  have hnf := h.not_free hn hk
  obtain ⟨hlt, -, -⟩ := h.linked hn hk
  refine ⟨h.nodup, ?_, ?_, ?_, ?_, ?_⟩
  · intro j hj
    have hne : j ≠ k := fun he => hnf (he ▸ hj)
    rw [attach_blocks, if_neg hne]
    exact h.idle hj
  · intro q m hq hl
    change (w.newConn fd (linkedAgent fd u k)).table m.fd = some q
    rw [newConn_table]
    rw [attach_conns] at hq
    split_ifs at hq with hqn
    · cases hq
      subst hqn
      exact if_pos rfl
    · rw [if_neg (hw.fd_ne hfd hq hl), h.mapped hq hl]
  · intro q m hq hum
    rw [attach_conns] at hq
    split_ifs at hq with hqn
    · cases hq
      exact .inr rfl
    · exact h.client hq hum
  · intro q m j hq hj
    rw [attach_conns] at hq
    unfold Linked
    rw [attach_tunnel, attach_blocks]
    split_ifs at hq with hqn
    · cases hq
      cases hj
      exact ⟨hlt, Option.some_ne_none u, .inr ⟨rfl, by rw [if_pos rfl, hqn]⟩⟩
    · obtain ⟨hjlt, hju, hl⟩ := h.linked hq hj
      refine ⟨hjlt, hju, ?_⟩
      split_ifs with hjk
      · -- the stream had no agent
        rcases hl with hl | ⟨-, hl⟩
        · exact .inl hl
        · cases hag.symm.trans (hjk ▸ hl)
      · exact hl
  · intro q m j hq hj
    rw [attach_conns] at hq
    split_ifs at hq with hqn
    · cases hq
      cases hj
      exact (h.stream hn hk).attach hw fd u k port o
    · exact (h.stream hq hj).attach hw fd u k port o

theorem Links.connectAgent (h : w.Links) (hw : w.Wf) (hfd : fd ∉ w.fds) (hn : w.conns t = some n)
    (hty : n.scb = none → n.type = .tunnel)
    (hag : ∀ k, n.scb = some k → (w.blocks k).agent = none) (u : UserId) (port : ℕ) (o : Obs) :
    (w.connectAgent u t n fd port o).Links := by
  cases hs : n.scb with
  | some k =>
      rw [connectAgent_some hs]
      exact h.attach hw hfd hn hs (hag k hs) u port o
  | none =>
      have hw₁ := hw.openStream hn hs (by rw [hty hs]; decide) u none (by simp)
      have hn₁ : (w.openStream u t n none).conns t =
          some { n with user := some u, scb := some w.newKey } := by
        rw [openStream_conns, if_pos rfl]
      have hag₁ : ((w.openStream u t n none).blocks w.newKey).agent = none := by
        rw [openStream_blocks, if_pos rfl]
        exact h.newBlock_key.2.2.2
      have hfds : (w.openStream u t n none).fds = w.fds := newBlock_fds w
      rw [connectAgent_none hs (hw.fresh hn).ne]
      exact (h.openStream hn (hty hs) u).attach hw₁ (hfds ▸ hfd) hn₁ rfl hag₁ u n.destPort o

/-! ### Removed streams -/

theorem delete_free (w : Net) (p : Ptr) (n : Node) : (w.delete p n).free = w.free := by
  unfold delete unlink
  split <;> split <;> rfl

theorem delete_nextBlock (w : Net) (p : Ptr) (n : Node) : (w.delete p n).nextBlock = w.nextBlock := by
  unfold delete unlink
  split <;> split <;> rfl

theorem delete_blocks_ne (w : Net) (p : Ptr) (hs : ∀ k, n.scb = some k → j ≠ k) :
    (w.delete p n).blocks j = w.blocks j := by
  rw [delete_blocks]
  unfold unlink
  split
  · next k hk hty => rw [setBlock_blocks, if_neg (hs k hk)]
  · next k hk hty => rw [setBlock_blocks, if_neg (hs k hk)]
  · rfl

/-- The other side of the stream `k` of a connection of type `ty`. -/
def peer (w : Net) (ty : ConnType) (k : ScbPtr) : Option Ptr :=
  if ty = .tunnel then (w.blocks k).agent else (w.blocks k).tunnel

/-- What is left when a side `x` of stream `k` is dropped. -/
structure Dropped (w w' : Net) (k : ScbPtr) (x : Option Ptr) : Prop where
  conns : ∀ q, w'.conns q = if x = some q then none else w.conns q
  table : ∀ {fd}, (∀ a m, x = some a → w.conns a = some m → m.fd ≠ fd) → w'.table fd = w.table fd
  other : ∀ {j}, j ≠ k → w'.blocks j = w.blocks j
  free : w'.free = w.free
  nextBlock : w'.nextBlock = w.nextBlock

theorem dropPeer_dropped (w : Net) {x : Option Ptr}
    (hx : ∀ a m, x = some a → w.conns a = some m → m.scb = some k) :
    Dropped w (w.dropPeer x) k x := by
  cases x with
  | none => exact ⟨fun q => (if_neg nofun).symm, fun _ => rfl, fun _ => rfl, rfl, rfl⟩
  | some a =>
      cases hm : w.conns a with
      | none =>
          rw [dropPeer_gone hm]
          refine ⟨fun q => ?_, fun _ => rfl, fun _ => rfl, rfl, rfl⟩
          split_ifs with hq
          · cases hq
            exact hm
          · rfl
      | some m =>
          rw [dropPeer_some hm]
          refine ⟨fun q => ?_, fun {fd} hfd => ?_, fun {j} hj => ?_, delete_free .., delete_nextBlock ..⟩
          · rw [delete_conns]
            by_cases hq : q = a
            · rw [if_pos hq, if_pos (by rw [hq])]
            · rw [if_neg hq, if_neg fun he => hq (Option.some.inj he).symm]
              rfl
          · rw [delete_table, setTable_table, if_neg (hfd a m rfl hm).symm]
          · rw [delete_blocks_ne _ _ fun i hi => ?_]
            · rfl
            · exact (Option.mem_unique (hx a m rfl hm) hi) ▸ hj

/-- The other side of a stream is linked to it. -/
theorem Wf.peer_scb (hw : w.Wf) {ty : ConnType} (hx : w.peer ty k = some a) (hm : w.conns a = some m) :
    m.scb = some k := by
  unfold peer at hx
  split_ifs at hx
  · obtain ⟨m', hm', -, hs⟩ := hw.agent hx
    rw [hm] at hm'
    cases hm'
    exact hs
  · exact (hw.tunnel hx hm).2

/-- The block of a stream taken down is recycled. -/
theorem takeDown_eq (hk : streamOf n = some k) : ∃ b, w.takeDown n k =
    ((w.setBlock k b).dropPeer (w.peer n.type k)).recycle k := by
  rcases streamOf_type hk with hty | hty
  · refine ⟨{ w.blocks k with tunnel := none }, ?_⟩
    simp only [Net.takeDown, Net.peer, hty, setBlock_blocks, if_true]
  · refine ⟨{ w.blocks k with agent := none }, ?_⟩
    simp only [Net.takeDown, Net.peer, hty, setBlock_blocks, if_true, reduceCtorEq, if_false]

theorem Links.streamOf (h : w.Links) (hn : w.conns p = some n) : streamOf n = n.scb := by
  cases hk : n.scb with
  | none =>
      unfold Net.streamOf
      split <;> simp_all
  | some k =>
      obtain ⟨-, hu, hl⟩ := h.linked hn hk
      obtain ⟨u, hu⟩ := Option.ne_none_iff_exists'.mp hu
      rcases hl with ⟨hty, -⟩ | ⟨hty, -⟩ <;> simp [Net.streamOf, hk, hu, hty]

/-- The connections `gone` are taken out with the blocks `cut` they are linked to, of which the
blocks `freed` go to the free list. -/
structure Erased (w w' : Net) (gone : Ptr → Prop) (cut freed : List ScbPtr) : Prop where
  linksCut : ∀ {q m j}, gone q → w.conns q = some m → m.scb = some j → j ∈ cut
  sidesGone : ∀ {q m j}, j ∈ cut → w.conns q = some m → m.scb = some j → gone q
  freedNodup : freed.Nodup
  freedCut : ∀ {j}, j ∈ freed → j ∈ cut ∧ j < w.nextBlock ∧ j ∉ w.free
  /-- What is left is as before, or an agent that lost its stream. -/
  conns : ∀ {q m}, w'.conns q = some m → ¬ gone q ∧ w.conns q = some m ∨
    m.Lost ∧ m.user = none ∧ ∃ n, w.conns q = some n ∧ n.type = .agent
  stays : ∀ {q m}, ¬ gone q → w.conns q = some m → w'.conns q = some m
  table : ∀ {q m}, ¬ gone q → w.conns q = some m → ¬ m.Lost → w'.table m.fd = w.table m.fd
  other : ∀ {j}, j ∉ cut → w'.blocks j = w.blocks j
  self : ∀ {j}, j ∈ cut → (w'.blocks j).tunnel = none ∧ (w'.blocks j).agent = none
  free : w'.free = w.free ++ freed
  nextBlock : w'.nextBlock = w.nextBlock

theorem Erased.of_emit {gone : Ptr → Prop} {cut freed : List ScbPtr} {o : Obs}
    (h : Erased (w.emit o) w' gone cut freed) : Erased w w' gone cut freed :=
  ⟨h.linksCut, h.sidesGone, h.freedNodup, h.freedCut, h.conns, h.stays, h.table, h.other, h.self,
    h.free, h.nextBlock⟩

theorem HasTunnel.erase {gone : Ptr → Prop} {cut freed : List ScbPtr} (h : w.HasTunnel j) (hw : w.Wf)
    (he : Erased w w' gone cut freed) (hj : j ∉ cut) : w'.HasTunnel j := by
  obtain ⟨t, ht, htn⟩ := h
  obtain ⟨m, hm⟩ := Option.ne_none_iff_exists'.mp htn
  refine ⟨t, (congrArg Block.tunnel (he.other hj)).trans ht, ?_⟩
  rw [he.stays (fun hg => hj (he.linksCut hg hm (hw.tunnel ht hm).2)) hm]
  exact Option.some_ne_none m

theorem Links.erase {gone : Ptr → Prop} {cut freed : List ScbPtr} (h : w.Links) (hw : w.Wf)
    (he : Erased w w' gone cut freed) : w'.Links := by
  have hfree : ∀ {j}, j ∈ w.free → j ∉ cut ∨ (w'.blocks j).tunnel = none ∧ (w'.blocks j).agent = none :=
    fun {j} _ => (em (j ∈ cut)).symm.imp_right he.self
  refine ⟨?_, ?_, ?_, ?_, ?_, ?_⟩
  · rw [he.free, List.nodup_append]
    refine ⟨h.nodup, he.freedNodup, fun j hj i hi hji => ?_⟩
    exact (he.freedCut hi).2.2 (hji ▸ hj)
  · intro j hj
    rw [he.nextBlock]
    rcases List.mem_append.mp (he.free ▸ hj) with hj | hj
    · refine ⟨(h.idle hj).1, ?_⟩
      rcases hfree hj with hnc | hc
      · rw [he.other hnc]
        exact (h.idle hj).2
      · exact hc
    · exact ⟨(he.freedCut hj).2.1, he.self (he.freedCut hj).1⟩
  · intro q m hq hl
    obtain ⟨hg, hq⟩ := (he.conns hq).resolve_right fun hx => hl hx.1
    rw [he.table hg hq hl]
    exact h.mapped hq hl
  · intro q m hq hu
    exact h.client ((he.conns hq).resolve_right fun hx => hu hx.2.1).2 hu
  · intro q m j hq hj
    obtain ⟨hg, hq⟩ := (he.conns hq).resolve_right fun hx => not_lost_of_scb hj hx.1
    have hnc : j ∉ cut := fun hc => hg (he.sidesGone hc hq hj)
    unfold Linked
    rw [he.nextBlock, he.other hnc]
    exact h.linked hq hj
  · intro q m j hq hj
    obtain ⟨hg, hq⟩ := (he.conns hq).resolve_right fun hx => not_lost_of_scb hj hx.1
    exact (h.stream hq hj).erase hw he fun hc => hg (he.sidesGone hc hq hj)

/-- Connections have different descriptors. -/
theorem Links.fd_inj (h : w.Links) (hn : w.conns p = some n) (hm : w.conns q = some m)
    (hl : ¬ n.Lost) (hl' : ¬ m.Lost) (hfd : m.fd = n.fd) : q = p :=
  Option.some.inj ((hfd ▸ (h.mapped hm hl').symm).trans (h.mapped hn hl))

/-- The connections of a stream are the two sides of it. -/
theorem Links.sides (h : w.Links) (hn : w.conns p = some n) (hk : n.scb = some k)
    (hm : w.conns q = some m) (hmk : m.scb = some k) : q = p ∨ w.peer n.type k = some q := by
  unfold peer
  rcases (h.linked hn hk).2.2 with ⟨hty, hl⟩ | ⟨hty, hl⟩ <;>
    rcases (h.linked hm hmk).2.2 with ⟨hty', hl'⟩ | ⟨hty', hl'⟩
  · exact .inl (Option.mem_unique hl' hl)
  · exact .inr (by rw [if_pos hty, hl'])
  · exact .inr (by rw [hty, if_neg (by decide), hl'])
  · exact .inl (Option.mem_unique hl' hl)

theorem Links.remove_unlinked (h : w.Links) (hn : w.conns p = some n) (hl : ¬ n.Lost)
    (hk : n.scb = none) :
    Erased w ((w.delete p n).setTable n.fd none) (· = p) [] [] := by
  have hb : ∀ {j}, ((w.delete p n).setTable n.fd none).blocks j = w.blocks j :=
    delete_blocks_ne w p (by simp [hk])
  refine ⟨?_, ?_, List.nodup_nil, ?_, ?_, ?_, ?_, ?_, ?_, ?_, delete_nextBlock w p n⟩
  · rintro q m j rfl hm hj
    cases Option.mem_unique hn hm
    cases hk.symm.trans hj
  · exact fun hj => absurd hj List.not_mem_nil
  · exact fun hj => absurd hj List.not_mem_nil
  · intro q m hq
    change (w.delete p n).conns q = some m at hq
    rw [delete_conns] at hq
    split_ifs at hq with hqp
    exact .inl ⟨hqp, hq⟩
  · intro q m hqp hq
    change (w.delete p n).conns q = some m
    rw [delete_conns, if_neg hqp, hq]
  · intro q m hqp hq hlm
    rw [setTable_table, delete_table, if_neg fun hfd => hqp (h.fd_inj hn hq hl hlm hfd)]
  · exact fun _ => hb
  · exact fun hj => absurd hj List.not_mem_nil
  · exact (delete_free w p n).trans (List.append_nil _).symm

theorem Links.remove_linked (h : w.Links) (hw : w.Wf) (hn : w.conns p = some n)
    (hk : n.scb = some k) (b : Block) :
    Erased w (((((w.setBlock k b).dropPeer (w.peer n.type k)).recycle k).delete p n).setTable n.fd none)
      (fun q => q = p ∨ w.peer n.type k = some q) [k] [k] := by
  have hl : ¬ n.Lost := not_lost_of_scb hk
  have hd : Dropped (w.setBlock k b) ((w.setBlock k b).dropPeer (w.peer n.type k)) k
      (w.peer n.type k) := dropPeer_dropped _ fun a m ha hm => hw.peer_scb ha hm
  have hother : ∀ {j}, j ≠ k → (((((w.setBlock k b).dropPeer (w.peer n.type k)).recycle k).delete
      p n).setTable n.fd none).blocks j = w.blocks j := by
    intro j hj
    refine (delete_blocks_ne _ p fun i hi => ?_).trans ?_
    · exact Option.mem_unique hk hi ▸ hj
    · refine (setBlock_blocks _ k _ j).trans ?_
      rw [if_neg hj, hd.other hj, setBlock_blocks, if_neg hj]
  refine ⟨?_, ?_, List.nodup_singleton k, ?_, ?_, ?_, ?_, ?_, ?_, ?_, ?_⟩
  · rintro q m j (rfl | hx) hm hj
    · cases Option.mem_unique hn hm
      exact List.mem_singleton.mpr (Option.mem_unique hj hk)
    · exact List.mem_singleton.mpr (Option.mem_unique hj (hw.peer_scb hx hm))
  · intro q m j hj hm hmj
    exact h.sides hn hk hm (List.mem_singleton.mp hj ▸ hmj)
  · intro j hj
    rw [List.mem_singleton.mp hj]
    exact ⟨List.mem_singleton_self k, (h.linked hn hk).1, h.not_free hn hk⟩
  · intro q m hq
    change (Net.delete _ p n).conns q = some m at hq
    rw [delete_conns] at hq
    split_ifs at hq with hqp
    change ((w.setBlock k b).dropPeer (w.peer n.type k)).conns q = some m at hq
    rw [hd.conns] at hq
    split_ifs at hq with hx
    exact .inl ⟨not_or.mpr ⟨hqp, hx⟩, hq⟩
  · intro q m hg hq
    obtain ⟨hqp, hx⟩ := not_or.mp hg
    change (Net.delete _ p n).conns q = some m
    rw [delete_conns, if_neg hqp]
    change ((w.setBlock k b).dropPeer (w.peer n.type k)).conns q = some m
    rw [hd.conns, if_neg hx]
    exact hq
  · intro q m hg hq hlm
    obtain ⟨hqp, hx⟩ := not_or.mp hg
    rw [setTable_table, delete_table, if_neg fun hfd => hqp (h.fd_inj hn hq hl hlm hfd)]
    refine hd.table fun a m' ha hm' hfd => hx ?_
    rw [h.fd_inj hm' hq (not_lost_of_scb (hw.peer_scb ha hm')) hlm hfd.symm, ha]
  · intro j hj
    exact hother fun he => hj (List.mem_singleton.mpr he)
  · intro j hj
    rw [List.mem_singleton.mp hj]
    change ((Net.delete _ p n).blocks k).tunnel = none ∧ ((Net.delete _ p n).blocks k).agent = none
    have hreset : ((((w.setBlock k b).dropPeer (w.peer n.type k)).recycle k).blocks k) =
        SCB.reset.block := (setBlock_blocks _ k _ k).trans (if_pos rfl)
    rw [delete_blocks, unlink_tunnel, unlink_agent, hreset]
    simp [SCB.block, SCB.reset]
  · exact (delete_free _ p n).trans (congrArg (· ++ [k]) hd.free)
  · exact (delete_nextBlock _ p n).trans hd.nextBlock

/-- Removing a connection takes its stream with it, and frees the block. -/
theorem Links.remove_erased (h : w.Links) (hw : w.Wf) (ht : w.table fd = some p)
    (hn : w.conns p = some n) :
    ∃ gone, Erased w (w.remove fd p n) gone n.scb.toList n.scb.toList := by
  obtain ⟨rfl, hl⟩ := hw.entry ht hn
  have hs := h.streamOf hn
  cases hk : n.scb with
  | none =>
      refine ⟨(· = p), ?_⟩
      rw [Net.remove, Net.beforeRemove, hs, hk]
      exact h.remove_unlinked hn hl hk
  | some k =>
      obtain ⟨b, hb⟩ := takeDown_eq (w := w) (hs.trans hk)
      refine ⟨fun q => q = p ∨ w.peer n.type k = some q, ?_⟩
      rw [Net.remove, Net.beforeRemove, hs, hk]
      change Erased w (((w.takeDown n k).delete p n).setTable n.fd none) _ [k] [k]
      rw [hb]
      exact h.remove_linked hw hn hk b

/-- Giving up an agent deletes the tunnel and cuts the block, which is not freed. -/
theorem Links.agentDown_erased (h : w.Links) (hw : w.Wf) (ht : w.table fd = some p)
    (hn : w.conns p = some n) (hty : n.type = .agent) (hk : n.scb = some k) :
    Erased w ((w.agentDown fd p n k).closeFd fd) (fun q => q = p ∨ (w.blocks k).tunnel = some q)
      [k] [] := by
  obtain ⟨rfl, hl⟩ := hw.entry ht hn
  have hpeer : w.peer n.type k = (w.blocks k).tunnel := by rw [peer, hty, if_neg (by decide)]
  have hd : Dropped (w.setTable n.fd none) ((w.setTable n.fd none).dropPeer (w.blocks k).tunnel) k
      (w.blocks k).tunnel := dropPeer_dropped _ fun a m ha hm => (hw.tunnel ha hm).2
  refine ⟨?_, ?_, List.nodup_nil, nofun, ?_, ?_, ?_, ?_, ?_, ?_, hd.nextBlock⟩
  · rintro q m j (rfl | hx) hm hj
    · cases Option.mem_unique hn hm
      exact List.mem_singleton.mpr (Option.mem_unique hj hk)
    · exact List.mem_singleton.mpr (Option.some.inj (hj.symm.trans (hw.tunnel hx hm).2))
  · intro q m j hj hm hmj
    exact hpeer ▸ h.sides hn hk hm (List.mem_singleton.mp hj ▸ hmj)
  · intro q m hq
    change (Net.setConn _ p { n with scb := none, user := none }).conns q = some m at hq
    rw [setConn_conns] at hq
    split_ifs at hq with hqp
    · cases hq
      exact .inr ⟨⟨hty, rfl⟩, rfl, n, hqp ▸ hn, hty⟩
    · change ((w.setTable n.fd none).dropPeer (w.blocks k).tunnel).conns q = some m at hq
      rw [hd.conns] at hq
      split_ifs at hq with hx
      exact .inl ⟨not_or.mpr ⟨hqp, hx⟩, hq⟩
  · intro q m hg hq
    obtain ⟨hqp, hx⟩ := not_or.mp hg
    change (Net.setConn _ p { n with scb := none, user := none }).conns q = some m
    rw [setConn_conns, if_neg hqp]
    change ((w.setTable n.fd none).dropPeer (w.blocks k).tunnel).conns q = some m
    rw [hd.conns, if_neg hx]
    exact hq
  · intro q m hg hq hlm
    obtain ⟨hqp, hx⟩ := not_or.mp hg
    refine (hd.table fun a m' ha hm' hfd => hx ?_).trans ?_
    · rw [h.fd_inj hm' hq (not_lost_of_type (hw.tunnel ha hm').1) hlm hfd.symm, ha]
    · rw [setTable_table, if_neg fun hfd => hqp (h.fd_inj hn hq hl hlm hfd)]
  · intro j hj
    have hne : j ≠ k := fun he => hj (List.mem_singleton.mpr he)
    refine (setBlock_blocks _ k _ j).trans ?_
    rw [if_neg hne, hd.other hne]
    rfl
  · intro j hj
    rw [List.mem_singleton.mp hj]
    change ((Net.setBlock _ k _).blocks k).tunnel = none ∧ ((Net.setBlock _ k _).blocks k).agent = none
    rw [setBlock_blocks, if_pos rfl]
    -- the destructor of the tunnel cuts the other link
    obtain ⟨t, htn, htc⟩ := h.stream hn hk
    obtain ⟨m, hm⟩ := Option.ne_none_iff_exists'.mp htc
    have hmty : m.type = .tunnel := by
      rcases (h.linked hm (hw.tunnel htn hm).2).2.2 with ⟨hty', -⟩ | ⟨hty', -⟩
      · exact hty'
      · exact absurd hty' (hw.tunnel htn hm).1
    refine ⟨?_, rfl⟩
    change (((w.setTable n.fd none).dropPeer (w.blocks k).tunnel).blocks k).tunnel = none
    rw [htn, dropPeer_some (w := w.setTable n.fd none) hm, delete_blocks, unlink_tunnel,
      if_pos ⟨(hw.tunnel htn hm).2, hmty⟩]
  · exact hd.free.trans (List.append_nil _).symm

/-! ### Steps -/

/-- What a step can do to the links. -/
inductive LinkStep (w w' : Net) : Prop
  | same (hs : SameLinks w w')
  | moved {p : Ptr} {n m : Node} (hn : w.conns p = some n) (hfd : m.fd = n.fd)
      (hty : m.type = n.type) (hscb : m.scb = n.scb) (hu : n.user ≠ none → m.user ≠ none)
      (hcl : m.user ≠ none → n.type = .tunnel ∨ n.type = .agent)
      (hs : SameLinks (w.setConn p m) w')
  | opened {t : Ptr} {n : Node} (u : UserId) (hn : w.conns t = some n) (hty : n.type = .tunnel)
      (hs : SameLinks (w.openStream u t n none) w')
  | accepted {n : Node} (hfd : n.fd ∉ w.fds) (hty : n.type ≠ .agent) (hu : n.user = none)
      (hscb : n.scb = none) (he : w' = w.newConn n.fd n)
  | connected {t : Ptr} {n : Node} {fd : ℕ} (u : UserId) (ip port : ℕ) (b : Option SCB)
      (hfd : fd ∉ w.fds) (hn : w.conns t = some n) (hty : n.scb = none → n.type = .tunnel)
      (hb : b.map SCB.block = n.scb.map w.blocks)
      (hag : ∀ k, n.scb = some k → (w.blocks k).agent = none)
      (he : w' = w.connectAgent u t n fd port (.connect w.next ip port u t b))
  | removed {gone : Ptr → Prop} {cut : List ScbPtr} (he : Erased w w' gone cut cut)
  | lost {gone : Ptr → Prop} {cut : List ScbPtr} (p : Ptr) (he : Erased w w' gone cut [])
      (hlog : .agentDown p ∈ w'.log)

theorem login_congr (w : Net) (p : Ptr) (c : Connect) (len : ℕ) (r : LoginReq) :
    (w.login p c len r).table = w.table ∧ (w.login p c len r).blocks = w.blocks ∧
      (w.login p c len r).free = w.free ∧ (w.login p c len r).nextBlock = w.nextBlock := by
  unfold Net.login addUser
  split <;> exact ⟨rfl, rfl, rfl, rfl⟩

theorem Links.act_step (h : w.Links) (hw : w.Wf) (hs : Act w w') (hok : ∀ o ∈ w'.log, o.Linkable) :
    LinkStep w w' := by
  have hkeep : ∀ {w'' : Net}, w''.conns = w.conns → w''.table = w.table → w''.blocks = w.blocks →
      w''.free = w.free → w''.nextBlock = w.nextBlock → LinkStep w w'' := fun h₁ h₂ h₃ h₄ h₅ =>
    .same (.of_blocks h₁ h₂ h₃ h₄ h₅)
  have hmove : ∀ {w'' : Net} {p n m}, w.conns p = some n →
      w''.conns = Function.update w.conns p (some m) → w''.table = w.table → w''.blocks = w.blocks →
      w''.free = w.free → w''.nextBlock = w.nextBlock → m.fd = n.fd → m.type = n.type →
      m.scb = n.scb → m.user = n.user → LinkStep w w'' :=
    fun hn h₁ h₂ h₃ h₄ h₅ hfd hty hscb hu =>
      .moved hn hfd hty hscb (fun hn => hu ▸ hn) (fun hm => h.client hn (hu ▸ hm))
        (.of_blocks h₁ h₂ h₃ h₄ h₅)
  cases hs with
  | message | woken | askAgain | forwarded | upload | download => exact hkeep rfl rfl rfl rfl rfl
  | @login p c len r hc hm hid hr ht =>
      have hty : c.type = .tunnel := hok (.msg p c len) (by simp [Net.login, Net.emit]) hid
      obtain ⟨htab, hb, hf, hx⟩ := login_congr w p c len r
      exact .moved (m := loggedIn c.node r) hc rfl rfl rfl (fun _ => Option.some_ne_none _)
        (fun _ => .inl hty) (.of_blocks (login_conns w p c len r) htab hb hf hx)
  | switch len hc hm hid hk ha => exact hmove hc rfl rfl rfl rfl rfl rfl rfl rfl rfl
  | @verify p q c m k u len r hc hm hid hr hq hn hcode htok hk hu =>
      refine .moved (m := { m with verified := true }) hn rfl rfl rfl id (h.client hn :)
        ⟨rfl, rfl, fun j => ?_, rfl, rfl⟩
      change { (Net.setBlock _ _ _).blocks j with status := (w.blocks j).status } = w.blocks j
      rw [setBlock_blocks]
      split_ifs with hj
      · rw [hj]
      · rfl
  | ask host u hn hs' hm hu =>
      refine .opened u hn ?_ (.of_blocks rfl rfl rfl rfl rfl)
      exact (h.client hn (hu ▸ Option.some_ne_none u)).resolve_right (hw.not_agent hn hm)
  | @connect t n u fd ip port k hn hk hm hfd =>
      refine .connected u ip port k hfd.2.2 hn (fun hs => ?_) hk (fun j hj => ?_) rfl
      · obtain ⟨hm, hu⟩ := hm hs
        exact (h.client hn (hu ▸ Option.some_ne_none u)).resolve_right (hw.not_agent hn hm)
      · have hfree : k.all (·.agentConn = none) = true :=
          hok (.connect w.next ip port u t k) (by simp [connectAgent_log])
        rw [hj, Option.map_some] at hk
        obtain ⟨b, rfl, hb⟩ := Option.map_eq_some_iff.mp hk
        have hnone : b.agentConn = none := by simpa using hfree
        exact hb ▸ hnone
  | accept fd mem now ht hfd =>
      exact .accepted (n := ((Connect.fresh mem).accepted fd now).node) hfd.2.2 (fun h => ConnType.noConfusion h)
        rfl rfl rfl
  | remove ht hn =>
      obtain ⟨gone, he⟩ := h.remove_erased hw ht hn
      exact .removed he
  | read mode still offset hn hm => exact hmove hn rfl rfl rfl rfl rfl rfl rfl rfl rfl
  | hangUp offset hn hty hm => exact hmove hn rfl rfl rfl rfl rfl rfl rfl rfl rfl
  | flush bs connecting still offset hf hc =>
      exact hmove hf.agent rfl rfl rfl rfl rfl rfl rfl rfl rfl
  | establish connecting hn hc hk ht => exact hmove hn rfl rfl rfl rfl rfl rfl rfl rfl rfl

/-- What a step of the main loop does to the links. -/
theorem Links.big_step (h : w.Links) (hw : w.Wf) (hs : Big w w') (hok : ∀ o ∈ w'.log, o.Linkable) :
    LinkStep w w' := by
  have hsame : ∀ o, SameLinks w (w.emit o) := fun o => .of_blocks rfl rfl rfl rfl rfl
  cases hs with
  | act hs => exact h.act_step hw hs hok
  | @giveUp fd p n k ht hn hty hu hk =>
      exact .lost p (h.agentDown_erased hw ht hn hty hk) (by simp [closeFd_log, agentDown_log])
  | cutIgnored p t => exact .same (hsame _)
  | cutRemove e ht hn htn =>
      obtain ⟨gone, he⟩ := (h.congr (hsame _)).remove_erased (hw.emit _) ht hn
      exact .removed he.of_emit
  | @cutGiveUp fd p t n k e ht hn hty hu hk htn =>
      have he := (h.congr (hsame (.cutoff p t (some e)))).agentDown_erased (hw.emit _) ht hn hty hk
      exact .lost p he.of_emit (by simp [closeFd_log, agentDown_log])
  | @cutShut fd p a n m bs connecting still offset hf hc =>
      exact .moved (m := { m with connecting := connecting, still := still, offset := offset })
        hf.agent rfl rfl rfl id (h.client hf.agent :) (.of_blocks rfl rfl rfl rfl rfl)
  | @orphan fd p n ht hn hc hk =>
      -- an agent of the table has a stream, which has a tunnel
      obtain ⟨-, hl⟩ := hw.entry ht hn
      have hscb : n.scb ≠ none := fun hs => hl ⟨hw.connecting hn hc, hs⟩
      obtain ⟨k, hs⟩ := Option.ne_none_iff_exists'.mp hscb
      obtain ⟨t, htn, -⟩ := h.stream hn hs
      simp [hs, htn] at hk

/-- **The links are kept.** -/
theorem Links.step (h : w.Links) (hw : w.Wf) (hs : Big w w') (hok : ∀ o ∈ w'.log, o.Linkable) :
    w'.Links := by
  cases h.big_step hw hs hok with
  | same hs => exact h.congr hs
  | moved hn hfd hty hscb hu hcl hs => exact (h.setConn hn hfd hty hscb hu hcl).congr hs
  | opened u hn hty hs => exact (h.openStream hn hty u).congr hs
  | accepted hfd hty hu hscb he => exact he ▸ h.accept hw hfd rfl hu hscb
  | connected u ip port b hfd hn hty hb hag he => exact he ▸ h.connectAgent hw hfd hn hty hag u port _
  | removed he => exact h.erase hw he
  | lost p he hlog => exact h.erase hw he

theorem init_links (accurate : Bool) (errno err : ℕ) (mem : Buff) :
    (Server.init accurate errno err mem).net.Links where
  nodup := List.nodup_nil
  idle hk := absurd hk List.not_mem_nil
  mapped {p n} h _ := by
    rw [(init_conns h).fd]
    have hp := (init_conns h).lt
    interval_cases p <;> rfl
  client h hu := absurd (init_conns h).user hu
  linked h hk := by simp [(init_conns h).scb] at hk
  stream h hk := by simp [(init_conns h).scb] at hk

end Net

end HttpsTunnel.Tms

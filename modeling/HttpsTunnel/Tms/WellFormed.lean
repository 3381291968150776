import HttpsTunnel.Tms.Net

/-! # Links and descriptors of the net

`Wf` says what holds of the net whatever the clients and servers do: the connection table
names live connections under their own descriptors, descriptors of live connections are open
and distinct, and the links of stream control blocks lead to connections that know the block.
The exception is an agent given up by `InformShutdownUser`: its object stays behind, unlinked
and with its descriptor closed (`Node.Lost`).

`Wf` is kept by every step (`Act.wf`, `Big.wf`). -/

namespace HttpsTunnel.Tms

/-- An agent that was given up: it belongs to no stream. -/
def Node.Lost (n : Node) : Prop := n.type = .agent ∧ n.scb = none

namespace Net

/-- Links and descriptors are in order. -/
structure Wf (w : Net) : Prop where
  fresh : ∀ {p n}, w.conns p = some n → p < w.next
  table : ∀ {fd p}, w.table fd = some p → ∃ n, w.conns p = some n ∧ n.fd = fd ∧ ¬ n.Lost
  isOpen : ∀ {p n}, w.conns p = some n → ¬ n.Lost → n.fd ∈ w.fds
  inj : ∀ {p q n m}, w.conns p = some n → w.conns q = some m → ¬ n.Lost → ¬ m.Lost →
    n.fd = m.fd → p = q
  agent : ∀ {k a}, (w.blocks k).agent = some a →
    ∃ n, w.conns a = some n ∧ n.type = .agent ∧ n.scb = some k
  tunnel : ∀ {k t n}, (w.blocks k).tunnel = some t → w.conns t = some n →
    n.type ≠ .agent ∧ n.scb = some k
  tunnelOld : ∀ {k t}, (w.blocks k).tunnel = some t → t < w.next
  mode : ∀ {p n}, w.conns p = some n → n.type = .agent → n.cstate = .forward
  connecting : ∀ {p n}, w.conns p = some n → n.connecting = true → n.type = .agent
  range : ∀ {p n}, w.conns p = some n → 0 < n.fd ∧ n.fd < 2 ^ 31

variable {w : Net} {p t a : Ptr} {n m : Node} {k : ScbPtr} {fd : ℕ}

/-- An entry of the table is no lost agent. -/
theorem Wf.entry (h : w.Wf) (ht : w.table fd = some p) (hn : w.conns p = some n) :
    n.fd = fd ∧ ¬ n.Lost := by
  obtain ⟨m, hm, hfd, hl⟩ := h.table ht
  obtain rfl : n = m := Option.mem_unique hn hm
  exact ⟨hfd, hl⟩

theorem Wf.entry_open (h : w.Wf) (ht : w.table fd = some p) : fd ∈ w.fds := by
  obtain ⟨n, hn, rfl, hl⟩ := h.table ht
  exact h.isOpen hn hl

/-! ### Basic updates -/

/-- The log, the waiting streams, the user trees and the sockets shut down do not matter. -/
theorem Wf.congr {w w' : Net} (h : w.Wf) (hc : w'.conns = w.conns) (hx : w'.next = w.next)
    (ht : w'.table = w.table) (hb : w'.blocks = w.blocks) (hf : w'.fds = w.fds) : w'.Wf := by
  obtain ⟨conns, next, table, blocks, nextBlock, free, lastId, trees, waiting, fds, shut, log⟩ := w
  obtain ⟨conns', next', table', blocks', nextBlock', free', lastId', trees', waiting', fds', shut',
    log'⟩ := w'
  simp only at hc hx ht hb hf
  subst hc hx ht hb hf
  exact ⟨h.fresh, h.table, h.isOpen, h.inj, h.agent, h.tunnel, h.tunnelOld, h.mode, h.connecting,
    h.range⟩

theorem Wf.emit (h : w.Wf) (o : Obs) : (w.emit o).Wf := h.congr rfl rfl rfl rfl rfl

theorem setConn_conns (w : Net) (p : Ptr) (n : Node) (q : Ptr) :
    (w.setConn p n).conns q = if q = p then some n else w.conns q := by
  simp [setConn, Function.update_apply]

theorem setBlock_blocks (w : Net) (k : ScbPtr) (b : Block) (j : ScbPtr) :
    (w.setBlock k b).blocks j = if j = k then b else w.blocks j := by
  simp [setBlock, Function.update_apply]

theorem setTable_table (w : Net) (fd : ℕ) (p : Option Ptr) (fd' : ℕ) :
    (w.setTable fd p).table fd' = if fd' = fd then p else w.table fd' := by
  simp [setTable, Function.update_apply]

/-- A connection may change in all but its descriptor, its type and a block it has, as long as
agents stay in forward mode and only agents are connecting. -/
theorem Wf.replace (h : w.Wf) (hn : w.conns p = some n) (hfd : m.fd = n.fd) (hty : m.type = n.type)
    (hlost : m.Lost ↔ n.Lost) (hscb : ∀ k, n.scb = some k → m.scb = some k)
    (hm : m.type = .agent → m.cstate = .forward)
    (hc : m.connecting = true → m.type = .agent) : (w.setConn p m).Wf := by
  -- every connection of the new net has a counterpart in the old one
  have hold : ∀ {q m'}, (w.setConn p m).conns q = some m' → ∃ n', w.conns q = some n' ∧
      m'.fd = n'.fd ∧ m'.type = n'.type ∧ (m'.Lost ↔ n'.Lost) ∧
        ∀ k, n'.scb = some k → m'.scb = some k := by
    intro q m' hq
    rw [setConn_conns] at hq
    split_ifs at hq with hqp
    · cases hq
      exact ⟨n, hqp ▸ hn, hfd, hty, hlost, hscb⟩
    · exact ⟨m', hq, rfl, rfl, Iff.rfl, fun _ => id⟩
  have hnew : ∀ {q n'}, w.conns q = some n' → ∃ m', (w.setConn p m).conns q = some m' ∧
      m'.fd = n'.fd ∧ m'.type = n'.type ∧ (m'.Lost ↔ n'.Lost) ∧
        ∀ k, n'.scb = some k → m'.scb = some k := by
    intro q n' hq
    rw [setConn_conns]
    split_ifs with hqp
    · subst hqp
      rw [hn] at hq
      cases hq
      exact ⟨m, rfl, hfd, hty, hlost, hscb⟩
    · exact ⟨n', hq, rfl, rfl, Iff.rfl, fun _ => id⟩
  refine ⟨?_, ?_, ?_, ?_, ?_, ?_, h.tunnelOld, ?_, ?_, ?_⟩
  · intro q m' hq
    obtain ⟨n', hq', -⟩ := hold hq
    exact h.fresh hq'
  · intro fd q hq
    obtain ⟨n', hn', hfd', hl⟩ := h.table hq
    obtain ⟨m', hm', hmf, -, hml, -⟩ := hnew hn'
    exact ⟨m', hm', hmf.trans hfd', fun hx => hl (hml.mp hx)⟩
  · intro q m' hq hl
    obtain ⟨n', hq', hf, -, hl', -⟩ := hold hq
    rw [hf]
    exact h.isOpen hq' fun hx => hl (hl'.mpr hx)
  · intro q q' m₁ m₂ hq hq' hl hl' hf
    obtain ⟨n₁, hq₁, hf₁, -, hl₁, -⟩ := hold hq
    obtain ⟨n₂, hq₂, hf₂, -, hl₂, -⟩ := hold hq'
    exact h.inj hq₁ hq₂ (fun hx => hl (hl₁.mpr hx)) (fun hx => hl' (hl₂.mpr hx))
      (by rw [← hf₁, ← hf₂, hf])
  · intro k a ha
    obtain ⟨n', hn', hty', hs'⟩ := h.agent ha
    obtain ⟨m', hm', -, hmt, -, hms⟩ := hnew hn'
    exact ⟨m', hm', hmt.trans hty', hms k hs'⟩
  · intro k t m' ht hq
    obtain ⟨n', hq', -, hmt, -, hms⟩ := hold hq
    obtain ⟨h₁, h₂⟩ := h.tunnel ht hq'
    exact ⟨hmt ▸ h₁, hms k h₂⟩
  · intro q m' hq hty'
    rw [setConn_conns] at hq
    split_ifs at hq with hqp
    · cases hq
      exact hm hty'
    · exact h.mode hq hty'
  · intro q m' hq hc'
    rw [setConn_conns] at hq
    split_ifs at hq with hqp
    · cases hq
      exact hc hc'
    · exact h.connecting hq hc'
  · intro q m' hq
    obtain ⟨n', hq', hf, -⟩ := hold hq
    rw [hf]
    exact h.range hq'

/-- A connection may change in all but its descriptor, type and block, if it does not leave
forward mode and does not start to connect. -/
theorem Wf.setConn (h : w.Wf) (hn : w.conns p = some n) (m : Node) (hfd : m.fd = n.fd)
    (hty : m.type = n.type) (hscb : m.scb = n.scb) (hm : n.cstate = .forward → m.cstate = .forward)
    (hc : m.connecting = true → n.connecting = true) : (w.setConn p m).Wf := by
  refine h.replace hn hfd hty (by simp only [Node.Lost, hty, hscb]) (fun _ hk => hscb.trans hk) ?_ ?_
  · exact fun hm' => hm (h.mode hn (hty ▸ hm'))
  · exact fun hc' => hty ▸ h.connecting hn (hc hc')

/-- A block may be set to anything whose links lead to connections that know the block. -/
theorem Wf.setBlock (h : w.Wf) {b : Block}
    (ha : ∀ a, b.agent = some a → ∃ n, w.conns a = some n ∧ n.type = .agent ∧ n.scb = some k)
    (ht : ∀ t, b.tunnel = some t → t < w.next ∧
      ∀ n, w.conns t = some n → n.type ≠ .agent ∧ n.scb = some k) : (w.setBlock k b).Wf := by
  refine ⟨h.fresh, h.table, h.isOpen, h.inj, ?_, ?_, ?_, h.mode, h.connecting, h.range⟩
  · intro j a hj
    rw [setBlock_blocks] at hj
    split_ifs at hj with hjk
    · exact hjk ▸ ha a hj
    · exact h.agent hj
  · intro j t n hj hn
    rw [setBlock_blocks] at hj
    split_ifs at hj with hjk
    · exact hjk ▸ (ht t hj).2 n hn
    · exact h.tunnel hj hn
  · intro j t hj
    rw [setBlock_blocks] at hj
    split_ifs at hj with hjk
    · exact (ht t hj).1
    · exact h.tunnelOld hj

/-- A block may change in all but its links, which may also be cut. -/
theorem Wf.cutBlock (h : w.Wf) {b : Block}
    (ha : b.agent = none ∨ b.agent = (w.blocks k).agent)
    (ht : b.tunnel = none ∨ b.tunnel = (w.blocks k).tunnel) : (w.setBlock k b).Wf := by
  refine h.setBlock (fun a hb => ?_) fun t hb => ?_
  · rcases ha with ha | ha
    · rw [ha] at hb
      cases hb
    · exact h.agent (ha ▸ hb)
  · rcases ht with ht | ht
    · rw [ht] at hb
      cases hb
    · exact ⟨h.tunnelOld (ht ▸ hb), fun n hn => h.tunnel (ht ▸ hb) hn⟩

/-! ### Deleting connections -/

theorem unlink_agent (w : Net) (n : Node) (j : ScbPtr) :
    ((w.unlink n).blocks j).agent =
      if n.scb = some j ∧ n.type = .agent then none else (w.blocks j).agent := by
  unfold unlink
  split
  · rename_i k hk hty
    simp only [setBlock_blocks, hty, reduceCtorEq, and_false, if_false]
    split_ifs with h
    · rw [h]
    · rfl
  · rename_i k hk hty
    simp only [setBlock_blocks, hk, hty, Option.some.injEq, and_true]
    by_cases h : j = k
    · simp [h]
    · simp [h, Ne.symm h]
  · rename_i hx hy
    rw [if_neg]
    rintro ⟨hs, hty⟩
    exact hy j hs hty

theorem unlink_tunnel (w : Net) (n : Node) (j : ScbPtr) :
    ((w.unlink n).blocks j).tunnel =
      if n.scb = some j ∧ n.type = .tunnel then none else (w.blocks j).tunnel := by
  unfold unlink
  split
  · rename_i k hk hty
    simp only [setBlock_blocks, hk, hty, Option.some.injEq, and_true]
    by_cases h : j = k
    · simp [h]
    · simp [h, Ne.symm h]
  · rename_i k hk hty
    simp only [setBlock_blocks, hty, reduceCtorEq, and_false, if_false]
    split_ifs with h
    · rw [h]
    · rfl
  · rename_i hx hy
    rw [if_neg]
    rintro ⟨hs, hty⟩
    exact hx j hs hty

@[simp] theorem unlink_conns (w : Net) (n : Node) : (w.unlink n).conns = w.conns := by
  unfold unlink; split <;> rfl

@[simp] theorem unlink_table (w : Net) (n : Node) : (w.unlink n).table = w.table := by
  unfold unlink; split <;> rfl

@[simp] theorem unlink_next (w : Net) (n : Node) : (w.unlink n).next = w.next := by
  unfold unlink; split <;> rfl

@[simp] theorem unlink_fds (w : Net) (n : Node) : (w.unlink n).fds = w.fds := by
  unfold unlink; split <;> rfl

theorem delete_conns (w : Net) (p : Ptr) (n : Node) (q : Ptr) :
    (w.delete p n).conns q = if q = p then none else w.conns q := by
  by_cases h : 0 < n.fd <;> simp [delete, h, closeFd, Function.update_apply]

@[simp] theorem delete_table (w : Net) (p : Ptr) (n : Node) : (w.delete p n).table = w.table := by
  by_cases h : 0 < n.fd <;> simp [delete, h, closeFd]

@[simp] theorem delete_next (w : Net) (p : Ptr) (n : Node) : (w.delete p n).next = w.next := by
  by_cases h : 0 < n.fd <;> simp [delete, h, closeFd]

theorem mem_delete_fds {w : Net} {p : Ptr} {n : Node} {fd : ℕ} (h : fd ∈ w.fds) (hne : fd ≠ n.fd) :
    fd ∈ (w.delete p n).fds := by
  by_cases h0 : 0 < n.fd <;> simp [delete, h0, closeFd, h, hne]

theorem delete_blocks (w : Net) (p : Ptr) (n : Node) (j : ScbPtr) :
    (w.delete p n).blocks j = (w.unlink n).blocks j := by
  by_cases h : 0 < n.fd
  · simp only [delete, h, if_true]
    unfold unlink
    split <;> rfl
  · simp only [delete, h, if_false]

theorem Wf.unmap (h : w.Wf) (fd : ℕ) : (w.setTable fd none).Wf := by
  refine ⟨h.fresh, ?_, h.isOpen, h.inj, h.agent, h.tunnel, h.tunnelOld, h.mode, h.connecting, h.range⟩
  intro fd' q hq
  rw [setTable_table] at hq
  split_ifs at hq with hf
  exact h.table hq

/-- A live connection may be erased from the table and deleted. -/
theorem Wf.drop (h : w.Wf) (hn : w.conns p = some n) (hl : ¬ n.Lost) :
    ((w.setTable n.fd none).delete p n).Wf := by
  have hconns : ∀ {q m}, ((w.setTable n.fd none).delete p n).conns q = some m →
      q ≠ p ∧ w.conns q = some m := by
    intro q m hq
    rw [delete_conns] at hq
    split_ifs at hq with hqp
    exact ⟨hqp, hq⟩
  have hagent : ∀ {j a}, (((w.setTable n.fd none).delete p n).blocks j).agent = some a →
      a ≠ p ∧ (w.blocks j).agent = some a := by
    intro j a ha
    rw [delete_blocks, unlink_agent] at ha
    split_ifs at ha with hj
    refine ⟨?_, ha⟩
    rintro rfl
    obtain ⟨n', hn', hty, hs⟩ := h.agent ha
    rw [hn] at hn'
    cases hn'
    exact hj ⟨hs, hty⟩
  have htunnel : ∀ {j t}, (((w.setTable n.fd none).delete p n).blocks j).tunnel = some t →
      (w.blocks j).tunnel = some t := by
    intro j t ht
    rw [delete_blocks, unlink_tunnel] at ht
    split_ifs at ht
    exact ht
  refine ⟨?_, ?_, ?_, ?_, ?_, ?_, ?_, ?_, ?_, ?_⟩
  · intro q m hq
    rw [delete_next]
    exact h.fresh (hconns hq).2
  · intro fd q hq
    rw [delete_table, setTable_table] at hq
    split_ifs at hq with hf
    obtain ⟨m, hm, hfd, hml⟩ := h.table hq
    refine ⟨m, ?_, hfd, hml⟩
    rw [delete_conns, if_neg]
    · exact hm
    · rintro rfl
      rw [hn] at hm
      cases hm
      exact hf hfd.symm
  · intro q m hq hml
    obtain ⟨hqp, hq⟩ := hconns hq
    refine mem_delete_fds (h.isOpen hq hml) ?_
    intro hf
    exact hqp (h.inj hq hn hml hl hf)
  · intro q q' m m' hq hq' hm hm' hf
    exact h.inj (hconns hq).2 (hconns hq').2 hm hm' hf
  · intro j a ha
    obtain ⟨hap, ha⟩ := hagent ha
    obtain ⟨m, hm, hty, hs⟩ := h.agent ha
    refine ⟨m, ?_, hty, hs⟩
    rw [delete_conns, if_neg hap]
    exact hm
  · intro j t m ht hm
    exact h.tunnel (htunnel ht) (hconns hm).2
  · intro j t ht
    rw [delete_next]
    exact h.tunnelOld (htunnel ht)
  · intro q m hq
    exact h.mode (hconns hq).2
  · intro q m hq
    exact h.connecting (hconns hq).2
  · intro q m hq
    exact h.range (hconns hq).2

theorem dropPeer_some {w : Net} (hm : w.conns a = some m) :
    w.dropPeer (some a) = (w.setTable m.fd none).delete a m := by
  simp [dropPeer, hm]

theorem dropPeer_gone {w : Net} (hm : w.conns a = none) : w.dropPeer (some a) = w := by
  simp [dropPeer, hm]

theorem Wf.dropPeer (h : w.Wf) (q : Option Ptr)
    (hq : ∀ a m, q = some a → w.conns a = some m → ¬ m.Lost) : (w.dropPeer q).Wf := by
  cases q with
  | none => exact h
  | some a =>
      cases hm : w.conns a with
      | none => rwa [dropPeer_gone hm]
      | some m =>
          rw [dropPeer_some hm]
          exact h.drop hm (hq a m rfl hm)

theorem dropPeer_conns_ne (w : Net) {q : Option Ptr} (hp : q ≠ some p) :
    (w.dropPeer q).conns p = w.conns p := by
  cases q with
  | none => rfl
  | some a =>
      cases hm : w.conns a with
      | none => rw [dropPeer_gone hm]
      | some m =>
          rw [dropPeer_some hm, delete_conns, if_neg fun hpa => hp (by rw [hpa])]
          rfl

theorem Wf.recycle (h : w.Wf) (k : ScbPtr) : (w.recycle k).Wf := by
  have h₁ : (w.setBlock k SCB.reset.block).Wf := h.cutBlock (.inl rfl) (.inl rfl)
  exact h₁.congr rfl rfl rfl rfl rfl

theorem not_lost_of_scb (h : n.scb = some k) : ¬ n.Lost := fun hl => by simp [hl.2] at h

theorem not_lost_of_type (h : n.type ≠ .agent) : ¬ n.Lost := fun hl => h hl.1

theorem streamOf_scb (h : streamOf n = some k) : n.scb = some k := by
  unfold streamOf at h
  split at h <;> simp_all

theorem streamOf_type (h : streamOf n = some k) : n.type = .tunnel ∨ n.type = .agent := by
  unfold streamOf at h
  split at h <;> simp_all

/-- The other side of a stream is another connection, and not a lost one. -/
theorem Wf.agent_peer (h : w.Wf) (hn : w.conns p = some n) (hty : n.type = .tunnel)
    (ha : (w.blocks k).agent = some a) : a ≠ p ∧ ∀ m, w.conns a = some m → ¬ m.Lost := by
  obtain ⟨m, hm, hmt, hs⟩ := h.agent ha
  refine ⟨?_, fun m' hm' => ?_⟩
  · rintro rfl
    rw [hn] at hm
    cases hm
    rw [hty] at hmt
    cases hmt
  · rw [hm] at hm'
    cases hm'
    exact not_lost_of_scb hs

theorem Wf.tunnel_peer (h : w.Wf) (hn : w.conns p = some n) (hty : n.type = .agent)
    (ht : (w.blocks k).tunnel = some t) : t ≠ p ∧ ∀ m, w.conns t = some m → ¬ m.Lost := by
  refine ⟨?_, fun m hm => not_lost_of_type (h.tunnel ht hm).1⟩
  rintro rfl
  exact (h.tunnel ht hn).1 hty

/-- Taking down a stream deletes the other side of it, never the side it is called on. -/
theorem Wf.takeDown (h : w.Wf) (hn : w.conns p = some n) (hk : streamOf n = some k) :
    (w.takeDown n k).Wf ∧ (w.takeDown n k).conns p = some n := by
  rcases streamOf_type hk with hty | hty
  · have h₁ : (w.setBlock k { w.blocks k with tunnel := none }).Wf :=
      h.cutBlock (.inr rfl) (.inl rfl)
    simp only [Net.takeDown, hty, setBlock_blocks, if_true]
    refine ⟨(h₁.dropPeer _ fun a m ha hm => (h.agent_peer hn hty ha).2 m hm).recycle k, ?_⟩
    exact (dropPeer_conns_ne _ fun ha => (h.agent_peer hn hty ha).1 rfl).trans hn
  · have h₁ : (w.setBlock k { w.blocks k with agent := none }).Wf :=
      h.cutBlock (.inl rfl) (.inr rfl)
    simp only [Net.takeDown, hty, setBlock_blocks, if_true]
    refine ⟨(h₁.dropPeer _ fun t m ht hm => (h.tunnel_peer hn hty ht).2 m hm).recycle k, ?_⟩
    exact (dropPeer_conns_ne _ fun ht => (h.tunnel_peer hn hty ht).1 rfl).trans hn

theorem delete_setTable (w : Net) (p : Ptr) (n : Node) (fd : ℕ) (q : Option Ptr) :
    (w.delete p n).setTable fd q = (w.setTable fd q).delete p n := by
  unfold delete unlink
  split <;> split <;> rfl

theorem Wf.beforeRemove (h : w.Wf) (hn : w.conns p = some n) :
    (w.beforeRemove n).Wf ∧ (w.beforeRemove n).conns p = some n := by
  unfold Net.beforeRemove
  cases hk : streamOf n with
  | none => exact ⟨h, hn⟩
  | some k => exact h.takeDown hn hk

theorem Wf.remove (h : w.Wf) (ht : w.table fd = some p) (hn : w.conns p = some n) :
    (w.remove fd p n).Wf := by
  obtain ⟨rfl, hl⟩ := h.entry ht hn
  obtain ⟨h₁, hn₁⟩ := h.beforeRemove hn
  rw [Net.remove, delete_setTable]
  exact h₁.drop hn₁ hl

/-! ### New connections and streams -/

theorem newConn_conns (w : Net) (fd : ℕ) (n : Node) (q : Ptr) :
    (w.newConn fd n).conns q = if q = w.next then some n else w.conns q := by
  simp [newConn, Function.update_apply]

theorem newConn_table (w : Net) (fd : ℕ) (n : Node) (fd' : ℕ) :
    (w.newConn fd n).table fd' = if fd' = fd then some w.next else w.table fd' := by
  simp [newConn, Function.update_apply]

theorem Wf.newConn (h : w.Wf) (hr : 0 < fd ∧ fd < 2 ^ 31 ∧ fd ∉ w.fds) (hfd : n.fd = fd)
    (hl : ¬ n.Lost) (hm : n.type = .agent → n.cstate = .forward)
    (hc : n.connecting = true → n.type = .agent) : (w.newConn fd n).Wf := by
  have hne : ∀ {q m}, w.conns q = some m → q ≠ w.next := fun hq => (h.fresh hq).ne
  have hkeep : ∀ {q m}, w.conns q = some m → (w.newConn fd n).conns q = some m := by
    intro q m hq
    rw [newConn_conns, if_neg (hne hq), hq]
  have hcases : ∀ {q m}, (w.newConn fd n).conns q = some m →
      q = w.next ∧ m = n ∨ w.conns q = some m := by
    intro q m hq
    rw [newConn_conns] at hq
    split_ifs at hq with hqn
    · exact .inl ⟨hqn, (Option.some.inj hq).symm⟩
    · exact .inr hq
  have hother : ∀ {q m}, w.conns q = some m → ¬ m.Lost → m.fd ≠ fd := by
    intro q m hq hml hf
    exact hr.2.2 (hf ▸ h.isOpen hq hml)
  refine ⟨?_, ?_, ?_, ?_, ?_, ?_, ?_, ?_, ?_, ?_⟩
  · intro q m hq
    rcases hcases hq with ⟨rfl, -⟩ | hq
    · exact Nat.lt_succ_self _
    · exact (h.fresh hq).trans (Nat.lt_succ_self _)
  · intro fd' q hq
    rw [newConn_table] at hq
    split_ifs at hq with hf
    · cases hq
      exact ⟨n, by simp [newConn_conns], hfd.trans hf.symm, hl⟩
    · obtain ⟨m, hm, hmf, hml⟩ := h.table hq
      exact ⟨m, hkeep hm, hmf, hml⟩
  · intro q m hq hml
    rcases hcases hq with ⟨-, rfl⟩ | hq
    · exact hfd ▸ List.mem_cons_self
    · exact List.mem_cons_of_mem _ (h.isOpen hq hml)
  · intro q q' m m' hq hq' hml hml' hf
    rcases hcases hq with ⟨hqn, hmn⟩ | hold <;> rcases hcases hq' with ⟨hqn', hmn'⟩ | hold'
    · rw [hqn, hqn']
    · exact absurd (hf.symm.trans (hmn ▸ hfd)) (hother hold' hml')
    · exact absurd (hf.trans (hmn' ▸ hfd)) (hother hold hml)
    · exact h.inj hold hold' hml hml' hf
  · intro k a ha
    obtain ⟨m, hm, hty, hs⟩ := h.agent ha
    exact ⟨m, hkeep hm, hty, hs⟩
  · intro k t m ht hq
    rcases hcases hq with ⟨rfl, -⟩ | hq
    · exact absurd (h.tunnelOld ht) (lt_irrefl _)
    · exact h.tunnel ht hq
  · intro k t ht
    exact (h.tunnelOld ht).trans (Nat.lt_succ_self _)
  · intro q m hq
    rcases hcases hq with ⟨-, rfl⟩ | hq
    · exact hm
    · exact h.mode hq
  · intro q m hq
    rcases hcases hq with ⟨-, rfl⟩ | hq
    · exact hc
    · exact h.connecting hq
  · intro q m hq
    rcases hcases hq with ⟨-, rfl⟩ | hq
    · exact hfd ▸ ⟨hr.1, hr.2.1⟩
    · exact h.range hq

theorem newBlock_conns (w : Net) : w.newBlock.conns = w.conns := by
  unfold newBlock; split <;> rfl

theorem newBlock_next (w : Net) : w.newBlock.next = w.next := by
  unfold newBlock; split <;> rfl

theorem newBlock_table (w : Net) : w.newBlock.table = w.table := by
  unfold newBlock; split <;> rfl

theorem newBlock_fds (w : Net) : w.newBlock.fds = w.fds := by
  unfold newBlock; split <;> rfl

theorem Wf.newBlock (h : w.Wf) : w.newBlock.Wf := by
  unfold Net.newBlock
  split
  · rename_i k rest hk
    have h₁ : (w.setBlock k { w.blocks k with scbid := w.lastId + 1 }).Wf :=
      h.cutBlock (.inr rfl) (.inr rfl)
    exact h₁.congr rfl rfl rfl rfl rfl
  · have h₁ : (w.setBlock w.nextBlock (SCB.block { scbid := w.lastId + 1 })).Wf :=
      h.cutBlock (.inl rfl) (.inl rfl)
    exact h₁.congr rfl rfl rfl rfl rfl

/-- A tunnel without stream may be given one. -/
theorem Wf.giveScb (h : w.Wf) (hn : w.conns p = some n) (hs : n.scb = none)
    (hty : n.type ≠ .agent) (u : Option UserId) (k : ScbPtr) :
    (w.setConn p { n with user := u, scb := some k }).Wf := by
  refine h.replace hn rfl rfl ?_ (fun j hj => ?_) (fun hm => absurd hm hty) fun hc => ?_
  · exact iff_of_false (not_lost_of_type hty) (not_lost_of_type hty)
  · rw [hs] at hj
    cases hj
  · have hagent := h.connecting hn
    exact hagent hc

theorem Wf.insertTree (h : w.Wf) (u : UserId) (id : ℕ) (k : ScbPtr) : (w.insertTree u id k).Wf :=
  h.congr rfl rfl rfl rfl rfl

theorem openStream_blocks (w : Net) (u : UserId) (t : Ptr) (n : Node) (agent : Option Ptr)
    (j : ScbPtr) : (w.openStream u t n agent).blocks j =
      if j = w.newKey then
        { w.newBlock.blocks w.newKey with
          user := some u, destPort := n.destPort, tunnel := some t,
          agent := (agent.or (w.newBlock.blocks w.newKey).agent) }
      else w.newBlock.blocks j := by
  cases agent <;>
    simp only [Net.openStream, insertTree, setBlock_blocks, Option.none_or, Option.some_or] <;> rfl

theorem Wf.openStream (h : w.Wf) (hn : w.conns t = some n) (hs : n.scb = none)
    (hty : n.type ≠ .agent) (u : UserId) (agent : Option Ptr)
    (ha : ∀ a, agent = some a → ∃ m, w.conns a = some m ∧ m.type = .agent ∧ m.scb = some w.newKey) :
    (w.openStream u t n agent).Wf := by
  have hn₁ : w.newBlock.conns t = some n := by rw [newBlock_conns, hn]
  have h₁ := h.newBlock
  have h₂ := h₁.giveScb hn₁ hs hty (some u) w.newKey
  -- an agent is another connection than the tunnel
  have hagent : ∀ {a m}, w.conns a = some m → m.type = .agent → m.scb = some w.newKey →
      ∃ m', (w.newBlock.setConn t { n with user := some u, scb := some w.newKey }).conns a = some m' ∧
        m'.type = .agent ∧ m'.scb = some w.newKey := by
    intro a m hm hmt hms
    refine ⟨m, ?_, hmt, hms⟩
    rw [setConn_conns, if_neg, newBlock_conns, hm]
    rintro rfl
    rw [hn] at hm
    cases hm
    exact hty hmt
  refine (h₂.setBlock ?_ ?_).insertTree _ _ _
  · intro a hb
    cases agent with
    | some a' =>
        cases hb
        obtain ⟨m, hm, hmt, hms⟩ := ha a rfl
        exact hagent hm hmt hms
    | none =>
        obtain ⟨m, hm, hmt, hms⟩ := h₁.agent hb
        rw [newBlock_conns] at hm
        exact hagent hm hmt hms
  · intro t' hb
    have htt : t' = t := by
      cases agent <;> simpa using hb.symm
    subst htt
    refine ⟨(newBlock_next w).symm ▸ h.fresh hn, fun m hm => ?_⟩
    rw [setConn_conns, if_pos rfl] at hm
    cases hm
    exact ⟨hty, rfl⟩

theorem linkedAgent_not_lost (fd : ℕ) (u : UserId) (k : ScbPtr) : ¬ (linkedAgent fd u k).Lost :=
  not_lost_of_scb rfl

theorem Wf.connectAgent (h : w.Wf) (hn : w.conns t = some n) (hm : n.scb = none → n.type ≠ .agent)
    (hfd : 0 < fd ∧ fd < 2 ^ 31 ∧ fd ∉ w.fds) (u : UserId) (port : ℕ) (o : Obs) :
    (w.connectAgent u t n fd port o).Wf := by
  have hnew : ∀ k, ((w.newConn fd (linkedAgent fd u k)).emit o).Wf := fun k =>
    (h.newConn hfd rfl (linkedAgent_not_lost fd u k) (fun _ => rfl) (fun _ => rfl)).emit o
  unfold Net.connectAgent
  cases hs : n.scb with
  | some k =>
      refine (hnew k).setBlock ?_ ?_
      · intro a ha
        cases ha
        exact ⟨linkedAgent fd u k, by simp [Net.emit, newConn_conns], rfl, rfl⟩
      · intro t' ht'
        exact ⟨(hnew k).tunnelOld ht', fun m hm' => (hnew k).tunnel ht' hm'⟩
  | none =>
      refine (hnew w.newKey).openStream ?_ hs (hm hs) u (some w.next) ?_
      · simp [Net.emit, newConn_conns, (h.fresh hn).ne, hn]
      · intro a ha
        cases ha
        exact ⟨linkedAgent fd u w.newKey, by simp [Net.emit, newConn_conns], rfl, rfl⟩

/-! ### Steps -/

/-- A connection that reads frames is not an agent. -/
theorem Wf.not_agent (h : w.Wf) (hn : w.conns p = some n) (hm : n.cstate = .header) :
    n.type ≠ .agent := by
  intro hty
  rw [h.mode hn hty] at hm
  cases hm

theorem addUser_conns (w : Net) (u : UserId) : (w.addUser u).conns = w.conns := by
  unfold addUser; split <;> rfl

theorem addUser_next (w : Net) (u : UserId) : (w.addUser u).next = w.next := by
  unfold addUser; split <;> rfl

theorem addUser_table (w : Net) (u : UserId) : (w.addUser u).table = w.table := by
  unfold addUser; split <;> rfl

theorem Wf.addUser (h : w.Wf) (u : UserId) : (w.addUser u).Wf := by
  unfold Net.addUser
  split
  · exact h
  · exact h.congr rfl rfl rfl rfl rfl

theorem Wf.flushed (h : w.Wf) (hm : w.conns a = some m) (p : Ptr) (bs : List UInt8)
    {connecting : Bool} (hc : connecting = true → m.connecting = true) (still offset : ℕ) :
    (w.flushed p a m bs connecting still offset).Wf :=
  (h.emit _).setConn hm _ rfl rfl rfl id hc

theorem Act.wf {w w' : Net} (h : Act w w') (hw : w.Wf) : w'.Wf := by
  cases h with
  | message len hc hm => exact hw.emit _
  | @login p c len r hc hm hid hr ht =>
      have h₁ := hw.setConn hc (loggedIn c.node r) rfl rfl rfl id id
      exact ((h₁.addUser _).emit _).emit _
  | @switch p c k len hc hm hid hk ha =>
      have h₁ := hw.setConn hc { c.node with cstate := .forward, still := buffSize } rfl rfl rfl
        (fun _ => rfl) id
      exact h₁.emit _
  | @verify p q c m k u len r hc hm hid hr hq hn hcode htok hk hu =>
      have h₁ := hw.setConn hn { m with verified := true } rfl rfl rfl id id
      have h₂ : ((w.setConn q { m with verified := true }).setBlock k
          { w.blocks k with status := .validated }).Wf := h₁.cutBlock (.inr rfl) (.inr rfl)
      exact (h₂.emit _).emit _
  | ask host u hn hs hm hu =>
      exact (hw.openStream hn hs (hw.not_agent hn hm) u none (by simp)).congr rfl rfl rfl rfl rfl
  | connect u fd ip port k hn hk hm hfd =>
      exact hw.connectAgent hn (fun hs => hw.not_agent hn (hm hs).1) hfd u port _
  | askAgain host u b hn hk hb hv hu => exact hw.congr rfl rfl rfl rfl rfl
  | woken host => exact hw.congr rfl rfl rfl rfl rfl
  | accept fd mem now ht hfd =>
      exact hw.newConn hfd rfl (not_lost_of_type (by simp [Connect.fresh, Connect.accepted,
        Connect.node])) (by simp [Connect.fresh, Connect.accepted, Connect.node])
        (by simp [Connect.fresh, Connect.accepted, Connect.node])
  | remove ht hn => exact hw.remove ht hn
  | read mode still offset hn hm => exact hw.setConn hn _ rfl rfl rfl hm.mpr id
  | forwarded tn cut bs hc hm ht => exact hw.emit _
  | upload tn bs bs' hc hm ht hty hk ha => exact (hw.emit _).emit _
  | download cut bs bs' hc hm hty hk ht htn hfd => exact (hw.emit _).emit _
  | hangUp offset hn hty hm => exact hw.setConn hn _ rfl rfl rfl id (by simp)
  | flush bs connecting still offset h hc => exact hw.flushed h.agent _ _ hc _ _
  | establish connecting hn hc hk ht => exact hw.setConn hn _ rfl rfl rfl id fun _ => hc

theorem acts_wf {w w' : Net} (h : Relation.ReflTransGen Act w w') (hw : w.Wf) : w'.Wf := by
  induction h with
  | refl => exact hw
  | tail _ h ih => exact h.wf ih

/-- An agent that is neither in the table nor linked may be given up and its descriptor closed. -/
theorem Wf.lose (h : w.Wf) (hn : w.conns p = some n) (hty : n.type = .agent) (hl : ¬ n.Lost)
    (htab : ∀ fd, w.table fd ≠ some p) (hlink : ∀ j, (w.blocks j).agent ≠ some p) :
    ((w.setConn p { n with scb := none, user := none }).closeFd n.fd).Wf := by
  have hcases : ∀ {q m}, ((w.setConn p { n with scb := none, user := none }).closeFd n.fd).conns q =
      some m → q = p ∧ m = { n with scb := none, user := none } ∨ q ≠ p ∧ w.conns q = some m := by
    intro q m hq
    change (w.setConn p { n with scb := none, user := none }).conns q = some m at hq
    rw [setConn_conns] at hq
    split_ifs at hq with hqp
    · exact .inl ⟨hqp, (Option.some.inj hq).symm⟩
    · exact .inr ⟨hqp, hq⟩
  have hkeep : ∀ {q m}, w.conns q = some m → q ≠ p →
      ((w.setConn p { n with scb := none, user := none }).closeFd n.fd).conns q = some m := by
    intro q m hq hqp
    change (w.setConn p { n with scb := none, user := none }).conns q = some m
    rw [setConn_conns, if_neg hqp, hq]
  have hlost : ({ n with scb := none, user := none } : Node).Lost := ⟨hty, rfl⟩
  refine ⟨?_, ?_, ?_, ?_, ?_, ?_, h.tunnelOld, ?_, ?_, ?_⟩
  · intro q m hq
    rcases hcases hq with ⟨rfl, -⟩ | ⟨-, hq⟩
    · exact h.fresh hn
    · exact h.fresh hq
  · intro fd q hq
    obtain ⟨m, hm, hmf, hml⟩ := h.table hq
    exact ⟨m, hkeep hm fun hqp => htab fd (hqp ▸ hq), hmf, hml⟩
  · intro q m hq hml
    rcases hcases hq with ⟨-, rfl⟩ | ⟨hqp, hq⟩
    · exact absurd hlost hml
    · have hf : m.fd ≠ n.fd := fun hf => hqp (h.inj hq hn hml hl hf)
      have ho : m.fd ∈ w.fds := h.isOpen hq hml
      simpa [Net.closeFd, Net.setConn, hf] using ho
  · intro q q' m m' hq hq' hml hml' hf
    rcases hcases hq with ⟨-, rfl⟩ | ⟨-, hold⟩
    · exact absurd hlost hml
    · rcases hcases hq' with ⟨-, rfl⟩ | ⟨-, hold'⟩
      · exact absurd hlost hml'
      · exact h.inj hold hold' hml hml' hf
  · intro j a ha
    obtain ⟨m, hm, hmt, hms⟩ := h.agent ha
    exact ⟨m, hkeep hm fun hap => hlink j (hap ▸ ha), hmt, hms⟩
  · intro j t m ht hq
    rcases hcases hq with ⟨rfl, rfl⟩ | ⟨-, hq⟩
    · exact absurd hty (h.tunnel ht hn).1
    · exact h.tunnel ht hq
  · intro q m hq hmt
    rcases hcases hq with ⟨-, rfl⟩ | ⟨-, hq⟩
    · have hfw := h.mode hn
      exact hfw hmt
    · exact h.mode hq hmt
  · intro q m hq hc
    rcases hcases hq with ⟨-, rfl⟩ | ⟨-, hq⟩
    · exact hty
    · exact h.connecting hq hc
  · intro q m hq
    rcases hcases hq with ⟨-, rfl⟩ | ⟨-, hq⟩
    · have hrange := h.range hn
      exact hrange
    · exact h.range hq

theorem dropPeer_table (w : Net) (q : Option Ptr) {fd : ℕ} {p : Ptr}
    (h : (w.dropPeer q).table fd = some p) : w.table fd = some p := by
  cases q with
  | none => exact h
  | some a =>
      cases hm : w.conns a with
      | none => rwa [dropPeer_gone hm] at h
      | some m =>
          rw [dropPeer_some hm, delete_table, setTable_table] at h
          split_ifs at h
          exact h

theorem Wf.giveUp (h : w.Wf) (ht : w.table fd = some p) (hn : w.conns p = some n)
    (hty : n.type = .agent) (hk : n.scb = some k) : ((w.agentDown fd p n k).closeFd fd).Wf := by
  obtain ⟨rfl, hl⟩ := h.entry ht hn
  have h₁ : ((w.setTable n.fd none).dropPeer (w.blocks k).tunnel).Wf :=
    (h.unmap n.fd).dropPeer _ fun t m htn hm => (h.tunnel_peer hn hty htn).2 m hm
  have hn₁ : ((w.setTable n.fd none).dropPeer (w.blocks k).tunnel).conns p = some n :=
    (dropPeer_conns_ne _ fun htn => (h.tunnel_peer hn hty htn).1 rfl).trans hn
  have h₂ := h₁.cutBlock (b := { ((w.setTable n.fd none).dropPeer (w.blocks k).tunnel).blocks k with
    agent := none }) (.inl rfl) (.inr rfl)
  have h₃ := h₂.lose hn₁ hty hl ?_ ?_
  · exact h₃.congr rfl rfl rfl rfl rfl
  · -- its only entry of the table is gone
    intro fd' hfd'
    have htab := dropPeer_table _ _ hfd'
    rw [setTable_table] at htab
    split_ifs at htab with hf
    obtain ⟨m, hm, hmf, -⟩ := h.table htab
    rw [hn] at hm
    cases hm
    exact hf hmf.symm
  · -- its only link is cut
    intro j hj
    obtain ⟨m, hm, -, hms⟩ := h₂.agent hj
    change ((w.setTable n.fd none).dropPeer (w.blocks k).tunnel).conns p = some m at hm
    rw [hn₁] at hm
    cases hm
    rw [hk] at hms
    cases hms
    rw [setBlock_blocks, if_pos rfl] at hj
    cases hj

theorem Big.wf {w w' : Net} (h : Big w w') (hw : w.Wf) : w'.Wf := by
  cases h with
  | act h => exact h.wf hw
  | giveUp ht hn hty hu hk => exact hw.giveUp ht hn hty hk
  | cutIgnored p t => exact hw.emit _
  | cutRemove e ht hn htn => exact (hw.emit _).remove ht hn
  | cutGiveUp e ht hn hty hu hk htn => exact (hw.emit _).giveUp ht hn hty hk
  | cutShut bs connecting still offset h hc =>
      exact (hw.flushed h.agent _ _ hc _ _).congr rfl rfl rfl rfl rfl
  | @orphan fd p n ht hn hc hk =>
      have h₁ := hw.setConn hn { n with connecting := false } rfl rfl rfl id (by simp)
      exact (h₁.unmap fd).congr rfl rfl rfl rfl rfl

end Net

end HttpsTunnel.Tms

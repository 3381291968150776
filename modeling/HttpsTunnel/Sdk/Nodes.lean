import HttpsTunnel.Sdk.Accept

/-! # The lists of the recycler

Every browser that is connected has one node in `expire_list`, and `crb_it` leads to it: this is what
the destructor and the scan rely on.  `Sound` says so, together with what it rests on: the connection
table lists the live connections, and peers belong together.

The operations are described by the states they leave: a connection is removed (`Removed`), a browser is
accepted (`accepted`), the only node is delayed (`delayed`). -/

namespace HttpsTunnel.Sdk

open HttpsTunnel.Lib

/-! ### Lists of nodes -/

section Lists

variable {l l₁ l₂ : List (ℕ × BlockPtr)} {n : ℕ} {b : BlockPtr}

theorem lookup_eq_some_iff (h : (l.map Prod.fst).Nodup) : l.lookup n = some b ↔ (n, b) ∈ l := by
  induction l with
  | nil => simp
  | cons e l ih =>
      obtain ⟨m, k⟩ := e
      simp only [List.map_cons, List.nodup_cons, List.mem_map, not_exists, not_and] at h
      by_cases hm : n = m
      · subst hm
        have hl : (n, b) ∉ l := fun hb => h.1 (n, b) hb rfl
        simp [hl, eq_comm]
      · have hb : (n == m) = false := by simpa using hm
        simp [List.lookup_cons, hb, hm, ih h.2]

theorem iterNext_append (h : n ∉ l₁.map Prod.fst) :
    iterNext n (l₁ ++ (n, b) :: l₂) = l₂.head?.map Prod.fst := by
  induction l₁ with
  | nil => simp [iterNext]
  | cons e l₁ ih =>
      simp only [List.map_cons, List.mem_cons, not_or] at h
      simp [iterNext, Ne.symm h.1, ih h.2]

theorem filter_append (h : n ∉ (l₁ ++ l₂).map Prod.fst) :
    (l₁ ++ (n, b) :: l₂).filter (fun e => e.1 ≠ n) = l₁ ++ l₂ := by
  have hkeep : ∀ l : List (ℕ × BlockPtr), n ∉ l.map Prod.fst → l.filter (fun e => e.1 ≠ n) = l := by
    intro l hl
    refine List.filter_eq_self.mpr fun e he => ?_
    simpa using fun hen => hl (List.mem_map.mpr ⟨e, he, hen⟩)
  simp only [List.map_append, List.mem_append, not_or] at h
  rw [List.filter_append, List.filter_cons]
  simpa using congrArg₂ (· ++ ·) (hkeep l₁ h.1) (hkeep l₂ h.2)

end Lists

/-! ### The invariant -/

/-- The connection table and the lists of the recycler are in order. -/
structure World.Sound (w : World) : Prop where
  /-- An entry of the table is a connection with that descriptor. -/
  entry : ∀ {fd e}, w.sdk.connMap fd = some e → ∃ p c, e = some p ∧ w.sdk.conns p = some c ∧ c.sockFd = fd
  /-- Every connection is in the table. -/
  listed : ∀ {p c}, w.sdk.conns p = some c → w.sdk.connMap c.sockFd = some (some p)
  /-- Peers have each other, and one of them is a browser. -/
  peer : ∀ {p c q}, w.sdk.conns p = some c → c.peer = some q →
    ∃ d, w.sdk.conns q = some d ∧ d.peer = some p ∧ (d.type = .proxy ↔ c.type ≠ .proxy)
  unused : ∀ p, w.sdk.nextConn ≤ p → w.sdk.conns p = none
  nodes : (w.expireList.map Prod.fst).Nodup
  numbered : w.Numbered
  blocks : (w.expireList.map Prod.snd ++ w.recycleList).Nodup
  allocated : ∀ b ∈ w.expireList.map Prod.snd ++ w.recycleList, b < w.nextBlock
  /-- The node of a browser. -/
  node : ∀ {p c}, w.sdk.conns p = some c → c.type = .proxy →
    ∃ n b, w.crbIt p = some n ∧ (n, b) ∈ w.expireList ∧ (w.blocks b).conn = some p
  /-- The browser of a node. -/
  block : ∀ {n b}, (n, b) ∈ w.expireList → ∃ p c, (w.blocks b).conn = some p ∧ w.sdk.conns p = some c ∧
    c.type = .proxy ∧ w.crbIt p = some n ∧ (w.blocks b).fd = c.sockFd

/-- The browser `p` with fields `c` has node `n` with block `b`. -/
structure World.Holds (w : World) (p : Ptr) (c : Connect) (n : ℕ) (b : BlockPtr) : Prop where
  conn : w.sdk.conns p = some c
  type : c.type = .proxy
  iter : w.crbIt p = some n
  mem : (n, b) ∈ w.expireList
  back : (w.blocks b).conn = some p
  fd : (w.blocks b).fd = c.sockFd

namespace World.Sound

variable {w : World} {p q : Ptr} {c d : Connect} {n : ℕ} {b : BlockPtr}

theorem holds_of_conn (h : w.Sound) (hp : w.sdk.conns p = some c) (hty : c.type = .proxy) :
    ∃ n b, w.Holds p c n b := by
  obtain ⟨n, b, hit, hmem, hback⟩ := h.node hp hty
  obtain ⟨p', c', hback', hp', -, -, hfd⟩ := h.block hmem
  obtain rfl : p = p' := Option.mem_unique hback hback'
  obtain rfl : c = c' := Option.mem_unique hp hp'
  exact ⟨n, b, hp, hty, hit, hmem, hback, hfd⟩

theorem holds_of_mem (h : w.Sound) (hmem : (n, b) ∈ w.expireList) : ∃ p c, w.Holds p c n b := by
  obtain ⟨p, c, hback, hp, hty, hit, hfd⟩ := h.block hmem
  exact ⟨p, c, hp, hty, hit, hmem, hback, hfd⟩

theorem lookup (h : w.Sound) (hh : w.Holds p c n b) : w.expireList.lookup n = some b :=
  (lookup_eq_some_iff h.nodes).mpr hh.mem

/-- A descriptor belongs to one connection. -/
theorem conn_unique (h : w.Sound) (hp : w.sdk.conns p = some c) (hq : w.sdk.conns q = some d)
    (hfd : c.sockFd = d.sockFd) : p = q := by
  have hpq := h.listed hp
  rw [hfd, h.listed hq] at hpq
  exact (Option.some.inj (Option.some.inj hpq)).symm

end World.Sound

/-- What the invariant sees of the recycler. -/
structure World.SameNodes (w w' : World) : Prop where
  list : w'.expireList = w.expireList
  free : w'.recycleList = w.recycleList
  nextNode : w'.nextNode = w.nextNode
  nextBlock : w'.nextBlock = w.nextBlock
  crbIt : w'.crbIt = w.crbIt
  block : ∀ b, (w'.blocks b).conn = (w.blocks b).conn ∧ (w'.blocks b).fd = (w.blocks b).fd

namespace World.SameNodes

variable {w w' : World} {p : Ptr} {c d : Connect} {n : ℕ} {b : BlockPtr}

theorem holds (h : w.SameNodes w') (hp : w'.sdk.conns p = some c) (hh : w.Holds p d n b) (hd : d.type = c.type)
    (hfd : d.sockFd = c.sockFd) : w'.Holds p c n b where
  conn := hp
  type := hd ▸ hh.type
  iter := h.crbIt ▸ hh.iter
  mem := h.list ▸ hh.mem
  back := (h.block b).1.trans hh.back
  fd := (h.block b).2.trans (hh.fd.trans hfd)

/-- Other fields of the connections may change. -/
theorem sound_of_ident (h : w.SameNodes w') (hs : w.Sound)
    (hconns : ∀ p, (w'.sdk.conns p).map Connect.ident = (w.sdk.conns p).map Connect.ident)
    (hmap : w'.sdk.connMap = w.sdk.connMap) (hnext : w'.sdk.nextConn = w.sdk.nextConn) : w'.Sound := by
  obtain ⟨hlist, hfree, hnode, hblock, hit, hb⟩ := h
  have hback : ∀ {p c}, w'.sdk.conns p = some c → ∃ d, w.sdk.conns p = some d ∧ d.ident = c.ident := by
    intro p c hp
    have hc := hconns p
    rwa [hp, Option.map_some, eq_comm, Option.map_eq_some_iff] at hc
  have hforth : ∀ {p d}, w.sdk.conns p = some d → ∃ c, w'.sdk.conns p = some c ∧ d.ident = c.ident := by
    intro p d hp
    have hc := hconns p
    rw [hp, Option.map_some, Option.map_eq_some_iff] at hc
    obtain ⟨c, hc, he⟩ := hc
    exact ⟨c, hc, he.symm⟩
  constructor
  case entry =>
    intro fd e he
    obtain ⟨p, d, rfl, hp, hfd⟩ := hs.entry (hmap ▸ he)
    obtain ⟨c, hc, hid⟩ := hforth hp
    exact ⟨p, c, rfl, hc, (Connect.ident_eq hid).2.2 ▸ hfd⟩
  case listed =>
    intro p c hp
    obtain ⟨d, hd, hid⟩ := hback hp
    rw [hmap, ← (Connect.ident_eq hid).2.2]
    exact hs.listed hd
  case peer =>
    intro p c q hp hq
    obtain ⟨d, hd, hid⟩ := hback hp
    obtain ⟨hty, hpe, -⟩ := Connect.ident_eq hid
    obtain ⟨e, he, hep, hety⟩ := hs.peer hd (hpe.trans hq)
    obtain ⟨e', he', hid'⟩ := hforth he
    obtain ⟨hty', hpe', -⟩ := Connect.ident_eq hid'
    exact ⟨e', he', hpe' ▸ hep, by rw [← hty', ← hty]; exact hety⟩
  case unused =>
    intro p hp
    have hc := hconns p
    rwa [hs.unused p (hnext ▸ hp), Option.map_none, Option.map_eq_none_iff] at hc
  case nodes => exact hlist ▸ hs.nodes
  case numbered =>
    intro e he
    rw [hnode]
    exact hs.numbered e (hlist ▸ he)
  case blocks =>
    rw [hlist, hfree]
    exact hs.blocks
  case allocated =>
    rw [hlist, hfree, hblock]
    exact hs.allocated
  case node =>
    intro p c hp hty
    obtain ⟨d, hd, hid⟩ := hback hp
    obtain ⟨n, b, hi, hm, hback⟩ := hs.node hd ((Connect.ident_eq hid).1.trans hty)
    exact ⟨n, b, hit ▸ hi, hlist ▸ hm, (hb b).1.trans hback⟩
  case block =>
    intro n b hm
    obtain ⟨p, d, hback, hp, hty, hi, hf⟩ := hs.block (hlist ▸ hm)
    obtain ⟨c, hc, hid⟩ := hforth hp
    obtain ⟨hty', -, hfd'⟩ := Connect.ident_eq hid
    exact ⟨p, c, (hb b).1.trans hback, hc, hty' ▸ hty, hit ▸ hi, (hb b).2.trans (hf.trans hfd')⟩

theorem sound (h : w.SameNodes w') (hs : w.Sound) (hsdk : w'.sdk = w.sdk) : w'.Sound :=
  h.sound_of_ident hs (fun _ => by rw [hsdk]) (by rw [hsdk]) (by rw [hsdk])

end World.SameNodes

/-! ### Removing a connection -/

/-- `w'` is `w` without the browser `b` with fields `c`, node `n` and block `k`, and without its peer. -/
structure World.Removed (w : World) (b : Ptr) (c : Connect) (n : ℕ) (k : BlockPtr) (w' : World) : Prop where
  gone : ∀ x, x = b ∨ c.peer = some x → w'.sdk.conns x = none
  kept : ∀ x, ¬ (x = b ∨ c.peer = some x) → w'.sdk.conns x = w.sdk.conns x
  erased : ∀ x d, (x = b ∨ c.peer = some x) → w.sdk.conns x = some d → w'.sdk.connMap d.sockFd = none
  entries : ∀ fd, (∀ x d, (x = b ∨ c.peer = some x) → w.sdk.conns x = some d → d.sockFd ≠ fd) →
    w'.sdk.connMap fd = w.sdk.connMap fd
  nextConn : w'.sdk.nextConn = w.sdk.nextConn
  crbIt : w'.crbIt = Function.update w.crbIt b none
  blocks : w'.blocks = Function.update w.blocks k {}
  expireList : w'.expireList = w.expireList.filter (fun e => e.1 ≠ n)
  recycleList : w'.recycleList = w.recycleList ++ [k]
  nextNode : w'.nextNode = w.nextNode
  nextBlock : w'.nextBlock = w.nextBlock
  times : w'.times = w.times
  record : w'.record = w.record
  logins : w'.logins = w.logins
  dials : w'.sdk.dials = w.sdk.dials
  log : ∃ l, w'.sdk.log = w.sdk.log ++ l ∧ ∀ o ∈ l, ∃ q, o = .shut q

namespace World.Removed

variable {w w' : World} {b : Ptr} {c : Connect} {n : ℕ} {k : BlockPtr}

/-- The block of another node is another block. -/
theorem block_ne (hs : w.Sound) (hh : w.Holds b c n k) {m : ℕ} {j : BlockPtr} (hm : (m, j) ∈ w.expireList)
    (hne : m ≠ n) : j ≠ k := by
  rintro rfl
  obtain ⟨p, d, hpd⟩ := hs.holds_of_mem hm
  obtain rfl : p = b := Option.mem_unique hpd.back hh.back
  exact hne (Option.mem_unique hpd.iter hh.iter)

theorem blocks_perm (hs : w.Sound) (hh : w.Holds b c n k) :
    ((w.expireList.filter (fun e => e.1 ≠ n)).map Prod.snd ++ (w.recycleList ++ [k])).Perm
      (w.expireList.map Prod.snd ++ w.recycleList) := by
  obtain ⟨l₁, l₂, hl⟩ := List.append_of_mem hh.mem
  have hn : n ∉ (l₁ ++ l₂).map Prod.fst := by
    have := hs.nodes
    rw [hl] at this
    simp only [List.map_append, List.map_cons, List.nodup_middle, List.nodup_cons] at this
    simpa using this.1
  rw [hl, filter_append hn]
  simp only [List.map_append, List.map_cons]
  refine List.Perm.trans ?_ (List.Perm.append_right _ List.perm_middle.symm)
  rw [List.cons_append, ← List.append_assoc]
  exact List.perm_append_singleton _ _

/-- What is left was there before. -/
theorem conn_of (h : w.Removed b c n k w') {x : Ptr} {d : Connect} (hx : w'.sdk.conns x = some d) :
    w.sdk.conns x = some d ∧ ¬ (x = b ∨ c.peer = some x) := by
  by_cases hg : x = b ∨ c.peer = some x
  · rw [h.gone x hg] at hx
    cases hx
  · exact ⟨h.kept x hg ▸ hx, hg⟩

theorem entry_of (h : w.Removed b c n k w') {fd : ℕ} {e : Option Ptr} (he : w'.sdk.connMap fd = some e) :
    w.sdk.connMap fd = some e ∧ ∀ x d, (x = b ∨ c.peer = some x) → w.sdk.conns x = some d → d.sockFd ≠ fd := by
  have hne : ∀ x d, (x = b ∨ c.peer = some x) → w.sdk.conns x = some d → d.sockFd ≠ fd := by
    rintro x d hx hd rfl
    rw [h.erased x d hx hd] at he
    cases he
  exact ⟨h.entries fd hne ▸ he, hne⟩

theorem sound (hs : w.Sound) (hh : w.Holds b c n k) (h : w.Removed b c n k w') : w'.Sound := by
  have hlive : ∀ {x d}, w'.sdk.conns x = some d → w.sdk.conns x = some d ∧ ¬ (x = b ∨ c.peer = some x) := h.conn_of
  have hentry : ∀ {x d}, w'.sdk.conns x = some d → w'.sdk.connMap d.sockFd = w.sdk.connMap d.sockFd := by
    intro x d hx
    refine h.entries _ fun y e hy he hfd => (hlive hx).2 ?_
    rwa [← hs.conn_unique he (hlive hx).1 hfd]
  constructor
  case entry =>
    intro fd e he
    obtain ⟨he₀, hne⟩ := h.entry_of he
    obtain ⟨p, d, rfl, hp, hpfd⟩ := hs.entry he₀
    have hpk : ¬ (p = b ∨ c.peer = some p) := fun hp' => hne p d hp' hp hpfd
    exact ⟨p, d, rfl, (h.kept p hpk).trans hp, hpfd⟩
  case listed =>
    intro p d hp
    rw [hentry hp]
    exact hs.listed (hlive hp).1
  case peer =>
    intro p d q hp hq
    obtain ⟨hp₀, hpk⟩ := hlive hp
    obtain ⟨e, he, heq, hty⟩ := hs.peer hp₀ hq
    have hqk : ¬ (q = b ∨ c.peer = some q) := by
      rintro (rfl | hq')
      · obtain rfl : e = c := Option.mem_unique he hh.conn
        exact hpk (.inr heq)
      · obtain ⟨e', he', hb, -⟩ := hs.peer hh.conn hq'
        obtain rfl : e = e' := Option.mem_unique he he'
        exact hpk (.inl (Option.mem_unique heq hb))
    exact ⟨e, (h.kept q hqk).trans he, heq, hty⟩
  case unused =>
    intro p hp
    by_cases hpk : p = b ∨ c.peer = some p
    · exact h.gone p hpk
    · rw [h.kept p hpk]
      exact hs.unused p (h.nextConn ▸ hp)
  case nodes =>
    rw [h.expireList]
    exact hs.nodes.sublist (List.filter_sublist.map _)
  case numbered =>
    intro e he
    rw [h.expireList] at he
    rw [h.nextNode]
    exact hs.numbered e (List.mem_of_mem_filter he)
  case blocks =>
    rw [h.expireList, h.recycleList]
    exact (blocks_perm hs hh).nodup_iff.mpr hs.blocks
  case allocated =>
    intro j hj
    rw [h.expireList, h.recycleList] at hj
    rw [h.nextBlock]
    exact hs.allocated j ((blocks_perm hs hh).subset hj)
  case node =>
    intro p d hp hty
    obtain ⟨hp₀, hpk⟩ := hlive hp
    obtain ⟨m, j, hpd⟩ := hs.holds_of_conn hp₀ hty
    have hpb : p ≠ b := fun hpb => hpk (.inl hpb)
    have hmn : m ≠ n := by
      rintro rfl
      obtain rfl : j = k := Option.mem_unique (hs.lookup hpd) (hs.lookup hh)
      exact hpb (Option.mem_unique hpd.back hh.back)
    refine ⟨m, j, ?_, ?_, ?_⟩
    · rw [h.crbIt, Function.update_of_ne hpb]
      exact hpd.iter
    · rw [h.expireList]
      exact List.mem_filter.mpr ⟨hpd.mem, by simpa using hmn⟩
    · rw [h.blocks, Function.update_of_ne (block_ne hs hh hpd.mem hmn)]
      exact hpd.back
  case block =>
    intro m j hm
    rw [h.expireList, List.mem_filter] at hm
    have hmn : m ≠ n := by simpa using hm.2
    obtain ⟨p, d, hpd⟩ := hs.holds_of_mem hm.1
    have hpb : p ≠ b := by
      rintro rfl
      exact hmn (Option.mem_unique hpd.iter hh.iter)
    have hpk : ¬ (p = b ∨ c.peer = some p) := by
      rintro (hp | hp)
      · exact hpb hp
      · -- the peer of a browser is no browser
        obtain ⟨e, he, -, hty⟩ := hs.peer hh.conn hp
        obtain rfl : d = e := Option.mem_unique hpd.conn he
        exact hty.mp hpd.type hh.type
    refine ⟨p, d, ?_, (h.kept p hpk).trans hpd.conn, hpd.type, ?_, ?_⟩
    · rw [h.blocks, Function.update_of_ne (block_ne hs hh hm.1 hmn)]
      exact hpd.back
    · rw [h.crbIt, Function.update_of_ne hpb]
      exact hpd.iter
    · rw [h.blocks, Function.update_of_ne (block_ne hs hh hm.1 hmn)]
      exact hpd.fd

end World.Removed

/-- The state without the connection `p` with fields `c`, apart from the recycler. -/
def State.dropped (s : State) (p : Ptr) (c : Connect) : State :=
  State.deleted { s with connMap := Function.update s.connMap c.sockFd none } p c

section Dropped

variable (s : State) (p : Ptr) (c : Connect)

theorem State.unregistered_same (fd : ℕ) : (s.unregistered fd).conns = s.conns ∧
    (s.unregistered fd).connMap = s.connMap ∧ (s.unregistered fd).nextConn = s.nextConn ∧
    (s.unregistered fd).dials = s.dials ∧ (s.unregistered fd).log = s.log := by
  unfold unregistered
  split_ifs
  · exact ⟨rfl, rfl, rfl, rfl, rfl⟩
  · cases s.epoll fd <;> exact ⟨rfl, rfl, rfl, rfl, rfl⟩

@[simp] theorem State.dropped_conns : (s.dropped p c).conns = Function.update s.conns p none := rfl

@[simp] theorem State.dropped_connMap :
    (s.dropped p c).connMap = Function.update s.connMap c.sockFd none := by
  simp only [dropped, deleted]
  split_ifs
  · exact (unregistered_same _ _).2.1
  · rfl

@[simp] theorem State.dropped_nextConn : (s.dropped p c).nextConn = s.nextConn := by
  simp only [dropped, deleted]
  split_ifs
  · exact (unregistered_same _ _).2.2.1
  · rfl

@[simp] theorem State.dropped_dials : (s.dropped p c).dials = s.dials := by
  simp only [dropped, deleted]
  split_ifs
  · exact (unregistered_same _ _).2.2.2.1
  · rfl

theorem State.dropped_log : ∃ l, (s.dropped p c).log = s.log ++ l ∧ ∀ o ∈ l, ∃ q, o = Obs.shut q := by
  simp only [dropped, deleted]
  split_ifs
  · refine ⟨[.shut p], ?_, by simp⟩
    simp only [emit, (unregistered_same _ _).2.2.2.2]
  · exact ⟨[], (List.append_nil _).symm, by simp⟩

end Dropped

section Remove

variable {w : World} {p b t : Ptr} {c d : Connect} {n : ℕ} {k : BlockPtr} {F : Crash → Prop} {Q : Unit → World → Prop}

theorem wpe_dropConn_tunnel (hp : w.sdk.conns p = some c) (hty : c.type ≠ .proxy) :
    wpe (dropConn p) Q F w ↔ Q () { w with sdk := w.sdk.dropped p c } := by
  simp only [dropConn, eraseEntry, wpe_bind, wpe_onSdk, wpe_deref, hp, wpe_modify, found_iff]
  exact wpe_destroy_tunnel (w := { w with sdk := _ }) hp hty

theorem wpe_dropConn_browser (hp : w.sdk.conns p = some c) (hty : c.type = .proxy) (hit : w.crbIt p = some n)
    (hn : w.expireList.lookup n = some k) (hb : (w.blocks k).conn = some p) :
    wpe (dropConn p) Q F w ↔ Q () { w.nodeRemoved n k p with sdk := w.sdk.dropped p c } := by
  simp only [dropConn, eraseEntry, wpe_bind, wpe_onSdk, wpe_deref, hp, wpe_modify, found_iff]
  exact wpe_destroy_proxy (w := { w with sdk := _ }) hp hty hit hn hb

theorem wpe_removeEntry_single (hs : w.Sound) (hh : w.Holds b c n k) (hpeer : c.peer = none) :
    wpe (removeEntry b) Q F w ↔ Q () { w.nodeRemoved n k b with
      sdk := (w.sdk.setConn b c.down).dropped b c.down
      connCount := w.connCount - 1 } := by
  simp only [removeEntry, isProxied, dropPeer, hpeer, hh.type, wpe_bind, wpe_onSdk, wpe_deref, hh.conn, wpe_modConn,
    wpe_pure, found_iff, if_true]
  have hb' : (w.sdk.setConn b c.down).conns b = some c.down := State.setConn_self _ _ _
  rw [wpe_dropConn_browser (w := { w with sdk := w.sdk.setConn b c.down }) hb' hh.type hh.iter (hs.lookup hh) hh.back]
  rfl

theorem wpe_removeEntry_browser (hs : w.Sound) (hh : w.Holds b c n k) (hpeer : c.peer = some t)
    (ht : w.sdk.conns t = some d) (hty : d.type ≠ .proxy) :
    wpe (removeEntry b) Q F w ↔ Q () { w.nodeRemoved n k b with
      sdk := ((w.sdk.setConn b c.down).dropped t d).dropped b c.down
      connCount := w.connCount - 1 } := by
  have hbt : b ≠ t := by
    rintro rfl
    cases ht.symm.trans hh.conn
    exact hty hh.type
  have ht' : (w.sdk.setConn b c.down).conns t = some d := (State.setConn_ne _ _ hbt.symm).trans ht
  have hb' : ((w.sdk.setConn b c.down).dropped t d).conns b = some c.down := by
    simp [hbt, State.setConn]
  simp only [removeEntry, isProxied, dropPeer, hpeer, hh.type, wpe_bind, wpe_onSdk, wpe_deref, hh.conn, ht, wpe_modConn,
    wpe_pure, found_iff, if_true]
  rw [wpe_dropConn_tunnel (w := { w with sdk := w.sdk.setConn b c.down }) ht' hty,
    wpe_dropConn_browser (w := { w with sdk := (w.sdk.setConn b c.down).dropped t d }) hb' hh.type hh.iter
      (hs.lookup hh) hh.back]
  rfl

theorem wpe_removeEntry_tunnel (hs : w.Sound) (hh : w.Holds b c n k) (ht : w.sdk.conns t = some d)
    (hty : d.type ≠ .proxy) (hpeer : d.peer = some b) :
    wpe (removeEntry t) Q F w ↔ Q () { w.nodeRemoved n k b with
      sdk := ((w.sdk.setConn t d.down).dropped b c).dropped t d.down
      connCount := w.connCount - 1 } := by
  have hbt : t ≠ b := by
    rintro rfl
    cases ht.symm.trans hh.conn
    exact hty hh.type
  have hb' : (w.sdk.setConn t d.down).conns b = some c := (State.setConn_ne _ _ hbt.symm).trans hh.conn
  have ht' : ((w.sdk.setConn t d.down).dropped b c).conns t = some d.down := by
    simp [hbt, State.setConn]
  simp only [removeEntry, isProxied, dropPeer, hpeer, hty, wpe_bind, wpe_onSdk, wpe_deref, ht, wpe_modConn, wpe_pure,
    found_iff, if_false]
  simp only [hb', hh.type, decide_true, if_true, wpe_bind, found_iff]
  rw [wpe_dropConn_browser (w := { w with sdk := w.sdk.setConn t d.down }) hb' hh.type hh.iter (hs.lookup hh) hh.back]
  exact wpe_dropConn_tunnel (w := { w.nodeRemoved n k b with sdk := (w.sdk.setConn t d.down).dropped b c }) ht' hty

theorem shuts_append {s₁ s₂ s₃ : State} (h₁ : ∃ l, s₂.log = s₁.log ++ l ∧ ∀ o ∈ l, ∃ q, o = Obs.shut q)
    (h₂ : ∃ l, s₃.log = s₂.log ++ l ∧ ∀ o ∈ l, ∃ q, o = Obs.shut q) :
    ∃ l, s₃.log = s₁.log ++ l ∧ ∀ o ∈ l, ∃ q, o = Obs.shut q := by
  obtain ⟨l₁, e₁, hl₁⟩ := h₁
  obtain ⟨l₂, e₂, hl₂⟩ := h₂
  refine ⟨l₁ ++ l₂, by rw [e₂, e₁, List.append_assoc], fun o ho => ?_⟩
  exact (List.mem_append.mp ho).elim (hl₁ o) (hl₂ o)

/-- A browser without a tunnel is removed. -/
theorem removed_single (hb : w.sdk.conns b = some c) (hpeer : c.peer = none) (z : ℤ) :
    w.Removed b c n k
      { w.nodeRemoved n k b with sdk := (w.sdk.setConn b c.down).dropped b c.down, connCount := z } where
  gone x hx := by
    obtain rfl : x = b := by simpa [hpeer] using hx
    simp
  kept x hx := by
    have hxb : x ≠ b := fun h => hx (.inl h)
    simp [hxb, State.setConn]
  erased x d hx hd := by
    obtain rfl : x = b := by simpa [hpeer] using hx
    obtain rfl : d = c := Option.mem_unique hd hb
    simp [Connect.down]
  entries fd hfd := by
    have hne : fd ≠ c.sockFd := (hfd b c (.inl rfl) hb).symm
    simp [Connect.down, hne, State.setConn]
  nextConn := State.dropped_nextConn _ _ _
  crbIt := rfl
  blocks := rfl
  expireList := rfl
  recycleList := rfl
  nextNode := rfl
  nextBlock := rfl
  times := rfl
  record := rfl
  logins := rfl
  dials := State.dropped_dials _ _ _
  log := State.dropped_log _ _ _

/-- A browser and its tunnel are removed, in any order. -/
theorem removed_pair {s : State} (hb : w.sdk.conns b = some c) (hpeer : c.peer = some t)
    (ht : w.sdk.conns t = some d) (hconns : ∀ x, x ≠ b → x ≠ t → s.conns x = w.sdk.conns x)
    (hgone : s.conns b = none ∧ s.conns t = none)
    (hmap : ∀ fd, fd ≠ c.sockFd → fd ≠ d.sockFd → s.connMap fd = w.sdk.connMap fd)
    (herased : s.connMap c.sockFd = none ∧ s.connMap d.sockFd = none) (hnext : s.nextConn = w.sdk.nextConn)
    (hdials : s.dials = w.sdk.dials) (hlog : ∃ l, s.log = w.sdk.log ++ l ∧ ∀ o ∈ l, ∃ q, o = Obs.shut q) (z : ℤ) :
    w.Removed b c n k { w.nodeRemoved n k b with sdk := s, connCount := z } where
  gone x hx := by
    simp only [hpeer, Option.some.injEq] at hx
    rcases hx with rfl | rfl
    · exact hgone.1
    · exact hgone.2
  kept x hx := by
    simp only [hpeer, Option.some.injEq, not_or] at hx
    exact hconns x hx.1 (Ne.symm hx.2)
  erased x e hx he := by
    simp only [hpeer, Option.some.injEq] at hx
    rcases hx with rfl | rfl
    · cases he.symm.trans hb
      exact herased.1
    · cases he.symm.trans ht
      exact herased.2
  entries fd hfd := hmap fd (hfd b c (.inl rfl) hb).symm (hfd t d (.inr hpeer) ht).symm
  nextConn := hnext
  crbIt := rfl
  blocks := rfl
  expireList := rfl
  recycleList := rfl
  nextNode := rfl
  nextBlock := rfl
  times := rfl
  record := rfl
  logins := rfl
  dials := hdials
  log := hlog

/-- `RemoveConnect` on a browser. -/
theorem wp_removeEntry_browser (hs : w.Sound) (hh : w.Holds b c n k) :
    wp (removeEntry b) (fun _ w' => w.Removed b c n k w') w := by
  cases hpeer : c.peer with
  | none =>
      rw [wp, wpe_removeEntry_single hs hh hpeer]
      exact removed_single hh.conn hpeer _
  | some t =>
      obtain ⟨d, ht, -, htty⟩ := hs.peer hh.conn hpeer
      rw [wp, wpe_removeEntry_browser hs hh hpeer ht (fun h => htty.mp h hh.type)]
      have hbt : b ≠ t := by
        rintro rfl
        cases hh.conn.symm.trans ht
        exact htty.mp hh.type hh.type
      refine removed_pair hh.conn hpeer ht ?_ ?_ ?_ ?_ ?_ ?_ ?_ _
      · intro x hxb hxt
        simp [hxb, hxt, State.setConn]
      · simp [hbt.symm]
      · intro fd hc hd
        simp [hc, hd, State.setConn, Connect.down]
      · constructor
        · simp [Connect.down]
        · by_cases h : d.sockFd = c.sockFd <;> simp [Connect.down, h]
      · simp [State.setConn]
      · simp [State.setConn]
      · exact shuts_append (State.dropped_log (w.sdk.setConn b c.down) t d) (State.dropped_log _ _ _)

/-- `RemoveConnect` on the tunnel of a browser. -/
theorem wp_removeEntry_tunnel (hs : w.Sound) (hh : w.Holds b c n k) (hpeer : c.peer = some t) :
    wp (removeEntry t) (fun _ w' => w.Removed b c n k w') w := by
  obtain ⟨d, ht, hback, htty⟩ := hs.peer hh.conn hpeer
  have hty : d.type ≠ .proxy := fun h => htty.mp h hh.type
  rw [wp, wpe_removeEntry_tunnel hs hh ht hty hback]
  have hbt : b ≠ t := by
    rintro rfl
    cases hh.conn.symm.trans ht
    exact hty hh.type
  refine removed_pair hh.conn hpeer ht ?_ ?_ ?_ ?_ ?_ ?_ ?_ _
  · intro x hxb hxt
    simp [hxb, hxt, State.setConn]
  · simp [hbt]
  · intro fd hc hd
    simp [hc, hd, State.setConn, Connect.down]
  · constructor
    · by_cases h : c.sockFd = d.sockFd <;> simp [Connect.down, h]
    · simp [Connect.down]
  · simp [State.setConn]
  · simp [State.setConn]
  · exact shuts_append (State.dropped_log (w.sdk.setConn t d.down) b c) (State.dropped_log _ _ _)

end Remove

/-! ### Adding a node -/

section Add

variable {w : World} {fd : ℕ}

/-- The blocks in use after `crbNew`: those before, and the free one. -/
theorem World.Sound.nodeAdded_blocks (h : w.Sound) :
    (w.nodeAdded.expireList.map Prod.snd ++ w.nodeAdded.recycleList).Nodup ∧
      (∀ b ∈ w.nodeAdded.expireList.map Prod.snd ++ w.nodeAdded.recycleList, b < w.nodeAdded.nextBlock) ∧
      ∀ e ∈ w.expireList, e.2 ≠ w.freeBlock ∧ w.nodeAdded.blocks e.2 = w.blocks e.2 := by
  have hnd := h.blocks
  have hal := h.allocated
  have hmem : ∀ e ∈ w.expireList, e.2 ∈ w.expireList.map Prod.snd := fun e he => List.mem_map.mpr ⟨e, he, rfl⟩
  cases hr : w.recycleList with
  | nil =>
      have hfree : w.nextBlock ∉ w.expireList.map Prod.snd := fun hm =>
        lt_irrefl _ (hal _ (List.mem_append_left _ hm))
      rw [hr, List.append_nil] at hnd hal
      simp only [nodeAdded, blockTaken, freeBlock, hr, List.headD_nil, List.tail_nil, List.append_nil, List.map_append,
        List.map_cons, List.map_nil, if_true]
      refine ⟨?_, ?_, ?_⟩
      · exact List.nodup_append.mpr ⟨hnd, by simp, fun a ha b hb => by
          rw [List.mem_singleton.mp hb]
          exact fun hab => hfree (hab ▸ ha)⟩
      · intro b hb
        rcases List.mem_append.mp hb with hb | hb
        · exact (hal b hb).trans (Nat.lt_succ_self _)
        · rw [List.mem_singleton.mp hb]
          exact Nat.lt_succ_self _
      · intro e he
        have hne : e.2 ≠ w.nextBlock := fun heq => hfree (heq ▸ hmem e he)
        exact ⟨hne, Function.update_of_ne hne _ _⟩
  | cons b rest =>
      rw [hr] at hnd hal
      simp only [nodeAdded, blockTaken, freeBlock, hr, List.headD_cons, List.tail_cons, List.map_append, List.map_cons,
        List.map_nil, List.append_assoc, List.singleton_append, reduceCtorEq, if_false]
      refine ⟨hnd, hal, fun e he => ⟨?_, trivial⟩⟩
      rintro rfl
      exact (List.nodup_append.mp hnd).2.2 _ (hmem e he) _ (List.mem_cons_self) rfl

/-- The fields of a browser that has just been accepted. -/
def browserConnect (fd : ℕ) : Connect where
  sockFd := fd
  type := .proxy
  dec := ⟨.header, 0, buffSize, 0, fun _ => 0⟩

/-- The state with a new browser. -/
def State.admitted (s : State) (fd : ℕ) : State :=
  { s.setConn s.nextConn (browserConnect fd) with
    nextConn := s.nextConn + 1
    connMap := Function.update s.connMap fd (some (some s.nextConn)) }

theorem wpe_admit {s : State} {Q : Ptr → State → Prop} {F : Fault → Prop} (hfd : s.connMap fd = none) :
    wpe (acceptEntry fd) Q F s ↔ Q s.nextConn (s.admitted fd) := by
  simp only [acceptEntry, acceptObject, wpe_bind, wpe_get, hfd, wpe_set, wpe_pure, wpe_modify, wpe_modConn,
    State.setConn, Function.update_self, found_iff, Function.update_idem, State.admitted, browserConnect]

/-- The state with a new browser that is watched. -/
def World.accepted (w : World) (fd : ℕ) : World :=
  { World.watched { w with sdk := w.sdk.admitted fd } fd w.sdk.nextConn with connCount := w.connCount + 1 }

theorem wpe_acceptConnection {Q : Unit → World → Prop} {F : Crash → Prop} (hw : w.Numbered)
    (hfd : w.sdk.connMap fd = none) : wpe (acceptConnection fd) Q F w ↔ Q () (w.accepted fd) := by
  simp only [acceptConnection, wpe_bind, wpe_onSdk, wpe_admit hfd]
  have hc : (w.sdk.admitted fd).conns w.sdk.nextConn = some (browserConnect fd) := State.setConn_self _ _ _
  exact wpe_watch (w := { w with sdk := w.sdk.admitted fd }) hw hc

/-- A new browser gets a node. -/
theorem World.Sound.accepted (h : w.Sound) (hfd : w.sdk.connMap fd = none) : (w.accepted fd).Sound := by
  obtain ⟨hnd, hal, hsame⟩ := World.Sound.nodeAdded_blocks h
  have hsdk : (w.accepted fd).sdk = w.sdk.admitted fd := rfl
  have hlist : (w.accepted fd).expireList = w.expireList ++ [(w.nextNode, w.freeBlock)] := rfl
  have hnew : (w.sdk.admitted fd).conns w.sdk.nextConn = some (browserConnect fd) := State.setConn_self _ _ _
  have hold : ∀ {q}, q ≠ w.sdk.nextConn → (w.sdk.admitted fd).conns q = w.sdk.conns q := fun hq =>
    State.setConn_ne _ _ hq
  have hlt : ∀ {q c}, w.sdk.conns q = some c → q ≠ w.sdk.nextConn := by
    rintro q c hq rfl
    rw [h.unused _ le_rfl] at hq
    cases hq
  have hfree : ∀ {q c}, w.sdk.conns q = some c → c.sockFd ≠ fd := by
    rintro q c hq rfl
    rw [h.listed hq] at hfd
    cases hfd
  have hmap : ∀ {fd'}, fd' ≠ fd → (w.sdk.admitted fd).connMap fd' = w.sdk.connMap fd' := fun hne =>
    Function.update_of_ne hne _ _
  have hit : ∀ {q}, q ≠ w.sdk.nextConn → (w.accepted fd).crbIt q = w.crbIt q := fun hq =>
    Function.update_of_ne hq _ _
  have hblock : ∀ e ∈ w.expireList, (w.accepted fd).blocks e.2 = w.blocks e.2 := by
    intro e he
    exact (Function.update_of_ne (hsame e he).1 _ _).trans (hsame e he).2
  constructor
  case entry =>
    intro fd' e he
    rw [hsdk] at he ⊢
    obtain ⟨rfl, rfl⟩ | ⟨-, he⟩ := update_some_eq he
    · exact ⟨_, _, rfl, hnew, rfl⟩
    · obtain ⟨p, c, rfl, hp, hpf⟩ := h.entry he
      exact ⟨p, c, rfl, (hold (hlt hp)).trans hp, hpf⟩
  case listed =>
    intro p c hp
    rw [hsdk] at hp ⊢
    obtain ⟨rfl, rfl⟩ | ⟨-, hp⟩ := update_some_eq hp
    · simp [State.admitted, browserConnect]
    · rw [hmap (hfree hp)]
      exact h.listed hp
  case peer =>
    intro p c q hp hq
    rw [hsdk] at hp ⊢
    obtain ⟨rfl, rfl⟩ | ⟨-, hp⟩ := update_some_eq hp
    · cases hq
    · obtain ⟨d, hd, hrest⟩ := h.peer hp hq
      exact ⟨d, (hold (hlt hd)).trans hd, hrest⟩
  case unused =>
    intro p hp
    rw [hsdk] at hp ⊢
    have hp' : w.sdk.nextConn + 1 ≤ p := hp
    rw [hold (Nat.ne_of_gt hp')]
    exact h.unused p (Nat.le_of_succ_le hp')
  case nodes =>
    rw [hlist, List.map_append]
    refine List.nodup_append.mpr ⟨h.nodes, by simp, ?_⟩
    intro a ha b hb
    obtain ⟨e, he, rfl⟩ := List.mem_map.mp ha
    obtain rfl : b = w.nextNode := by simpa using hb
    exact (h.numbered e he).ne
  case numbered =>
    have hn : w.Numbered := h.numbered
    exact hn.nodeAdded
  case blocks => exact hnd
  case allocated => exact hal
  case node =>
    intro p c hp hty
    rw [hsdk] at hp
    by_cases hpn : p = w.sdk.nextConn
    · subst hpn
      exact ⟨w.nextNode, w.freeBlock, Function.update_self _ _ _, by simp [hlist], by
        simp [World.accepted, World.watched, World.freeBlock]⟩
    · rw [hold hpn] at hp
      obtain ⟨n, b, hpi, hmem, hback⟩ := h.node hp hty
      exact ⟨n, b, (hit hpn).trans hpi, by simp [hlist, hmem], by rw [hblock _ hmem, hback]⟩
  case block =>
    intro n b hmem
    rw [hlist, List.mem_append] at hmem
    rw [hsdk]
    rcases hmem with hmem | hmem
    · obtain ⟨p, c, hback, hp, hty, hpi, hpf⟩ := h.block hmem
      have hpn := hlt hp
      exact ⟨p, c, by rw [hblock _ hmem, hback], (hold hpn).trans hp, hty, (hit hpn).trans hpi, by
        rw [hblock _ hmem, hpf]⟩
    · obtain ⟨rfl, rfl⟩ : n = w.nextNode ∧ b = w.freeBlock := by simpa using hmem
      refine ⟨w.sdk.nextConn, browserConnect fd, ?_, hnew, rfl, Function.update_self _ _ _, ?_⟩
      · simp [World.accepted, World.watched, World.freeBlock]
      · simp [World.accepted, World.watched, World.freeBlock, browserConnect]

end Add

/-! ### Delaying a node -/

section Delay

variable {w : World} {n : ℕ} {b : BlockPtr} {p : Ptr} {c : Connect}

/-- The state behind `crbDelay` on node `n` with block `b` of the connection `p`. -/
def World.delayed (w : World) (n : ℕ) (b : BlockPtr) (p : Ptr) : World :=
  { w.nodeAdded with
    blocks := Function.update (Function.update w.nodeAdded.blocks w.freeBlock
        { w.blocks b with tv := w.times.headD ⟨0, 0⟩ }) b
      { w.blocks b with tv := w.times.tail.headD ⟨0, 0⟩ }
    recycleList := w.nodeAdded.recycleList ++ [b]
    expireList := w.nodeAdded.expireList.filter (fun e => e.1 ≠ n)
    crbIt := Function.update w.crbIt p (iterNext n w.nodeAdded.expireList)
    times := w.times.tail.tail
    record := w.record ++ [.watched (w.blocks b).fd w.sdk.log.length (w.times.headD ⟨0, 0⟩)] }

theorem wpe_crbDelay {Q : Iter → World → Prop} {F : Crash → Prop} (hs : w.Sound) (hh : w.Holds p c n b) :
    wpe (crbDelay n) Q F w ↔ Q (iterNext n w.nodeAdded.expireList) (w.delayed n b p) := by
  obtain ⟨-, -, hsame⟩ := World.Sound.nodeAdded_blocks hs
  obtain ⟨hne, hblock⟩ := hsame _ hh.mem
  have hlook : w.nodeAdded.expireList.lookup n = some b := by
    simp [World.nodeAdded, List.lookup_append, hs.lookup hh]
  have hsdk : w.nodeAdded.sdk = w.sdk ∧ w.nodeAdded.times = w.times ∧ w.nodeAdded.record = w.record ∧
    w.nodeAdded.crbIt = w.crbIt := ⟨rfl, rfl, rfl, rfl⟩
  simp only [crbDelay, note, wpe_bind, wpe_atNode, hs.lookup hh, wpe_crbNew, hs.numbered.lookup_added, wpe_get,
    wpe_modBlock, wpe_gettimeofday, wpe_modify, wpe_eraseNode, hlook, hblock, Function.update_self,
    Function.update_idem, Function.update_of_ne hne, hh.back, wpe_setCrbIt, hsdk, hh.conn, wpe_pure, found_iff,
    World.delayed]

/-- The lists behind `crbDelay` on the only node. -/
theorem delayed_only (hn : w.Numbered) (honly : w.expireList = [(n, b)]) :
    (w.delayed n b p).expireList = [(w.nextNode, w.freeBlock)] ∧
      iterNext n w.nodeAdded.expireList = some w.nextNode := by
  have hlt : n < w.nextNode := hn (n, b) (by simp [honly])
  have hlist : w.nodeAdded.expireList = [(n, b), (w.nextNode, w.freeBlock)] := by
    simp [World.nodeAdded, honly]
  constructor
  · simp [World.delayed, hlist, hlt.ne']
  · simp [hlist, iterNext]

/-- `CRBDelay` on the only node of the list. -/
theorem World.Sound.delayed (hs : w.Sound) (hh : w.Holds p c n b) (honly : w.expireList = [(n, b)]) :
    (w.delayed n b p).Sound := by
  obtain ⟨hnd, hal, hsame⟩ := World.Sound.nodeAdded_blocks hs
  obtain ⟨hne, -⟩ := hsame _ hh.mem
  obtain ⟨hlist, hiter⟩ := delayed_only (p := p) hs.numbered honly
  have hperm : ((w.delayed n b p).expireList.map Prod.snd ++ (w.delayed n b p).recycleList).Perm
      (w.nodeAdded.expireList.map Prod.snd ++ w.nodeAdded.recycleList) := by
    have hadd : w.nodeAdded.expireList = [(n, b), (w.nextNode, w.freeBlock)] := by
      simp [World.nodeAdded, honly]
    rw [hlist, hadd]
    exact (List.perm_append_singleton b (w.freeBlock :: w.nodeAdded.recycleList))
  have hnew : (w.delayed n b p).blocks w.freeBlock = { w.blocks b with tv := w.times.headD ⟨0, 0⟩ } := by
    simp [World.delayed, hne.symm]
  have hit : (w.delayed n b p).crbIt p = some w.nextNode := by
    simp [World.delayed, hiter]
  constructor
  case entry => exact hs.entry
  case listed => exact hs.listed
  case peer => exact hs.peer
  case unused => exact hs.unused
  case nodes => simp [hlist]
  case numbered =>
    intro e he
    rw [hlist, List.mem_singleton] at he
    rw [he]
    exact Nat.lt_succ_self _
  case blocks => exact hperm.nodup_iff.mpr hnd
  case allocated => exact fun j hj => hal j (hperm.subset hj)
  case node =>
    intro q d hq hty
    obtain ⟨m, j, hqd⟩ := hs.holds_of_conn hq hty
    obtain ⟨rfl, rfl⟩ : m = n ∧ j = b := by simpa [honly] using hqd.mem
    obtain rfl : p = q := Option.mem_unique hh.back hqd.back
    exact ⟨w.nextNode, w.freeBlock, hit, by simp [hlist], by rw [hnew]; exact hh.back⟩
  case block =>
    intro m j hm
    obtain ⟨rfl, rfl⟩ : m = w.nextNode ∧ j = w.freeBlock := by simpa [hlist] using hm
    exact ⟨p, c, by rw [hnew]; exact hh.back, hh.conn, hh.type, hit, by rw [hnew]; exact hh.fd⟩

end Delay

end HttpsTunnel.Sdk

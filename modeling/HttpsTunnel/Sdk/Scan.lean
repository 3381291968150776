import HttpsTunnel.Sdk.Nodes

/-! # The scan of the recycler

`CRBScan` closes the connections that have not transmitted anything for a while and delays the others.
`CRBDelay` moves a block to the end of the list and then takes the node behind the old one for the new
one.  That is the same only when there is no other node (`DelaysLast`); under this condition the lists
stay in order in every run (`recycler_lists`). -/

namespace HttpsTunnel.Sdk

open HttpsTunnel.Lib

/-! ### The scan -/

/-- The block's time is over at `now`. -/
def World.Expired (w : World) (now : Timeval) (b : BlockPtr) : Prop :=
  (w.blocks b).tv.sec + Expire_Seconds < now.sec

/-- The connection with a descriptor. -/
def State.connAt (s : State) (fd : ℕ) : Option Connect := (s.connMap fd).join.bind s.conns

theorem State.connAt_eq_some {s : State} {fd : ℕ} {c : Connect} :
    s.connAt fd = some c ↔ ∃ p, s.connMap fd = some (some p) ∧ s.conns p = some c := by
  simp [connAt, Option.bind_eq_some_iff, Option.join_eq_some_iff]

/-- The connection has not transmitted anything, as far as its block can tell. -/
def World.Idle (w : World) (b : BlockPtr) : Prop :=
  ∀ c ∈ w.sdk.connAt (w.blocks b).fd, (w.blocks b).traffic = c.httpTransmitLen

/-- Among the first `i` of the nodes, as far as their time is over, only the last node of the list belongs to a
connection that has transmitted something: `CRBDelay` is called on a node only when no other is left. -/
def World.DelaysLast (w : World) (now : Timeval) : ℕ → List (ℕ × BlockPtr) → Prop
  | 0, _ | _ + 1, [] => True
  | i + 1, e :: es => w.Expired now e.2 → (w.Idle e.2 ∧ w.DelaysLast now i es) ∨ es = []

/-- The state with a new entry in its record. -/
def World.noted (w : World) (o : Note) : World := { w with record := w.record ++ [o] }

theorem World.same_noted (w : World) (o : Note) : w.SameNodes (w.noted o) :=
  ⟨rfl, rfl, rfl, rfl, rfl, fun _ => ⟨rfl, rfl⟩⟩

instance (w : World) (now : Timeval) (b : BlockPtr) : Decidable (w.Expired now b) :=
  inferInstanceAs (Decidable (_ < _))

instance (w : World) (b : BlockPtr) : Decidable (w.Idle b) :=
  match h : w.sdk.connAt (w.blocks b).fd with
  | none => .isTrue (by simp [World.Idle, h])
  | some c => decidable_of_iff ((w.blocks b).traffic = c.httpTransmitLen) (by simp [World.Idle, h])

instance instDecidableDelaysLast (w : World) (now : Timeval) : ∀ i es, Decidable (w.DelaysLast now i es)
  | 0, _ | _ + 1, [] => .isTrue trivial
  | i + 1, e :: es =>
      have := instDecidableDelaysLast w now i es
      inferInstanceAs (Decidable (w.Expired now e.2 → (w.Idle e.2 ∧ w.DelaysLast now i es) ∨ es = []))

/-- The state in which block `b` remembers a counter. -/
def World.remembering (w : World) (b : BlockPtr) (len : ℕ) : World :=
  { w with blocks := Function.update w.blocks b { w.blocks b with traffic := len } }

theorem World.same_remembering (w : World) (b : BlockPtr) (len : ℕ) : w.SameNodes (w.remembering b len) := by
  refine ⟨rfl, rfl, rfl, rfl, rfl, fun j => ?_⟩
  by_cases hj : j = b <;> simp [World.remembering, hj]

/-- What the scan does with a node at the time `now`: the browser is closed, or its node, the only one, is
delayed. -/
inductive World.ScanStep (now : Timeval) (w w' : World) : Prop
  | close {p : Ptr} {c : Connect} {n : ℕ} {b : BlockPtr} (hh : w.Holds p c n b) (hexp : w.Expired now b)
      (hidle : (w.blocks b).traffic = c.httpTransmitLen)
      (hr : (w.noted (.closed (w.blocks b).fd p w.sdk.log.length now)).Removed p c n b w')
  | delay {p : Ptr} {c : Connect} {n : ℕ} {b : BlockPtr} (hh : w.Holds p c n b) (hexp : w.Expired now b)
      (hne : (w.blocks b).traffic ≠ c.httpTransmitLen) (honly : w.expireList = [(n, b)])
      (heq : w' = (w.remembering b c.httpTransmitLen).delayed n b p)

/-- What a scan does. -/
abbrev World.Scans (now : Timeval) : World → World → Prop := Relation.ReflTransGen (World.ScanStep now)

section Scan

variable {w w' : World} {n : ℕ} {b : BlockPtr} {p : Ptr} {c : Connect} {now : Timeval}

theorem World.ScanStep.sound (h : w.ScanStep now w') (hs : w.Sound) : w'.Sound := by
  cases h with
  | @close p c n b hh _ _ hr =>
      have hsame := w.same_noted (.closed (w.blocks b).fd p w.sdk.log.length now)
      exact hr.sound (hsame.sound hs rfl) (hsame.holds hh.conn hh rfl rfl)
  | @delay p c n b hh _ _ honly heq =>
      rw [heq]
      have hsame := w.same_remembering b c.httpTransmitLen
      exact (hsame.sound hs rfl).delayed (hsame.holds hh.conn hh rfl rfl) honly

theorem World.Scans.sound (h : w.Scans now w') (hs : w.Sound) : w'.Sound := by
  induction h with
  | refl => exact hs
  | tail _ h ih => exact h.sound ih

/-- A scan opens no connection. -/
theorem World.Scans.conn_of (h : w.Scans now w') (hp : w'.sdk.conns p = some c) : w.sdk.conns p = some c := by
  induction h with
  | refl => exact hp
  | tail _ h ih =>
      cases h with
      | close _ _ _ hr => exact ih (hr.conn_of hp).1
      | delay _ _ _ _ heq =>
          rw [heq] at hp
          exact ih hp

/-- What the scan does with the node of a connection that has not transmitted anything. -/
theorem scanNode_idle (hs : w.Sound) (hh : w.Holds p c n b) (hidle : (w.blocks b).traffic = c.httpTransmitLen) :
    wp (scanNode now n b) (fun it w' => it = iterNext n w.expireList ∧
      (w.noted (.closed (w.blocks b).fd p w.sdk.log.length now)).Removed p c n b w') w := by
  have hentry : w.sdk.connMap (w.blocks b).fd = some (some p) := by
    rw [hh.fd]
    exact hs.listed hh.conn
  simp only [scanNode, removeConnect, note, wp, wpe_bind, wpe_get, hentry, wpe_onSdk, wpe_deref, hh.conn, hidle,
    if_true, wpe_atNode, hs.lookup hh, wpe_modify, wpe_pure, found_iff, true_and]
  have hsame := w.same_noted (.closed (w.blocks b).fd p w.sdk.log.length now)
  exact wp_removeEntry_browser (hsame.sound hs rfl) (hsame.holds hh.conn hh rfl rfl)

/-- What it does with the node of a connection that has transmitted something. -/
theorem wpe_scanNode_active {Q : Iter → World → Prop} {F : Crash → Prop} (hs : w.Sound) (hh : w.Holds p c n b)
    (hne : (w.blocks b).traffic ≠ c.httpTransmitLen) :
    wpe (scanNode now n b) Q F w ↔
      Q (iterNext n w.nodeAdded.expireList) ((w.remembering b c.httpTransmitLen).delayed n b p) := by
  have hentry : w.sdk.connMap (w.blocks b).fd = some (some p) := by
    rw [hh.fd]
    exact hs.listed hh.conn
  have hsame := w.same_remembering b c.httpTransmitLen
  simp only [scanNode, wpe_bind, wpe_get, hentry, wpe_onSdk, wpe_deref, hh.conn, hne, if_false, wpe_modBlock, found_iff]
  exact wpe_crbDelay (w := w.remembering b c.httpTransmitLen) (hsame.sound hs rfl) (hsame.holds hh.conn hh rfl rfl)

/-- What is left to scan after other connections were removed. -/
theorem DelaysLast.mono {es : List (ℕ × BlockPtr)} (hblocks : ∀ e ∈ es, w'.blocks e.2 = w.blocks e.2)
    (hentry : ∀ {fd e}, w'.sdk.connMap fd = some e → w.sdk.connMap fd = some e)
    (hconn : ∀ {q d}, w'.sdk.conns q = some d → w.sdk.conns q = some d) {i : ℕ} (h : w.DelaysLast now i es) :
    w'.DelaysLast now i es := by
  induction es generalizing i with
  | nil => cases i <;> exact trivial
  | cons e es ih =>
      cases i with
      | zero => exact trivial
      | succ i =>
          intro hexp
          have hblock := hblocks e (List.mem_cons_self)
          rw [World.Expired, hblock] at hexp
          rcases h hexp with ⟨hidle, hrest⟩ | hnil
          · refine .inl ⟨fun d hd => ?_, ih (fun e' he' => hblocks e' (List.mem_cons_of_mem _ he')) hrest⟩
            rw [hblock] at hd ⊢
            obtain ⟨q, hq, hd⟩ := State.connAt_eq_some.mp hd
            exact hidle d (State.connAt_eq_some.mpr ⟨q, hentry hq, hconn hd⟩)
          · exact .inr hnil

/-- **The scan.**  As long as a node is delayed only when no other is left, the scan follows no erased node:
it closes browsers and delays the last node. -/
theorem wp_scanFrom (i : ℕ) (hs : w.Sound) (hd : w.DelaysLast now i w.expireList) :
    wp (scanFrom now i (w.expireList.head?.map Prod.fst)) (fun _ w' => w.Scans now w') w := by
  induction i generalizing w with
  | zero => exact .refl
  | succ i ih =>
      cases hlist : w.expireList with
      | nil => exact .refl
      | cons e es =>
          obtain ⟨n, b⟩ := e
          obtain ⟨p, c, hh⟩ := hs.holds_of_mem (n := n) (b := b) (by simp [hlist])
          have hn : n ∉ es.map Prod.fst := by
            have := hs.nodes
            rw [hlist] at this
            simpa using (List.nodup_cons.mp this).1
          simp only [List.head?_cons, Option.map_some, scanFrom, wp, wpe_bind, wpe_atNode, hs.lookup hh, wpe_get,
            found_iff, wpe_ite]
          refine ⟨fun hexp => ?_, fun _ => .refl⟩
          rw [hlist] at hd
          by_cases hidle : (w.blocks b).traffic = c.httpTransmitLen
          · refine wp_mono (scanNode_idle hs hh hidle) ?_
            rintro it w' ⟨rfl, hr⟩
            have hstep : w.ScanStep now w' := .close hh hexp hidle hr
            have hlist' : w'.expireList = es := by
              rw [hr.expireList]
              exact (congrArg (List.filter _) hlist).trans (@filter_append [] es n b hn)
            have hiter : iterNext n w.expireList = w'.expireList.head?.map Prod.fst := by
              rw [hlist, hlist']
              exact @iterNext_append [] es n b (by simp)
            rw [hiter]
            refine wp_mono (ih (hstep.sound hs) ?_) fun _ w'' h => .head hstep h
            rw [hlist']
            rcases hd hexp with ⟨-, hrest⟩ | rfl
            · refine DelaysLast.mono (w := w) (fun e he => ?_) (fun he => (hr.entry_of he).1)
                (fun hq => (hr.conn_of hq).1) hrest
              rw [hr.blocks]
              refine Function.update_of_ne (World.Removed.block_ne hs hh (m := e.1) ?_ ?_) _ _
              · exact hlist ▸ List.mem_cons_of_mem _ he
              · exact fun hen => hn (List.mem_map.mpr ⟨e, he, hen⟩)
            · cases i <;> exact trivial
          · have hes : es = [] := by
              refine (hd hexp).resolve_left fun h => hidle (h.1 c ?_)
              rw [hh.fd]
              exact State.connAt_eq_some.mpr ⟨p, hs.listed hh.conn, hh.conn⟩
            subst hes
            rw [wpe_scanNode_active hs hh hidle]
            have hstep : w.ScanStep now ((w.remembering b c.httpTransmitLen).delayed n b p) :=
              .delay hh hexp hidle hlist rfl
            obtain ⟨hlist', hiter⟩ := delayed_only (w := w.remembering b c.httpTransmitLen) (p := p) hs.numbered hlist
            have hhead : iterNext n w.nodeAdded.expireList =
                ((w.remembering b c.httpTransmitLen).delayed n b p).expireList.head?.map Prod.fst := by
              rw [hlist']
              exact hiter
            rw [hhead]
            refine wp_mono (ih (hstep.sound hs) ?_) fun _ w'' h => .head hstep h
            rw [hlist']
            cases i with
            | zero => exact trivial
            | succ i => exact fun _ => .inr rfl

end Scan

/-! ### Runs -/

/-- What happens to the recycler: `HandleAcceptEvent` on a connection that `accept` gives the descriptor
`newfd`, `RemoveConnect`, `CRBScan`, and any change of a counter; `ts` is what the clock shows. -/
inductive RecycleOp where
  | accept (newfd : ℤ) (ts : List Timeval)
  | remove (fd : ℕ)
  | scan (ts : List Timeval)
  | transmit (p : Ptr) (len : ℕ)

namespace RecycleOp

def run : RecycleOp → WorldM Unit
  | accept newfd ts => do
      modify (fun w => { w with times := ts })
      let _ ← handleAcceptEvent newfd
  | remove fd => do
      let _ ← removeConnect fd
  | scan ts => do
      modify (fun w => { w with times := ts })
      crbScan
  | transmit p len =>
      modify (fun w => { w with
        sdk := { w.sdk with
          conns := Function.update w.sdk.conns p
            ((w.sdk.conns p).map fun c => { c with httpTransmitLen := len }) } })

/-- The kernel gives out no descriptor of a connection in the table, and a scan delays a node only when
no other is left. -/
def Fair (w : World) : RecycleOp → Prop
  | accept newfd _ => w.sdk.connMap newfd.toNat = none
  | scan ts => w.DelaysLast (ts.headD ⟨0, 0⟩) Expire_Count w.expireList
  | remove _ | transmit _ _ => True

instance (w : World) : ∀ op : RecycleOp, Decidable (op.Fair w)
  | accept newfd _ => inferInstanceAs (Decidable (w.sdk.connMap newfd.toNat = none))
  | scan ts => inferInstanceAs (Decidable (w.DelaysLast (ts.headD ⟨0, 0⟩) Expire_Count w.expireList))
  | remove _ | transmit _ _ => .isTrue trivial

end RecycleOp

/-- The browsers that are connected. -/
def World.browsers (w : World) : Set Ptr := { p | ∃ c, w.sdk.conns p = some c ∧ c.type = .proxy }

/-- Each browser has a node of `expire_list`, and the lists of blocks are disjoint. -/
structure World.Recycles (w : World) : Prop where
  nodes : (w.expireList.map Prod.fst).Nodup
  crbIt : Set.BijOn w.crbIt w.browsers { it | ∃ e ∈ w.expireList, it = some e.1 }
  block : ∀ p c, w.sdk.conns p = some c → c.type = .proxy → ∃ n b, w.crbIt p = some n ∧ (n, b) ∈ w.expireList ∧
    (w.blocks b).conn = some p ∧ (w.blocks b).fd = c.sockFd
  disjoint : ∀ b ∈ w.recycleList, b ∉ w.expireList.map Prod.snd
  nodup : w.recycleList.Nodup

theorem World.Sound.recycles {w : World} (h : w.Sound) : w.Recycles := by
  constructor
  case nodes => exact h.nodes
  case crbIt =>
    refine ⟨?_, ?_, ?_⟩
    · rintro p ⟨c, hp, hty⟩
      obtain ⟨n, b, hh⟩ := h.holds_of_conn hp hty
      exact ⟨(n, b), hh.mem, hh.iter⟩
    · rintro p ⟨c, hp, hty⟩ q ⟨d, hq, htq⟩ hpq
      obtain ⟨n, b, hh⟩ := h.holds_of_conn hp hty
      obtain ⟨m, k, hk⟩ := h.holds_of_conn hq htq
      obtain rfl : n = m := Option.mem_unique hh.iter (hpq.trans hk.iter)
      obtain rfl : b = k := Option.mem_unique (h.lookup hh) (h.lookup hk)
      exact Option.mem_unique hh.back hk.back
    · rintro it ⟨e, he, rfl⟩
      obtain ⟨p, c, hh⟩ := h.holds_of_mem (n := e.1) (b := e.2) he
      exact ⟨p, ⟨c, hh.conn, hh.type⟩, hh.iter⟩
  case block =>
    intro p c hp hty
    obtain ⟨n, b, hh⟩ := h.holds_of_conn hp hty
    exact ⟨n, b, hh.iter, hh.mem, hh.back, hh.fd⟩
  case disjoint =>
    exact fun b hb hm => (List.nodup_append.mp h.blocks).2.2 b hm b hb rfl
  case nodup => exact (List.nodup_append.mp h.blocks).2.1

/-- Nothing has been accepted yet. -/
structure World.Fresh (w : World) : Prop where
  conns : ∀ p, w.sdk.conns p = none
  connMap : ∀ fd, w.sdk.connMap fd = none
  expireList : w.expireList = []
  recycleList : w.recycleList = []

theorem World.Fresh.sound {w : World} (h : w.Fresh) : w.Sound where
  entry he := by simp [h.connMap] at he
  listed hp := by simp [h.conns] at hp
  peer hp := by simp [h.conns] at hp
  unused p _ := h.conns p
  nodes := by simp [h.expireList]
  numbered e he := by simp [h.expireList] at he
  blocks := by simp [h.expireList, h.recycleList]
  allocated b hb := by simp [h.expireList, h.recycleList] at hb
  node hp := by simp [h.conns] at hp
  block hm := by simp [h.expireList] at hm

section Run

variable {w : World}

/-- The state at another time. -/
def World.clocked (w : World) (ts : List Timeval) (z : ℤ) : World := { w with times := ts, acceptBeginTime := z }

theorem World.Sound.clocked (hs : w.Sound) (ts : List Timeval) (z : ℤ) : (w.clocked ts z).Sound :=
  World.SameNodes.sound (w := w) ⟨rfl, rfl, rfl, rfl, rfl, fun _ => ⟨rfl, rfl⟩⟩ hs rfl

/-- `HandleAcceptEvent` on a descriptor that is not in the table. -/
theorem wp_accept_sound (hs : w.Sound) {newfd : ℤ} (hfd : 0 < newfd → w.sdk.connMap newfd.toNat = none) :
    wp (handleAcceptEvent newfd) (fun _ w' => ∃ ts z, w' = w.clocked ts z ∨
      0 < newfd ∧ w' = (w.clocked ts z).accepted newfd.toNat) w := by
  have hwindow : wp inWindow (fun _ w' => ∃ ts z, w' = w.clocked ts z) w := by
    simp only [inWindow, wp, wpe_bind, wpe_get, wpe_ite, wpe_gettimeofday, wpe_pure, wpe_modify]
    exact ⟨fun _ => ⟨fun _ => ⟨_, _, rfl⟩, fun _ => ⟨_, _, rfl⟩⟩, fun _ => ⟨_, _, rfl⟩⟩
  simp only [handleAcceptEvent, wp, wpe_ite, wpe_pure, wpe_bind]
  refine ⟨fun _ => ⟨w.times, w.acceptBeginTime, .inl rfl⟩, fun hpos => wp_mono hwindow ?_⟩
  rintro ok w₁ ⟨ts, z, rfl⟩
  refine ⟨fun _ => ?_, fun _ => ⟨ts, z, .inl rfl⟩⟩
  rw [wpe_acceptConnection (w := w.clocked ts z) hs.numbered (hfd (not_le.mp hpos))]
  exact ⟨ts, z, .inr ⟨not_le.mp hpos, rfl⟩⟩

/-- `RemoveConnect` where the connection, if there is one, is a browser or belongs to one. -/
theorem wp_removeConnect (hs : w.Sound) {fd : ℕ} (hok : ∀ c ∈ w.sdk.connAt fd, c.type = .proxy ∨ c.peer ≠ none) :
    wp (removeConnect fd) (fun _ w' => w' = { w with sdk := w.sdk.unregistered fd } ∨
      ∃ b c n k, w.Holds b c n k ∧ w.Removed b c n k w') w := by
  simp only [removeConnect, wp, wpe_bind, wpe_get]
  cases he : w.sdk.connMap fd with
  | none =>
      simp only [wpe_bind, wpe_onSdk, wpe_removeEvent, wpe_pure]
      exact .inl trivial
  | some e =>
      obtain ⟨p, c, rfl, hp, -⟩ := hs.entry he
      simp only [wpe_bind, wpe_pure]
      by_cases hty : c.type = .proxy
      · obtain ⟨n, b, hh⟩ := hs.holds_of_conn hp hty
        exact wp_mono (wp_removeEntry_browser hs hh) fun _ w' hr => .inr ⟨p, c, n, b, hh, hr⟩
      · have hpeer := (hok c (State.connAt_eq_some.mpr ⟨p, he, hp⟩)).resolve_left hty
        obtain ⟨b, hpeer⟩ := Option.ne_none_iff_exists'.mp hpeer
        obtain ⟨d, hb, hback, hbty⟩ := hs.peer hp hpeer
        obtain ⟨n, k, hh⟩ := hs.holds_of_conn hb (hbty.mpr hty)
        exact wp_mono (wp_removeEntry_tunnel hs hh hback) fun _ w' hr => .inr ⟨b, d, n, k, hh, hr⟩

theorem World.Sound.unregistered (hs : w.Sound) (fd : ℕ) : ({ w with sdk := w.sdk.unregistered fd } : World).Sound := by
  obtain ⟨hc, hm, hn, -, -⟩ := w.sdk.unregistered_same fd
  have hsame : w.SameNodes { w with sdk := w.sdk.unregistered fd } := ⟨rfl, rfl, rfl, rfl, rfl, fun _ => ⟨rfl, rfl⟩⟩
  exact hsame.sound_of_ident hs (fun _ => by rw [hc]) hm hn

/-- The invariant of the runs: there are only browsers. -/
def World.Browsing (w : World) : Prop := w.Sound ∧ ∀ p c, w.sdk.conns p = some c → c.type = .proxy

theorem RecycleOp.run_browsing (op : RecycleOp) (hop : op.Fair w) (h : w.Browsing) :
    wp op.run (fun _ w' => w'.Browsing) w := by
  obtain ⟨hs, hall⟩ := h
  have htimes : ∀ ts, ({ w with times := ts } : World).Sound := fun ts =>
    World.SameNodes.sound (w := w) ⟨rfl, rfl, rfl, rfl, rfl, fun _ => ⟨rfl, rfl⟩⟩ hs rfl
  cases op with
  | accept newfd ts =>
      simp only [RecycleOp.run, wp, wpe_bind, wpe_modify, wpe_pure]
      refine wp_mono (wp_accept_sound (htimes ts) fun _ => hop) ?_
      rintro - w' ⟨ts', z, rfl | ⟨-, rfl⟩⟩
      · exact ⟨(htimes ts).clocked ts' z, hall⟩
      · refine ⟨((htimes ts).clocked ts' z).accepted hop, fun p c hp => ?_⟩
        obtain ⟨rfl, rfl⟩ | ⟨-, hp⟩ := update_some_eq hp
        · rfl
        · exact hall p c hp
  | remove fd =>
      simp only [RecycleOp.run, wp, wpe_bind, wpe_pure]
      have hok : ∀ c ∈ w.sdk.connAt fd, c.type = .proxy ∨ c.peer ≠ none := by
        intro c hc
        obtain ⟨p, -, hp⟩ := State.connAt_eq_some.mp hc
        exact .inl (hall p c hp)
      refine wp_mono (wp_removeConnect hs hok) ?_
      rintro - w' (rfl | ⟨b, c, n, k, hh, hr⟩)
      · exact ⟨hs.unregistered fd, fun p c hp => hall p c ((w.sdk.unregistered_same fd).1 ▸ hp)⟩
      · exact ⟨hr.sound hs hh, fun p c hp => hall p c (hr.conn_of hp).1⟩
  | scan ts =>
      simp only [RecycleOp.run, crbScan, wp, wpe_bind, wpe_modify, wpe_gettimeofday, wpe_get]
      refine wp_mono (wp_scanFrom Expire_Count (w := { w with times := ts.tail }) (htimes _) ?_) ?_
      · refine DelaysLast.mono (w := w) ?_ ?_ ?_ hop
        · exact fun _ _ => rfl
        · exact id
        · exact id
      · exact fun _ w' h => ⟨h.sound (htimes _), fun p c hp => hall p c (h.conn_of hp)⟩
  | transmit p len =>
      refine ⟨World.SameNodes.sound_of_ident (w := w) ⟨rfl, rfl, rfl, rfl, rfl, fun _ => ⟨rfl, rfl⟩⟩ hs ?_ rfl rfl, ?_⟩
      · intro q
        by_cases hq : q = p
        · subst hq
          cases hc : w.sdk.conns q <;> simp [hc, Connect.ident]
        · simp [hq]
      · intro q c hq
        by_cases hqp : q = p
        · subst hqp
          obtain ⟨d, hd, rfl⟩ : ∃ d, w.sdk.conns q = some d ∧ { d with httpTransmitLen := len } = c := by
            simpa [Option.map_eq_some_iff] using hq
          exact hall q d hd
        · exact hall q c (by simpa [hqp] using hq)

/-- **The lists of the recycler.**  From the start, whatever is accepted, removed and scanned, as long
as a scan delays a node only when no other is left: no erased node is followed, each browser that is
connected has its own node, with a block for it and its descriptor, and no block is both in use and free
or free twice. -/
theorem recycler_lists (hw : w.Fresh) (ops : List RecycleOp) (h : Along RecycleOp.run RecycleOp.Fair ops w) :
    ∃ w', runAll RecycleOp.run ops w = .ok ((), w') ∧ w'.Recycles := by
  have hstart : w.Browsing := ⟨hw.sound, fun p c hp => by simp [hw.conns] at hp⟩
  obtain ⟨⟨⟩, w', hrun, hw'⟩ := (wp_iff _ _ _).mp
    (Along.invariant (fun _ op hop => op.run_browsing hop) h hstart)
  exact ⟨w', hrun, hw'.1.recycles⟩

/-- Two browsers; the first has transmitted something when the scan finds its time over. -/
def delayedRun : List RecycleOp :=
  [.accept 5 [⟨0, 0⟩], .accept 6 [⟨15, 0⟩], .transmit 0 100, .scan [⟨20, 0⟩, ⟨20, 1⟩, ⟨20, 2⟩]]

theorem freshWorld_fresh : freshWorld.Fresh := ⟨fun _ => rfl, fun _ => rfl, rfl, rfl⟩

/-- Both browsers are then led to the node of the second. -/
theorem recycler_sharedNode :
    ∃ w', runAll RecycleOp.run delayedRun freshWorld = .ok ((), w') ∧ ¬ w'.Recycles := by
  have hrun : (runAll RecycleOp.run delayedRun freshWorld).toOption.map (fun r =>
      (r.2.crbIt 0, r.2.crbIt 1, (r.2.sdk.conns 0).map (·.type), (r.2.sdk.conns 1).map (·.type))) =
        some (some 1, some 1, some .proxy, some .proxy) := by
    decide +kernel
  obtain ⟨⟨⟨⟩, w'⟩, hr, hv⟩ := Option.map_eq_some_iff.mp hrun
  simp only [Prod.mk.injEq, Option.map_eq_some_iff] at hv
  obtain ⟨h0, h1, hc0, hc1⟩ := hv
  have hzero : (0 : Ptr) ∈ w'.browsers := hc0
  have hone : (1 : Ptr) ∈ w'.browsers := hc1
  refine ⟨w', eq_ok_of_toOption hr, fun hrec => ?_⟩
  exact absurd (hrec.crbIt.injOn hzero hone (h0.trans h1.symm)) Nat.zero_ne_one

/-- The only browser is delayed and then closed, and another one takes its block. -/
def oneBrowser : List RecycleOp :=
  [.accept 5 [⟨0, 0⟩], .transmit 0 100, .scan [⟨20, 0⟩, ⟨20, 1⟩, ⟨20, 2⟩], .scan [⟨40, 0⟩],
    .accept 6 [⟨41, 0⟩], .remove 6]

theorem recycler_lists_oneBrowser :
    ∃ w', runAll RecycleOp.run oneBrowser freshWorld = .ok ((), w') ∧ w'.Recycles := by
  have hfair : Along RecycleOp.run RecycleOp.Fair oneBrowser freshWorld := by
    decide +kernel
  exact recycler_lists freshWorld_fresh oneBrowser hfair

end Run

end HttpsTunnel.Sdk

import HttpsTunnel.Lib.Alike
import HttpsTunnel.Tms.Refine
import Mathlib.Data.List.TakeWhile

/-! # What a connection object keeps from an earlier use

Some fields of a connection object have no meaning before they are assigned: those a login request brings (mobile,
port, host and token), the length of a message before its header has been read, and the amount of pending data,
which only an agent has.  Two servers that differ in such fields of one tunnel `p`, and in the log in such fields,
are `Near`; what the server does next is the same in both (`handleEvent_near`).

The argument `l` says that `p` has logged in.  Before that no block names `p`, so that nothing is done for it but
what its own messages ask for. -/

namespace HttpsTunnel.Tms

open HttpsTunnel.Lib HttpsTunnel.Wire

/-! ### Servers that are near -/

/-- A connection without what it may have kept; after a login (`l`) its fields count. -/
def Connect.blank (l : Bool) (c : Connect) : Connect :=
  { c with
    mobile := if l then c.mobile else 0
    token := cstr c.token
    destPort := if l then c.destPort else 0
    currHost := if l then c.currHost else []
    dec := c.dec.blank
    datalen := 0 }

/-- A connection without the fields in question. -/
def Connect.bare (c : Connect) : Connect :=
  { c with mobile := 0, token := [], destPort := 0, currHost := [], dec := { c.dec with h := 0 }, datalen := 0 }

def Obs.bare : Obs → Obs
  | .msg p c len => .msg p c.bare len
  | .fwd p c shut tn x bs => .fwd p c.bare shut (tn.map Connect.bare) x bs
  | o => o

/-- The server without what `p` may have kept. -/
def Server.blank (p : Ptr) (l : Bool) (s : Server) : Server :=
  { s with
    conns := Function.update s.conns p ((s.conns p).map (Connect.blank l))
    log := s.log.map Obs.bare }

/-- The block has nothing to do with `p`, but that after a login `p` may be its tunnel. -/
def SCB.Spares (p : Ptr) (l : Bool) (b : SCB) : Prop := b.agentConn ≠ some p ∧ (l = false → b.tunnelConn ≠ some p)

/-- A tunnel, which before a login has neither user nor stream. -/
def Connect.Plain (l : Bool) (c : Connect) : Prop := c.type = .tunnel ∧ (l = false → c.user = none ∧ c.scb = none)

/-- `p` is known to its own events only. -/
structure Server.Lone (s : Server) (p : Ptr) (l : Bool) : Prop where
  old : p < s.nextConn
  blocks : ∀ k, (s.scbs k).Spares p l
  plain : ∀ c, s.conns p = some c → c.Plain l

/-- Two servers that differ in what `p` has kept. -/
structure Near (p : Ptr) (l : Bool) (s s' : Server) : Prop where
  lone : s.Lone p l
  view : s.blank p l = s'.blank p l

/-- The fields of `q` that a login brings can be seen. -/
def Shown (p : Ptr) (l : Bool) (q : Ptr) : Prop := q = p → l = true

variable {p : Ptr} {l : Bool} {s s' : Server}

theorem Shown.of_ne {q : Ptr} (h : q ≠ p) : Shown p l q := fun hq => absurd hq h

theorem SCB.Spares.shown {b : SCB} (h : b.Spares p l) {t : Ptr} (ht : b.tunnelConn = some t) : Shown p l t := by
  rintro rfl
  by_contra hl
  exact h.2 (Bool.not_eq_true l ▸ hl) ht

theorem SCB.Spares.of_none {b : SCB} (ha : b.agentConn = none) (ht : b.tunnelConn = none) : b.Spares p l :=
  ⟨ha ▸ (Option.some_ne_none p).symm, fun _ => ht ▸ (Option.some_ne_none p).symm⟩

theorem blank_other (s : Server) {q : Ptr} (hq : q ≠ p) : (s.blank p l).conns q = s.conns q :=
  Function.update_of_ne hq _ _

theorem blank_self (s : Server) : (s.blank p l).conns p = (s.conns p).map (Connect.blank l) :=
  Function.update_self _ _ _

theorem Connect.blank_bare (c : Connect) : (c.blank l).bare = c.bare := rfl

namespace Near

theorem other (h : Near p l s s') {q : Ptr} (hq : q ≠ p) : s.conns q = s'.conns q := by
  have hc : (s.blank p l).conns q = (s'.blank p l).conns q := by rw [h.view]
  rwa [blank_other _ hq, blank_other _ hq] at hc

theorem self (h : Near p l s s') : (s.conns p).map (Connect.blank l) = (s'.conns p).map (Connect.blank l) := by
  have hc : (s.blank p l).conns p = (s'.blank p l).conns p := by rw [h.view]
  rwa [blank_self, blank_self] at hc

end Near

/-! ### Changes that keep them near -/

/-- What `Lone` speaks of. -/
def Server.links (s : Server) : (Ptr → Option Connect) × (ScbPtr → SCB) × Ptr := (s.conns, s.scbs, s.nextConn)

theorem Server.Lone.of_links {t : Server} (h : s.Lone p l) (ht : t.links = s.links) : t.Lone p l := by
  obtain ⟨hconns, hrest⟩ := Prod.mk.inj ht
  obtain ⟨hscbs, hnext⟩ := Prod.mk.inj hrest
  exact ⟨hnext ▸ h.old, hscbs ▸ h.blocks, hconns ▸ h.plain⟩

namespace Near

theorem scbs (h : Near p l s s') : s.scbs = s'.scbs := (congrArg Server.scbs h.view :)

theorem openFds (h : Near p l s s') : s.openFds = s'.openFds := (congrArg Server.openFds h.view :)

/-- A change that has nothing to do with connections, blocks and the log. -/
theorem change (h : Near p l s s') {f : Server → Server} (hf : ∀ t, (f t).blank p l = f (t.blank p l))
    (hk : ∀ t, (f t).links = t.links) : Near p l (f s) (f s') :=
  ⟨h.lone.of_links (hk s), by rw [hf, hf, h.view]⟩

theorem emit (h : Near p l s s') {o o' : Obs} (ho : o.bare = o'.bare) : Near p l (s.emit o) (s'.emit o') := by
  refine ⟨h.lone.of_links rfl, ?_⟩
  have hemit : ∀ (t : Server) (o : Obs), (t.emit o).blank p l = (t.blank p l).emit o.bare := fun t o => by
    simp [Server.blank, Server.emit]
  rw [hemit, hemit, h.view, ho]

theorem setScb (h : Near p l s s') (k : ScbPtr) {b : SCB} (hb : b.Spares p l) :
    Near p l (s.setScb k b) (s'.setScb k b) := by
  refine ⟨⟨h.lone.old, fun j => ?_, h.lone.plain⟩, congrArg (fun t : Server => t.setScb k b) h.view⟩
  by_cases hj : j = k
  · subst hj
    simpa [Server.setScb] using hb
  · simpa [Server.setScb, hj] using h.lone.blocks j

theorem setConn (h : Near p l s s') {q : Ptr} {c c' : Connect} (hother : q ≠ p → c = c')
    (hself : q = p → c.blank l = c'.blank l ∧ c.Plain l) : Near p l (s.setConn q c) (s'.setConn q c') := by
  refine ⟨⟨h.lone.old, h.lone.blocks, ?_⟩, ?_⟩
  · intro d hd
    obtain ⟨rfl, rfl⟩ | ⟨-, hd⟩ := update_some_eq hd
    · exact (hself rfl).2
    · exact h.lone.plain d hd
  · have hset : ∀ (t : Server) (d : Connect), (t.setConn q d).blank p l =
        (t.blank p l).setConn q (if q = p then d.blank l else d) := by
      intro t d
      simp only [Server.blank, Server.setConn, Server.mk.injEq, true_and, and_true]
      by_cases hq : q = p
      · subst hq
        simp
      · rw [if_neg hq, Function.update_comm hq, Function.update_of_ne (Ne.symm hq)]
    have hcc : (if q = p then c.blank l else c) = if q = p then c'.blank l else c' := by
      split_ifs with hq
      · exact (hself hq).1
      · exact hother hq
    rw [hset, hset, h.view, hcc]

/-- A connection is deleted. -/
theorem delete (h : Near p l s s') (q : Ptr) : Near p l { s with conns := Function.update s.conns q none }
    { s' with conns := Function.update s'.conns q none } := by
  refine ⟨⟨h.lone.old, h.lone.blocks, fun d hd => ?_⟩, ?_⟩
  · by_cases hq : p = q
    · simp [hq] at hd
    · exact h.lone.plain d (by simpa [hq] using hd)
  · have hdel : ∀ t : Server, ({ t with conns := Function.update t.conns q none } : Server).blank p l =
        { t.blank p l with conns := Function.update (t.blank p l).conns q none } := by
      intro t
      simp only [Server.blank, Server.mk.injEq, true_and, and_true]
      by_cases hq : q = p
      · subst hq
        simp
      · rw [Function.update_comm hq, Function.update_of_ne (Ne.symm hq)]
    rw [hdel, hdel, h.view]

end Near

/-! ### Primitives -/

/-- The program does the same on servers that are near, and they stay so. -/
abbrev Steady {α : Type} (p : Ptr) (l : Bool) (x : TmsM α) : Prop := Sim (Near p l) x x

section Primitives

variable {α : Type} {q : Ptr}

theorem modify_steady {f : Server → Server} (hf : ∀ t, (f t).blank p l = f (t.blank p l))
    (hk : ∀ t, (f t).links = t.links) : Steady p l (modify f) :=
  .modify fun _ _ hs => hs.change hf hk

theorem get_steady {f : Server → TmsM α} (hf : ∀ t, f t = f (t.blank p l)) (h : ∀ t, Steady p l (f t)) :
    Steady p l (get >>= f) :=
  .get_bind fun s s' hs => by
    rw [hf s, hf s', hs.view]
    exact h _

theorem emit_sim {o o' : Obs} (h : o.bare = o'.bare) : Sim (Near p l) (emit o) (emit o') :=
  .modify fun _ _ hs => hs.emit h

theorem emit_steady (o : Obs) : Steady p l (emit o) := emit_sim rfl

theorem getScb_steady {k : ScbPtr} {f : SCB → TmsM α} (h : ∀ b, b.Spares p l → Steady p l (f b)) :
    Steady p l (getScb k >>= f) := by
  intro s s' hs
  rw [run_getScb_bind, run_getScb_bind, ← hs.scbs]
  exact h _ (hs.lone.blocks k) s s' hs

theorem modScb_steady (k : ScbPtr) {f : SCB → SCB} (hf : ∀ b, b.Spares p l → (f b).Spares p l) :
    Steady p l (modScb k f) :=
  .modify fun _ _ hs => by
    rw [← hs.scbs]
    exact hs.setScb k (hf _ (hs.lone.blocks k))

/-- What two connections have in common that `q` leads to. -/
structure Twins (p : Ptr) (l : Bool) (q : Ptr) (c c' : Connect) : Prop where
  other : q ≠ p → c = c'
  self : q = p → c.blank l = c'.blank l
  plain : q = p → c.Plain l

theorem Twins.bare {c c' : Connect} (h : Twins p l q c c') : c.bare = c'.bare := by
  by_cases hq : q = p
  · rw [← Connect.blank_bare (l := l) c, h.self hq, Connect.blank_bare]
  · rw [h.other hq]

theorem Twins.blank {c c' : Connect} (h : Twins p l q c c') : c.blank l = c'.blank l := by
  by_cases hq : q = p
  · exact h.self hq
  · rw [h.other hq]

theorem Twins.shown {c c' : Connect} (h : Twins p l q c c') (hscb : c.scb ≠ none) : Shown p l q := by
  intro hq
  by_contra hl
  exact hscb ((h.plain hq).2 (Bool.not_eq_true l ▸ hl)).2

theorem Near.twins (hs : Near p l s s') (q : Ptr) : s.conns q = none ∧ s'.conns q = none ∨
    ∃ c c', s.conns q = some c ∧ s'.conns q = some c' ∧ Twins p l q c c' := by
  by_cases hq : q = p
  · subst hq
    have hself := hs.self
    cases hc : s.conns q with
    | none => exact .inl ⟨rfl, by simpa [hc] using hself.symm⟩
    | some c =>
        obtain ⟨c', hc', hb⟩ : ∃ c', s'.conns q = some c' ∧ c'.blank l = c.blank l := by
          simpa [hc] using hself.symm
        exact .inr ⟨c, c', rfl, hc', fun hne => absurd rfl hne, fun _ => hb.symm, fun _ => hs.lone.plain c hc⟩
  · have hother := hs.other hq
    cases hc : s.conns q with
    | none => exact .inl ⟨rfl, by rw [← hother, hc]⟩
    | some c => exact .inr ⟨c, c, rfl, by rw [← hother, hc], fun _ => rfl, fun _ => rfl, fun hp => absurd hp hq⟩

/-- Follow a pointer, and end in servers that are related in another way. -/
theorem deref_ends {R : Server → Server → Prop} {f g : Connect → TmsM α} (hs : Near p l s s')
    (h : ∀ c c', s.conns q = some c → s'.conns q = some c' → Twins p l q c c' → Ends R (f c s) (g c' s')) :
    Ends R ((deref q >>= f) s) ((deref q >>= g) s') := by
  rw [run_bind, run_bind]
  rcases hs.twins q with ⟨hc, hc'⟩ | ⟨c, c', hc, hc', ht⟩
  · rw [deref_none hc, deref_none hc']
    exact .error _
  · rw [deref_eq hc, deref_eq hc']
    exact h c c' hc hc' ht

theorem deref_sim {f g : Connect → TmsM α} (h : ∀ c c', Twins p l q c c' → Sim (Near p l) (f c) (g c')) :
    Sim (Near p l) (deref q >>= f) (deref q >>= g) :=
  fun s s' hs => deref_ends hs fun c c' _ _ ht => h c c' ht s s' hs

/-- Follow a pointer to read fields that count. -/
theorem deref_steady {f : Connect → TmsM α} (hf : ∀ c, f c = f c.bare)
    (h : ∀ c, (c.scb ≠ none → Shown p l q) → Steady p l (f c)) : Steady p l (deref q >>= f) :=
  deref_sim fun c c' ht => by
    rw [hf c', ← ht.bare, ← hf c]
    exact h c ht.shown

/-- Follow a pointer to read the token as well. -/
theorem deref_token {f : Connect → TmsM α} (hf : ∀ c, f c = f (c.blank l))
    (h : ∀ c, (c.scb ≠ none → Shown p l q) → Steady p l (f c)) : Steady p l (deref q >>= f) :=
  deref_sim fun c c' ht => by
    rw [hf c', ← ht.blank, ← hf c]
    exact h c ht.shown

/-- A connection as it is seen once its login is. -/
def Connect.shown (c : Connect) : Connect :=
  { c with token := [], dec := { c.dec with h := 0 }, datalen := 0 }

/-- Follow a pointer to read fields a login brings. -/
theorem deref_shown (hq : Shown p l q) {f : Connect → TmsM α} (hf : ∀ c, f c = f c.shown)
    (h : ∀ c, Steady p l (f c)) : Steady p l (deref q >>= f) :=
  deref_sim fun c c' ht => by
    have hshown : c.shown = c'.shown := by
      by_cases hp : q = p
      · have hb := ht.self hp
        rw [hq hp] at hb
        exact (congrArg Connect.shown hb :)
      · rw [ht.other hp]
    rw [hf c', ← hshown, ← hf c]
    exact h c

/-- Follow a pointer to another connection. -/
theorem deref_other (hq : q ≠ p) {f : Connect → TmsM α} (h : ∀ c, Steady p l (f c)) : Steady p l (deref q >>= f) :=
  deref_sim fun c c' ht => by
    rw [← ht.other hq]
    exact h c

theorem modConn_sim {f : Connect → Connect} (hf : ∀ c c', c.blank l = c'.blank l → (f c).blank l = (f c').blank l)
    (hk : q = p → ∀ c, c.Plain l → (f c).Plain l) : Steady p l (modConn q f) :=
  deref_sim fun c c' ht => .modify fun _ _ hs =>
    hs.setConn (fun hq => congrArg f (ht.other hq)) fun hq => ⟨hf c c' (ht.self hq), hk hq c (ht.plain hq)⟩

/-- Fields are set that have nothing to do with those in question. -/
theorem modConn_steady {f : Connect → Connect} (hf : ∀ c, (f c).blank l = f (c.blank l))
    (hk : ∀ c, c.Plain l → (f c).Plain l) : Steady p l (modConn q f) :=
  modConn_sim (fun c c' h => by rw [hf, hf, h]) fun _ => hk

theorem modConn_other (hq : q ≠ p) (f : Connect → Connect) : Steady p l (modConn q f) :=
  deref_other hq fun _ => .modify fun _ _ hs => hs.setConn (fun _ => rfl) fun hp => absurd hp hq

theorem derefUser_steady (u : UserId) : Steady p l (derefUser u) :=
  get_steady (fun _ => rfl) fun t => by
    cases t.userMap u with
    | none => exact .throw _
    | some v => exact .pure v

theorem modUser_steady (u : UserId) (f : User → User) : Steady p l (modUser u f) :=
  .seq (derefUser_steady u) <| modify_steady (fun _ => rfl) fun _ => rfl

theorem nonNull_bind {β : Type} {o : Option α} {f : α → TmsM β} (h : ∀ a, o = some a → Steady p l (f a)) :
    Steady p l (nonNull o >>= f) := by
  cases o with
  | none => exact fun _ _ _ => .error _
  | some a => exact h a rfl

theorem nonNull_steady (o : Option α) : Steady p l (nonNull o) := by
  cases o with
  | none => exact .throw _
  | some a => exact .pure a

theorem firstConn_steady (pool : List Ptr) : Steady p l (firstConn pool) := by
  cases pool with
  | nil => exact .throw _
  | cons q _ => exact .pure q

theorem mapErase_steady (fd : ℕ) : Steady p l (mapErase fd) := modify_steady (fun _ => rfl) fun _ => rfl

theorem setErrno_steady (e : ℕ) : Steady p l (setErrno e) := modify_steady (fun _ => rfl) fun _ => rfl

theorem charge_steady (n : ℕ) : Steady p l (charge n) := get_steady (fun _ => rfl) fun _ => .pure _

end Primitives

/-! ### Kernel -/

theorem sockSend_steady (fd : ℕ) (bs : List UInt8) : Steady p l (sockSend fd bs) :=
  .get_bind fun s s' hs => by
    have hshut : s.shutFds = s'.shutFds := (congrArg Server.shutFds hs.view :)
    have hsends : s.sends = s'.sends := (congrArg Server.sends hs.view :)
    refine .ite_iff (by rw [hs.openFds]) (.ret (setErrno_steady _)) ?_
    refine .ite_iff (by rw [hshut]) (.ret (setErrno_steady _)) ?_
    rw [← hsends]
    cases s.sends with
    | nil => exact .pure _
    | cons r rest =>
        cases r with
        | sent n =>
            exact .ret (.set (hs.change (f := fun t => { t with sends := rest }) (fun _ => rfl) fun _ => rfl))
        | fail e =>
            exact .ret (.set (hs.change (f := fun t => { t with sends := rest, errno := e }) (fun _ => rfl)
              fun _ => rfl))

theorem Near.fdFree (hs : Near p l s s') (fd : ℕ) : s.fdFree fd ↔ s'.fdFree fd := by
  rw [Server.fdFree, Server.fdFree, hs.openFds]

theorem sockOpen_steady : Steady p l sockOpen :=
  .get_bind fun s s' hs => by
    have hsocks : s.socks = s'.socks := (congrArg Server.socks hs.view :)
    rw [← hsocks]
    cases s.socks with
    | nil => exact .ret (setErrno_steady _)
    | cons r rest =>
        cases r with
        | opened fd inprogress =>
            refine .ite_iff (hs.fdFree fd) (.ret (.set ?_)) (.ret (.set ?_))
            · exact hs.change
                (f := fun t => { t with socks := rest, errno := if inprogress then EINPROGRESS else t.errno })
                (fun _ => rfl) fun _ => rfl
            · exact hs.change (f := fun t => { t with socks := rest, errno := EMFILE }) (fun _ => rfl) fun _ => rfl
        | fail e =>
            exact .ret (.set (hs.change (f := fun t => { t with socks := rest, errno := e }) (fun _ => rfl)
              fun _ => rfl))

theorem closeFd_steady (fd : ℕ) : Steady p l (closeFd fd) :=
  .get_bind fun s s' hs => .ite_iff (by rw [hs.openFds])
    (.set (hs.change (f := fun t => { t with
      openFds := t.openFds.filter (· ≠ fd)
      shutFds := t.shutFds.filter (· ≠ fd)
      epoll := Function.update t.epoll fd none }) (fun _ => rfl) fun _ => rfl)) (setErrno_steady _)

theorem shutdownFd_steady (fd : ℕ) : Steady p l (shutdownFd fd) :=
  .get_bind fun s s' hs => .ite_iff (by rw [hs.openFds])
    (.set (hs.change (f := fun t => { t with shutFds := fd :: t.shutFds }) (fun _ => rfl) fun _ => rfl))
    (setErrno_steady _)

theorem addEvent_steady (fd : ℕ) (m : Mask) : Steady p l (addEvent fd m) :=
  get_steady (fun _ => rfl) fun t => by
    cases t.epoll fd with
    | some _ => exact .ret (setErrno_steady _)
    | none => exact .ret (modify_steady (fun _ => rfl) fun _ => rfl)

theorem removeEvent_steady (fd : ℕ) : Steady p l (removeEvent fd) :=
  get_steady (fun _ => rfl) fun t => by
    cases t.epoll fd with
    | none => exact .ret (setErrno_steady _)
    | some _ => exact .ret (modify_steady (fun _ => rfl) fun _ => rfl)

theorem modifyEvent_steady (fd : ℕ) (m : Mask) : Steady p l (modifyEvent fd m) :=
  get_steady (fun _ => rfl) fun t => by
    cases t.epoll fd with
    | none => exact .ret (setErrno_steady _)
    | some _ => exact .ret (modify_steady (fun _ => rfl) fun _ => rfl)

/-! ### Streams -/

theorem recordTraffic_steady (u : UserId) (scb : Option ScbPtr) (n : ℕ) : Steady p l (recordTraffic u scb n) := by
  cases scb with
  | none => exact .pure _
  | some k =>
      exact .seq (derefUser_steady u) <| getScb_steady fun _ _ => .seq (modScb_steady k fun _ h => h) <|
        .seq (modUser_steady u _) <| .ite (.pure _) (.pure _)

theorem chargeSent_steady (q : Ptr) (n : ℕ) : Steady p l (chargeSent q n) :=
  deref_steady (fun _ => rfl) fun c _ => by
    split
    · exact get_steady (fun _ => rfl) fun _ => .seq (emit_steady _) <| .seq (charge_steady _) <|
        .seq (recordTraffic_steady _ _ _) <| .ite (.ret (modConn_steady (fun _ => rfl) fun _ h => h)) (.pure _)
    · exact .pure _

theorem sendTmsMsg_steady (q : Ptr) (msg : List UInt8) : Steady p l (sendTmsMsg q msg) :=
  deref_steady (fun _ => rfl) fun c _ => .bind (sockSend_steady _ _) fun r => by
    cases r with
    | none => exact .pure _
    | some n => exact .seq (emit_steady _) <| .ite (.pure _) (chargeSent_steady q n)

theorem sendMsg_steady (q : Ptr) (msg : List UInt8) : Steady p l (sendMsg q msg) :=
  deref_steady (fun _ => rfl) fun c _ => .bind (sockSend_steady _ _) fun r => by
    cases r with
    | none => exact .pure _
    | some n => exact emit_steady _

theorem accumulateOrReport_steady (u : UserId) (k : ScbPtr) (start : Timeval) :
    Steady p l (accumulateOrReport u k start) :=
  .seq (derefUser_steady u) <| getScb_steady fun _ _ => .ite (modUser_steady u _) <|
    get_steady (fun _ => rfl) fun _ => .seq (emit_steady _) <| .seq (get_steady (fun _ => rfl) fun _ =>
      firstConn_steady _) <| modUser_steady u _

theorem reportOrAccumulate_steady (u : UserId) (k : ScbPtr) : Steady p l (reportOrAccumulate u k) :=
  getScb_steady fun b hb => .ite (.pure _) <| get_steady (fun _ => rfl) fun _ =>
    .bind (modScb_steady k fun _ h => h) fun _ => by
      cases ht : b.tunnelConn with
      | none => exact .pure _
      | some t =>
          exact deref_shown (hb.shown ht) (fun _ => rfl) fun _ => .ite (.throw _) <|
            .seq (derefUser_steady u) <| get_steady (fun _ => rfl) fun _ => .seq (modUser_steady u _) <|
              .seq (accumulateOrReport_steady u k _) <| .ret (modScb_steady k fun _ h => h)

theorem reportAccumulated_steady (u : UserId) : Steady p l (reportAccumulated u) :=
  .seq (derefUser_steady u) <| get_steady (fun _ => rfl) fun _ => .seq (emit_steady _) <|
    .seq (get_steady (fun _ => rfl) fun _ => firstConn_steady _) <| modUser_steady u _

theorem retrieveUser_steady (u : UserId) : Steady p l (retrieveUser u) :=
  .get_bind fun s s' hs => by
    have huser : s.userMap = s'.userMap := (congrArg Server.userMap hs.view :)
    rw [← huser]
    cases s.userMap u with
    | some _ => exact .pure _
    | none =>
        exact .set (hs.change (f := fun t => t.setUser u { accuStartTime := t.now }) (fun _ => rfl) fun _ => rfl)

theorem newForwardId_steady : Steady p l newForwardId :=
  .get_bind fun s s' hs => by
    have hid : s.avalForwardId = s'.avalForwardId := (congrArg Server.avalForwardId hs.view :)
    rw [← hid]
    exact .ret (.set (hs.change (f := fun t => { t with avalForwardId := _ }) (fun _ => rfl) fun _ => rfl))

theorem newSCB_steady : Steady p l newSCB :=
  .get_bind fun s s' hs => by
    have hfree : s.scbFreeList = s'.scbFreeList := (congrArg Server.scbFreeList hs.view :)
    have hid : s.avalPcbId = s'.avalPcbId := (congrArg Server.avalPcbId hs.view :)
    have hnext : s.nextScb = s'.nextScb := (congrArg Server.nextScb hs.view :)
    rw [← hfree, ← hid, ← hnext, ← hs.scbs]
    cases s.scbFreeList with
    | nil =>
        exact .ret (.set ((hs.setScb s.nextScb (b := { scbid := s.avalPcbId + 1 }) (.of_none rfl rfl)).change
          (f := fun t => { t with nextScb := s.nextScb + 1, avalPcbId := s.avalPcbId + 1 }) (fun _ => rfl)
            fun _ => rfl))
    | cons k rest =>
        exact .ret (.set ((hs.setScb k (b := { s.scbs k with scbid := s.avalPcbId + 1 }) (hs.lone.blocks k)).change
          (f := fun t => { t with scbFreeList := rest, avalPcbId := s.avalPcbId + 1 }) (fun _ => rfl)
            fun _ => rfl))

theorem recycleSCB_steady (k : ScbPtr) : Steady p l (recycleSCB k) :=
  .modify fun _ _ hs => (hs.setScb k (b := SCB.reset) (.of_none rfl rfl)).change
    (f := fun t => { t with scbFreeList := t.scbFreeList ++ [k] }) (fun _ => rfl) fun _ => rfl

theorem linkAgent_steady (u : UserId) (k : ScbPtr) {a : Ptr} (ha : a ≠ p) : Steady p l (linkAgent u k a) :=
  deref_other ha fun _ => .seq (modScb_steady k fun _ h => ⟨fun he => ha (Option.some.inj he), h.2⟩) <|
    modConn_other ha _

theorem linkTunnel_steady (u : UserId) {t : Ptr} (ht : Shown p l t) (c : Connect) :
    Steady p l (linkTunnel u t c) := by
  have hspares : ∀ b : SCB, b.Spares p l → SCB.Spares p l { b with tunnelConn := some t } := by
    refine fun b h => ⟨h.1, fun hl he => ?_⟩
    exact Bool.noConfusion (hl.symm.trans (ht (Option.some.inj he)))
  have hplain : t = p → ∀ d : Connect, d.Plain l → ∀ k, Connect.Plain l { d with user := some u, scb := some k } :=
    fun hp d hd k => ⟨hd.1, fun hl => Bool.noConfusion (hl.symm.trans (ht hp))⟩
  exact .bind newSCB_steady fun k => get_steady (fun _ => rfl) fun _ => .seq (modScb_steady k hspares) <|
    .ret (modConn_sim (fun d d' h => congrArg (fun e : Connect => { e with user := some u, scb := some k }) h)
      fun hp d hd => hplain hp d hd k)

theorem createSCB_steady (u : UserId) {t : Ptr} (ht : Shown p l t) {agent : Option Ptr}
    (ha : ∀ a, agent = some a → a ≠ p) : Steady p l (createSCB u t agent) :=
  deref_shown ht (fun _ => rfl) fun c => by
    cases c.scb with
    | some k => exact .pure k
    | none =>
        refine .bind (linkTunnel_steady u ht c) fun k => .bind ?_ fun _ => getScb_steady fun _ _ =>
          .ret (modUser_steady u _)
        cases agent with
        | none => exact .pure _
        | some a => exact linkAgent_steady u k (ha a rfl)

/-! ### Agents -/

theorem newConn_steady (fd : ℕ) (c : Connect) : Steady p l (newConn fd c) :=
  .get_bind fun s s' hs => by
    have hnext : s.nextConn = s'.nextConn := (congrArg Server.nextConn hs.view :)
    have hne : s.nextConn ≠ p := hs.lone.old.ne'
    have hset : Near p l (s.setConn s.nextConn c) (s'.setConn s.nextConn c) :=
      hs.setConn (fun _ => rfl) fun hp => absurd hp hne
    have hgrow : Near p l { s.setConn s.nextConn c with nextConn := s.nextConn + 1 }
        { s'.setConn s.nextConn c with nextConn := s.nextConn + 1 } :=
      ⟨⟨Nat.lt_succ_of_lt hs.lone.old, hset.lone.blocks, hset.lone.plain⟩,
        congrArg (fun t : Server => { t with nextConn := s.nextConn + 1 }) hset.view⟩
    rw [← hnext]
    refine .ret (.set ?_)
    exact (hgrow.change (f := fun t => { t.setMap fd (some s.nextConn) with openFds := fd :: t.openFds })
      (fun _ => rfl) fun _ => rfl).emit rfl

theorem createAgentConn_steady : Steady p l createAgentConn :=
  .bind sockOpen_steady fun r => by
    cases r with
    | none => exact .pure _
    | some fd => exact get_steady (fun _ => rfl) fun _ => .ret (newConn_steady _ _)

theorem attachAgent_steady (u : UserId) {t a : Ptr} (ht : Shown p l t) (ha : a ≠ p) (port : ℕ) :
    Steady p l (attachAgent u t a port) :=
  deref_steady (fun _ => rfl) fun c _ => by
    cases c.scb with
    | some k =>
        exact .seq (modScb_steady k fun _ h => h) <| .ret (linkAgent_steady u k ha)
    | none => exact createSCB_steady u ht fun _ h => Option.some.inj h ▸ ha

theorem connectWebServer_steady (u : UserId) {t : Ptr} (ht : Shown p l t) (ip port : ℕ) :
    Steady p l (connectWebServer u t ip port) := by
  refine createAgentConn_steady.bind_val (P := fun r => ∀ a, r = some a → a ≠ p) (fun s s' hs => ?_) fun r hr => ?_
  · refine wlp_mono (createAgentConn_spec s) fun r s₁ h a ha => ?_
    subst ha
    obtain ⟨-, fd, c, -, hnext, -⟩ := h
    exact hnext ▸ hs.lone.old.ne'
  · cases r with
    | none => exact .ret (sendTmsMsg_steady t _)
    | some a =>
        have ha : a ≠ p := hr a rfl
        exact deref_steady (fun _ => rfl) fun _ _ => get_steady (fun _ => rfl) fun _ => .seq (emit_steady _) <|
          .seq (attachAgent_steady u ht ha port) <| deref_other ha fun _ => .seq (addEvent_steady _ _) <|
            .ret (sendTmsMsg_steady t _)

/-! ### Taking connections down -/

theorem unlinkScb_steady {c c' : Connect} (hscb : c.scb = c'.scb) (htype : c.type = c'.type) :
    Sim (Near p l) (unlinkScb c) (unlinkScb c') := by
  rw [unlinkScb, unlinkScb, hscb, htype]
  split
  · exact modScb_steady _ fun _ h => ⟨h.1, fun _ => (Option.some_ne_none p).symm⟩
  · exact modScb_steady _ fun _ h => ⟨(Option.some_ne_none p).symm, h.2⟩
  · exact .pure _

theorem deleteConn_steady (q : Ptr) : Steady p l (deleteConn q) :=
  deref_steady (fun _ => rfl) fun _ _ => .bind
    (.ite (.seq (removeEvent_steady _) <| closeFd_steady _) (.pure _)) fun _ =>
      .seq (unlinkScb_steady rfl rfl) <| .modify fun _ _ hs => hs.delete q

theorem dropPeer_steady (o : Option Ptr) : Steady p l (dropPeer o) := by
  cases o with
  | none => exact .pure _
  | some q => exact deref_steady (fun _ => rfl) fun _ _ => .seq (mapErase_steady _) <| deleteConn_steady q

theorem takeDownStream_steady (q : Ptr) (c : Connect) (u : UserId) (k : ScbPtr) :
    Steady p l (takeDownStream q c u k) := by
  refine .seq (reportOrAccumulate_steady u k) <| .bind ?_ fun _ => .seq (recycleSCB_steady k) <|
    modConn_sim (fun d d' h => congrArg (fun e : Connect => { e with user := none }) h) fun _ d hd =>
      ⟨hd.1, fun hl => ⟨rfl, (hd.2 hl).2⟩⟩
  have htunnel : Steady p l (do
      modScb k (fun b => { b with tunnelConn := none })
      dropPeer (← getScb k).agentConn) :=
    .seq (modScb_steady k fun _ h => ⟨h.1, fun _ => (Option.some_ne_none p).symm⟩) <|
      getScb_steady fun _ _ => dropPeer_steady _
  have hagent : Steady p l (do
      modScb k (fun b => { b with agentConn := none })
      dropPeer (← getScb k).tunnelConn) :=
    .seq (modScb_steady k fun _ h => ⟨(Option.some_ne_none p).symm, h.2⟩) <|
      getScb_steady fun _ _ => dropPeer_steady _
  cases c.type with
  | tunnel => exact htunnel
  | agent | dns | center | proxy | dpi | tms | dsp => exact hagent

theorem beforeRemove_steady (q : Ptr) (c : Connect) : Steady p l (beforeRemove q c) := by
  rw [beforeRemove]
  split
  · exact modify_steady (fun _ => rfl) fun _ => rfl
  · exact takeDownStream_steady q c _ _
  · exact takeDownStream_steady q c _ _
  · exact .pure _

theorem removeConn_steady (fd : ℕ) : Steady p l (removeConn fd) :=
  get_steady (fun _ => rfl) fun t => by
    cases t.connMap fd with
    | none => exact .pure _
    | some q =>
        exact deref_steady (fun _ => rfl) fun c _ => .seq (beforeRemove_steady q c) <|
          .seq (deleteConn_steady q) <| mapErase_steady fd

theorem informShutdownUser_steady (fd : ℕ) : Steady p l (informShutdownUser fd) :=
  get_steady (fun _ => rfl) fun t => by
    cases t.connMap fd with
    | none => exact .pure _
    | some q =>
        refine deref_steady (fun _ => rfl) fun c _ => ?_
        split
        · refine .bind (nonNull_steady _) fun k => .seq (reportOrAccumulate_steady _ k) <|
            .seq (mapErase_steady fd) <| getScb_steady fun _ _ => .seq (dropPeer_steady _) <|
              .seq (modScb_steady k fun _ h => ⟨(Option.some_ne_none p).symm, h.2⟩) <|
                .seq (modConn_sim (fun d d' h => congrArg (fun e : Connect => { e with scb := none, user := none }) h)
                  fun _ d hd => ⟨hd.1, fun _ => ⟨rfl, rfl⟩⟩) <| emit_steady _
        · exact .pure _

/-! ### Names -/

theorem addWaitLists_steady (host : Host) (k : ScbPtr) : Steady p l (addWaitLists host k) :=
  getScb_steady fun _ _ => .seq (nonNull_steady _) <| modify_steady (fun _ => rfl) fun _ => rfl

theorem sendDnsFail_steady (k : ScbPtr) : Steady p l (sendDnsFail k) :=
  getScb_steady fun _ _ => .bind (nonNull_steady _) fun t => .ret (sendTmsMsg_steady t _)

theorem informConnect_steady (u : UserId) (k : ScbPtr) (ip : ℕ) : Steady p l (informConnect u k ip) :=
  getScb_steady fun b hb => by
    cases ht : b.tunnelConn with
    | none => exact .pure _
    | some t =>
        refine .bind (connectWebServer_steady u (hb.shown ht) ip _) fun r => ?_
        cases r with
        | some _ => exact .pure _
        | none => exact sendDnsFail_steady k

theorem informWaiter_steady (ip : ℕ) (w : Waiter) : Steady p l (informWaiter ip w) :=
  get_steady (fun _ => rfl) fun t => by
    cases t.userMap w.user with
    | none => exact .pure _
    | some v =>
        dsimp only
        cases v.scbTree w.scbid with
        | none => exact .pure _
        | some k => exact .ite (informConnect_steady _ k ip) (sendDnsFail_steady k)

theorem informWaiters_steady (ip : ℕ) (ws : List Waiter) : Steady p l (informWaiters ip ws) := by
  induction ws with
  | nil => exact .pure _
  | cons w ws ih => exact .seq (informWaiter_steady ip w) <| ih

theorem informClients_steady (host : Host) (ip : ℕ) : Steady p l (informClients host ip) :=
  get_steady (fun _ => rfl) fun _ => .seq (informWaiters_steady ip _) <|
    .seq (modify_steady (fun _ => rfl) fun _ => rfl) <| emit_steady _

theorem informAll_steady (reps : List Rep) : Steady p l (informAll reps) := by
  induction reps with
  | nil => exact .pure _
  | cons r reps ih => exact .seq (informClients_steady r.host r.ip) <| ih

theorem dnsReply_steady (q : Ptr) (bs : List UInt8) : Steady p l (dnsReply q bs) := by
  refine .seq (modConn_steady (fun _ => rfl) fun _ h => h) <| deref_steady (fun _ => rfl) fun c _ => ?_
  refine .bind ?_ fun reps => .seq (modify_steady (fun _ => rfl) fun _ => rfl) <| informAll_steady reps
  cases resParse c.dec.buff with
  | error e => exact .throw e
  | ok reps => exact .pure reps

theorem dnsRecvEvent_steady (q : Ptr) (reads : List ReadRes) : Steady p l (dnsRecvEvent q reads) := by
  induction reads with
  | nil => exact deref_steady (fun _ => rfl) fun _ _ => .ret (setErrno_steady _)
  | cons r reads ih =>
      cases r with
      | fail e => exact deref_steady (fun _ => rfl) fun _ _ => .ret (setErrno_steady _)
      | data bs =>
          exact deref_steady (fun _ => rfl) fun _ _ => .ite (.pure _) <| .seq (dnsReply_steady q _) <| ih

/-! ### Login -/

theorem awaitHost_steady {q : Ptr} (hq : Shown p l q) (u : UserId) (host : Host) (port : ℕ) :
    Steady p l (awaitHost q u host port) :=
  deref_steady (fun _ => rfl) fun _ _ => get_steady (fun _ => rfl) fun _ =>
    .bind (createSCB_steady u hq fun a h => absurd h (Option.some_ne_none a).symm) fun k =>
      .seq (addWaitLists_steady host k) <|
      getScb_steady fun _ _ => emit_steady _

theorem resolveHost_steady {q : Ptr} (hq : Shown p l q) (u : UserId) (host : Host) (port : ℕ) :
    Steady p l (resolveHost q u host port) :=
  get_steady (fun _ => rfl) fun _ => .ite (.throw _) <| .seq (awaitHost_steady hq u host port) <|
    .bind (get_steady (fun _ => rfl) fun _ => firstConn_steady _) fun d => sendMsg_steady d _

theorem openStream_steady {q : Ptr} (hq : Shown p l q) (u : UserId) (host : Host) (port : ℕ) :
    Steady p l (openStream q u host port) :=
  .ite (.ret (connectWebServer_steady u hq _ port)) <| get_steady (fun _ => rfl) fun t => by
    cases t.cache host with
    | some ip => exact .ret (connectWebServer_steady u hq ip port)
    | none => exact .ret (resolveHost_steady hq u host port)

theorem requestToken_steady (q : Ptr) (r : LoginReq) : Steady p l (requestToken q r) :=
  deref_steady (fun _ => rfl) fun _ _ => .bind (get_steady (fun _ => rfl) fun _ => firstConn_steady _) fun cn =>
    .seq (emit_steady _) <| .ret (sendTmsMsg_steady cn _)

/-- What a login does once the fields of the request are in the connection. -/
def afterLogin (q : Ptr) (r : LoginReq) (host : Host) : TmsM ℤ := do
  refuseParams q r
  requestToken q r
  retrieveUser ⟨r.mobile, r.app⟩
  modConn q (fun c => { c with user := some ⟨r.mobile, r.app⟩ })
  if ← openStream q ⟨r.mobile, r.app⟩ host r.port then
    let _ ← sendTmsMsg q (loginRsp .prog)
    pure 0
  else pure (-1)

theorem afterLogin_steady {q : Ptr} (hq : Shown p l q) (r : LoginReq) (host : Host) :
    Steady p l (afterLogin q r host) := by
  have hplain : q = p → ∀ d : Connect, d.Plain l → ∀ u, Connect.Plain l { d with user := some u } :=
    fun hp d hd u => ⟨hd.1, fun hl => Bool.noConfusion (hl.symm.trans (hq hp))⟩
  exact .seq (.ite (.ret (sendTmsMsg_steady q _)) (.pure _)) <|
    .seq (requestToken_steady q r) <| .seq (retrieveUser_steady _) <|
      .seq (modConn_sim (fun d d' h => congrArg (fun e : Connect => { e with user := some ⟨r.mobile, r.app⟩ }) h)
        fun hp d hd => hplain hp d hd _) <| .seq (openStream_steady hq _ host r.port) <|
          .ite (.ret (sendTmsMsg_steady q _)) (.pure _)

/-- The servers differ in what `p` has kept, whether it has logged in or not. -/
def Close (p : Ptr) (s s' : Server) : Prop := ∃ l, Near p l s s'

theorem Steady.close {α : Type} {x : TmsM α} (h : ∀ l, Steady p l x) : Sim (Close p) x x :=
  fun s s' hs => hs.elim fun l hs => (h l s s' hs).mono fun _ _ hn => ⟨l, hn⟩

/-- The fields a login overwrites. -/
theorem Connect.login_blank {c c' : Connect} (h : c.blank l = c'.blank l) {r : LoginReq} (hr : 0 ∈ r.token) :
    (c.login r).blank true = (c'.login r).blank true := by
  have hlogin : ∀ d : Connect, (d.login r).blank true = { d.blank l with
      app := r.app
      mobile := r.mobile
      destPort := r.port
      token := cstr r.token
      currHost := (d.blank l).dec.buff.slice LoginReq.hostAt r.hostLen
      dec := { (d.blank l).dec with buff := (d.blank l).dec.buff.store (LoginReq.hostAt + r.hostLen) [0] } } := by
    intro d
    rw [Connect.blank, show (d.login r).token = copyToken d.token r.token from rfl, cstr_copyToken _ hr]
    rfl
  rw [hlogin, hlogin, h]

/-- Once the fields of a login are in `p`, they count. -/
theorem Near.login (hs : Near p l s s') {c c' : Connect} (hb : c.blank true = c'.blank true)
    (hc : c.type = .tunnel) : Near p true (s.setConn p c) (s'.setConn p c') := by
  have hlone : (s.setConn p c).Lone p true := by
    refine ⟨hs.lone.old, fun k => ⟨(hs.lone.blocks k).1, fun hl => Bool.noConfusion hl⟩, fun d hd => ?_⟩
    obtain rfl : c = d := by simpa [Server.setConn] using hd
    exact ⟨hc, fun hl => Bool.noConfusion hl⟩
  refine ⟨hlone, ?_⟩
  have hset : ∀ (t : Server) (d : Connect), (t.setConn p d).blank p true =
      (t.blank p l).setConn p (d.blank true) := by
    intro t d
    simp [Server.blank, Server.setConn]
  rw [hset, hset, hs.view, hb]

theorem handleLoginReq_eq_afterLogin {q : Ptr} {c : Connect} (hc : s.conns q = some c) :
    handleLoginReq q s = if 0 ∉ (LoginReq.read c.dec.buff).token ∨
        buffSize ≤ LoginReq.hostAt + (LoginReq.read c.dec.buff).hostLen then .error .overflow
      else afterLogin q (LoginReq.read c.dec.buff) (c.login (LoginReq.read c.dec.buff)).currHost
        (s.setConn q (c.login (LoginReq.read c.dec.buff))) := by
  have hmod : ∀ f, modConn q f s = .ok ((), s.setConn q (f c)) := fun f => by
    rw [modConn, run_bind, deref_eq hc]
    rfl
  rw [handleLoginReq, run_bind, deref_eq hc]
  simp only
  split_ifs with hbad
  · rfl
  · simp only [enterLogin, bind_assoc]
    rw [run_bind, hmod]
    rfl

/-- A login request is treated the same way, and with it what `p` has kept counts or is gone. -/
theorem handleLoginReq_close (q : Ptr) : Sim (Close p) (handleLoginReq q) (handleLoginReq q) := by
  rintro s s' ⟨l, hs⟩
  rcases hs.twins q with ⟨hc, hc'⟩ | ⟨c, c', hc, hc', ht⟩
  · rw [handleLoginReq, run_bind, run_bind, deref_none hc, deref_none hc']
    exact .error _
  · have hbuff : c'.dec.buff = c.dec.buff := (congrArg (fun d : Connect => d.dec.buff) ht.bare.symm :)
    rw [handleLoginReq_eq_afterLogin hc, handleLoginReq_eq_afterLogin hc', hbuff]
    generalize LoginReq.read c.dec.buff = r
    have hhost : (c'.login r).currHost = (c.login r).currHost := by
      show c'.dec.buff.slice _ _ = c.dec.buff.slice _ _
      rw [hbuff]
    split_ifs with hbad
    · exact .error _
    · have htoken : 0 ∈ r.token := by
        by_contra h0
        exact hbad (.inl h0)
      rw [hhost]
      by_cases hq : q = p
      · subst hq
        have hnear := hs.login (Connect.login_blank ht.blank htoken) (ht.plain rfl).1
        exact (afterLogin_steady (fun _ => rfl) r _ _ _ hnear).mono fun _ _ h => ⟨true, h⟩
      · have hnear : Near p l (s.setConn q (c.login r)) (s'.setConn q (c'.login r)) :=
          hs.setConn (fun hne => by rw [ht.other hne]) fun hp => absurd hp hq
        exact (afterLogin_steady (.of_ne hq) r _ _ _ hnear).mono fun _ _ h => ⟨l, h⟩

/-! ### Messages -/

theorem handleBeginTransmit_steady (q : Ptr) : Steady p l (handleBeginTransmit q) :=
  deref_steady (fun _ => rfl) fun c _ => by
    cases c.scb with
    | none => exact .pure _
    | some k =>
        refine getScb_steady fun _ _ => .ite (.ret (modConn_sim (fun d d' h => ?_) fun _ _ h => h))
          (.pure _)
        exact congrArg (fun e : Connect => { e with dec := { e.dec with
          cstate := .forward, stillneedtoread := buffSize, h := 0 } }) h

theorem rejectClient_steady (q : Ptr) (r : ReadTokenRsp) : Steady p l (rejectClient q r) :=
  .seq (sendTmsMsg_steady q _) <| .seq (modConn_steady (fun _ => rfl) fun _ h => h) <|
    deref_steady (fun _ => rfl) fun _ _ => removeConn_steady _

theorem synUserTuple_steady {q : Ptr} (hq : Shown p l q) : Steady p l (synUserTuple q) :=
  deref_shown hq (fun _ => rfl) fun _ => get_steady (fun _ => rfl) fun _ =>
    .bind (get_steady (fun _ => rfl) fun _ => firstConn_steady _) fun d => .ret (sendTmsMsg_steady d _)

theorem setVerified_steady (q m : Ptr) (cl : Connect) (k : ScbPtr) (r : ReadTokenRsp) :
    Steady p l (setVerified q m cl k r) :=
  deref_steady (fun _ => rfl) fun _ _ => .bind (nonNull_steady _) fun u =>
    .seq (modConn_steady (fun _ => rfl) fun _ h => h) <| .seq (modScb_steady k fun _ h => h) <|
      .seq (modUser_steady u _) <| emit_steady _

theorem acceptClient_steady (q : Ptr) {m : Ptr} {cl : Connect} (hm : cl.scb ≠ none → Shown p l m)
    (r : ReadTokenRsp) : Steady p l (acceptClient q m cl r) := by
  rw [acceptClient]
  cases hscb : cl.scb with
  | none => exact .seq (modConn_steady (fun _ => rfl) fun _ h => h) <| removeConn_steady _
  | some k =>
      have hshown : Shown p l m := hm (by rw [hscb]; exact Option.some_ne_none k)
      exact .seq (setVerified_steady q m cl k r) <| getScb_steady fun _ _ => .seq (sendTmsMsg_steady m _) <|
        synUserTuple_steady hshown

theorem cstr_cstr (bs : List UInt8) : cstr (cstr bs) = cstr bs := List.takeWhile_idem

theorem handleReadTokenRsp_steady (q : Ptr) : Steady p l (handleReadTokenRsp q) :=
  deref_steady (fun _ => rfl) fun c _ => get_steady (fun _ => rfl) fun t => by
    generalize ReadTokenRsp.read c.dec.buff = r
    split
    · exact .pure _
    · next m _ =>
        refine deref_token (fun cl => ?_) fun cl hm => ?_
        · show _ = if r.rspCode ≠ 0 ∨ cstr (cstr cl.token) ≠ cstr r.token then _ else _
          rw [cstr_cstr]
          rfl
        · exact .ite (.ret (rejectClient_steady m r))
            (.ret (acceptClient_steady q hm r))

theorem handleTrafficReportRsp_steady (q : Ptr) : Steady p l (handleTrafficReportRsp q) :=
  deref_steady (fun _ => rfl) fun c _ => get_steady (fun _ => rfl) fun t => by
    split
    · exact .pure _
    · exact .ite (.seq (reportAccumulated_steady _) <| .ret (modUser_steady _ _))
        (.ret (modUser_steady _ _))

theorem handleRecvMsg_close (q : Ptr) (msglen : ℕ) :
    Sim (Close p) (handleRecvMsg q msglen) (handleRecvMsg q msglen) := by
  rintro s s' ⟨l, hs⟩
  refine deref_ends hs fun c c' hc hc' ht => ?_
  have hbuff : c'.dec.buff = c.dec.buff := (congrArg (fun d : Connect => d.dec.buff) ht.bare.symm :)
  have hemit : Close p (s.emit (.msg q c msglen)) (s'.emit (.msg q c' msglen)) :=
    ⟨l, hs.emit (congrArg (fun d => Obs.msg q d msglen) ht.bare)⟩
  rw [hbuff]
  refine Sim.ite (.pure _) ?_ _ _ hemit
  split
  · exact handleLoginReq_close q
  · exact Steady.close fun _ => handleBeginTransmit_steady q
  · exact Steady.close fun _ => handleReadTokenRsp_steady q
  · exact Steady.close fun _ => handleTrafficReportRsp_steady q
  · exact .pure _

theorem emitCutoff_steady (q tunnel : Ptr) : Steady p l (emitCutoff q tunnel) :=
  get_steady (fun _ => rfl) fun _ => emit_steady _

theorem chargeMsg_steady (q : Ptr) (length : ℕ) : Steady p l (chargeMsg q length) :=
  deref_steady (fun _ => rfl) fun c _ => .bind (charge_steady _) fun _ => by
    split
    · exact .seq (recordTraffic_steady _ _ _) <|
        .ite (.ret (.ite (emitCutoff_steady q q) (.pure _))) (.pure _)
    · exact .ret (.ite (modConn_steady (fun _ => rfl) fun _ h => h) (.pure _))

/-- The message branch, in servers in which the length of the message is the same. -/
theorem onMsg_close {q : Ptr} (n : ℕ) (hs : Close p s s')
    (hh : (s.conns q).map (·.dec.h) = (s'.conns q).map (·.dec.h)) : Ends (Close p) (onMsg q n s) (onMsg q n s') := by
  obtain ⟨l, hs⟩ := hs
  refine deref_ends hs fun c c' hc hc' _ => ?_
  obtain hh : c.dec.h = c'.dec.h := by simpa [hc, hc'] using hh
  rw [← hh]
  exact Sim.bind (handleRecvMsg_close q _) (fun _ => Steady.close fun _ => chargeMsg_steady q n) _ _ ⟨l, hs⟩

/-! ### Forwarding -/

theorem sendRelay_steady (dir : Dir) (tunnel agent : Ptr) (fd : ℕ) (bs : List UInt8) :
    Steady p l (sendRelay dir tunnel agent fd bs) :=
  .bind (sockSend_steady fd bs) fun r => by
    cases r with
    | some n => exact .ret (emit_steady _)
    | none => exact .pure _

theorem hangUp_steady (q : Ptr) (wrote length : ℕ) : Steady p l (hangUp q wrote length) := by
  have hmod : ∀ d d' : Connect, d.blank l = d'.blank l → Connect.blank l { d with
      datalen := length - wrote, status := .hangup, dec := { d.dec with offset := wrote } } = Connect.blank l { d' with
      datalen := length - wrote, status := .hangup, dec := { d'.dec with offset := wrote } } := fun d d' h =>
    congrArg (fun e : Connect => { e with status := .hangup, dec := { e.dec with offset := wrote } }) h
  exact .seq (modConn_sim hmod fun _ _ h => h) <| deref_steady (fun _ => rfl) fun _ _ =>
    .seq (removeEvent_steady _) <| .ite (.pure _) (.pure _)

theorem forwardDown_steady (q : Ptr) (c : Connect) (k : ScbPtr) (t : Ptr) (length : ℕ) :
    Steady p l (forwardDown q c k t length) :=
  deref_steady (fun _ => rfl) fun tn _ => .bind (sendRelay_steady _ _ _ _ _) fun r => by
    cases r with
    | none => exact hangUp_steady q 0 length
    | some wrote =>
        exact .bind (nonNull_steady _) fun u => .seq (charge_steady _) <| .seq (recordTraffic_steady u _ _) <|
          .ite (.ret (emitCutoff_steady q t)) (.ite (hangUp_steady q wrote length) (.pure _))

theorem forwardUp_steady (q : Ptr) (c : Connect) (k : ScbPtr) (a : Ptr) (length : ℕ) :
    Steady p l (forwardUp q c k a length) :=
  .bind (nonNull_steady _) fun u => .seq (charge_steady _) <| .seq (recordTraffic_steady u _ _) <|
    .ite (.ret (emitCutoff_steady q q)) <| deref_steady (fun _ => rfl) fun _ _ =>
      .ret (sendRelay_steady _ _ _ _ _)

theorem Near.bare (hs : Near p l s s') (q : Ptr) :
    (s.conns q).map Connect.bare = (s'.conns q).map Connect.bare := by
  rcases hs.twins q with ⟨hc, hc'⟩ | ⟨c, c', hc, hc', ht⟩
  · rw [hc, hc']
  · rw [hc, hc', Option.map_some, Option.map_some, ht.bare]

theorem emitFwd_sim (q : Ptr) {c c' : Connect} (h : c.bare = c'.bare) (length : ℕ) :
    Sim (Near p l) (emitFwd q c length) (emitFwd q c' length) :=
  .get_bind fun s s' hs => emit_sim <| by
    have hshut : s.shutFds = s'.shutFds := (congrArg Server.shutFds hs.view :)
    have hscb : c.scb = c'.scb := (congrArg Connect.scb h :)
    have hfd : c.sockFd = c'.sockFd := (congrArg Connect.sockFd h :)
    have hbuff : c.dec.buff = c'.dec.buff := (congrArg (fun d : Connect => d.dec.buff) h :)
    have hcut : s.chargeOf c length = s'.chargeOf c' length :=
      (congrArg₂ (fun (t : Server) (d : Connect) => t.chargeOf d length) hs.view h :)
    have htunnel : (s.tunnelOf c).map Connect.bare = (s'.tunnelOf c').map Connect.bare := by
      rw [Server.tunnelOf, Server.tunnelOf, hscb, hs.scbs]
      cases (c'.scb.map s'.scbs).bind (·.tunnelConn) with
      | none => rfl
      | some t => exact hs.bare t
    simp only [Obs.bare, h, hshut, hfd, hcut, htunnel, hbuff]

theorem onForward_steady (q : Ptr) (length : ℕ) : Steady p l (onForward q length) :=
  deref_sim fun c c' ht => .bind (emitFwd_sim q ht.bare length) fun _ => by
    have hscb : c'.scb = c.scb := (congrArg Connect.scb ht.bare.symm :)
    have htype : c'.type = c.type := (congrArg Connect.type ht.bare.symm :)
    have huser : c'.user = c.user := (congrArg Connect.user ht.bare.symm :)
    have hdown : ∀ k t, forwardDown q c' k t length = forwardDown q c k t length := fun k t =>
      (congrArg (fun d => forwardDown q d k t length) ht.bare.symm :)
    have hup : ∀ k a, forwardUp q c' k a length = forwardUp q c k a length := fun k a =>
      (congrArg (fun d => forwardUp q d k a length) ht.bare.symm :)
    simp only [hscb, htype, huser, hdown, hup]
    cases c.scb with
    | none => exact .pure _
    | some k =>
        refine getScb_steady fun b _ => ?_
        split
        · split
          · exact forwardDown_steady q c k _ length
          · exact forwardUp_steady q c k _ length
          · exact .pure _
        · exact .ret (nonNull_steady _)

/-! ### The read loop -/

theorem put_eq (q : Ptr) (d : Decoder) {c : Connect} (hc : s.conns q = some c) :
    (endpoint q).put d s = s.setConn q { c with dec := d } := by
  simp only [endpoint, hc]

theorem put_none (q : Ptr) (d : Decoder) (hc : s.conns q = none) : (endpoint q).put d s = s := by
  simp only [endpoint, hc]

theorem Near.put (hs : Near p l s s') (q : Ptr) {d d' : Decoder} (hd : d.blank = d'.blank) (hother : q ≠ p → d = d') :
    Near p l ((endpoint q).put d s) ((endpoint q).put d' s') := by
  rcases hs.twins q with ⟨hc, hc'⟩ | ⟨c, c', hc, hc', ht⟩
  · rw [put_none q d hc, put_none q d' hc']
    exact hs
  · rw [put_eq q d hc, put_eq q d' hc']
    exact hs.setConn (fun hq => by rw [ht.other hq, hother hq]) fun hq => 
      ⟨congrArg₂ (fun (e : Connect) f => { e with dec := f }) ht.blank hd, ht.plain hq⟩

/-- The decoders of `q` in servers that are near. -/
def DecTwins (p q : Ptr) (d d' : Decoder) : Prop := d.blank = d'.blank ∧ (q ≠ p → d = d')

theorem endpoint_blind (p q : Ptr) : (endpoint q).Blind (Close p) (DecTwins p q) where
  blank h := h.1
  recv chunk h := ⟨(Decoder.recv_blank h.1 _ chunk).1, fun hq => by rw [h.2 hq]⟩
  view := by
    rintro s s' ⟨l, hs⟩
    rcases hs.twins q with ⟨hc, hc'⟩ | ⟨c, c', hc, hc', ht⟩
    · exact .inl ⟨by simp [endpoint, hc], by simp [endpoint, hc']⟩
    · refine .inr ⟨c.dec, c'.dec, by simp [endpoint, hc], by simp [endpoint, hc'], ?_, fun hq => by rw [ht.other hq]⟩
      exact (congrArg Connect.dec ht.blank :)
  put _ h hd := h.elim fun l hs => ⟨l, hs.put q hd.1 hd.2⟩
  errno e h := h.elim fun l hs => ⟨l, hs.change (f := fun t => { t with errno := e }) (fun _ => rfl) fun _ => rfl⟩
  onMsg := by
    rintro s s' d n ⟨l, hs⟩
    refine onMsg_close n ⟨l, hs.put q rfl fun _ => rfl⟩ ?_
    rcases hs.twins q with ⟨hc, hc'⟩ | ⟨c, c', hc, hc', -⟩
    · simp [endpoint, hc, hc']
    · simp [endpoint, hc, hc', Server.setConn]
  onForward n := Steady.close fun _ => onForward_steady q n

theorem streamRecvEvent_close (q : Ptr) (reads : List ReadRes) :
    Sim (Close p) (streamRecvEvent q reads) (streamRecvEvent q reads) :=
  .ret (((endpoint_blind p q).recvLoop reads).mapFault _)

/-! ### Events -/

theorem Close.get_bind {α : Type} {f : Server → TmsM α} (hf : ∀ l t, f t = f (t.blank p l))
    (h : ∀ t, Sim (Close p) (f t) (f t)) : Sim (Close p) (get >>= f) (get >>= f) := by
  refine .get_bind fun s s' hs => ?_
  obtain ⟨l, hs⟩ := hs
  rw [hf l s, hf l s', hs.view]
  exact h _

theorem handleAcceptEvent_steady (fd : ℕ) : Steady p l (handleAcceptEvent fd) :=
  get_steady (fun _ => rfl) fun t => by
    cases t.connMap fd with
    | some q =>
        refine .bind (modConn_sim (fun d d' h => ?_) fun _ d _ => ⟨rfl, fun _ => ⟨rfl, rfl⟩⟩) fun _ => ?_
        · exact congrArg (fun e : Connect => (Connect.accepted { e.reset with
            dec := { e.dec with stillneedtoread := 0, cstate := .header, h := 0 } } fd t.now)) h
        · exact .modify fun _ _ hs => (hs.change (f := fun t => { t with openFds := fd :: t.openFds }) (fun _ => rfl)
            fun _ => rfl).emit rfl
    | none => exact .ret (newConn_steady fd _)

theorem acceptConn_steady (e : Event) : Steady p l (acceptConn e) :=
  .get_bind fun s s' hs => by
    cases e.accept with
    | none => exact setErrno_steady _
    | some a =>
        obtain ⟨fd, ip, port⟩ := a
        refine .ite_iff (hs.fdFree fd) (.seq (.set ?_) <| .seq (handleAcceptEvent_steady fd) <|
          .ret (addEvent_steady fd _)) (setErrno_steady _)
        exact hs.change (f := fun t => { t with peer := Function.update t.peer fd (some (ip, port)) }) (fun _ => rfl)
          fun _ => rfl

theorem recvEvent_close (q : Ptr) (reads : List ReadRes) : Sim (Close p) (recvEvent q reads) (recvEvent q reads) := by
  rintro s s' ⟨l, hs⟩
  refine deref_ends hs fun c c' _ _ ht => ?_
  have htype : c'.type = c.type := (congrArg Connect.type ht.bare.symm :)
  rw [htype]
  exact Sim.ite (Steady.close fun _ => dnsRecvEvent_steady q reads) (streamRecvEvent_close q reads) s s' ⟨l, hs⟩

theorem handleRecvEvent_close (fd : ℕ) (reads : List ReadRes) :
    Sim (Close p) (handleRecvEvent fd reads) (handleRecvEvent fd reads) :=
  Close.get_bind (fun _ _ => rfl) fun t => by
    cases t.connMap fd with
    | none => exact .pure _
    | some q =>
        refine .bind (recvEvent_close q reads) fun ret => .ite (.pure _) (Steady.close fun _ => ?_)
        exact deref_steady (fun _ => rfl) fun _ _ => .ite (.ret (removeConn_steady _)) (.pure _)

theorem agentReady_steady (q : Ptr) (k : ScbPtr) (t : Ptr) : Steady p l (agentReady q k t) :=
  .seq (modConn_steady (fun _ => rfl) fun _ h => h) <| .seq newForwardId_steady <|
    .seq (modScb_steady k fun _ h => h) <| getScb_steady fun _ _ => .ite
      (.seq (modConn_steady (fun _ => rfl) fun _ h => h) <| deref_steady (fun _ => rfl) fun _ _ =>
        .bind (nonNull_steady _) fun u => .seq (derefUser_steady u) <| .ret (sendTmsMsg_steady t _))
      (.ret (sendTmsMsg_steady t _))

theorem establish_steady (fd : ℕ) (q : Ptr) (c : Connect) : Steady p l (establish fd q c) :=
  .seq (modConn_steady (fun _ => rfl) fun _ h => h) <| get_steady (fun _ => rfl) fun t => by
    split
    · exact .seq (agentReady_steady q _ _) <| .ret (modifyEvent_steady fd _)
    · exact .ret (mapErase_steady fd)

theorem flushed_steady {a : Ptr} (ha : a ≠ p) (wrote : ℕ) : Steady p l (flushed a wrote) :=
  deref_other ha fun _ => .ite (.seq (modConn_other ha _) <| .ret (addEvent_steady _ _))
    (.ite (modConn_other ha _) (.pure _))

theorem chargeFlush_steady (q : Ptr) (c : Connect) (k : ScbPtr) (wrote : ℕ) : Steady p l (chargeFlush q c k wrote) :=
  .ite (.bind (nonNull_steady _) fun u => .seq (charge_steady _) <| .seq (recordTraffic_steady u _ _) <|
    .ite (.ret (emit_steady _)) (.pure _)) (.pure _)

theorem flush_steady (fd : ℕ) (q : Ptr) (c : Connect) : Steady p l (flush fd q c) :=
  .bind (nonNull_steady _) fun k => getScb_steady fun b hb => nonNull_bind fun a ha => by
    have hne : a ≠ p := fun h => hb.1 (h ▸ ha)
    refine deref_other hne fun ac => .ite (.pure _) (.bind (sendRelay_steady _ _ _ _ _) fun r => ?_)
    cases r with
    | none => exact .pure _
    | some wrote => exact .seq (flushed_steady hne wrote) <| chargeFlush_steady q c k wrote

theorem handleEPOEvent_steady (fd : ℕ) : Steady p l (handleEPOEvent fd) :=
  get_steady (fun _ => rfl) fun t => by
    cases t.connMap fd with
    | none => exact .pure _
    | some q =>
        exact deref_steady (fun _ => rfl) fun c _ => .ite (establish_steady fd q c)
          (.ite (.pure _) (.ite (.pure _) (flush_steady fd q c)))

theorem fetchError_steady (e : Event) : Steady p l (fetchError e) :=
  .get_bind fun s s' hs => .ite_iff (by rw [hs.openFds])
    (.set (hs.change (f := fun t => { t with err := e.soError }) (fun _ => rfl) fun _ => rfl)) (setErrno_steady _)

theorem outputPart_steady (e : Event) : Steady p l (outputPart e) :=
  .ite (.seq (fetchError_steady e) <| get_steady (fun _ => rfl) fun _ => .ite
    (.seq (handleEPOEvent_steady e.fd) <| .ite (shutdownFd_steady e.fd) (.pure _)) (.pure _)) (.pure _)

theorem recvFailed_steady (e : Event) : Steady p l (recvFailed e) :=
  get_steady (fun _ => rfl) fun _ => .ite (.pure _) (.ite (.seq (informShutdownUser_steady e.fd) <|
    .seq (removeConn_steady e.fd) <| closeFd_steady e.fd) (removeConn_steady e.fd))

theorem inputEvent_close (e : Event) : Sim (Close p) (inputEvent e) (inputEvent e) :=
  .seq (handleRecvEvent_close e.fd e.reads) <| .ite (.pure _) <| .ite
    (.ret (Steady.close fun _ => recvFailed_steady e)) <| .ite
      (Steady.close fun _ => get_steady (fun _ => rfl) fun _ => .ite
        (.ret (removeConn_steady e.fd)) (.pure _)) (.pure _)

/-- **What `p` has kept has no influence** on what the server does with an event. -/
theorem handleEvent_close (e : Event) : Sim (Close p) (handleEvent e) (handleEvent e) :=
  .seq (Steady.close fun _ => modify_steady (fun _ => rfl) fun _ => rfl) <| .ite
    (.ite (.seq (Steady.close fun _ => acceptConn_steady e) <| Steady.close fun _ => outputPart_steady e)
      (.seq (inputEvent_close e) <| .ite (Steady.close fun _ => outputPart_steady e) (.pure _)))
    (Steady.close fun _ => outputPart_steady e)

end HttpsTunnel.Tms

import HttpsTunnel.Tms.Decoding
import HttpsTunnel.Tms.Run

/-! # The receive buffers of the tunnel server

A connection that the loop may read has room in its buffer for the bytes it still needs, and an agent
that is hung up, whose buffer holds bytes for its tunnel, has no event to come (`Server.Tidy`).  Two
things break this: a header that announces more than the buffer holds, and a flush for an agent that is
not hung up of which the tunnel takes a part. -/

namespace HttpsTunnel.Tms

open HttpsTunnel.Lib HttpsTunnel.Wire Relation

/-- The bytes still needed fit in the buffer of every connection that is not hung up; one that is hung up
is neither registered nor in the batch. -/
structure Server.Tidy (s : Server) (pending : List ℕ) : Prop where
  room : ∀ {p c}, s.conns p = some c → c.status ≠ .hangup → c.dec.Free buffSize
  hung : ∀ {fd p c}, s.connMap fd = some p → s.conns p = some c → c.status = .hangup →
    s.epoll fd = none ∧ fd ∉ pending

section Tidy

variable {s s' : Server} {p : Ptr} {c c' : Connect} {fd : ℕ} {pending : List ℕ}

theorem Desk.New.free (h : c.desk.New) : c.dec.Free buffSize := by
  obtain ⟨hm, hs⟩ | ⟨-, hs⟩ := h.mode
  · exact Decoder.AtStart.free (F := hdrFormat) ⟨hm, h.offset, hs⟩ (show hdrFormat.hdrLen ≤ buffSize by decide)
  · exact .whole h.offset hs

theorem status_of_desk (hd : c'.desk = c.desk) : c'.status = c.status := congrArg Desk.status hd

theorem free_of_desk (hd : c'.desk = c.desk) (h : c.dec.Free buffSize) : c'.dec.Free buffSize := by
  have ho : c'.dec.offset = c.dec.offset := congrArg Desk.offset hd
  have hs : c'.dec.stillneedtoread = c.dec.stillneedtoread := congrArg Desk.still hd
  have hm : c'.dec.cstate = c.dec.cstate := congrArg Desk.cstate hd
  rw [Decoder.Free, Decoder.Room, ho, hs, hm]
  exact h

namespace Server.Tidy

theorem kept (h : s.Tidy pending) (hk : Kept s s') : s'.Tidy pending where
  room hc hs := by
    obtain ⟨c, hc, hd⟩ | hnew := hk.conn hc
    · exact free_of_desk hd (h.room hc (status_of_desk hd ▸ hs))
    · exact hnew.free
  hung hm hc hs := by
    obtain ⟨hm₀, he⟩ := hk.hung hm hc hs
    obtain ⟨c₀, hc₀, hd⟩ := hk.hung_conn hc hs
    obtain ⟨hnone, hp⟩ := h.hung hm₀ hc₀ ((status_of_desk hd).symm.trans hs)
    exact ⟨by_contra fun hne => he hne hnone, hp⟩

/-- A connection changes; it is hung up only if it was. -/
theorem setConn (h : s.Tidy pending) (hc : s.conns p = some c) (hs : c'.status = .hangup → c.status = .hangup)
    (hr : c'.status ≠ .hangup → c'.dec.Free buffSize) : (s.setConn p c').Tidy pending where
  room {q d} hq hd := by
    obtain ⟨rfl, rfl⟩ | ⟨-, hq⟩ := update_some_eq hq
    · exact hr hd
    · exact h.room hq hd
  hung {fd q d} hm hq hd := by
    obtain ⟨rfl, rfl⟩ | ⟨-, hq⟩ := update_some_eq hq
    · exact h.hung hm hc (hs hd)
    · exact h.hung hm hq hd

theorem same (h : s.Tidy pending) (hs : SameDesks s s') : s'.Tidy pending := by
  have hold : ∀ {q d}, s'.conns q = some d → ∃ c, s.conns q = some c ∧ d.desk = c.desk := by
    intro q d hq
    have hmap := hs.conns q
    rw [hq, Option.map_some] at hmap
    obtain ⟨c, hc, hd⟩ := Option.map_eq_some_iff.mp hmap.symm
    exact ⟨c, hc, hd.symm⟩
  refine h.kept ⟨fun hq => .inl (hold hq), fun hm _ _ => ?_⟩
  rw [hs.epoll, ← hs.connMap]
  exact ⟨hm, id⟩

/-- Connection `p`, which is not in the rest of the batch, is hung up. -/
theorem hangUp (h : s.Tidy pending) (hw : s.net.Wf) (hm : s.connMap fd = some p) (hfd : fd ∉ pending)
    (hup : HungUp p s s') : s'.Tidy pending := by
  obtain ⟨c, c', _, _, hc, hc', hd, hnone⟩ := hup.self
  have hold : ∀ {q d}, q ≠ p → s'.conns q = some d → ∃ c, s.conns q = some c ∧ d.desk = c.desk := by
    intro q d hqp hq
    have hmap := hup.others q hqp
    rw [hq, Option.map_some] at hmap
    obtain ⟨c, hc, hd⟩ := Option.map_eq_some_iff.mp hmap.symm
    exact ⟨c, hc, hd.symm⟩
  constructor
  · intro q d hq hs
    by_cases hqp : q = p
    · subst hqp
      obtain rfl : c' = d := Option.mem_unique hc' hq
      exact absurd (congrArg Desk.status hd) hs
    · obtain ⟨c₀, hc₀, hd₀⟩ := hold hqp hq
      exact free_of_desk hd₀ (h.room hc₀ (status_of_desk hd₀ ▸ hs))
  · intro fd' q d hm' hq hs
    rw [hup.connMap] at hm'
    by_cases hqp : q = p
    · subst hqp
      have hsock : c.sockFd = fd := (hw.entry hm (net_conns_of hc)).1
      have hsock' : c.sockFd = fd' := (hw.entry hm' (net_conns_of hc)).1
      rw [← hsock'] at hm' ⊢
      exact ⟨hnone, hsock ▸ hfd⟩
    · obtain ⟨c₀, hc₀, hd₀⟩ := hold hqp hq
      obtain ⟨he, hp⟩ := h.hung hm' hc₀ ((status_of_desk hd₀).symm.trans hs)
      exact ⟨by_contra fun hne => hup.epoll fd' hne he, hp⟩

/-- A message was handled that `p` had just received. -/
theorem keptBut (h : s.Tidy pending) (hc : s.conns p = some c) (ho : c.dec.offset = 0) (hk : KeptBut p s s') :
    s'.Tidy pending := by
  obtain hk | ⟨d, hd, hk⟩ := hk
  · exact h.kept hk
  · obtain rfl : c = d := Option.mem_unique hc hd
    have hset : (s.setConn p c.switchForw).Tidy pending := h.setConn hc id fun _ => .whole ho rfl
    exact hset.kept hk

end Server.Tidy

end Tidy

/-! ### Reading -/

section Reads

variable {s s' : Server} {p : Ptr} {c : Connect} {fd : ℕ} {rest : List ℕ}

/-- Before each read of `p` for an event of `fd`: `p` is in the table and not hung up. -/
structure Legible (fd : ℕ) (p : Ptr) (rest : List ℕ) (s : Server) : Prop where
  tidy : s.Tidy rest
  wf : s.net.Wf
  stays : s.net.Stays fd p
  up : ∀ c, s.conns p = some c → c.status ≠ .hangup

theorem Legible.acts (h : Legible fd p rest s) (hm : Moves s s') (ht : s'.Tidy rest)
    (hu : ∀ c, s'.conns p = some c → c.status ≠ .hangup) : Legible fd p rest s' :=
  ⟨ht, Net.acts_wf (hm h.wf) h.wf, Net.acts_stay (hm h.wf) h.wf h.stays, hu⟩

/-- Before each read of `p` its buffer has room. -/
theorem endpoint_roomy (hfd : fd ∉ rest) :
    Roomy (endpoint p) (fun _ => True) (Legible fd p rest) (fun s => s.Tidy rest) where
  fits := show hdrSize ≤ buffSize by decide
  room {s d} hs hv := by
    obtain ⟨c, hc, rfl⟩ := endpoint_view hv
    exact hs.tidy.room hc (hs.up c hc)
  put {s d₀ d} hs hv hroom hmode n := by
    obtain ⟨c, hc, rfl⟩ := endpoint_view hv
    have hput := endpoint_put hc d n
    have hmoves : Moves s ((endpoint p).put d ((endpoint p).onRead n s)) := by
      refine .of_act fun _ => ?_
      rw [hput, net_setConn]
      exact .read _ _ _ (net_conns_of hc) hmode
    refine ⟨hs.acts hmoves ?_ ?_, by simp [endpoint, hc, Server.setConn]⟩
    · rw [hput]
      exact hs.tidy.setConn hc id fun _ => hroom
    · rw [hput]
      intro c' hc'
      obtain rfl : { c with dec := d } = c' := by simpa [Server.setConn] using hc'
      exact hs.up c hc
  ends hs := hs.tidy
  errno hs e := hs.tidy.same (Passive.tables rfl rfl)
  onMsg {s d chunk} hs ho hv _ := by
    obtain ⟨c, hc, hd⟩ := endpoint_view hv
    have hmode : c.dec.cstate = .header := hd ▸ Decoder.recv_message _ _ _ ho
    have hoff : c.dec.offset = 0 := hd ▸ (Decoder.recv_message_atStart ho).2.1
    refine wlp_mono (wlp_and (onMsg_keptBut p chunk.length s) (onMsg_ends chunk.length hc hmode)) ?_
    rintro r s' ⟨hk, hends⟩
    have htidy := hs.tidy.keptBut hc hoff hk
    refine ⟨fun hr => hs.acts (hends.moves (by simp [hr])) htidy fun c' hc' => ?_, htidy⟩
    obtain hd' | hd' | hnew := hk.cases hc hc'
    · exact status_of_desk hd' ▸ hs.up c hc
    · exact status_of_desk hd' ▸ hs.up c hc
    · exact hnew.status
  onForward {s d} hs hv hmode n := by
    obtain ⟨c, hc, rfl⟩ := endpoint_view hv
    refine wlp_mono (wlp_and (onForward_passesOn p n s) (onForward_ends n hc hmode)) ?_
    rintro r s' ⟨hsame | ⟨hr, hup⟩, hends⟩
    · have htidy := hs.tidy.same hsame
      refine ⟨fun hr => hs.acts (hends.moves (by simp [hr])) htidy fun c' hc' => ?_, htidy⟩
      obtain ⟨c₁, hc₁, hd⟩ := hsame.desk hc
      obtain rfl : c₁ = c' := Option.mem_unique hc₁ hc'
      exact status_of_desk hd ▸ hs.up c hc
    · have hm : s.connMap fd = some p := hs.stays.table _ (net_conns_of hc)
      exact ⟨fun hnone => absurd hnone hr, hs.tidy.hangUp hs.wf hm hfd hup⟩

end Reads

/-! ### Input -/

/-- The reads of an event, but for those of the name server's answers. -/
def Server.readings (s : Server) (e : Event) : List Reading :=
  if e.inn ∧ e.fd ≠ listenFd then
    match s.connMap e.fd with
    | none => []
    | some p => if (s.conns p).any (·.type = .dns) then [] else (endpoint p).readings e.reads (s.load e)
  else []

/-- The body of the loop up to the output part.  True: the loop goes on to it. -/
def inputPart (e : Event) : TmsM Bool := do
  modify (·.load e)
  if e.inn then
    if e.fd = listenFd then
      acceptConn e
      pure true
    else inputEvent e
  else pure true

theorem handleEvent_eq (e : Event) : handleEvent e = (do if ← inputPart e then outputPart e else pure ()) := by
  rw [handleEvent, inputPart]
  split_ifs <;> simp only [bind_assoc, pure_bind, if_true]

section Input

variable {s s' : Server} {p : Ptr} {c : Connect} {fd : ℕ} {rest : List ℕ}

theorem Server.Tidy.weaken (h : s.Tidy (fd :: rest)) : s.Tidy rest :=
  ⟨h.room, fun hm hc hs => (h.hung hm hc hs).imp_right (List.not_mem_of_not_mem_cons)⟩

/-- The connection an event reads can be read. -/
theorem Server.Tidy.legible (h : s.Tidy (fd :: rest)) (hw : s.net.Wf) (hm : s.connMap fd = some p) :
    Legible fd p rest s := by
  obtain ⟨n, hn, -⟩ := hw.table hm
  refine ⟨h.weaken, hw, ⟨hw.fresh hn, fun _ _ => hm⟩, fun c hc hs => ?_⟩
  exact (h.hung hm hc hs).2 List.mem_cons_self

theorem recvEvent_tidy (h : s.Tidy (fd :: rest)) (hw : s.net.Wf) (hfd : fd ∉ rest) (hm : s.connMap fd = some p)
    (reads : List ReadRes) (hb : ∀ c, s.conns p = some c → c.type ≠ .dns →
      ∀ r ∈ (endpoint p).readings reads s, r.Bounded hdrFormat buffSize) :
    wlp (recvEvent p reads) (fun _ s' => s'.Tidy rest) s := by
  simp only [recvEvent, wlp, wpe_bind, wpe_deref, wpe_ite]
  refine ⟨fun _ => trivial, fun c hc => ⟨fun _ => ?_, fun hty => ?_⟩⟩
  · exact wlp_mono (dnsRecvEvent_opening (R := Kept) p reads s) fun _ _ hk => h.weaken.kept hk
  · have hloop := ((endpoint_roomy hfd).loop (h.legible hw hm) (hb c hc hty) fun _ _ => trivial).1
    simp only [streamRecvEvent, wpe_bind, wpe_mapFault]
    exact wlp_mono hloop fun r s₁ h₁ => h₁

theorem handleRecvEvent_tidy (h : s.Tidy (fd :: rest)) (hw : s.net.Wf) (hfd : fd ∉ rest) (reads : List ReadRes)
    (hb : ∀ p c, s.connMap fd = some p → s.conns p = some c → c.type ≠ .dns →
      ∀ r ∈ (endpoint p).readings reads s, r.Bounded hdrFormat buffSize) :
    wlp (handleRecvEvent fd reads) (fun _ s' => s'.Tidy rest) s := by
  simp only [handleRecvEvent, wlp, wpe_bind, wpe_get]
  cases hm : s.connMap fd with
  | none => exact h.weaken
  | some p =>
      simp only [wpe_bind]
      refine wlp_mono (recvEvent_tidy h hw hfd hm reads fun c => hb p c hm) fun ret s₁ h₁ => ?_
      simp only [wpe_ite, wpe_pure, wpe_bind, wpe_deref]
      refine ⟨fun _ => h₁, fun _ => ⟨fun _ => trivial, fun c _ => ⟨fun _ => ?_, fun _ => h₁⟩⟩⟩
      exact wlp_mono (removeConn_closing (R := Kept) _ s₁) fun _ _ hk => h₁.kept hk

theorem inputEvent_tidy {e : Event} (h : s.Tidy (e.fd :: rest)) (hw : s.net.Wf) (hfd : e.fd ∉ rest)
    (hb : ∀ p c, s.connMap e.fd = some p → s.conns p = some c → c.type ≠ .dns →
      ∀ r ∈ (endpoint p).readings e.reads s, r.Bounded hdrFormat buffSize) :
    wlp (inputEvent e) (fun _ s' => s'.Tidy rest) s := by
  simp only [inputEvent, wlp, wpe_bind]
  refine wlp_mono (handleRecvEvent_tidy h hw hfd e.reads hb) fun ret s₁ h₁ => ?_
  have hremove : wlp (removeConn e.fd) (fun _ s' => s'.Tidy rest) s₁ :=
    wlp_mono (removeConn_closing (R := Kept) _ s₁) fun _ _ hk => h₁.kept hk
  simp only [wpe_ite, wpe_bind, wpe_pure, wpe_get]
  refine ⟨fun _ => h₁, fun _ => ⟨fun _ => ?_, fun _ => ⟨fun _ => ⟨fun _ => hremove, fun _ => h₁⟩, fun _ => h₁⟩⟩⟩
  exact wlp_mono (recvFailed_closing (R := Kept) e s₁) fun _ _ hk => h₁.kept hk

/-- A client's connection is new: no object is used again. -/
theorem handleAcceptEvent_tidy (h : s.Tidy rest) (hw : s.net.Wf) (hfd : s.fdFree fd) :
    wlp (handleAcceptEvent fd) (fun _ s' => s'.Tidy rest ∧ ∃ p c, s'.connMap fd = some p ∧
      s'.conns p = some c ∧ c.status ≠ .hangup) s := by
  simp only [handleAcceptEvent, wlp, wpe_bind, wpe_get]
  cases hm : s.connMap fd with
  | some p => exact absurd (hw.entry_open hm) hfd.2.2
  | none =>
      simp only [wpe_bind]
      refine wlp_mono (newConn_kept (fresh_new s.mem fd s.now)) ?_
      rintro p s₁ ⟨hk, hc, hm₁⟩
      exact ⟨h.kept hk, p, _, hm₁, hc, (fresh_new s.mem fd s.now).status⟩

theorem acceptConn_tidy (h : s.Tidy rest) (hw : s.net.Wf) (e : Event) :
    wlp (acceptConn e) (fun _ s' => s'.Tidy rest) s := by
  simp only [acceptConn, wlp, wpe_bind, wpe_get]
  have herr : wlp (setErrno EBADF) (fun _ s' => s'.Tidy rest) s := h.same (Passive.tables rfl rfl)
  rcases e.accept with _ | ⟨fd, ip, port⟩
  · exact herr
  · simp only [wpe_ite, wpe_bind, wpe_set]
    refine ⟨fun hfd => ?_, fun _ => herr⟩
    have hpeer : Server.Tidy { s with peer := Function.update s.peer fd (some (ip, port)) } rest :=
      h.same (Passive.tables rfl rfl)
    refine wlp_mono (handleAcceptEvent_tidy hpeer hw hfd) ?_
    rintro _ s₁ ⟨h₁, p, c, hm, hc, hs⟩
    exact wlp_mono (addEvent_kept hm hc hs _) fun _ _ hk => h₁.kept hk

theorem inputPart_tidy {e : Event} (h : s.Tidy (e.fd :: rest)) (hw : s.net.Wf) (hfd : e.fd ∉ rest)
    (hb : ∀ r ∈ s.readings e, r.Bounded hdrFormat buffSize) :
    wlp (inputPart e) (fun _ s' => s'.Tidy rest ∧ s'.net.Wf) s := by
  have hload : (s.load e).Tidy (e.fd :: rest) := h.same (Passive.tables rfl rfl)
  simp only [inputPart, wlp, wpe_bind, wpe_modify, wpe_ite, wpe_pure]
  refine ⟨fun hinn => ⟨fun _ => ?_, fun hlisten => ?_⟩, fun _ => ⟨hload.weaken, hw⟩⟩
  · refine wlp_mono (wlp_and (acceptConn_tidy hload.weaken hw e) (acceptConn_moves e _)) fun _ s₁ h₁ => ?_
    exact ⟨h₁.1, Net.acts_wf (h₁.2 hw) hw⟩
  · refine wlp_mono (wlp_and (inputEvent_tidy hload hw hfd fun p c hm hc hty => ?_) (inputEvent_runs e _))
      fun _ s₁ h₁ => ⟨h₁.1, bigs_wf (h₁.2 hw) hw⟩
    have hm : s.connMap e.fd = some p := hm
    have hc : s.conns p = some c := hc
    simpa [Server.readings, hinn, hlisten, hm, hc, hty] using hb

end Input

/-! ### Output -/

/-- A send of `n` bytes is not taken in part. -/
def SendRes.Whole (n : ℕ) : SendRes → Prop
  | .sent m => m = 0 ∨ n ≤ m
  | .fail _ => True

instance (n : ℕ) : (r : SendRes) → Decidable (r.Whole n)
  | .sent m => inferInstanceAs (Decidable (m = 0 ∨ n ≤ m))
  | .fail _ => inferInstanceAs (Decidable True)

/-- The agent whose bytes an output event of `fd` sends on. -/
def Server.flushedAgent (s : Server) (fd : ℕ) : Option Connect := do
  let p ← s.connMap fd
  let c ← s.conns p
  if c.type = .tunnel then
    let k ← c.scb
    let a ← (s.scbs k).agentConn
    s.conns a
  else none

/-- If the agent is not hung up, the tunnel takes all bytes of the flush or none. -/
def Server.FlushOk (s : Server) (fd : ℕ) : Prop :=
  ∀ ac ∈ s.flushedAgent fd, ac.status = .hangup ∨ ∀ r ∈ s.sends.head?, r.Whole ac.datalen

instance (s : Server) (fd : ℕ) : Decidable (s.FlushOk fd) :=
  inferInstanceAs (Decidable (∀ ac ∈ s.flushedAgent fd, _ ∨ ∀ r ∈ s.sends.head?, r.Whole ac.datalen))

section Output

variable {s s' : Server} {p a : Ptr} {c ac : Connect} {k : ScbPtr} {fd : ℕ} {rest : List ℕ}

theorem sendRelay_whole (dir : Dir) (t a : Ptr) (fd : ℕ) (bs : List UInt8)
    (hr : ∀ r ∈ s.sends.head?, r.Whole bs.length) :
    wlp (sendRelay dir t a fd bs) (fun r _ => ∀ n, r = some n → n = 0 ∨ n = bs.length) s := by
  simp only [sendRelay, sockSend, setErrno, wlp, wpe_bind, wpe_get, wpe_ite, wpe_modify, wpe_pure]
  refine ⟨fun _ => by simp, fun _ => ⟨fun _ => by simp, fun _ => ?_⟩⟩
  rcases hs : s.sends with _ | ⟨m | e, rest⟩ <;>
    simp only [wpe_bind, wpe_set, wpe_pure, wpe_emit, Option.some.injEq, forall_eq', reduceCtorEq, false_implies,
      implies_true, or_true]
  have hm : m = 0 ∨ bs.length ≤ m := hr (.sent m) (by simp [hs])
  omega

/-- The entry of an agent's descriptor is the agent. -/
theorem entry_of_agent (hw : s.net.Wf) (ha : (s.scbs k).agentConn = some a) (hac : s.conns a = some ac)
    {q : Ptr} (hm : s.connMap ac.sockFd = some q) : q = a := by
  obtain ⟨m, hm', hfd, hl⟩ := hw.table hm
  obtain ⟨n, hn, -, hscb⟩ := hw.agent (k := k) (a := a) ha
  obtain rfl : ac.node = n := Option.mem_unique (net_conns_of hac) hn
  exact hw.inj hm' hn hl (Net.not_lost_of_scb hscb) hfd

theorem addEvent_tidy (h : s.Tidy rest) (m : Mask)
    (hs : ∀ p c, s.connMap fd = some p → s.conns p = some c → c.status ≠ .hangup) :
    wlp (addEvent fd m) (fun _ s' => s'.Tidy rest) s := by
  simp only [addEvent, wlp, wpe_bind, wpe_get]
  cases s.epoll fd with
  | some _ => exact h.same (Passive.tables rfl rfl)
  | none =>
      refine ⟨h.room, fun {fd' q d} hm hq hd => ?_⟩
      have hne : fd' ≠ fd := by
        rintro rfl
        exact hs q d hm hq hd
      exact (h.hung hm hq hd).imp_left (Function.update_of_ne hne _ _).trans

/-- A flush leaves bytes in the buffer only of an agent that stays hung up. -/
theorem flushed_tidy {wrote : ℕ} (h : s.Tidy rest) (hw : s.net.Wf) (ha : (s.scbs k).agentConn = some a)
    (hac : s.conns a = some ac) (hok : ac.status = .hangup ∨ wrote = 0 ∨ wrote = ac.datalen) :
    wlp (flushed a wrote) (fun _ s' => s'.Tidy rest) s := by
  simp only [flushed, wlp, wpe_bind, wpe_deref, wpe_ite, wpe_modConn, wpe_pure, hac, found_iff]
  refine ⟨fun _ => ?_, fun hne => ⟨fun hpos => ?_, fun _ => h⟩⟩
  · generalize hon : { ac with status := .online, dec := { ac.dec with offset := 0, stillneedtoread := buffSize } } = on
    have hst : on.status ≠ .hangup := by simp [← hon]
    have hfree : on.dec.Free buffSize := hon ▸ .whole rfl rfl
    refine addEvent_tidy (h.setConn hac (fun hs => absurd hs hst) fun _ => hfree) _ fun q d hm hq => ?_
    obtain rfl : q = a := entry_of_agent hw ha hac hm
    obtain rfl : on = d := by simpa [Server.setConn] using hq
    exact hst
  · have hhung : ac.status = .hangup := hok.resolve_right (by omega)
    exact h.setConn hac id fun hs => absurd hhung hs

theorem chargeFlush_sameDesks (p : Ptr) (c : Connect) (k : ScbPtr) (wrote : ℕ) :
    Does SameDesks (chargeFlush p c k wrote) :=
  .ite (.seq (nonNull_does _) <| .seq (charge_does _) <|
    .seq (recordTraffic_does _ _ _) <| .ite (.ret (emit_passive _)) (.pure _)) (.pure _)

theorem flush_tidy (h : s.Tidy rest) (hw : s.net.Wf) (hm : s.connMap fd = some p) (hc : s.conns p = some c)
    (hty : c.type = .tunnel) (hok : s.FlushOk fd) : wlp (flush fd p c) (fun _ s' => s'.Tidy rest) s := by
  simp only [flush, wlp, wpe_bind, wpe_nonNull, wpe_getScb, wpe_deref, wpe_ite, wpe_pure]
  refine ⟨fun _ => trivial, fun k hk => ⟨fun _ => trivial, fun a ha => ⟨fun _ => trivial, fun ac hac =>
    ⟨fun _ => h, fun _ => ?_⟩⟩⟩⟩
  have hfl : s.flushedAgent fd = some ac := by simp [Server.flushedAgent, hm, hc, hty, hk, ha, hac]
  generalize hbs : ac.dec.buff.slice ac.dec.offset ac.datalen = bs
  have hlen : bs.length = ac.datalen := by rw [← hbs, Buff.slice_length]
  have hwhole : wlp (sendRelay .down p a fd bs) (fun r _ => ∀ n, r = some n →
      ac.status = .hangup ∨ n = 0 ∨ n = ac.datalen) s := by
    obtain hh | hr := hok ac (by simp [hfl])
    · exact wlp_mono (sendRelay_passive (R := SameDesks) .down p a fd bs s) fun _ _ _ _ _ => .inl hh
    · rw [← hlen] at hr ⊢
      exact wlp_mono (sendRelay_whole .down p a fd bs hr) fun _ _ h n hn => .inr (h n hn)
  refine wlp_mono (wlp_and hwhole (wlp_and (sendRelay_passive (R := SameDesks) .down p a fd bs s)
    (sendRelay_spec s .down p a fd bs))) ?_
  rintro (_ | wrote) s₁ ⟨hn, hsame, hnet⟩
  · exact h.same hsame
  · obtain ⟨ac₁, hac₁, hd⟩ := hsame.desk hac
    have hw₁ : s₁.net.Wf := hnet.1 ▸ hw.emit _
    have ha₁ : (s₁.scbs k).agentConn = some a := by
      have hb : s₁.net.blocks k = s.net.blocks k := by rw [hnet.1]; rfl
      exact (congrArg Block.agent hb).trans ha
    have hdata : ac₁.datalen = ac.datalen := congrArg Desk.datalen hd
    simp only [wpe_bind]
    refine wlp_mono (flushed_tidy (h.same hsame) hw₁ ha₁ hac₁ ?_) fun _ s₂ h₂ => ?_
    · rw [status_of_desk hd, hdata]
      exact hn wrote rfl
    · exact wlp_mono (chargeFlush_sameDesks p c k wrote s₂) fun _ _ h₃ => h₂.same h₃

theorem newForwardId_sameDesks : Does SameDesks newForwardId := fun _ => ⟨fun _ => rfl, rfl, rfl⟩

theorem modScb_sameDesks (k : ScbPtr) (f : SCB → SCB) : Does SameDesks (modScb k f) :=
  fun _ => ⟨fun _ => rfl, rfl, rfl⟩

theorem agentReady_tidy {t : Ptr} (h : s.Tidy rest) (hc : s.conns p = some c) (hs : c.status ≠ .hangup) :
    wlp (agentReady p k t) (fun _ s' => s'.Tidy rest) s := by
  have hstatus : Does SameDesks (modConn t fun c => { c with agentStatus := true }) := modConn_passive fun _ => rfl
  rw [agentReady]
  refine wlp_bind (hstatus s) fun _ s₁ h₁ => ?_
  refine wlp_bind (newForwardId_sameDesks s₁) fun id s₂ h₂ => ?_
  refine wlp_bind (modScb_sameDesks k _ s₂) fun _ s₃ h₃ => ?_
  have hsame := trans_of SameDesks h₁ (trans_of SameDesks h₂ h₃)
  have h := h.same hsame
  obtain ⟨c₃, hc₃, hd⟩ := hsame.desk hc
  rw [wpe_bind, wpe_getScb, wpe_ite]
  refine ⟨fun _ => ?_, fun _ => ?_⟩
  · rw [wpe_bind, wpe_modConn, found hc₃]
    have hroom := h.room hc₃ (status_of_desk hd ▸ hs)
    -- the number of `forward` is that of `sta_inprogress`
    have hnum : SockStat.ofNum (transStatNum .forward) ≠ .hangup := by decide
    have hset : (s₃.setConn p { c₃ with status := SockStat.ofNum (transStatNum .forward) }).Tidy rest :=
      h.setConn hc₃ (fun hup => absurd hup hnum) fun _ => hroom
    have hlater : Does SameDesks (do
        let c ← deref p
        let v ← derefUser (← nonNull c.user)
        let _ ← sendTmsMsg t (LoginRsp.bytes ⟨RespCode.ready.toNat, v.balance, id⟩) : TmsM Unit) :=
      .seq (deref_does p) <| .seq (nonNull_does _) <| .seq (derefUser_does _) <|
        .ret (sendTmsMsg_does t _)
    exact wlp_mono (hlater _) fun _ _ h' => hset.same h'
  · exact wlp_bind (sendTmsMsg_does (R := SameDesks) t _ s₃) fun _ _ h' => h.same h'

theorem modifyEvent_kept (fd : ℕ) (m : Mask) : Does Kept (modifyEvent fd m) := by
  intro s
  simp only [modifyEvent, wlp, wpe_bind, wpe_get]
  cases he : s.epoll fd with
  | none => exact Passive.tables rfl rfl
  | some m' =>
      refine .of_le id id fun fd' hne => ?_
      by_cases hfd : fd' = fd
      · rw [hfd, he]
        exact Option.some_ne_none m'
      · have hold : Function.update s.epoll fd (some m) fd' = s.epoll fd' := Function.update_of_ne hfd _ _
        exact hold ▸ hne

theorem establish_tidy (h : s.Tidy rest) (hc : s.conns p = some c) (hs : c.status = .inprogress) :
    wlp (establish fd p c) (fun _ s' => s'.Tidy rest) s := by
  have hroom := h.room hc (by simp [hs])
  rw [establish, wlp, wpe_bind, wpe_modConn, found hc]
  have hset : (s.setConn p { c with status := .online, agentStatus := true }).Tidy rest :=
    h.setConn hc (fun hup => absurd hup (by simp)) fun _ => hroom
  rw [wpe_bind, wpe_get]
  split
  · refine wlp_bind (agentReady_tidy hset (Function.update_self ..) (by simp)) fun _ s₁ h₁ => ?_
    exact wlp_bind (modifyEvent_kept fd _ s₁) fun _ _ hk => h₁.kept hk
  · exact wlp_bind (mapErase_closing (R := Kept) fd _) fun _ _ hk => hset.kept hk

theorem handleEPOEvent_tidy (h : s.Tidy rest) (hw : s.net.Wf) (hok : s.FlushOk fd) :
    wlp (handleEPOEvent fd) (fun _ s' => s'.Tidy rest) s := by
  simp only [handleEPOEvent, wlp, wpe_bind, wpe_get]
  cases hm : s.connMap fd with
  | none => exact h
  | some p =>
      simp only [wpe_bind, wpe_deref, wpe_ite, wpe_pure]
      refine ⟨fun _ => trivial, fun c hc => ⟨fun hs => establish_tidy h hc hs, fun _ => ⟨fun _ => h, fun _ =>
        ⟨fun _ => h, fun hty => ?_⟩⟩⟩⟩
      exact flush_tidy h hw hm hc (not_not.mp hty) hok

theorem outputPart_tidy {e : Event} (h : s.Tidy rest) (hw : s.net.Wf) (hok : e.out → s.FlushOk e.fd) :
    wlp (outputPart e) (fun _ s' => s'.Tidy rest) s := by
  have hfetch : wlp (fetchError e) (fun _ s' => (s'.FlushOk e.fd ↔ s.FlushOk e.fd) ∧ SameDesks s s' ∧
      s'.net = s.net) s := by
    refine wlp_and ?_ (wlp_and (fetchError_of (fun _ _ _ => ⟨fun _ => rfl, rfl, rfl⟩) e s) (fetchError_same e s))
    simp only [fetchError, setErrno, wlp, wpe_bind, wpe_get, wpe_ite, wpe_set, wpe_modify]
    exact ⟨fun _ => Iff.rfl, fun _ => Iff.rfl⟩
  simp only [outputPart, outputEvent, wlp, wpe_ite, wpe_bind, wpe_pure]
  refine ⟨fun hout => wlp_mono hfetch ?_, fun _ => h⟩
  rintro _ s₁ ⟨hiff, hsame, hnet⟩
  have h₁ := h.same hsame
  simp only [wpe_get]
  refine ⟨fun _ => ?_, fun _ => h₁⟩
  refine wlp_mono (handleEPOEvent_tidy h₁ (hnet ▸ hw) (hiff.mpr (hok hout))) fun ret s₂ h₂ => ⟨fun _ => ?_, fun _ => h₂⟩
  simp only [shutdownFd, setErrno, wpe_bind, wpe_get, wpe_ite, wpe_set, wpe_modify]
  exact ⟨fun _ => h₂.same ⟨fun _ => rfl, rfl, rfl⟩, fun _ => h₂.same (Passive.tables rfl rfl)⟩

end Output

/-! ### Runs -/

/-- The event keeps the receive buffers in bounds. -/
structure Server.Fits (s : Server) (e : Event) : Prop where
  /-- No header that is read announces more than the buffer holds. -/
  announced : ∀ r ∈ s.readings e, r.Bounded hdrFormat buffSize
  /-- No flush for an agent that is not hung up is taken in part. -/
  flush : ∀ s₁, inputPart e s = .ok (true, s₁) → e.out → s₁.FlushOk e.fd

/-- The states of the loop whose events all meet `P`. -/
inductive ReachableBy (P : Server → Event → Prop) (s₀ : Server) : Server → List Event → Prop
  | start : ReachableBy P s₀ s₀ []
  | wait {s : Server} (batch : List Event) (h : ReachableBy P s₀ s []) (hr : ∀ e ∈ batch, s.Reports e)
      (hd : (batch.map (·.fd)).Nodup) : ReachableBy P s₀ s batch
  | event {s s' : Server} {e : Event} {rest : List Event} (h : ReachableBy P s₀ s (e :: rest)) (hP : P s e)
      (he : handleEvent e s = .ok ((), s')) : ReachableBy P s₀ s' rest

section Runs

variable {s s₀ : Server} {e : Event} {pending rest : List Event} {P : Server → Event → Prop} {accurate : Bool}
  {errno err : ℕ} {mem : Buff}

theorem ReachableBy.reachable (h : ReachableBy P s₀ s pending) : Reachable s₀ s pending := by
  induction h with
  | start => exact .start
  | wait batch _ hr hd ih => exact .wait batch ih hr hd
  | event _ _ he ih => exact .event ih he

theorem ReachableBy.nodup (h : ReachableBy P s₀ s pending) : (pending.map (·.fd)).Nodup := by
  induction h with
  | start => exact List.nodup_nil
  | wait _ _ _ hd _ => exact hd
  | event _ _ _ ih => exact (List.nodup_cons.mp ih).2

theorem handleEvent_tidy {rest : List ℕ} (h : s.Tidy (e.fd :: rest)) (hw : s.net.Wf) (hfd : e.fd ∉ rest)
    (hfits : s.Fits e) : wlp (handleEvent e) (fun _ s' => s'.Tidy rest) s := by
  rw [handleEvent_eq]
  refine wlp_bind (wlp_and (inputPart_tidy h hw hfd hfits.announced) ((wlp_iff _ _ _).mpr fun b s₁ hrun => hrun)) ?_
  rintro b s₁ ⟨⟨h₁, hw₁⟩, hrun⟩
  rw [wpe_ite]
  refine ⟨fun hb => outputPart_tidy h₁ hw₁ (hfits.flush s₁ (hb ▸ hrun)), fun _ => h₁⟩

theorem init_tidy : (Server.init accurate errno err mem).Tidy [] := by
  have hup : ∀ p c, (Server.init accurate errno err mem).conns p = some c →
      c.status ≠ .hangup ∧ c.dec.Free buffSize := by
    intro p c hc
    have hsize : hdrFormat.hdrLen ≤ buffSize := show hdrSize ≤ buffSize by decide
    rcases p with _ | _ | _ | p <;> simp only [Server.init, Option.some.injEq, reduceCtorEq] at hc <;> subst hc
    · exact ⟨by simp [serviceConnect], .whole rfl rfl⟩
    · exact ⟨by simp [serviceConnect], Decoder.AtStart.free ⟨rfl, rfl, rfl⟩ hsize⟩
    · exact ⟨by simp [serviceConnect], Decoder.AtStart.free ⟨rfl, rfl, rfl⟩ hsize⟩
  exact ⟨fun hc _ => (hup _ _ hc).2, fun _ hc hs => absurd hs (hup _ _ hc).1⟩

theorem ReachableBy.tidy (h : ReachableBy Server.Fits (Server.init accurate errno err mem) s pending) :
    s.Tidy (pending.map (·.fd)) := by
  induction h with
  | start => exact init_tidy
  | @wait s batch _ hr _ ih =>
      refine ⟨ih.room, fun hm hc hs => ⟨(ih.hung hm hc hs).1, fun hmem => ?_⟩⟩
      obtain ⟨e, he, rfl⟩ := List.mem_map.mp hmem
      obtain ⟨m, hreg, -⟩ := hr e he
      exact Option.some_ne_none m (hreg.symm.trans (ih.hung hm hc hs).1)
  | @event s s' e rest hreach hP he ih =>
      have hfd := (List.nodup_cons.mp hreach.nodup).1
      exact (wlp_iff _ _ _).mp (handleEvent_tidy ih hreach.reachable.wf hfd hP) () s' he

/-- Before an event that the loop reads for, the buffer is free. -/
theorem ReachableBy.legible (h : ReachableBy Server.Fits (Server.init accurate errno err mem) s (e :: rest)) {p : Ptr}
    (hm : s.connMap e.fd = some p) : Legible e.fd p (rest.map (·.fd)) (s.load e) := by
  have hload : (s.load e).Tidy (e.fd :: rest.map (·.fd)) := h.tidy.same (Passive.tables rfl rfl)
  exact hload.legible h.reachable.wf hm

/-- As long as no header has announced more than the buffer holds and no flush for an agent that is not
hung up was taken in part, a read has room exactly if no header announces too much now. -/
theorem ReachableBy.room_iff
    (h : ReachableBy Server.Fits (Server.init accurate errno err mem) s (e :: rest)) :
    (∀ r ∈ s.readings e, r.dec.Room buffSize) ↔ ∀ r ∈ s.readings e, r.Bounded hdrFormat buffSize := by
  have hfd := (List.nodup_cons.mp h.nodup).1
  rw [Server.readings]
  split_ifs
  · cases hm : s.connMap e.fd with
    | none => simp
    | some p =>
        dsimp only
        split_ifs
        · simp
        · exact (endpoint_roomy hfd).room_iff (fun hv d n => (endpoint_lawful p).view_put d hv) (h.legible hm)
            fun _ _ => trivial
  · simp

end Runs

end HttpsTunnel.Tms

import HttpsTunnel.Sdk.Proxy
import HttpsTunnel.Lib.Session
import HttpsTunnel.Lib.Relay

/-! # Relaying what the TMS sends to the browser

A tunnel in forward mode is read in `StreamRecvEvent`, and what the browser does not take stays in
the tunnel's buffer: `r_offset`, `r_data_len` and the status `sta_hangup` say where.
`HandleEPOEvent` on the browser sends the rest later.  A run is any sequence of these two
(`Download`), with any results of the reads and of the writes.

The two handlers are a `Lib.Relay`: `HandleEPOEvent` looks at the status of the tunnel, so that bytes
that have gone are not sent again. -/

namespace HttpsTunnel.Sdk

open HttpsTunnel.Lib HttpsTunnel.Wire

/-! ### What is relayed -/

/-- The bytes read from `p`. -/
def Obs.readOf (p : Ptr) : Obs → List UInt8
  | recv q bs => if q = p then bs else []
  | _ => []

/-- The bytes accepted by the socket of `p`. -/
def Obs.acceptedBy (p : Ptr) : Obs → List UInt8
  | raw q _ bs => if q = p then bs else []
  | frame q body n => if q = p then (Wire.frame body).take n else []
  | _ => []

/-- The bytes received from `p` so far. -/
def State.received (s : State) (p : Ptr) : List UInt8 := s.log.flatMap (Obs.readOf p)

/-- The bytes the socket of `p` has accepted so far. -/
def State.accepted (s : State) (p : Ptr) : List UInt8 := s.log.flatMap (Obs.acceptedBy p)

@[simp] theorem State.received_emit (s : State) (o : Obs) (p : Ptr) :
    (s.emit o).received p = s.received p ++ o.readOf p := by
  simp [received, emit]

@[simp] theorem State.accepted_emit (s : State) (o : Obs) (p : Ptr) :
    (s.emit o).accepted p = s.accepted p ++ o.acceptedBy p := by
  simp [accepted, emit]

/-- The bytes a tunnel still has to deliver. -/
def Connect.pending (c : Connect) : List UInt8 :=
  if c.status = .hangup then c.dec.buff.slice c.dec.offset c.rDataLen else []

/-- The buffer as `SwitchConnModeForw` leaves it. -/
def Connect.Forwards (c : Connect) : Prop :=
  c.dec.cstate = .forward ∧ c.dec.stillneedtoread = buffSize ∧ c.dec.offset = 0

/-- A tunnel and its browser. -/
structure Link where
  tunnel : Ptr
  browser : Ptr
  tunnelFd : ℕ
  browserFd : ℕ

namespace Link

variable (L : Link)

/-- The two connections: `c` are the fields of the tunnel, `d` those of the browser's. -/
structure Joins (s : State) (c d : Connect) : Prop where
  tunnel : s.conns L.tunnel = some c
  tunnel_fd : c.sockFd = L.tunnelFd
  tunnel_fd_ne : L.tunnelFd ≠ 0
  tunnel_type : c.type ≠ .proxy
  tunnel_peer : c.peer = some L.browser
  forward : c.dec.cstate = .forward
  browser : s.conns L.browser = some d
  browser_type : d.type = .proxy
  browser_peer : d.peer = some L.tunnel
  browser_fd : d.sockFd = L.browserFd
  tunnel_entry : s.connMap L.tunnelFd = some (some L.tunnel)
  browser_entry : s.connMap L.browserFd = some (some L.browser)

/-- A tunnel that hangs up is not registered, and its pending bytes are in the buffer; otherwise the
whole buffer is free. -/
structure Buffers (s : State) (c : Connect) : Prop where
  need : c.dec.stillneedtoread = buffSize
  hung : c.status = .hangup → s.epoll L.tunnelFd = none ∧ c.dec.offset + c.rDataLen ≤ buffSize
  free : c.status ≠ .hangup → c.dec.offset = 0

/-- After `X` was received and `Y` accepted, the two are in the state `r`. -/
structure Shows (X Y : List UInt8) (s : State) (r : Relay UInt8) : Prop where
  joins : ∃ c d, L.Joins s c d ∧ L.Buffers s c ∧ c.pending = r.pending
  read : s.received L.tunnel = X ++ r.read
  sent : s.accepted L.browser = Y ++ r.sent

/-- The tunnel can be read: it is registered, and nothing is pending. -/
structure Reads (X Y : List UInt8) (s : State) : Prop where
  joins : ∃ c d, L.Joins s c d ∧ c.Forwards ∧ c.status ≠ .hangup
  registered : ∃ m, s.epoll L.tunnelFd = some m
  all : ∃ bs, s.received L.tunnel = X ++ bs ∧ s.accepted L.browser = Y ++ bs

end Link

/-! ### Runs -/

/-- What can happen: the tunnel is read, or the browser can be written. -/
inductive Download where
  | reads (rs : List ReadRes)
  | writable

def Download.event (L : Link) : Download → Event
  | reads rs => .readable L.tunnelFd rs
  | writable => .writable L.browserFd

def Download.run (L : Link) (e : Download) : SdkM Unit := (e.event L).run

/-- The condition on a step: no read event is delivered for a tunnel that is not registered. -/
def Download.Fair (L : Link) (s : State) : Download → Prop
  | reads _ => (s.epoll L.tunnelFd).any (·.inn)
  | writable => True

instance (L : Link) (s : State) : ∀ e : Download, Decidable (e.Fair L s)
  | .reads _ => inferInstanceAs (Decidable (_ = true))
  | .writable => .isTrue trivial

/-! ### Writing to the browser -/

section Frames

variable {L : Link} {X Y bs : List UInt8} {s s' : State} {c d : Connect} {r : Relay UInt8}

theorem Link.Joins.ne (h : L.Joins s c d) : L.browser ≠ L.tunnel := by
  intro he
  have hcd : c = d := Option.mem_unique h.tunnel (he ▸ h.browser)
  exact h.tunnel_type (hcd ▸ h.browser_type)

/-- Other fields of the state. -/
theorem Link.Joins.of_eq (h : L.Joins s c d) (hc : s'.conns = s.conns) (hm : s'.connMap = s.connMap) :
    L.Joins s' c d :=
  { h with
    tunnel := hc ▸ h.tunnel
    browser := hc ▸ h.browser
    tunnel_entry := hm ▸ h.tunnel_entry
    browser_entry := hm ▸ h.browser_entry }

/-- New fields of the tunnel. -/
theorem Link.Joins.setTunnel (h : L.Joins s c d) (c' : Connect) (hfd : c'.sockFd = c.sockFd)
    (hty : c'.type = c.type) (hp : c'.peer = c.peer) (hm : c'.dec.cstate = c.dec.cstate) :
    L.Joins (s.setConn L.tunnel c') c' d :=
  { h with
    tunnel := by simp [State.setConn]
    tunnel_fd := hfd.trans h.tunnel_fd
    tunnel_type := hty ▸ h.tunnel_type
    tunnel_peer := hp.trans h.tunnel_peer
    forward := hm.trans h.forward
    browser := by simpa [State.setConn, h.ne] using h.browser }

/-- The first `n` bytes of `bs` were written to the browser, and nothing else has changed. -/
structure Link.Wrote (L : Link) (bs : List UInt8) (n : ℕ) (s s' : State) : Prop where
  le : n ≤ bs.length
  conns : s'.conns = s.conns
  connMap : s'.connMap = s.connMap
  epoll : s'.epoll = s.epoll
  received : s'.received L.tunnel = s.received L.tunnel
  accepted : s'.accepted L.browser = s.accepted L.browser ++ bs.take n

/-- A failed write is one of no bytes. -/
theorem sendRaw_wrote (hj : L.Joins s c d) (src : Option Ptr) (bs : List UInt8) :
    wp (sendRaw L.browser src bs) (fun w s' => L.Wrote bs (w.getD 0) s s') s := by
  have hraw : ∀ n, n ≤ bs.length → ∀ writes, L.Wrote bs n s
      (({ s with writes := writes } : State).emit (.raw L.browser src (bs.take n))) :=
    fun n hn writes => ⟨hn, rfl, rfl, rfl, by simp [Obs.readOf, State.received, State.emit],
      by simp [Obs.acceptedBy, State.accepted, State.emit]⟩
  simp only [sendRaw, sockWrite, wp, wpe_bind, wpe_deref, hj.browser, wpe_get, found_iff]
  cases hw : s.writes with
  | nil =>
      have hs : ({ s with writes := [] } : State) = s := by rw [← hw]
      simp only [wpe_bind, wpe_pure, wpe_emit]
      exact hs ▸ hraw bs.length le_rfl []
  | cons w rest =>
      cases w with
      | wrote n =>
          simp only [wpe_bind, wpe_pure, wpe_set, wpe_emit]
          exact hraw (min n bs.length) (Nat.min_le_right _ _) rest
      | fail e =>
          simp only [wpe_bind, wpe_pure, wpe_set]
          exact ⟨Nat.zero_le _, rfl, rfl, rfl, rfl, by simp [State.accepted]⟩

end Frames

/-! ### Reading the tunnel -/

section Read

variable {L : Link} {X Y ys bs : List UInt8} {s : State} {c d : Connect}

/-- After a chunk: the read loop goes on, or it ends. -/
def Link.GoesOn (L : Link) (X Y : List UInt8) (code : Option ℤ) (s : State) : Prop :=
  match code with
  | some _ => ∃ r, L.Shows X Y s r
  | none => L.Reads X Y s

/-- The rest of a chunk stays pending. -/
theorem hangUp_shows {n : ℕ} {m : Mask} (hj : L.Joins s c d) (hneed : c.dec.stillneedtoread = buffSize)
    (hb : c.dec.buff.slice 0 bs.length = bs) (hn : n ≤ bs.length) (hlen : bs.length ≤ buffSize)
    (hm : s.epoll L.tunnelFd = some m) (hread : s.received L.tunnel = X ++ (ys ++ bs))
    (hsent : s.accepted L.browser = Y ++ (ys ++ bs.take n)) :
    wp (hangUp L.tunnel n bs.length) (L.GoesOn X Y) s := by
  have hj' := hj.setTunnel { c with
    rDataLen := bs.length - n
    status := .hangup
    dec := { c.dec with offset := n } } rfl rfl rfl rfl
  generalize hc' : ({ c with
    rDataLen := bs.length - n
    status := .hangup
    dec := { c.dec with offset := n } } : Connect) = c' at hj'
  have he : (s.setConn L.tunnel c').epoll L.tunnelFd = some m := hm
  simp only [hangUp, removeEvent, wp, wpe_bind, wpe_modConn, wpe_deref, wpe_get, hj.tunnel, hc', hj'.tunnel,
    hj'.tunnel_fd, hj.tunnel_fd_ne, he, if_false, wpe_modify, wpe_pure, ne_eq, not_true_eq_false, found_iff]
  refine ⟨(⟨ys, ys, [], by simp⟩ : Relay UInt8).chunk rfl bs n, ⟨c', d, hj'.of_eq rfl rfl, ?_, ?_⟩, hread, hsent⟩
  · subst hc'
    refine ⟨hneed, fun _ => ⟨by simp, ?_⟩, fun h => absurd rfl h⟩
    simp only
    omega
  · subst hc'
    have hd := Buff.drop_slice c.dec.buff 0 bs.length n
    rw [hb, Nat.zero_add] at hd
    simpa [Connect.pending, Relay.chunk] using hd.symm

/-- The forward branch on a chunk in the buffer. -/
theorem onForward_goesOn {m : Mask} (hj : L.Joins s c d) (hf : c.Forwards) (hs : c.status ≠ .hangup)
    (hb : c.dec.buff.slice 0 bs.length = bs) (hlen : bs.length ≤ buffSize)
    (hm : s.epoll L.tunnelFd = some m) (hread : s.received L.tunnel = X ++ ys)
    (hsent : s.accepted L.browser = Y ++ ys) :
    wp (onForward L.tunnel bs.length) (L.GoesOn X Y) s := by
  simp only [onForward, wp, wpe_bind, wpe_deref, wpe_emit, hj.tunnel, hb, hj.tunnel_peer, found_iff]
  have hj₁ : L.Joins (s.emit (.recv L.tunnel bs)) c d := hj.of_eq rfl rfl
  refine wp_mono (sendRaw_wrote hj₁ (some L.tunnel) bs) ?_
  intro w s₂ hw
  have hj₂ : L.Joins s₂ c d := hj₁.of_eq hw.conns hw.connMap
  have hm₂ : s₂.epoll L.tunnelFd = some m := hw.epoll ▸ hm
  have hread₂ : s₂.received L.tunnel = X ++ (ys ++ bs) := by
    rw [hw.received, State.received_emit, hread, Obs.readOf, if_pos rfl, List.append_assoc]
  have hsent₂ : s₂.accepted L.browser = Y ++ (ys ++ bs.take (w.getD 0)) := by
    simp [hw.accepted, hsent, Obs.acceptedBy]
  have hhang := hangUp_shows hj₂ hf.2.1 hb hw.le hlen hm₂ hread₂ hsent₂
  cases w with
  | none => exact hhang
  | some n =>
      rw [wpe_ite]
      refine ⟨fun _ => hhang, fun hn => ?_⟩
      obtain ⟨hn, -⟩ := not_or.mp hn
      obtain rfl : n = bs.length := not_not.mp hn
      rw [Option.getD_some, List.take_length] at hsent₂
      exact ⟨⟨c, d, hj₂, hf, hs⟩, ⟨m, hm₂⟩, ys ++ bs, hread₂, hsent₂⟩

theorem Link.Reads.shows (h : L.Reads X Y s) : ∃ r, L.Shows X Y s r := by
  obtain ⟨⟨c, d, hj, hf, hs⟩, -, bs, hread, hsent⟩ := h
  refine ⟨⟨bs, bs, [], by simp⟩, ⟨c, d, hj, ⟨hf.2.1, fun h => absurd h hs, fun _ => hf.2.2⟩, ?_⟩, hread, hsent⟩
  rw [Connect.pending, if_neg hs]

/-- The read loop of the tunnel. -/
theorem recvLoop_shows (rs : List ReadRes) (h : L.Reads X Y s) :
    wp (recvLoop (endpoint L.tunnel) rs) (fun _ s' => ∃ r, L.Shows X Y s' r) s := by
  have hview : ∀ {s : State}, L.Reads X Y s → ∃ c d, L.Joins s c d ∧ c.Forwards ∧ c.status ≠ .hangup ∧
      (endpoint L.tunnel).view s = some c.dec := by
    rintro s ⟨⟨c, d, hj, hf, hs⟩, -⟩
    exact ⟨c, d, hj, hf, hs, by simp [endpoint, hj.tunnel]⟩
  have hsome : ∀ {s : State} {dec : Decoder}, L.Reads X Y s → (endpoint L.tunnel).view s = some dec →
      dec.stillneedtoread = buffSize ∧ dec.offset = 0 := by
    intro s dec h hv
    obtain ⟨c, d, -, hf, -, hv'⟩ := hview h
    cases hv'.symm.trans hv
    exact hf.2
  refine recvLoop_rule (I := fun _ _ _ s => L.Reads X Y s) ?_ h
  constructor
  case freed =>
    intro calls got rs s h hv
    obtain ⟨c, d, -, -, -, hv'⟩ := hview h
    rw [hv'] at hv
    cases hv
  case fails =>
    rintro calls got rs s dec h - - e
    obtain ⟨⟨c, d, hj, hf, hs⟩, hm, hall⟩ := h
    exact Link.Reads.shows ⟨⟨c, d, hj.of_eq rfl rfl, hf, hs⟩, hm, hall⟩
  case empty => exact fun h _ _ => h.shows
  case eof => exact fun h _ => h.shows
  case overflow =>
    intro calls got bs rs s dec h hv ho
    obtain ⟨hneed, hoff⟩ := hsome h hv
    rw [hoff, hneed, List.length_take] at ho
    have hsize : (endpoint L.tunnel).size = buffSize := rfl
    omega
  case read =>
    intro calls got bs rs s dec h hv hne h0 ho
    obtain ⟨c, d, hj, hf, hs, hv'⟩ := hview h
    obtain rfl : c.dec = dec := Option.mem_unique hv' hv
    obtain ⟨-, ⟨m, hm⟩, ys, hread, hsent⟩ := h
    generalize bs.take c.dec.stillneedtoread = chunk at ho ⊢
    rw [hf.2.2, Nat.zero_add] at ho
    simp only [Received, Decoder.recv_forward hf.1 hf.2.2]
    rw [put_onRead hj.tunnel]
    have hj' := (hj.setTunnel (c.stored (trafficEst s.accurate chunk.length)
      { c.dec with buff := c.dec.buff.store 0 chunk }) rfl rfl rfl rfl)
    refine wpe_mono (onForward_goesOn (hj'.of_eq rfl rfl) hf hs
      (Buff.slice_store_same c.dec.buff 0 chunk) ho hm hread hsent) ?_ fun _ => id
    intro code s' hgo
    cases code with
    | some code => exact hgo
    | none => exact hgo

end Read

/-! ### Writing the browser -/

section Write

variable {L : Link} {X Y : List UInt8} {s : State} {r : Relay UInt8}

/-- A registration: of the tunnel only if it does not hang up. -/
theorem addEvent_shows (fd : ℕ) (m : Mask) (h : L.Shows X Y s r)
    (hfd : fd = L.tunnelFd → ∀ c ∈ s.conns L.tunnel, c.status ≠ .hangup) :
    wp (addEvent fd m) (fun _ s' => L.Shows X Y s' r) s := by
  obtain ⟨⟨c, d, hj, hb, hp⟩, hread, hsent⟩ := h
  simp only [addEvent, setErrno, wp, wpe_ite, wpe_bind, wpe_get, wpe_pure]
  refine ⟨fun _ => ⟨⟨c, d, hj, hb, hp⟩, hread, hsent⟩, fun _ => ?_⟩
  split
  · simp only [wpe_bind, wpe_modify, wpe_pure]
    exact ⟨⟨c, d, hj.of_eq rfl rfl, ⟨hb.need, hb.hung, hb.free⟩, hp⟩, hread, hsent⟩
  · simp only [wpe_bind, wpe_modify, wpe_pure]
    refine ⟨⟨c, d, hj.of_eq rfl rfl, ⟨hb.need, fun hs => ⟨?_, (hb.hung hs).2⟩, hb.free⟩, hp⟩, hread, hsent⟩
    have hne : L.tunnelFd ≠ fd := fun he => hfd he.symm c hj.tunnel hs
    simpa [hne] using (hb.hung hs).1

theorem Link.Joins.fd_ne {c d : Connect} (h : L.Joins s c d) : L.browserFd ≠ L.tunnelFd := by
  intro he
  have ht := h.tunnel_entry
  rw [← he, h.browser_entry] at ht
  exact h.ne (by simpa using ht)

/-- The fields of the tunnel after a flush that wrote `n` bytes. -/
theorem flushed_shows {c d : Connect} {w : Option ℕ} (hj : L.Joins s c d) (hb : L.Buffers s c)
    (hp : c.pending = r.pending) (hread : s.received L.tunnel = X ++ r.read)
    (hsent : s.accepted L.browser = Y ++ (r.sent ++ r.pending.take (w.getD 0)))
    (hs : c.status = .hangup) (hn : w.getD 0 ≤ c.rDataLen) :
    wp (flushed L.browser L.tunnel w) (fun _ s' => ∃ r', L.Shows X Y s' r') s := by
  have hdrop : ∀ n, r.pending.drop n = c.dec.buff.slice (c.dec.offset + n) (c.rDataLen - n) := by
    intro n
    rw [← hp, Connect.pending, if_pos hs, Buff.drop_slice]
  have hwait : w.getD 0 = 0 → wp (addEvent d.sockFd ⟨false, true, false⟩) (fun _ s' => ∃ r', L.Shows X Y s' r') s := by
    intro h0
    rw [h0, List.take_zero, List.append_nil] at hsent
    refine wp_mono (addEvent_shows (r := r) d.sockFd _ ⟨⟨c, d, hj, hb, hp⟩, hread, hsent⟩ ?_) fun _ _ h => ⟨r, h⟩
    exact fun he => absurd (hj.browser_fd.symm.trans he) hj.fd_ne
  simp only [flushed, wp, wpe_bind, wpe_deref, hj.tunnel, hj.browser, found_iff]
  cases w with
  | none => exact (wpe_bind _ _ _ _ _).mpr (hwait rfl)
  | some n =>
      rw [Option.getD_some] at hsent hn
      simp only [wpe_ite, wpe_bind, wpe_modConn, hj.tunnel, wpe_pure, found_iff]
      refine ⟨fun he => ?_, fun he => ⟨fun h0 => ?_, fun h0 => hwait (Nat.eq_zero_of_not_pos h0)⟩⟩
      · -- all of it has gone: the tunnel is read again
        have hj' := hj.setTunnel { c with
          status := .online
          dec := { c.dec with offset := 0, stillneedtoread := buffSize } } rfl rfl rfl rfl
        refine wp_mono (addEvent_shows (r := r.flush n) c.sockFd _ ⟨⟨_, d, hj',
          ⟨rfl, fun h => SockStat.noConfusion h, fun _ => rfl⟩, ?_⟩, hread, hsent⟩ ?_) fun _ _ h => ⟨_, h⟩
        · rw [Connect.pending, if_neg SockStat.noConfusion]
          exact ((hdrop n).trans (by rw [he, Nat.sub_self, Buff.slice_zero])).symm
        · simp
      · have hj' := hj.setTunnel { c with
          rDataLen := c.rDataLen - n
          dec := { c.dec with offset := c.dec.offset + n } } rfl rfl rfl rfl
        have hroom := (hb.hung hs).2
        refine ⟨r.flush n, ⟨_, d, hj', ⟨hb.need, fun _ => ⟨(hb.hung hs).1, ?_⟩, fun h => absurd hs h⟩, ?_⟩,
          hread, hsent⟩
        · simp only
          omega
        · rw [Connect.pending, if_pos hs]
          exact (hdrop n).symm

/-- The browser can be written. -/
theorem handleEPOEvent_shows (h : L.Shows X Y s r) :
    wp (handleEPOEvent L.browserFd) (fun _ s' => ∃ r', L.Shows X Y s' r') s := by
  obtain ⟨⟨c, d, hj, hb, hp⟩, hread, hsent⟩ := id h
  simp only [handleEPOEvent, flush, wp, wpe_bind, wpe_get, hj.browser_entry, wpe_deref, hj.browser, hj.browser_peer,
    hj.browser_type, hj.tunnel, wpe_ite, wpe_pure, and_true, found_iff]
  refine ⟨fun hs => ⟨fun _ => ⟨r, h⟩, fun _ => ⟨fun hroom => ?_, fun _ => ?_⟩⟩, fun _ => ⟨r, h⟩⟩
  · exact absurd (hb.hung hs).2 (not_le.mpr hroom)
  · refine wp_mono (sendRaw_wrote hj (some L.tunnel) _) ?_
    intro w s₁ hw
    have hpend : c.dec.buff.slice c.dec.offset c.rDataLen = r.pending := by
      rw [← hp, Connect.pending, if_pos hs]
    have hb₁ : L.Buffers s₁ c := ⟨hb.need, fun h => hw.epoll ▸ hb.hung h, hb.free⟩
    refine wp_mono (flushed_shows (hj.of_eq hw.conns hw.connMap) hb₁ hp ?_ ?_ hs ?_) fun _ _ h => h
    · rw [hw.received, hread]
    · rw [hw.accepted, hsent, hpend, List.append_assoc]
    · have hle := hw.le
      rwa [Buff.slice_length] at hle

end Write

/-! ### Whole runs -/

theorem Download.run_shows {L : Link} {X Y : List UInt8} {s : State} {e : Download} (hfair : e.Fair L s)
    (h : ∃ r, L.Shows X Y s r) : wp (e.run L) (fun _ s' => ∃ r, L.Shows X Y s' r) s := by
  obtain ⟨r, h⟩ := h
  cases e with
  | writable =>
      simp only [run, event, Event.run, wp, wpe_bind, wpe_pure]
      exact handleEPOEvent_shows h
  | reads rs =>
      obtain ⟨⟨c, d, hj, hb, hp⟩, hread, hsent⟩ := h
      obtain ⟨m, hm, -⟩ := (Option.any_eq_true _ _).mp hfair
      have hs : c.status ≠ .hangup := by
        intro hs
        rw [(hb.hung hs).1] at hm
        cases hm
      have hpend : r.pending = [] := by rw [← hp, Connect.pending, if_neg hs]
      have hall : r.read = r.sent := by rw [r.exact, hpend, List.append_nil]
      have hj' := hj.setTunnel { c with host := [] } rfl rfl rfl rfl
      simp only [run, event, Event.run, handleRecvEvent, streamRecvEvent, wp, wpe_bind, wpe_get, hj.tunnel_entry,
        wpe_deref, hj.tunnel, hj.tunnel_type, if_false, wpe_modConn, wpe_mapFault, wpe_pure, found_iff]
      exact recvLoop_shows rs ⟨⟨_, d, hj', ⟨hj.forward, hb.need, hb.free hs⟩, hs⟩, ⟨m, hm⟩, r.read, hread,
        hall ▸ hsent⟩

/-- A browser with its tunnel. -/
def sampleLink : Link := ⟨1, 0, 11, 10⟩

def joinedTunnel : Connect where
  sockFd := 11
  status := .online
  verified := true
  peer := some 0
  dec := ⟨.forward, 0, buffSize, 0, fun _ => 0⟩

def joinedBrowser : Connect where
  sockFd := 10
  type := .proxy
  peer := some 1
  dec := ⟨.header, 0, buffSize, 0, fun _ => 0⟩

/-- The SDK with these two; the browser takes what it is sent in parts. -/
def joinedState : State where
  accurate := true
  config := ⟨[65], 1, 2⟩
  conns p := if p = 0 then some joinedBrowser else if p = 1 then some joinedTunnel else none
  nextConn := 2
  connMap fd := if fd = 10 then some (some 0) else if fd = 11 then some (some 1) else none
  avalTraffic := 0
  rptTraffCost := 0
  epoll fd := if fd = 10 ∨ fd = 11 then some ⟨true, true, true⟩ else none
  errno := 0
  mem _ := 0
  writes := [.wrote 9, .wrote 1, .wrote 1, .fail EAGAIN, .wrote 0, .wrote 1]
  dials := []
  log := []

/-- Two chunks, the second of which goes in three parts. -/
def sampleDownload : List Download :=
  [.writable, .reads [.data [2, 3], .data [4, 5, 6]], .writable, .writable, .writable, .writable]

end HttpsTunnel.Sdk

import HttpsTunnel.Tms.MainLoop
import HttpsTunnel.Lib.Session
import HttpsTunnel.Lib.Relay

/-! # Relaying what the web server sends

The agent of a stream is read in `StreamRecvEvent`, and what the tunnel does not take stays in the
agent's buffer: `offset`, `datalen` and the status `sta_hangup` say where.  `HandleEPOEvent` on the
tunnel sends the rest later.  A run is any sequence of these two (`Download`), with any result of
each `send`.

`HandleEPOEvent` looks at `datalen` and not at the status, and leaves `datalen` as it was when the
last pending byte has gone: a tunnel that becomes writable once more is sent the beginning of the
buffer again (`download_repeats`).  `download_exact` is what holds: if an `EPOLLOUT` finds either
pending bytes or `datalen = 0`, and a chunk that is taken in part does not cut the stream off, the
two handlers are a `Lib.Relay`. -/

namespace HttpsTunnel.Tms

open HttpsTunnel.Lib HttpsTunnel.Wire

/-! ### What is relayed -/

/-- The bytes read from `a` in forward mode. -/
def Obs.readOf (a : Ptr) : Obs → List UInt8
  | fwd p _ _ _ _ bs => if p = a then bs else []
  | _ => []

/-- The bytes read from `a` that the socket of `t` accepted. -/
def Obs.sentOf (t a : Ptr) : Obs → List UInt8
  | relay .down t' a' bs => if t' = t ∧ a' = a then bs else []
  | _ => []

/-- The bytes an agent still has to deliver. -/
def Connect.pending (c : Connect) : List UInt8 :=
  if c.status = .hangup then c.dec.buff.slice c.dec.offset c.datalen else []

/-- The buffer of the agent: an agent that hangs up is not registered, and its pending bytes are in
the buffer; otherwise the whole buffer is free. -/
structure Server.Buffers (s : Server) (c : Connect) : Prop where
  need : c.dec.stillneedtoread = buffSize
  hung : c.status = .hangup → s.epoll c.sockFd = none ∧ c.dec.offset + c.datalen ≤ buffSize
  free : c.status ≠ .hangup → c.dec.offset = 0

/-- A stream: its two connections, the descriptor of the tunnel, the block and the user. -/
structure Link where
  agent : Ptr
  tunnel : Ptr
  fd : ℕ
  scb : ScbPtr
  user : UserId

namespace Link

variable (L : Link)

def read (s : Server) : List UInt8 := s.log.flatMap (Obs.readOf L.agent)

def sent (s : Server) : List UInt8 := s.log.flatMap (Obs.sentOf L.tunnel L.agent)

/-- The connections of the stream: `c` are the fields of the agent, `tn` those of the tunnel. -/
structure Joins (s : Server) (c tn : Connect) : Prop where
  agent : s.conns L.agent = some c
  agent_type : c.type = .agent
  agent_scb : c.scb = some L.scb
  agent_user : c.user = some L.user
  forward : c.dec.cstate = .forward
  tunnel : s.conns L.tunnel = some tn
  tunnel_fd : tn.sockFd = L.fd
  tunnel_type : tn.type = .tunnel
  tunnel_status : tn.status ≠ .inprogress
  tunnel_scb : tn.scb = some L.scb
  tunnel_user : tn.user = some L.user
  table : s.connMap L.fd = some L.tunnel
  block_tunnel : (s.scbs L.scb).tunnelConn = some L.tunnel
  block_agent : (s.scbs L.scb).agentConn = some L.agent
  user : (s.userMap L.user).isSome

/-- The stream is in the state `r`. -/
structure Shows (s : Server) (r : Relay UInt8) : Prop where
  joins : ∃ c tn, L.Joins s c tn ∧ s.Buffers c ∧ c.pending = r.pending
  read : L.read s = r.read
  sent : L.sent s = r.sent

end Link

/-! ### Runs -/

/-- What can happen: the agent is read, a chunk at a time, or the tunnel can be written; with the
result of each `send`. -/
inductive Download where
  | reads (chunks : List (List UInt8 × SendRes))
  | writable (res : SendRes)
deriving DecidableEq, Repr

def Server.withSends (s : Server) (sends : List SendRes) : Server := { s with sends := sends }

/-- `StreamRecvEvent` on the agent, `HandleEPOEvent` on the tunnel. -/
def Download.run (L : Link) : Download → TmsM Unit
  | reads chunks => do
      modify (·.withSends (chunks.map (·.2)))
      let _ ← streamRecvEvent L.agent (chunks.map fun p => .data p.1)
  | writable res => do
      modify (·.withSends [res])
      let _ ← handleEPOEvent L.fd

/-- The agent is registered for input. -/
def Server.Open (s : Server) (a : Ptr) : Prop :=
  (s.conns a).any fun c => (s.epoll c.sockFd).any (·.inn)

/-- What a read returns: some bytes, as many as the buffer can hold. -/
def IsChunk (bs : List UInt8) : Prop := bs ≠ [] ∧ bs.length ≤ buffSize

/-- With balance `b`, charging a chunk of which only a part is taken does not cut the stream off. -/
def covers (accurate : Bool) (status : UserStat) : ℤ → List (List UInt8 × SendRes) → Bool
  | _, [] | _, (_, .fail _) :: _ => true
  | b, (bs, .sent n) :: rest =>
      if n < bs.length then !cutsOff status b (trafficEst accurate n)
      else covers accurate status (wrapI64 (b - trafficEst accurate bs.length)) rest

/-- Only bytes that are pending can be flushed. -/
def Server.Flushes (s : Server) (a : Ptr) : Prop :=
  (s.conns a).all fun c => c.status = .hangup ∨ c.datalen = 0

/-- The condition on a step. -/
def Download.Fair (L : Link) (s : Server) : Download → Prop
  | reads chunks => s.Open L.agent ∧ (∀ p ∈ chunks, IsChunk p.1) ∧
      (s.userMap L.user).all fun v => covers s.accurate (s.scbs L.scb).status v.balance chunks
  | writable _ => s.Flushes L.agent

instance (s : Server) (a : Ptr) : Decidable (s.Open a) := inferInstanceAs (Decidable (_ = true))

instance (bs : List UInt8) : Decidable (IsChunk bs) := inferInstanceAs (Decidable (_ ∧ _))

instance (s : Server) (a : Ptr) : Decidable (s.Flushes a) := inferInstanceAs (Decidable (_ = true))

instance (L : Link) (s : Server) : ∀ e : Download, Decidable (e.Fair L s)
  | .reads _ => inferInstanceAs (Decidable (_ ∧ _ ∧ _))
  | .writable _ => inferInstanceAs (Decidable (Server.Flushes _ _))

/-! ### What the handlers leave alone -/

/-- Nothing of what a stream is made of has changed. -/
structure Link.Frame (L : Link) (s s' : Server) : Prop where
  conns : s'.conns = s.conns
  connMap : s'.connMap = s.connMap
  epoll : s'.epoll = s.epoll
  log : s'.log = s.log
  tunnel : (s'.scbs L.scb).tunnelConn = (s.scbs L.scb).tunnelConn
  agent : (s'.scbs L.scb).agentConn = (s.scbs L.scb).agentConn
  user : (s.userMap L.user).isSome → (s'.userMap L.user).isSome

section Frames

variable {L : Link} {s s' : Server} {c tn : Connect} {r : Relay UInt8}

theorem Link.Joins.frame (h : L.Joins s c tn) (hf : L.Frame s s') : L.Joins s' c tn :=
  { h with
    agent := hf.conns ▸ h.agent
    tunnel := hf.conns ▸ h.tunnel
    table := hf.connMap ▸ h.table
    block_tunnel := hf.tunnel.trans h.block_tunnel
    block_agent := hf.agent.trans h.block_agent
    user := hf.user h.user }

theorem Link.Shows.frame (h : L.Shows s r) (hf : L.Frame s s') : L.Shows s' r := by
  obtain ⟨⟨c, tn, hj, hb, hp⟩, hread, hsent⟩ := h
  refine ⟨⟨c, tn, hj.frame hf, ⟨hb.need, ?_, hb.free⟩, hp⟩, ?_, ?_⟩
  · rw [hf.epoll]
    exact hb.hung
  · rw [Link.read, hf.log]
    exact hread
  · rw [Link.sent, hf.log]
    exact hsent

/-- What charging and sending depend on: the kind of count, the status of the stream, the balance, and
the results of the sends to come. -/
structure Link.Pays (L : Link) (accurate : Bool) (status : UserStat) (b : ℤ) (sends : List SendRes)
    (s : Server) : Prop where
  accurate : s.accurate = accurate
  status : (s.scbs L.scb).status = status
  balance : (s.userMap L.user).map User.balance = some b
  sends : s.sends = sends

variable {accurate : Bool} {status : UserStat} {b : ℤ} {res : SendRes} {rest : List SendRes}

/-- `send` with a given result. -/
theorem sockSend_frame (fd : ℕ) (bs : List UInt8) (hpay : L.Pays accurate status b (res :: rest) s) :
    wp (sockSend fd bs) (fun w s' => L.Frame s s' ∧ ∀ n, w = some n →
      (∃ m, res = .sent m ∧ n = min m bs.length) ∧ L.Pays accurate status b rest s') s := by
  have hf : ∀ sends errno, L.Frame s { s with sends := sends, errno := errno } :=
    fun _ _ => ⟨rfl, rfl, rfl, rfl, rfl, rfl, id⟩
  simp only [sockSend, setErrno, hpay.sends, wp, wpe_bind, wpe_get, wpe_ite, wpe_modify, wpe_pure]
  refine ⟨fun _ => ⟨hf _ _, by simp⟩, fun _ => ⟨fun _ => ⟨hf _ _, by simp⟩, fun _ => ?_⟩⟩
  cases res with
  | fail e => exact ⟨hf _ _, by simp⟩
  | sent m =>
      refine ⟨hf _ _, fun n hn => ⟨⟨m, rfl, (Option.some.inj hn).symm⟩, ?_⟩⟩
      exact { hpay with sends := rfl }

theorem recordTraffic_frame {sends : List SendRes} (n : ℕ) (hpay : L.Pays accurate status b sends s) :
    wp (recordTraffic L.user (some L.scb) n) (fun ret s' => L.Frame s s' ∧
      L.Pays accurate status (wrapI64 (b - n)) sends s' ∧
        ret = if cutsOff status b n then -1 else 0) s := by
  obtain ⟨v, hv, hvb⟩ := Option.map_eq_some_iff.mp hpay.balance
  simp only [recordTraffic, wp, wpe_bind, wpe_derefUser, wpe_getScb, wpe_modScb, wpe_modUser, wpe_ite, wpe_pure,
    Server.setScb, Server.setUser, hv, hvb, hpay.status, found_iff]
  generalize ht : ({ s with scbs := _, userMap := _ } : Server) = t
  have hf : L.Frame s t := by
    rw [← ht]
    exact ⟨rfl, rfl, rfl, rfl, by simp, by simp, by simp⟩
  have hp : L.Pays accurate status (wrapI64 (b - n)) sends t := by
    rw [← ht]
    exact ⟨hpay.accurate, by simp, by simp, hpay.sends⟩
  refine ⟨fun hc => ⟨hf, hp, ?_⟩, fun hc => ⟨hf, hp, ?_⟩⟩
  · rw [if_pos hc]
  · rw [if_neg hc]

@[simp] theorem Link.read_emit (L : Link) (s : Server) (o : Obs) :
    L.read (s.emit o) = L.read s ++ o.readOf L.agent := by
  simp [Link.read, Server.emit]

@[simp] theorem Link.sent_emit (L : Link) (s : Server) (o : Obs) :
    L.sent (s.emit o) = L.sent s ++ o.sentOf L.tunnel L.agent := by
  simp [Link.sent, Server.emit]

theorem Link.Joins.emit (h : L.Joins s c tn) (o : Obs) : L.Joins (s.emit o) c tn :=
  { h with agent := h.agent }

/-- An entry that is neither a read nor a delivery. -/
theorem Link.Shows.emit (h : L.Shows s r) {o : Obs} (hr : o.readOf L.agent = [])
    (hs : o.sentOf L.tunnel L.agent = []) : L.Shows (s.emit o) r := by
  obtain ⟨⟨c, tn, hj, hb, hp⟩, hread, hsent⟩ := h
  exact ⟨⟨c, tn, hj.emit o, ⟨hb.need, hb.hung, hb.free⟩, hp⟩, by simp [hread, hr], by simp [hsent, hs]⟩

theorem Link.Joins.ne (h : L.Joins s c tn) : L.tunnel ≠ L.agent := by
  intro he
  have hc : c = tn := Option.mem_unique h.agent (he ▸ h.tunnel)
  have ht := h.tunnel_type
  rw [← hc, h.agent_type] at ht
  cases ht

/-- New fields of the agent. -/
theorem Link.Joins.setAgent (h : L.Joins s c tn) (c' : Connect) (hty : c'.type = c.type)
    (hk : c'.scb = c.scb) (hu : c'.user = c.user) (hm : c'.dec.cstate = c.dec.cstate) :
    L.Joins (s.setConn L.agent c') c' tn :=
  { h with
    agent := by simp [Server.setConn]
    agent_type := hty.trans h.agent_type
    agent_scb := hk.trans h.agent_scb
    agent_user := hu.trans h.agent_user
    forward := hm.trans h.forward
    tunnel := by simpa [Server.setConn, h.ne] using h.tunnel }

end Frames

/-! ### Reading the agent -/

/-- A chunk `bs` is in the buffer of an agent that does not hang up, and `n` bytes of it have been
accepted. -/
structure Link.Holds (L : Link) (s : Server) (r : Relay UInt8) (bs : List UInt8) (n : ℕ) : Prop where
  agent : ∃ c tn, L.Joins s c tn ∧ c.dec.stillneedtoread = buffSize ∧ c.dec.offset = 0 ∧
    c.status ≠ .hangup ∧ c.dec.buff.slice 0 bs.length = bs ∧ ∃ m, s.epoll c.sockFd = some m
  read : L.read s = r.read ++ bs
  sent : L.sent s = r.sent ++ bs.take n

section Read

variable {L : Link} {s s' : Server} {r : Relay UInt8} {bs : List UInt8} {n : ℕ}

theorem Link.Holds.frame (h : L.Holds s r bs n) (hf : L.Frame s s') : L.Holds s' r bs n := by
  obtain ⟨⟨c, tn, hj, hn, ho, hs, hb, m, hm⟩, hread, hsent⟩ := h
  refine ⟨⟨c, tn, hj.frame hf, hn, ho, hs, hb, m, hf.epoll ▸ hm⟩, ?_, ?_⟩
  · rw [Link.read, hf.log]
    exact hread
  · rw [Link.sent, hf.log]
    exact hsent

/-- The whole chunk was taken. -/
theorem Link.Holds.shows (h : L.Holds s r bs bs.length) (hr : r.pending = []) :
    L.Shows s (r.chunk hr bs bs.length) := by
  obtain ⟨⟨c, tn, hj, hn, ho, hs, hb, m, hm⟩, hread, hsent⟩ := h
  refine ⟨⟨c, tn, hj, ⟨hn, fun h => absurd h hs, fun _ => ho⟩, ?_⟩, hread, hsent⟩
  rw [Connect.pending, if_neg hs]
  simp [Relay.chunk]

/-- The rest of the chunk stays pending. -/
theorem hangUp_shows (h : L.Holds s r bs n) (hr : r.pending = []) (hn : n ≤ bs.length)
    (hlen : bs.length ≤ buffSize) :
    wp (hangUp L.agent n bs.length) (fun code s' => code ≠ none ∧ L.Shows s' (r.chunk hr bs n)) s := by
  obtain ⟨⟨c, tn, hj, hneed, ho, hs, hb, m, hm⟩, hread, hsent⟩ := h
  have hj' := hj.setAgent { c with
    datalen := bs.length - n
    status := .hangup
    dec := { c.dec with offset := n } } rfl rfl rfl rfl
  simp only [hangUp, removeEvent, wp, wpe_bind, wpe_modConn, wpe_deref, wpe_get, hj.agent, hj'.agent, found_iff]
  have he : (s.setConn L.agent { c with
    datalen := bs.length - n
    status := .hangup
    dec := { c.dec with offset := n } }).epoll c.sockFd = some m := hm
  simp only [he, wpe_bind, wpe_modify, wpe_pure, ne_eq, not_true_eq_false, if_false]
  refine ⟨by simp, ⟨_, tn, { hj' with agent := hj'.agent },
    ⟨hneed, fun _ => ⟨?_, ?_⟩, fun h => absurd rfl h⟩, ?_⟩, hread, hsent⟩
  · simp
  · simp only
    omega
  · simp only [Connect.pending, if_true, Relay.chunk]
    have hd := Buff.drop_slice c.dec.buff 0 bs.length n
    rwa [hb, Nat.zero_add, eq_comm] at hd

/-- The agent can be read on: it is open, and the chunks to come are covered. -/
structure Link.Reads (L : Link) (accurate : Bool) (status : UserStat) (b : ℤ)
    (chunks : List (List UInt8 × SendRes)) (s : Server) : Prop where
  shows : ∃ r, L.Shows s r
  isOpen : ∃ c, s.conns L.agent = some c ∧ c.status ≠ .hangup ∧ ∃ m, s.epoll c.sockFd = some m
  pays : L.Pays accurate status b (chunks.map (·.2)) s
  covered : covers accurate status b chunks = true

/-- After a chunk: the read loop goes on, or it ends. -/
def Link.GoesOn (L : Link) (accurate : Bool) (status : UserStat)
    (chunks : List (List UInt8 × SendRes)) (code : Option ℤ) (s : Server) : Prop :=
  match code with
  | some _ => ∃ r, L.Shows s r
  | none => ∃ b, L.Reads accurate status b chunks s

variable {accurate : Bool} {status : UserStat} {b : ℤ} {res : SendRes}
  {chunks : List (List UInt8 × SendRes)} {c : Connect}

/-- Bytes from the web server, in the buffer and in the log. -/
theorem forwardDown_shows (h : L.Holds s r bs 0) (hr : r.pending = []) (hchunk : IsChunk bs)
    (hc : s.conns L.agent = some c)
    (hpay : L.Pays accurate status b (((bs, res) :: chunks).map (·.2)) s)
    (hcov : covers accurate status b ((bs, res) :: chunks) = true) :
    wp (forwardDown L.agent c L.scb L.tunnel bs.length) (L.GoesOn accurate status chunks) s := by
  obtain ⟨⟨c₁, tn, hj, hneed, ho, hs, hb, m, hm⟩, hread, hsent⟩ := id h
  obtain rfl : c₁ = c := Option.mem_unique hj.agent hc
  have hhang : ∀ {s' : Server} {n : ℕ}, L.Holds s' r bs n → n ≤ bs.length →
      wp (hangUp L.agent n bs.length) (L.GoesOn accurate status chunks) s' := by
    intro s' n h' hn
    refine wp_mono (hangUp_shows h' hr hn hchunk.2) ?_
    rintro code s'' ⟨hcode, hS⟩
    cases code with
    | none => exact absurd rfl hcode
    | some code => exact ⟨_, hS⟩
  simp only [forwardDown, sendRelay, wp, wpe_bind, wpe_deref, hj.tunnel, hb, found_iff]
  refine wp_mono (sockSend_frame tn.sockFd bs hpay) ?_
  rintro w s₁ ⟨hf₁, hw⟩
  cases w with
  | none => exact hhang (h.frame hf₁) (Nat.zero_le _)
  | some wrote =>
      obtain ⟨⟨n, rfl, rfl⟩, hpay₁⟩ := hw wrote rfl
      simp only [wpe_bind, wpe_emit, wpe_pure, wpe_nonNull, wpe_charge, hj.agent_user, wpe_ite, found_iff]
      generalize hrel : Obs.relay .down L.tunnel L.agent (bs.take (min n bs.length)) = o
      have h₂ : L.Holds (s₁.emit o) r bs (min n bs.length) := by
        obtain ⟨⟨c, tn, hj, ha⟩, hread, hsent⟩ := h.frame hf₁
        exact ⟨⟨c, tn, hj.emit _, ha⟩, by simpa [← hrel, Obs.readOf] using hread,
          by simpa [← hrel, Obs.sentOf] using hsent⟩
      have hpay₂ : L.Pays accurate status b (chunks.map (·.2)) (s₁.emit o) := { hpay₁ with sends := hpay₁.sends }
      refine wp_mono (recordTraffic_frame _ hpay₂) ?_
      rintro ret s₃ ⟨hf₃, hpay₃, rfl⟩
      have h₃ := h₂.frame hf₃
      rw [hpay₂.accurate] at hpay₃ ⊢
      rw [covers] at hcov
      split_ifs at hcov with hn
      · -- taken in part: charging it does not cut the stream off
        rw [Nat.min_eq_left hn.le] at h₃ ⊢
        rw [if_neg (by simpa using hcov)]
        exact ⟨fun h => absurd rfl h, fun _ => ⟨fun _ => hhang h₃ hn.le,
          fun hw => absurd hn.ne (not_or.mp hw).1⟩⟩
      · rw [Nat.min_eq_right (not_lt.mp hn)] at h₃ hpay₃ ⊢
        have hS := h₃.shows hr
        refine ⟨fun _ => ?_, fun _ => ⟨fun hw => absurd (by simpa using hw) hchunk.1, fun _ => ?_⟩⟩
        · simp only [emitCutoff, wpe_bind, wpe_get, wpe_emit]
          exact ⟨_, hS.emit (o := .cutoff L.agent L.tunnel (some s₃.errno)) rfl rfl⟩
        · obtain ⟨⟨c₃, _, hj₃, -, -, hs₃, -, hm₃⟩, -, -⟩ := h₃
          exact ⟨_, ⟨_, hS⟩, ⟨c₃, hj₃.agent, hs₃, hm₃⟩, hpay₃, hcov⟩

/-- The forward branch on a chunk in the buffer. -/
theorem onForward_shows {tn : Connect} (hj : L.Joins s c tn)
    (hneed : c.dec.stillneedtoread = buffSize) (ho : c.dec.offset = 0) (hs : c.status ≠ .hangup)
    (hb : c.dec.buff.slice 0 bs.length = bs) (hm : ∃ m, s.epoll c.sockFd = some m)
    (hread : L.read s = r.read) (hsent : L.sent s = r.sent) (hr : r.pending = []) (hchunk : IsChunk bs)
    (hpay : L.Pays accurate status b (((bs, res) :: chunks).map (·.2)) s)
    (hcov : covers accurate status b ((bs, res) :: chunks) = true) :
    wp (onForward L.agent bs.length) (L.GoesOn accurate status chunks) s := by
  simp only [onForward, emitFwd, wp, wpe_bind, wpe_deref, wpe_get, wpe_emit, hj.agent, hb, found_iff]
  generalize hfwd : Obs.fwd L.agent c _ _ _ bs = o
  simp only [hj.agent_scb, wpe_bind, wpe_getScb]
  have hscb : (s.emit o).scbs = s.scbs := rfl
  simp only [hscb, hj.block_tunnel, hj.block_agent, hj.agent_type]
  refine forwardDown_shows ⟨⟨c, tn, hj.emit o, hneed, ho, hs, hb, hm⟩, ?_, ?_⟩ hr hchunk hj.agent
    { hpay with sends := hpay.sends } hcov
  · simp [hread, ← hfwd, Obs.readOf]
  · simp [hsent, ← hfwd, Obs.sentOf]

theorem Link.Shows.errno (h : L.Shows s r) (e : ℕ) : L.Shows { s with errno := e } r :=
  h.frame ⟨rfl, rfl, rfl, rfl, rfl, rfl, id⟩

/-- The read loop of the agent. -/
theorem recvLoop_shows (hchunks : ∀ p ∈ chunks, IsChunk p.1)
    (h : L.Reads accurate status b chunks s) :
    wp (recvLoop (endpoint L.agent) (chunks.map fun p => .data p.1)) (fun _ s' => ∃ r, L.Shows s' r) s := by
  induction chunks generalizing s b with
  | nil =>
      obtain ⟨⟨r, hS⟩, -, -, -⟩ := h
      obtain ⟨⟨c, tn, hj, hb, -⟩, -, -⟩ := id hS
      refine recvLoop_nil (d := c.dec) (by simp [endpoint, hj.agent]) ?_ ⟨r, hS.errno _⟩
      rw [hb.need]
      decide
  | cons p chunks ih =>
      obtain ⟨bs, res⟩ := p
      obtain ⟨hchunk, hrest⟩ := List.forall_mem_cons.mp hchunks
      obtain ⟨⟨r, ⟨c, tn, hj, hb, hp⟩, hread, hsent⟩, ⟨c', hc', hs, m, hm⟩, hpay, hcov⟩ := h
      obtain rfl : c = c' := Option.mem_unique hj.agent hc'
      have hpend : r.pending = [] := by rw [← hp, Connect.pending, if_neg hs]
      have hput : (endpoint L.agent).put { c.dec with buff := c.dec.buff.store 0 bs } s =
          s.setConn L.agent { c with dec := { c.dec with buff := c.dec.buff.store 0 bs } } := by
        simp [endpoint, hj.agent]
      refine recvLoop_forward (d := c.dec) (by simp [endpoint, hj.agent]) hj.forward (hb.free hs) hchunk.1
        (hb.need ▸ hchunk.2) hchunk.2 ?_
      have hF := onForward_shows (hj.setAgent { c with
        dec := { c.dec with buff := c.dec.buff.store 0 bs } } rfl rfl rfl rfl) hb.need (hb.free hs) hs
        (Buff.slice_store_same c.dec.buff 0 bs) ⟨m, hm⟩ hread hsent hpend hchunk
        { hpay with sends := hpay.sends } hcov
      refine wpe_mono (hput ▸ hF) ?_ fun _ => id
      intro code s' hgo
      cases code with
      | some code => exact hgo
      | none =>
          obtain ⟨b', hR⟩ := hgo
          exact ih hrest hR

end Read

/-! ### Writing the tunnel -/

section Write

variable {L : Link} {s s' : Server} {r : Relay UInt8}

/-- The agent may be registered once it does not hang up. -/
theorem addEvent_shows (fd : ℕ) (m : Mask) (h : L.Shows s r)
    (hs : ∀ c ∈ s.conns L.agent, c.status ≠ .hangup) :
    wp (addEvent fd m) (fun _ s' => L.Shows s' r) s := by
  simp only [addEvent, setErrno, wp, wpe_bind, wpe_get]
  split
  · simp only [wpe_bind, wpe_modify, wpe_pure]
    exact h.errno _
  · obtain ⟨⟨c, tn, hj, hb, hp⟩, hread, hsent⟩ := h
    simp only [wpe_bind, wpe_modify, wpe_pure]
    exact ⟨⟨c, tn, { hj with agent := hj.agent },
      ⟨hb.need, fun h => absurd h (hs c hj.agent), hb.free⟩, hp⟩, hread, hsent⟩

/-- The fields of the agent after a flush. -/
theorem flushed_shows {c tn : Connect} {n : ℕ} (hj : L.Joins s c tn) (hb : s.Buffers c)
    (hp : c.pending = r.pending) (hread : L.read s = r.read)
    (hsent : L.sent s = r.sent ++ r.pending.take n) (hs : c.status = .hangup)
    (hn : n ≤ c.datalen) : wp (flushed L.agent n) (fun _ s' => L.Shows s' (r.flush n)) s := by
  have hpend : c.dec.buff.slice c.dec.offset c.datalen = r.pending := by
    rw [← hp, Connect.pending, if_pos hs]
  have hrest : c.dec.buff.slice (c.dec.offset + n) (c.datalen - n) = r.pending.drop n := by
    rw [← hpend, Buff.drop_slice]
  have hsize := (hb.hung hs).2
  simp only [flushed, wp, wpe_bind, wpe_deref, hj.agent, wpe_ite, wpe_modConn, wpe_pure, found_iff]
  refine ⟨fun he => ?_, fun he => ⟨fun h0 => ?_, fun h0 => ?_⟩⟩
  · -- all of it has gone: the agent is read again
    have hj' := hj.setAgent { c with
      status := .online
      dec := { c.dec with offset := 0, stillneedtoread := buffSize } } rfl rfl rfl rfl
    have hadd := addEvent_shows (r := r.flush n) c.sockFd ⟨true, false, false⟩ ⟨⟨_, tn, hj',
      ⟨rfl, fun h => SockStat.noConfusion h, fun _ => rfl⟩, ?_⟩, hread, hsent⟩ (by simp [hj'.agent])
    · exact wp_mono hadd fun _ _ h => h
    · have hnil : r.pending.drop n = [] := by
        rw [← hrest, he, Nat.sub_self, Buff.slice_zero]
      rw [Connect.pending, if_neg (by simp)]
      exact hnil.symm
  · have hj' := hj.setAgent { c with
      datalen := c.datalen - n
      dec := { c.dec with offset := c.dec.offset + n } } rfl rfl rfl rfl
    refine ⟨⟨_, tn, hj', ⟨hb.need, fun _ => ⟨(hb.hung hs).1, ?_⟩, fun h => absurd hs h⟩, ?_⟩, hread, hsent⟩
    · simp only
      omega
    · rw [Connect.pending, if_pos hs]
      exact hrest
  · obtain rfl : n = 0 := by omega
    exact ⟨⟨c, tn, hj, hb, by simpa [Relay.flush] using hp⟩, hread, hsent⟩

theorem chargeFlush_shows {c : Connect} (h : L.Shows s r) (hc : c.user = some L.user) (n : ℕ) :
    wp (chargeFlush L.tunnel c L.scb n) (fun _ s' => L.Shows s' r) s := by
  obtain ⟨v, hv⟩ : ∃ v, s.userMap L.user = some v := by
    obtain ⟨⟨_, _, hj, -⟩, -, -⟩ := h
    exact Option.isSome_iff_exists.mp hj.user
  simp only [chargeFlush, wp, wpe_ite, wpe_bind, wpe_nonNull, wpe_charge, wpe_emit, wpe_pure, hc, found_iff]
  refine ⟨fun _ => ?_, fun _ => h⟩
  have hpay : L.Pays s.accurate (s.scbs L.scb).status v.balance s.sends s := ⟨rfl, rfl, by simp [hv], rfl⟩
  refine wp_mono (recordTraffic_frame _ hpay) ?_
  rintro ret s₁ ⟨hf, -⟩
  exact ⟨fun _ => (h.frame hf).emit (o := .cutoff L.tunnel L.tunnel none) rfl rfl, fun _ => h.frame hf⟩

/-- The tunnel can be written. -/
theorem handleEPOEvent_shows {res : SendRes} (h : L.Shows s r) (hres : s.sends = [res]) (hfl : s.Flushes L.agent) :
    wp (handleEPOEvent L.fd) (fun _ s' => ∃ r', L.Shows s' r') s := by
  obtain ⟨⟨c, tn, hj, hb, hp⟩, hread, hsent⟩ := id h
  simp only [handleEPOEvent, flush, sendRelay, wp, wpe_bind, wpe_get, hj.table, wpe_deref, hj.tunnel,
    hj.tunnel_status, hj.tunnel_type, hj.tunnel_scb, wpe_ite, wpe_pure, wpe_nonNull, wpe_getScb,
    hj.block_agent, hj.agent, ne_eq, not_true_eq_false, not_false_eq_true, Option.some.injEq, forall_eq',
    reduceCtorEq, false_implies, true_implies, true_and]
  refine ⟨fun _ => ⟨r, h⟩, fun _ => ⟨fun _ => ⟨r, h⟩, fun hd => ?_⟩⟩
  have hs : c.status = .hangup := (by simpa [Server.Flushes, hj.agent] using hfl : _ ∨ _).resolve_right hd
  obtain ⟨v, hv⟩ := Option.isSome_iff_exists.mp hj.user
  have hpay : L.Pays s.accurate (s.scbs L.scb).status v.balance [res] s := ⟨rfl, rfl, by simp [hv], hres⟩
  refine wp_mono (sockSend_frame L.fd _ hpay) ?_
  rintro w s₁ ⟨hf, hw⟩
  cases w with
  | none => exact ⟨r, h.frame hf⟩
  | some n =>
      obtain ⟨⟨m, -, rfl⟩, -⟩ := hw n rfl
      simp only [wpe_bind, wpe_emit, wpe_pure]
      generalize ho : Obs.relay .down L.tunnel L.agent _ = o
      have hpend : c.dec.buff.slice c.dec.offset c.datalen = r.pending := by
        rw [← hp, Connect.pending, if_pos hs]
      have hb₁ : (s₁.emit o).Buffers c :=
        ⟨hb.need, fun h => ⟨hf.epoll ▸ (hb.hung h).1, (hb.hung h).2⟩, hb.free⟩
      refine wp_mono (flushed_shows (r := r) ((hj.frame hf).emit o) hb₁ hp ?_ ?_ hs (by simp)) ?_
      · rw [Link.read_emit, Link.read, hf.log, ← ho]
        exact (List.append_nil _).trans hread
      · rw [Link.sent_emit, Link.sent, hf.log, ← ho, hpend]
        rw [Link.sent] at hsent
        simp [Obs.sentOf, hsent]
      · intro _ s₂ h₂
        exact wp_mono (chargeFlush_shows h₂ hj.tunnel_user _) fun _ _ h => ⟨_, h⟩

end Write

/-! ### Whole runs -/

theorem Download.run_shows {L : Link} {s : Server} {e : Download} (hfair : e.Fair L s)
    (h : ∃ r, L.Shows s r) : wp (e.run L) (fun _ s' => ∃ r, L.Shows s' r) s := by
  obtain ⟨r, h⟩ := h
  have h' : ∀ sends, L.Shows (s.withSends sends) r := fun _ =>
    h.frame ⟨rfl, rfl, rfl, rfl, rfl, rfl, id⟩
  obtain ⟨⟨c, tn, hj, hb, -⟩, -, -⟩ := h
  cases e with
  | reads chunks =>
      obtain ⟨hopen, hchunks, hcov⟩ := hfair
      obtain ⟨m, hm, -⟩ := (Option.any_eq_true _ _).mp (by simpa [Server.Open, hj.agent] using hopen)
      obtain ⟨v, hv⟩ := Option.isSome_iff_exists.mp hj.user
      have hs : c.status ≠ .hangup := by
        intro hs
        rw [(hb.hung hs).1] at hm
        cases hm
      simp only [run, streamRecvEvent, wp, wpe_bind, wpe_modify, wpe_pure, wpe_mapFault]
      refine recvLoop_shows hchunks ⟨⟨r, h' _⟩, ⟨c, hj.agent, hs, m, hm⟩,
        ⟨rfl, rfl, Option.map_eq_some_iff.mpr ⟨v, hv, rfl⟩, rfl⟩, ?_⟩
      simpa [hv, Server.withSends] using hcov
  | writable res =>
      simp only [run, wp, wpe_bind, wpe_modify, wpe_pure]
      exact handleEPOEvent_shows (h' [res]) rfl hfair

/-- The stream of the first client of a server. -/
def sampleLink : Link := ⟨4, 3, 10, 0, ⟨1, 2⟩⟩

/-- Its tunnel and its agent. -/
def joinedTunnel : Connect where
  sockFd := 10
  user := some ⟨1, 2⟩
  scb := some 0
  dec := ⟨.forward, 0, buffSize, 0, fun _ => 0⟩

def joinedAgent : Connect :=
  { agentConnect 11 fun _ => 0 with status := .online, user := some ⟨1, 2⟩, scb := some 0 }

/-- A server with this stream, of which neither side has been read. -/
def joinedServer : Server :=
  let s := Server.init false 0 0 fun _ => 0
  { s with
    conns := fun p =>
      if p = 3 then some joinedTunnel else if p = 4 then some joinedAgent else s.conns p
    connMap := fun fd => if fd = 10 then some 3 else if fd = 11 then some 4 else s.connMap fd
    userMap := fun u => if u = ⟨1, 2⟩ then some { balance := 10000 } else none
    scbs := fun _ => { user := some ⟨1, 2⟩, tunnelConn := some 3, agentConn := some 4 }
    openFds := 10 :: 11 :: s.openFds
    epoll := fun fd => if fd = 11 then some ⟨true, false, true⟩ else s.epoll fd }

theorem joinedServer_joins : sampleLink.Joins joinedServer joinedAgent joinedTunnel :=
  { agent := rfl, agent_type := rfl, agent_scb := rfl, agent_user := rfl, forward := rfl, tunnel := rfl,
    tunnel_fd := rfl, tunnel_type := rfl, tunnel_status := SockStat.noConfusion, tunnel_scb := rfl,
    tunnel_user := rfl, table := rfl, block_tunnel := rfl, block_agent := rfl, user := by decide }

/-- A chunk that goes in three parts. -/
def sampleDownload : List Download :=
  [.writable (.sent 9), .reads [([2, 3], .sent 9), ([4, 5, 6], .sent 1)], .writable (.sent 1), .writable (.fail 11),
    .writable (.sent 1)]

/-- A client whose web server sends three bytes, of which the tunnel takes one at first; the tunnel then
becomes writable twice. -/
def writableTwiceRun : List (List Event) :=
  [[.connects 10], [{ Event.arrives 10 sampleLogin with socks := [.opened 11 true] }], [.writable 11],
    [.arrives 6 (frame (ReadTokenRsp.bytes ⟨0, 10, 1, 2, 1000000, 65 :: List.replicate 31 0⟩))],
    [.arrives 10 (frame (BeginTransmit.bytes ⟨1⟩))],
    [{ Event.arrives 11 [4, 5, 6] with sends := [.sent 1] }], [.writable 10], [.writable 10]]

end HttpsTunnel.Tms

import HttpsTunnel.Tms.Handler

/-! # The main loop of the tunnel server

`main.cpp`: the state after start-up (`Server.init`), what the loop does with one epoll event
(`handleEvent`), and the states the loop can reach (`Reachable`).

An event brings along what the kernel and the peers contribute while it is handled: what the
reads, sends and sockets return, the accepted connection, the pending socket error, the time.
The loop fetches events in batches; an event of a batch is handled even if an earlier event
of the same batch closed its descriptor. -/

namespace HttpsTunnel.Tms

open HttpsTunnel.Lib HttpsTunnel.Wire

/-! ### Events -/

/-- An entry of the event list, with the environment's part. -/
structure Event where
  fd : ℕ
  inn : Bool := false
  out : Bool := false
  err : Bool := false
  reads : List ReadRes := []
  sends : List SendRes := []
  socks : List SockRes := []
  /-- The descriptor `accept` returns and the address of its peer. -/
  accept : Option (ℕ × ℕ × ℕ) := none
  /-- `SO_ERROR`. -/
  soError : ℕ := 0
  now : Timeval := ⟨0, 0⟩
  random : ℕ := 0
  mem : Buff := fun _ => 0

/-- `m_socket`. -/
def listenFd : ℕ := 3

/-- A client connects and is given descriptor `fd`. -/
def Event.connects (fd : ℕ) : Event :=
  { fd := listenFd, inn := true, accept := some (fd, 0x0100007f, 0x901f) }

/-- Bytes arrive on `fd`. -/
def Event.arrives (fd : ℕ) (bs : List UInt8) : Event := { fd := fd, inn := true, reads := [.data bs] }

/-- `fd` can be written. -/
def Event.writable (fd : ℕ) : Event := { fd := fd, out := true }

/-- A login as user 2 of application 1 to `localhost`, whose address is in the cache. -/
def sampleLogin : List UInt8 :=
  frame (LoginReq.bytes ⟨1, 2, 65 :: List.replicate 31 0, 80, 9⟩ "localhost".toUTF8.toList)

/-- The environment's part of an event. -/
def Server.load (s : Server) (e : Event) : Server :=
  { s with sends := e.sends, socks := e.socks, now := e.now, random := e.random, mem := e.mem }

/-- An event of the listening socket.  A failed `accept` returns `(U64)-1`, which passes the test
`currfd > 0`; the descriptor is then refused by the kernel. -/
def acceptConn (e : Event) : TmsM Unit := do
  let s ← get
  match e.accept with
  | some (fd, ip, port) =>
      if s.fdFree fd then
        set { s with peer := Function.update s.peer fd (some (ip, port)) }
        handleAcceptEvent fd
        let _ ← addEvent fd ⟨true, true, true⟩
      else setErrno EBADF
  | none => setErrno EBADF

/-- `HandleRecvEvent` returned -1: a read that would block, or a connection to close. -/
def recvFailed (e : Event) : TmsM Unit := do
  if (← get).errno = EAGAIN then pure ()
  else if e.err then
    informShutdownUser e.fd
    removeConn e.fd
    closeFd e.fd
  else removeConn e.fd

/-- An input event of a connection.  True: the loop goes on to the output part. -/
def inputEvent (e : Event) : TmsM Bool := do
  let ret ← handleRecvEvent e.fd e.reads
  if ret = -2 then pure false
  else if ret = -1 then
    recvFailed e
    pure false
  else if ret = 0 then
    if (← get).err ≠ EINTR then
      removeConn e.fd
      pure false
    else pure true
  -- no other code is returned
  else pure true

/-- `getsockopt(SO_ERROR)`, which leaves `err` alone when the descriptor is gone. -/
def fetchError (e : Event) : TmsM Unit := do
  let s ← get
  if e.fd ∈ s.openFds then set { s with err := e.soError } else setErrno EBADF

/-- An output event. -/
def outputEvent (e : Event) : TmsM Unit := do
  fetchError e
  let s ← get
  if s.err = 0 ∨ s.err = EAGAIN then
    if (← handleEPOEvent e.fd) = -1 then shutdownFd e.fd else pure ()
  else pure ()

/-- The output part of the loop's body. -/
def outputPart (e : Event) : TmsM Unit := if e.out then outputEvent e else pure ()

/-- The body of the loop. -/
def handleEvent (e : Event) : TmsM Unit := do
  modify (·.load e)
  if e.inn then
    if e.fd = listenFd then
      acceptConn e
      outputPart e
    else if ← inputEvent e then outputPart e
    else pure ()
  else outputPart e

/-! ### Start-up -/

/-- A connection to a service, as `CreateDnsConn` and its siblings leave it. -/
def serviceConnect (type : ConnType) (fd still : ℕ) (mem : Buff) : Connect :=
  { sockFd := fd
    type := type
    dec := { cstate := .header, h := 0, stillneedtoread := still, offset := 0, buff := mem } }

/-- The initial name cache. -/
def initCache : Host → Option ℕ := fun h =>
  if h = "localhost".toUTF8.toList then some 0x7f000001
  else if h = "aliyuntest".toUTF8.toList then some 0x0a18ab87
  else if h = "icloudata".toUTF8.toList then some 0x0a19e7a5
  else none

/-- The state when the loop starts: descriptors 3 and 4 are the listening socket and the epoll
instance, 5, 6 and 7 the connections to the name server, the center and the inspector.  The
variables `errno` and `err` hold anything. -/
def Server.init (accurate : Bool) (errno err : ℕ) (mem : Buff) : Server where
  accurate := accurate
  conns := fun p => match p with
    | 0 => some (serviceConnect .dns 5 buffSize mem)
    | 1 => some (serviceConnect .center 6 hdrSize mem)
    | 2 => some (serviceConnect .dpi 7 hdrSize mem)
    | _ => none
  nextConn := 3
  connMap := fun fd => match fd with
    | 5 => some 0
    | 6 => some 1
    | 7 => some 2
    | _ => none
  dnsConnPool := [0]
  centerConnPool := [1]
  dpiConnPool := [2]
  scbs := fun _ => {}
  nextScb := 0
  scbFreeList := []
  avalPcbId := 0
  userMap := fun _ => none
  avalForwardId := 1
  cache := initCache
  waitingScb := []
  openFds := [7, 6, 5, 4, 3, 2, 1, 0]
  shutFds := []
  epoll := fun fd => if fd ∈ [3, 5, 6, 7] then some ⟨true, false, true⟩ else none
  peer := fun _ => none
  errno := errno
  err := err
  now := ⟨0, 0⟩
  random := 0
  mem := mem
  sends := []
  socks := []
  log := []

/-! ### Reachable states -/

/-- The kernel can report the event: its descriptor is registered for it (errors need no
registration). -/
def Server.Reports (s : Server) (e : Event) : Prop :=
  ∃ m, s.epoll e.fd = some m ∧ (e.inn → m.inn) ∧ (e.out → m.out)

instance (s : Server) (e : Event) : Decidable (s.Reports e) :=
  decidable_of_iff ((s.epoll e.fd).any fun m => (!e.inn || m.inn) && (!e.out || m.out)) <| by
    cases h : s.epoll e.fd <;> simp [Server.Reports, h, imp_iff_not_or]

/-- The states of the loop started in `s₀`, with the events of the current batch that are still
to be handled. -/
inductive Reachable (s₀ : Server) : Server → List Event → Prop
  | start : Reachable s₀ s₀ []
  | wait {s : Server} (batch : List Event) (h : Reachable s₀ s [])
      (hr : ∀ e ∈ batch, s.Reports e) (hd : (batch.map (·.fd)).Nodup) : Reachable s₀ s batch
  | event {s s' : Server} {e : Event} {rest : List Event} (h : Reachable s₀ s (e :: rest))
      (he : handleEvent e s = .ok ((), s')) : Reachable s₀ s' rest

/-- Handle the events of a batch. -/
def handleBatch : List Event → Server → Option Server
  | [], s => some s
  | e :: rest, s =>
      match handleEvent e s with
      | .ok (_, s') => handleBatch rest s'
      | .error _ => none

/-- Run the loop on a list of batches: none if a batch cannot be reported or the program stops. -/
def mainLoop : List (List Event) → Server → Option Server
  | [], s => some s
  | batch :: rest, s =>
      if (∀ e ∈ batch, s.Reports e) ∧ (batch.map (·.fd)).Nodup then
        (handleBatch batch s).bind (mainLoop rest)
      else none

theorem handleBatch_reachable {s₀ s s' : Server} {batch : List Event} (h : Reachable s₀ s batch)
    (hb : handleBatch batch s = some s') : Reachable s₀ s' [] := by
  induction batch generalizing s with
  | nil =>
      cases hb
      exact h
  | cons e rest ih =>
      rw [handleBatch] at hb
      split at hb
      · next he => exact ih (.event h he) hb
      · cases hb

/-- What the loop computes is reachable. -/
theorem mainLoop_reachable {s₀ s s' : Server} {batches : List (List Event)}
    (h : Reachable s₀ s []) (hr : mainLoop batches s = some s') : Reachable s₀ s' [] := by
  induction batches generalizing s with
  | nil =>
      cases hr
      exact h
  | cons batch rest ih =>
      rw [mainLoop] at hr
      split_ifs at hr with hb
      obtain ⟨s₁, h₁, hr⟩ := Option.bind_eq_some_iff.mp hr
      exact ih (handleBatch_reachable (.wait batch h hb.1 hb.2) h₁) hr

end HttpsTunnel.Tms

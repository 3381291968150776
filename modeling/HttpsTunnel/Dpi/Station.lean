import HttpsTunnel.Dpi.Manager
import HttpsTunnel.Lib.Framing

/-! # The connections of the DPI

`ConnectMgr.cpp` and the loop of `main.cpp`: the DPI is connected to the recorder (`center`), the tunnel servers
connect to it, and both send it messages.  The thread that captures packets runs beside the loop; one of its packets
is a step of its own.

* A `Connect*` is a `Ptr` into `conns`; a deleted object is absent there, and following a pointer to it is a fault.
* What the kernel decides (the result of a `send`, the descriptor of a new connection) comes with each event. -/

namespace HttpsTunnel.Dpi

open HttpsTunnel.Lib HttpsTunnel.Wire

abbrev Ptr := ℕ

/-- `Conn_type`, as far as it is used: `Reset` sets it to 0, the type of a tunnel. -/
inductive ConnType where
  | tunnel
  | center
  | tms
deriving DecidableEq, Repr

/-- Size of `Connect::buff`. -/
def buffSize : ℕ := 8192

/-- `Connect`. -/
structure Connect where
  sockFd : ℕ := 0
  type : ConnType := .tunnel
  exit : Bool := false
  /-- `cstate`, `h`, `stillneedtoread`, `offset` and `buff`. -/
  dec : Decoder

/-- Epoll interest of a descriptor. -/
structure Mask where
  inn : Bool
  out : Bool
deriving DecidableEq, Repr

/-- What a `send` returns: a number of bytes, or a failure with its `errno`. -/
inductive SendRes where
  | sent (n : ℕ)
  | fail (errno : ℕ)
deriving DecidableEq, Repr

/-- The points at which the behaviour of the program is no longer defined. -/
inductive Fault where
  | useAfterFree
  | overflow
  | emptyPool
deriving DecidableEq, Repr

/-- The state of the DPI. -/
structure Station where
  mgr : LvldbMgr
  conns : Ptr → Option Connect
  nextConn : Ptr
  connMap : ℕ → Option Ptr
  centerConnPool : List Ptr
  openFds : List ℕ
  epoll : ℕ → Option Mask
  errno : ℕ
  /-- The variable `err` of `dpi_run`. -/
  err : ℕ
  clock : Clock
  /-- The contents of newly allocated memory. -/
  mem : Buff
  sends : List SendRes
  /-- The reports sent to the recorder, with the connection used. -/
  reports : List (Ptr × TrafficReport)

abbrev DpiM := Prog Station Fault

/-! ### Pointers and descriptors -/

/-- Follow a `Connect*`. -/
def deref (p : Ptr) : DpiM Connect := do
  match (← get).conns p with
  | none => throw .useAfterFree
  | some c => pure c

/-- Assign fields of a connection object. -/
def Station.setConn (s : Station) (p : Ptr) (c : Connect) : Station :=
  { s with conns := Function.update s.conns p (some c) }

def setErrno (e : ℕ) : DpiM Unit := modify (fun s => { s with errno := e })

def ENOENT : ℕ := 2
def EINTR : ℕ := 4
def EBADF : ℕ := 9
def EEXIST : ℕ := 17

/-- `ConnectMgr::AddEvent`. -/
def addEvent (fd : ℕ) (m : Mask) : DpiM Unit := do
  match (← get).epoll fd with
  | some _ => setErrno EEXIST
  | none => modify (fun s => { s with epoll := Function.update s.epoll fd (some m) })

/-- `ConnectMgr::RemoveEvent`. -/
def removeEvent (fd : ℕ) : DpiM Unit := do
  match (← get).epoll fd with
  | none => setErrno ENOENT
  | some _ => modify (fun s => { s with epoll := Function.update s.epoll fd none })

/-- `close`. -/
def closeFd (fd : ℕ) : DpiM Unit := do
  let s ← get
  if fd ∈ s.openFds then
    set { s with openFds := s.openFds.filter (· ≠ fd), epoll := Function.update s.epoll fd none }
  else setErrno EBADF

/-! ### Messages -/

/-- `ConnectMgr::GetCenterConn`. -/
def getCenterConn : DpiM Ptr := do
  match (← get).centerConnPool with
  | [] => throw .emptyPool
  | p :: _ => pure p

/-- `SendTmsMsg`; whether it succeeds is only printed. -/
def sendTmsMsg (p : Ptr) (r : TrafficReport) : DpiM Unit := do
  let _ ← deref p
  let s ← get
  match s.sends with
  | .fail e :: rest => set { s with sends := rest, errno := e }
  | .sent _ :: rest => set { s with sends := rest, reports := s.reports ++ [(p, r)] }
  | [] => set { s with reports := s.reports ++ [(p, r)] }

/-- A call of the manager, and the report it makes. -/
def callMgr (c : Call) : DpiM Unit := do
  let s ← get
  set { s with mgr := (s.mgr.call c).1 }
  match (s.mgr.call c).2 with
  | none => pure ()
  | some r => sendTmsMsg (← getCenterConn) r

/-- `Connect::HandleRecvMsg`. -/
def handleRecvMsg (p : Ptr) (msglen : ℕ) : DpiM ℤ := do
  let b := (← deref p).dec.buff
  if msglen < 4 then pure (-1)
  else
    match MsgId.ofNat? (msgId b) with
    | some .synUserTuple =>
        callMgr (.login (SynUserTuple.read b))
        pure 0
    | some .trafficReportRsp =>
        callMgr (.reply (TrafficReportRsp.read b).ip (← get).clock)
        pure 0
    | _ => pure 0

/-- Connection `p` as an endpoint of the read loop.  There is no forward branch: nothing switches a connection of the
DPI to forward mode, and what would be read in it is left in the buffer. -/
def endpoint (p : Ptr) : Endpoint Station Fault where
  fmt := hdrFormat
  size := buffSize
  view s := (s.conns p).map (·.dec)
  put d s := match s.conns p with
    | some c => s.setConn p { c with dec := d }
    | none => s
  errno e s := { s with errno := e }
  onRead _ s := s
  onMsg _ := do
    let _ ← handleRecvMsg p (← deref p).dec.h
    pure none
  onForward _ := pure none

/-- The fault that ends a run of the read loop. -/
def Fault.ofLoop : LoopFault Fault → Fault
  | .freed => .useAfterFree
  | .overflow => .overflow
  | .handler e => e

/-- `Connect::StreamRecvEvent`. -/
def streamRecvEvent (p : Ptr) (reads : List ReadRes) : DpiM ℤ := do
  let r ← mapFault Fault.ofLoop (recvLoop (endpoint p) reads)
  pure r.code

/-! ### Event handlers -/

/-- `Connect::Reset`; the assignment to `offset` goes to a local variable. -/
def Connect.reset (c : Connect) : Connect :=
  { c with sockFd := 2 ^ 64 - 1, type := .tunnel, dec := { c.dec with stillneedtoread := 0, cstate := .header } }

/-- A new connection object. -/
def Connect.fresh (mem : Buff) : Connect where
  dec := ⟨.header, 0, 0, 0, mem⟩

/-- The assignments of `HandleAcceptEvent`: whoever connects is taken for a tunnel server. -/
def Connect.accepted (c : Connect) (fd : ℕ) : Connect :=
  { c with sockFd := fd, type := .tms, dec := { c.dec with stillneedtoread := hdrSize } }

/-- `ConnectMgr::HandleAcceptEvent`, for a descriptor the kernel returned. -/
def handleAcceptEvent (fd : ℕ) : DpiM Unit := do
  let s ← get
  match s.connMap fd with
  | some p =>
      let c ← deref p
      set { s.setConn p (c.reset.accepted fd) with openFds := fd :: s.openFds }
  | none =>
      set { s.setConn s.nextConn ((Connect.fresh s.mem).accepted fd) with
        nextConn := s.nextConn + 1
        connMap := Function.update s.connMap fd (some s.nextConn)
        openFds := fd :: s.openFds }

/-- `Connect::~Connect`. -/
def destroy (p : Ptr) : DpiM Unit := do
  let c ← deref p
  if 0 < c.sockFd then
    removeEvent c.sockFd
    closeFd c.sockFd
  modify (fun s => { s with conns := Function.update s.conns p none })

/-- `ConnectMgr::RemoveConn`. -/
def removeConn (fd : ℕ) : DpiM Unit := do
  match (← get).connMap fd with
  | none => pure ()
  | some p =>
      let c ← deref p
      if c.type = .center then modify (fun s => { s with centerConnPool := s.centerConnPool.erase p })
      destroy p
      modify (fun s => { s with connMap := Function.update s.connMap fd none })

/-- `ConnectMgr::HandleRecvEvent`. -/
def handleRecvEvent (fd : ℕ) (reads : List ReadRes) : DpiM ℤ := do
  match (← get).connMap fd with
  | none => pure (-2)
  | some p =>
      let ret ← streamRecvEvent p reads
      if ret = -1 then pure ret
      else
        let c ← deref p
        if c.exit then
          removeConn c.sockFd
          pure ret
        else pure ret

/-! ### The loop -/

/-- An event of the loop, with what the kernel and the clock answer while it is handled. -/
structure LoopEvent where
  fd : ℕ
  inn : Bool := false
  out : Bool := false
  /-- `EPOLLERR` is set. -/
  err : Bool := false
  reads : List ReadRes := []
  /-- The descriptor `accept` returns. -/
  accept : Option ℕ := none
  sends : List SendRes := []
  /-- `SO_ERROR`. -/
  soError : ℕ := 0
  clock : Clock := {}
  mem : Buff := fun _ => 0

/-- `m_socket`. -/
def listenFd : ℕ := 3

/-- The environment's part of an event. -/
def Station.load (s : Station) (e : LoopEvent) : Station :=
  { s with sends := e.sends, clock := e.clock, mem := e.mem }

/-- An event of the listening socket. -/
def acceptConn (e : LoopEvent) : DpiM Unit := do
  let s ← get
  match e.accept with
  | some fd =>
      if 0 < fd ∧ fd ∉ s.openFds then
        handleAcceptEvent fd
        addEvent fd ⟨true, true⟩
      else setErrno EBADF
  | none => setErrno EAGAIN

/-- `HandleRecvEvent` returned -1: a read that would block, or a connection to close. -/
def recvFailed (e : LoopEvent) : DpiM Unit := do
  if (← get).errno = EAGAIN then pure ()
  else if e.err then
    removeConn e.fd
    closeFd e.fd
  else removeConn e.fd

/-- An input event of a connection.  True: the loop goes on to the output part. -/
def inputEvent (e : LoopEvent) : DpiM Bool := do
  let ret ← handleRecvEvent e.fd e.reads
  if ret = -2 then pure false
  else if ret = -1 then
    recvFailed e
    pure false
  else if ret = 0 then
    if (← get).err ≠ EINTR then
      removeConn e.fd
      pure false
    else pure true
  -- no other code is returned
  else pure true

/-- The output part: `HandleEPOEvent` does nothing, so that only `getsockopt` has an effect. -/
def outputPart (e : LoopEvent) : DpiM Unit := do
  if e.out then
    let s ← get
    if e.fd ∈ s.openFds then set { s with err := e.soError } else setErrno EBADF
  else pure ()

/-- The body of the loop. -/
def handleEvent (e : LoopEvent) : DpiM Unit := do
  modify (·.load e)
  if e.inn then
    if e.fd = listenFd then
      acceptConn e
      outputPart e
    else if ← inputEvent e then outputPart e
    else pure ()
  else outputPart e

/-- A packet captured by the other thread, `tmsAddr` being the address of the TMS. -/
def capture (tmsAddr : ℕ) (pkt : Packet) (t : Clock) : DpiM Unit := callMgr (dpiPacketProcess tmsAddr pkt t)

/-- The state when the loop starts: descriptors 3 and 4 are the listening socket and the epoll instance, 5 is the
connection to the recorder.  The variables `errno` and `err` hold anything. -/
def Station.init (errno err : ℕ) (mem : Buff) : Station where
  mgr := .init
  conns := fun p => if p = 0 then some { sockFd := 5, type := .center, dec := ⟨.header, 0, hdrSize, 0, mem⟩ } else none
  nextConn := 1
  connMap := fun fd => if fd = 5 then some 0 else none
  centerConnPool := [0]
  openFds := [5, 4, 3, 2, 1, 0]
  epoll := fun fd => if fd = 3 ∨ fd = 5 then some ⟨true, false⟩ else none
  errno := errno
  err := err
  clock := {}
  mem := mem
  sends := []
  reports := []

end HttpsTunnel.Dpi

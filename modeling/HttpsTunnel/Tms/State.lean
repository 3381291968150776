import HttpsTunnel.Wire.Message

/-! # State of the tunnel server (TMS)

`Server` collects everything the server's handlers read and write: the connection objects and
the connection table (`ConnectMgr`), the stream control blocks and their free list
(`SCBMgr`), the users (`UserMgr`), the name cache and the waiting streams (`DnsCache`), and
the part of the kernel a handler can observe (open descriptors, epoll registrations,
`errno`).

* A `Connect*` is a `Ptr` into `conns`; a deleted object is absent there, and following a
  pointer to it is a fault.  Addresses are not reused: what a program does after following
  a stale pointer is not described further.
* An `SCB*` is a `ScbPtr` into `scbs`; stream control blocks are recycled and never deleted.
* A `User*` is the `UserId` of the user; users are never deleted.
* What the kernel and the peers decide (the result of a `send`, the descriptor of a new
  socket) is taken from scripts that each event brings along.
* `log` records what happens at the interface of the server: messages handled, bytes
  forwarded, descriptors created.  The code does not read it. -/

namespace HttpsTunnel.Tms

open HttpsTunnel.Lib HttpsTunnel.Wire

abbrev Ptr := ℕ
abbrev ScbPtr := ℕ
abbrev Host := List UInt8

/-- `timeval`. -/
structure Timeval where
  sec : ℕ
  usec : ℕ
deriving DecidableEq, Repr

/-- `UserId`. -/
structure UserId where
  mobile : ℕ
  app : ℕ
deriving DecidableEq, Repr

/-- `Conn_type`. -/
inductive ConnType where
  | tunnel
  | agent
  | dns
  | center
  | proxy
  | dpi
  | tms
  | dsp
deriving DecidableEq, Repr

/-- `Sock_stat`. -/
inductive SockStat where
  | offline
  | online
  | inprogress
  | hangup
deriving DecidableEq, Repr

/-- The number of a `Trans_stat`. -/
def transStatNum : Mode → ℕ
  | .header => 0
  | .body => 1
  | .forward => 2
  | .wait => 3

/-- The `Sock_stat` with a given number: `status` is a byte, and `HandleEPOEvent` assigns it a
`Trans_stat`. -/
def SockStat.ofNum : ℕ → SockStat
  | 0 => .offline
  | 1 => .online
  | 2 => .inprogress
  | _ => .hangup

/-- `User_stat`. -/
inductive UserStat where
  | invalid
  | validated
  | nobalance
deriving DecidableEq, Repr

/-- Size of `Connect::buff`. -/
def buffSize : ℕ := 8192

/-- `Connect`. -/
structure Connect where
  sockFd : ℕ := 0
  status : SockStat := .offline
  type : ConnType := .tunnel
  sdkVerified : Bool := false
  agentStatus : Bool := false
  exit : Bool := false
  app : ℕ := 0
  mobile : ℕ := 0
  token : List UInt8 := List.replicate tokenSize 0
  destPort : ℕ := 80
  user : Option UserId := none
  scb : Option ScbPtr := none
  currHost : Host := []
  trafficTmp : ℕ := 0
  beginTime : Timeval := ⟨0, 0⟩
  /-- `cstate`, `h`, `stillneedtoread`, `offset` and `buff`. -/
  dec : Decoder := ⟨.header, 0, 0, 0, fun _ => 0⟩
  datalen : ℕ := 0

/-- `SCB`, a stream control block. -/
structure SCB where
  scbid : ℕ := 0
  user : Option UserId := none
  forwardId : ℕ := 0
  agentFd : ℕ := 0
  tunnFd : ℕ := 0
  traffic : ℕ := 0
  agentConn : Option Ptr := none
  tunnelConn : Option Ptr := none
  lastActiveTime : Timeval := ⟨0, 0⟩
  destPort : ℕ := 80
  status : UserStat := .invalid
  connected : Bool := false
deriving DecidableEq, Repr

/-- `User`; its `mobile` and `app` are those of the `UserId` it is found under. -/
structure User where
  traffic : ℕ := 0
  balance : ℤ := 0
  accuStartTime : Timeval := ⟨2 ^ 63 - 1, 2 ^ 63 - 1⟩
  reporting : Bool := false
  conReport : ℕ := 0
  scbTree : ℕ → Option ScbPtr := fun _ => none

/-- A waiting stream (`USCBId`). -/
structure Waiter where
  host : Host
  user : UserId
  scbid : ℕ
deriving DecidableEq, Repr

/-- Epoll interest of a descriptor. -/
structure Mask where
  inn : Bool
  out : Bool
  et : Bool
deriving DecidableEq, Repr

/-- What a `send` returns: a number of bytes accepted, or a failure with its `errno`. -/
inductive SendRes where
  | sent (n : ℕ)
  | fail (errno : ℕ)
deriving DecidableEq, Repr

/-- What `socket` and the non-blocking `connect` return for a new agent: a descriptor, with the
connection already made or in progress, or a failure. -/
inductive SockRes where
  | opened (fd : ℕ) (inprogress : Bool)
  | fail (errno : ℕ)
deriving DecidableEq, Repr

/-- What a traffic report says. -/
structure Report where
  user : UserId
  traffic : ℕ
  btime : Timeval
  etime : Timeval
deriving DecidableEq, Repr

/-- Direction of a forwarded byte: from the tunnel to the agent, or back. -/
inductive Dir where
  | up
  | down
deriving DecidableEq, Repr

/-- What a charge finds, and how much is charged: the status of the stream and the balance of its user. -/
structure Charge where
  status : UserStat
  balance : ℤ
  due : ℕ

/-- What is recorded in the log. -/
inductive Obs where
  /-- `HandleRecvMsg` is called on `p`, whose fields are `c`, with a message of `len` bytes. -/
  | msg (p : Ptr) (c : Connect) (len : ℕ)
  /-- `bs` was read from `p` in forward mode: `c` are the fields of `p`, `shut` says that its
  socket has been shut down, `tn` are the fields of the tunnel of its stream, and `charge` is what
  charging the bytes to its stream will find. -/
  | fwd (p : Ptr) (c : Connect) (shut : Bool) (tn : Option Connect) (charge : Option Charge) (bs : List UInt8)
  /-- Bytes read from one side of a stream were accepted by the socket of the other. -/
  | relay (dir : Dir) (tunnel agent : Ptr) (bs : List UInt8)
  /-- Bytes of the server's own were accepted by the socket of `dst`. -/
  | ctl (dst : Ptr) (bs : List UInt8)
  /-- A message sent on tunnel `p` is going to be charged. -/
  | sent (p : Ptr) (charge : Option Charge)
  /-- A token request is made on behalf of `p`. -/
  | tokenReq (p : Ptr) (req : ReadTokenReq)
  /-- A token reply with code 0 and the token of `client` is processed on connection `p` of type
  `ty`, and the balance of `user` is set. -/
  | auth (p : Ptr) (ty : ConnType) (client : Ptr) (rsp : ReadTokenRsp) (user : UserId)
  /-- Charging a validated stream found its balance below the limit: while `p` was read, with the
  value of `errno`, or, with none, while pending data was flushed to `p`. -/
  | cutoff (p tunnel : Ptr) (errno : Option ℕ)
  /-- A descriptor was created for `p`. -/
  | newfd (fd : ℕ) (p : Ptr)
  /-- An agent `p` was started to `ip:port` for user `u` and tunnel `tn`, whose stream was `k`. -/
  | connect (p : Ptr) (ip port : ℕ) (u : UserId) (tn : Ptr) (k : Option SCB)
  /-- User `u` on `tunnel`, whose stream was `k`, waits for the address of `host`, to connect to
  `port`; the stream that waits is `scbid`. -/
  | wait (host : Host) (u : UserId) (scbid : ℕ) (tunnel : Ptr) (port : ℕ) (k : Option SCB)
  /-- The streams that waited for `host` have been informed. -/
  | answer (host : Host)
  /-- `InformShutdownUser` gave up agent `p`. -/
  | agentDown (p : Ptr)
  /-- A report printed as `[traffic report tr]`. -/
  | report (r : Report)

/-- The points at which the behaviour of the program is no longer defined. -/
inductive Fault where
  | nullDeref
  | useAfterFree
  | overflow
  | emptyPool
deriving DecidableEq, Repr

/-- The state of the server. -/
structure Server where
  /-- Built with `ACCURATE_TRAFFIC`. -/
  accurate : Bool
  conns : Ptr → Option Connect
  nextConn : Ptr
  connMap : ℕ → Option Ptr
  dnsConnPool : List Ptr
  centerConnPool : List Ptr
  dpiConnPool : List Ptr
  scbs : ScbPtr → SCB
  nextScb : ScbPtr
  scbFreeList : List ScbPtr
  avalPcbId : ℕ
  userMap : UserId → Option User
  avalForwardId : ℕ
  cache : Host → Option ℕ
  waitingScb : List Waiter
  /-- Open descriptors. -/
  openFds : List ℕ
  /-- Descriptors shut down by the main loop. -/
  shutFds : List ℕ
  epoll : ℕ → Option Mask
  /-- Peer address of a descriptor: address and port in network order. -/
  peer : ℕ → Option (ℕ × ℕ)
  errno : ℕ
  /-- The variable `err` of `main`. -/
  err : ℕ
  now : Timeval
  /-- The next value of `random`. -/
  random : ℕ
  /-- The contents of newly allocated memory. -/
  mem : Buff
  sends : List SendRes
  socks : List SockRes
  log : List Obs

abbrev TmsM := Prog Server Fault

/-! ### Pointers -/

/-- Follow a `Connect*`. -/
def deref (p : Ptr) : TmsM Connect := do
  match (← get).conns p with
  | none => throw .useAfterFree
  | some c => pure c

theorem deref_eq {s : Server} {p : Ptr} {c : Connect} (h : s.conns p = some c) : deref p s = .ok (c, s) := by
  rw [deref, run_get_bind]
  rewrite [h]
  rfl

theorem deref_none {s : Server} {p : Ptr} (h : s.conns p = none) : deref p s = .error .useAfterFree := by
  rw [deref, run_get_bind]
  rewrite [h]
  rfl

/-- Follow a pointer that may be null. -/
def nonNull {α : Type} : Option α → TmsM α
  | none => throw .nullDeref
  | some a => pure a

/-- Assign fields of a connection object. -/
def Server.setConn (s : Server) (p : Ptr) (c : Connect) : Server :=
  { s with conns := Function.update s.conns p (some c) }

/-- Update the fields of `*p`. -/
def modConn (p : Ptr) (f : Connect → Connect) : TmsM Unit := do
  let c ← deref p
  modify (fun s => s.setConn p (f c))

def Server.setScb (s : Server) (k : ScbPtr) (b : SCB) : Server :=
  { s with scbs := Function.update s.scbs k b }

/-- Update the fields of `*k`. -/
def modScb (k : ScbPtr) (f : SCB → SCB) : TmsM Unit :=
  modify (fun s => s.setScb k (f (s.scbs k)))

def getScb (k : ScbPtr) : TmsM SCB := do
  return (← get).scbs k

theorem run_getScb_bind {α : Type} (k : ScbPtr) (f : SCB → TmsM α) (s : Server) :
    (getScb k >>= f) s = f (s.scbs k) s := rfl

def Server.setUser (s : Server) (u : UserId) (v : User) : Server :=
  { s with userMap := Function.update s.userMap u (some v) }

/-- Follow a `User*`. -/
def derefUser (u : UserId) : TmsM User := do
  nonNull ((← get).userMap u)

def modUser (u : UserId) (f : User → User) : TmsM Unit := do
  let v ← derefUser u
  modify (fun s => s.setUser u (f v))

def Server.emit (s : Server) (o : Obs) : Server := { s with log := s.log ++ [o] }

def emit (o : Obs) : TmsM Unit := modify (fun s => s.emit o)

/-- `_ConnMap[fd] = p` and `_ConnMap.erase(fd)`. -/
def Server.setMap (s : Server) (fd : ℕ) (p : Option Ptr) : Server :=
  { s with connMap := Function.update s.connMap fd p }

def mapErase (fd : ℕ) : TmsM Unit := modify (fun s => s.setMap fd none)

section Rules

variable {α : Type} {F : Fault → Prop} {s : Server}

@[simp] theorem wpe_deref {p : Ptr} {Q : Connect → Server → Prop} :
    wpe (deref p) Q F s ↔
      (s.conns p = none → F .useAfterFree) ∧ ∀ c, s.conns p = some c → Q c s := by
  simp only [deref, wpe_bind, wpe_get]
  cases s.conns p <;> simp

@[simp] theorem wpe_nonNull {o : Option α} {Q : α → Server → Prop} :
    wpe (nonNull o) Q F s ↔ (o = none → F .nullDeref) ∧ ∀ a, o = some a → Q a s := by
  cases o <;> simp [nonNull]

@[simp] theorem wpe_modConn {p : Ptr} {f : Connect → Connect} {Q : Unit → Server → Prop} :
    wpe (modConn p f) Q F s ↔
      (s.conns p = none → F .useAfterFree) ∧
        ∀ c, s.conns p = some c → Q () (s.setConn p (f c)) := by
  simp only [modConn, wpe_bind, wpe_deref, wpe_modify]

@[simp] theorem wpe_getScb {k : ScbPtr} {Q : SCB → Server → Prop} :
    wpe (getScb k) Q F s ↔ Q (s.scbs k) s := Iff.rfl

@[simp] theorem wpe_modScb {k : ScbPtr} {f : SCB → SCB} {Q : Unit → Server → Prop} :
    wpe (modScb k f) Q F s ↔ Q () (s.setScb k (f (s.scbs k))) := Iff.rfl

@[simp] theorem wpe_derefUser {u : UserId} {Q : User → Server → Prop} :
    wpe (derefUser u) Q F s ↔
      (s.userMap u = none → F .nullDeref) ∧ ∀ v, s.userMap u = some v → Q v s := by
  simp only [derefUser, wpe_bind, wpe_get, wpe_nonNull]

@[simp] theorem wpe_modUser {u : UserId} {f : User → User} {Q : Unit → Server → Prop} :
    wpe (modUser u f) Q F s ↔
      (s.userMap u = none → F .nullDeref) ∧
        ∀ v, s.userMap u = some v → Q () (s.setUser u (f v)) := by
  simp only [modUser, wpe_bind, wpe_derefUser, wpe_modify]

@[simp] theorem wpe_emit {o : Obs} {Q : Unit → Server → Prop} :
    wpe (emit o) Q F s ↔ Q () (s.emit o) := Iff.rfl

@[simp] theorem wpe_mapErase {fd : ℕ} {Q : Unit → Server → Prop} :
    wpe (mapErase fd) Q F s ↔ Q () (s.setMap fd none) := Iff.rfl

end Rules

/-! ### Kernel -/

def EINTR : ℕ := 4
def EBADF : ℕ := 9
def ENOENT : ℕ := 2
def EEXIST : ℕ := 17
def EMFILE : ℕ := 24
def EPIPE : ℕ := 32
def EINPROGRESS : ℕ := 115

def setErrno (e : ℕ) : TmsM Unit := modify (fun s => { s with errno := e })

/-- A descriptor the kernel can give out: an `int` that is not in use (0 is). -/
def Server.fdFree (s : Server) (fd : ℕ) : Prop := 0 < fd ∧ fd < 2 ^ 31 ∧ fd ∉ s.openFds

instance (s : Server) (fd : ℕ) : Decidable (s.fdFree fd) :=
  inferInstanceAs (Decidable (_ ∧ _ ∧ _))

/-- The kernel has a socket to give. -/
def Server.canOpen (s : Server) : Bool :=
  match s.socks with
  | .opened fd _ :: _ => s.fdFree fd
  | _ => false

/-- `socket` and `connect`: the descriptor, none on failure. -/
def sockOpen : TmsM (Option ℕ) := do
  let s ← get
  match s.socks with
  | .opened fd inprogress :: rest =>
      if s.fdFree fd then
        set { s with socks := rest, errno := if inprogress then EINPROGRESS else s.errno }
        pure (some fd)
      else
        set { s with socks := rest, errno := EMFILE }
        pure none
  | .fail e :: rest =>
      set { s with socks := rest, errno := e }
      pure none
  | [] =>
      setErrno EMFILE
      pure none

/-- `send(fd, bs, MSG_NOSIGNAL)`: the number of bytes accepted, none on failure. -/
def sockSend (fd : ℕ) (bs : List UInt8) : TmsM (Option ℕ) := do
  let s ← get
  if fd ∉ s.openFds then
    setErrno EBADF
    pure none
  else if fd ∈ s.shutFds then
    setErrno EPIPE
    pure none
  else
    match s.sends with
    | [] => pure (some bs.length)
    | .sent n :: rest =>
        set { s with sends := rest }
        pure (some (min n bs.length))
    | .fail e :: rest =>
        set { s with sends := rest, errno := e }
        pure none

/-- `close(fd)`: the descriptor leaves the epoll set with its socket. -/
def closeFd (fd : ℕ) : TmsM Unit := do
  let s ← get
  if fd ∈ s.openFds then
    set { s with
      openFds := s.openFds.filter (· ≠ fd)
      shutFds := s.shutFds.filter (· ≠ fd)
      epoll := Function.update s.epoll fd none }
  else setErrno EBADF

/-- `shutdown(fd, SHUT_RDWR)`. -/
def shutdownFd (fd : ℕ) : TmsM Unit := do
  let s ← get
  if fd ∈ s.openFds then set { s with shutFds := fd :: s.shutFds }
  else setErrno EBADF

/-- `ConnectMgr::AddEvent`. -/
def addEvent (fd : ℕ) (m : Mask) : TmsM ℤ := do
  match (← get).epoll fd with
  | some _ =>
      setErrno EEXIST
      pure (-1)
  | none =>
      modify (fun s => { s with epoll := Function.update s.epoll fd (some m) })
      pure 0

/-- `ConnectMgr::RemoveEvent`: the whole registration goes, whatever events are named. -/
def removeEvent (fd : ℕ) : TmsM ℤ := do
  match (← get).epoll fd with
  | none =>
      setErrno ENOENT
      pure (-1)
  | some _ =>
      modify (fun s => { s with epoll := Function.update s.epoll fd none })
      pure 0

/-- `ConnectMgr::ModifyEvent`. -/
def modifyEvent (fd : ℕ) (m : Mask) : TmsM ℤ := do
  match (← get).epoll fd with
  | none =>
      setErrno ENOENT
      pure (-1)
  | some _ =>
      modify (fun s => { s with epoll := Function.update s.epoll fd (some m) })
      pure 0

end HttpsTunnel.Tms

import HttpsTunnel.Wire.Message
import HttpsTunnel.Lib.CString
import HttpsTunnel.Lib.Decimal

/-! # State of the client library (SDK)

`State` collects what the handlers of the SDK's event loop read and write: the connection objects
and the connection table (`ConnectMgr`), the settings (`YMEGet`), the two traffic counters, and the
part of the kernel a handler can observe.

* A `Connect*` is a `Ptr` into `conns`; following a pointer to an absent object is a fault.
* An entry of the table may be a null pointer: `_ConnMap[fd]` inserts one for an unknown `fd`.
* What the kernel and the peers decide (the result of a `write`, the descriptor of a new socket) is
  taken from scripts; a write beyond its script is accepted in full.
* `log` records what happens at the interface of the SDK.  The code does not read it. -/

namespace HttpsTunnel.Sdk

open HttpsTunnel.Lib HttpsTunnel.Wire

abbrev Ptr := ℕ
abbrev Host := List UInt8

/-- `Conn_type`. -/
inductive ConnType where
  | tunnel
  | agent
  | dns
  | center
  | proxy
  | dpi
  | tms
  | dsp
deriving DecidableEq, Repr

/-- `Sock_stat`. -/
inductive SockStat where
  | offline
  | online
  | inprogress
  | hangup
  | disconnected
deriving DecidableEq, Repr

/-- `http_version`: how the browser uses the proxy. -/
inductive HttpVersion where
  | http
  | https
deriving DecidableEq, Repr

/-- `ReplyType`, as far as it is a result of a login. -/
inductive ReplyType where
  | serverNotUp
  | hostNotExist
  | userNotExist
  | incorrectToken
  | noBalance
  | exception
deriving DecidableEq, Repr

def ReplyType.code : ReplyType → ℤ
  | serverNotUp => -10
  | hostNotExist => -9
  | userNotExist => -8
  | incorrectToken => -7
  | noBalance => -6
  | exception => -4

def ReplyType.text : ReplyType → String
  | serverNotUp => ": ServerNotUp"
  | hostNotExist => ": HostNotExist"
  | userNotExist => ": UserNotExist"
  | incorrectToken => ": Incorrect Token"
  | noBalance => ": Insufficient Balance"
  | exception => ": Exception"

/-- `YMEReturnCode`. -/
def returnCode (r : ReplyType) : String :=
  "Return Code " ++ String.ofList (decimalInt r.code) ++ r.text

/-- Size of `Connect::r_buff`. -/
def buffSize : ℕ := 4096

/-- `Connect`. -/
structure Connect where
  sockFd : ℕ := 0
  status : SockStat := .offline
  type : ConnType := .tunnel
  verified : Bool := false
  httpVersion : HttpVersion := .http
  peer : Option Ptr := none
  httpTransmitLen : ℕ := 0
  avalTraffic : ℕ := 0
  uid : ℕ := 0
  mobile : ℕ := 0
  /-- The text in `auth`. -/
  auth : List UInt8 := []
  loginCode : ℤ := 0
  host : Host := []
  webPort : ℕ := 80
  /-- `cstate`, `h`, `stillneedtoread`, `r_offset` and `r_buff`. -/
  dec : Decoder := ⟨.header, 0, 0, 0, fun _ => 0⟩
  rDataLen : ℕ := 0

/-- What a connection is: its kind, its peer and its descriptor. -/
def Connect.ident (c : Connect) : ConnType × Option Ptr × ℕ := (c.type, c.peer, c.sockFd)

theorem Connect.ident_eq {c d : Connect} (h : c.ident = d.ident) :
    c.type = d.type ∧ c.peer = d.peer ∧ c.sockFd = d.sockFd := by
  simpa [ident] using h

theorem Connect.ident_eq_mk {c : Connect} {t : ConnType} {q : Option Ptr} {fd : ℕ} (h : c.ident = (t, q, fd)) :
    c.type = t ∧ c.peer = q ∧ c.sockFd = fd := by
  simpa [ident] using h

/-- Epoll interest of a descriptor. -/
structure Mask where
  inn : Bool
  out : Bool
  et : Bool
deriving DecidableEq, Repr

/-- What a `write` returns: a number of bytes accepted, or -1 with an `errno`. -/
inductive WriteRes where
  | wrote (n : ℕ)
  | fail (errno : ℕ)
deriving DecidableEq, Repr

/-- What `socket` and `connect` return for a new tunnel. -/
inductive DialRes where
  | opened (fd : ℕ)
  | fail (errno : ℕ)
deriving DecidableEq, Repr

/-- What is recorded in the log. -/
inductive Obs where
  /-- `HandleRecvMsg` is called on `p` with a message of `len` bytes in the buffer `b`. -/
  | msg (p : Ptr) (b : Buff) (len : ℕ)
  /-- `bs` was read from the browser `p`, or from the tunnel `p` in forward mode. -/
  | recv (p : Ptr) (bs : List UInt8)
  /-- Of the frame of `msg`, `SendTmsMsg` on `p` wrote the first `n` bytes. -/
  | frame (p : Ptr) (msg : List UInt8) (n : ℕ)
  /-- Bytes accepted by the socket of `p`: from the receive buffer of `src`, or, with none, a text of
  the SDK. -/
  | raw (p : Ptr) (src : Option Ptr) (bs : List UInt8)
  /-- The socket of `p` is shut down. -/
  | shut (p : Ptr)
  /-- `HandleRecvHttp` is called on `p`. -/
  | http (p : Ptr) (bs : List UInt8)
  /-- `WakeupUser` is called on `p`. -/
  | wakeup (p : Ptr)

/-- The points at which the behaviour of the program is no longer defined. -/
inductive Fault where
  | nullDeref
  | useAfterFree
  | overflow
  | overread
deriving DecidableEq, Repr

/-- What `YMEGet` returns: `g_auth`, `g_appid`, `g_phone`. -/
structure Config where
  auth : List UInt8
  appid : ℕ
  phone : ℕ
deriving DecidableEq, Repr

/-- The state of the SDK. -/
structure State where
  /-- Built with `ACCURATE_TRAFFIC`. -/
  accurate : Bool
  config : Config
  conns : Ptr → Option Connect
  nextConn : Ptr
  connMap : ℕ → Option (Option Ptr)
  /-- `g_aval_traffic`. -/
  avalTraffic : ℕ
  /-- `g_rpt_traff_cost`. -/
  rptTraffCost : ℕ
  epoll : ℕ → Option Mask
  errno : ℕ
  /-- The contents of uninitialised memory. -/
  mem : Buff
  writes : List WriteRes
  dials : List DialRes
  log : List Obs

abbrev SdkM := Prog State Fault

/-! ### Pointers -/

/-- Follow a `Connect*`. -/
def deref (p : Ptr) : SdkM Connect := do
  match (← get).conns p with
  | none => throw .useAfterFree
  | some c => pure c

/-- Assign fields of a connection object. -/
def State.setConn (s : State) (p : Ptr) (c : Connect) : State :=
  { s with conns := Function.update s.conns p (some c) }

@[simp] theorem State.setConn_self (s : State) (p : Ptr) (c : Connect) :
    (s.setConn p c).conns p = some c := by
  simp [setConn]

theorem State.setConn_ne (s : State) {p q : Ptr} (c : Connect) (h : q ≠ p) :
    (s.setConn p c).conns q = s.conns q := by
  simp [setConn, h]

@[simp] theorem State.setConn_setConn (s : State) (p : Ptr) (c c' : Connect) :
    (s.setConn p c).setConn p c' = s.setConn p c' := by
  simp [setConn]

/-- Update the fields of `*p`. -/
def modConn (p : Ptr) (f : Connect → Connect) : SdkM Unit := do
  let c ← deref p
  modify (fun s => s.setConn p (f c))

def State.emit (s : State) (o : Obs) : State := { s with log := s.log ++ [o] }

def emit (o : Obs) : SdkM Unit := modify (fun s => s.emit o)

section Rules

variable {α : Type} {F : Fault → Prop} {s : State}

@[simp] theorem wpe_deref {p : Ptr} {Q : Connect → State → Prop} :
    wpe (deref p) Q F s ↔
      (s.conns p = none → F .useAfterFree) ∧ ∀ c, s.conns p = some c → Q c s := by
  simp only [deref, wpe_bind, wpe_get]
  cases s.conns p <;> simp

@[simp] theorem wpe_modConn {p : Ptr} {f : Connect → Connect} {Q : Unit → State → Prop} :
    wpe (modConn p f) Q F s ↔
      (s.conns p = none → F .useAfterFree) ∧
        ∀ c, s.conns p = some c → Q () (s.setConn p (f c)) := by
  simp only [modConn, wpe_bind, wpe_deref, wpe_modify]

@[simp] theorem wpe_emit {o : Obs} {Q : Unit → State → Prop} :
    wpe (emit o) Q F s ↔ Q () (s.emit o) := Iff.rfl

end Rules

/-! ### Kernel -/

def ENOENT : ℕ := 2
def EEXIST : ℕ := 17
def ECONNREFUSED : ℕ := 111

def setErrno (e : ℕ) : SdkM Unit := modify (fun s => { s with errno := e })

/-- `write` of `bs`: the number of bytes accepted, none on failure. -/
def sockWrite (bs : List UInt8) : SdkM (Option ℕ) := do
  let s ← get
  match s.writes with
  | [] => pure (some bs.length)
  | .wrote n :: rest =>
      set { s with writes := rest }
      pure (some (min n bs.length))
  | .fail e :: rest =>
      set { s with writes := rest, errno := e }
      pure none

/-- `socket` and `connect`: the descriptor, none on failure. -/
def sockOpen : SdkM (Option ℕ) := do
  let s ← get
  match s.dials with
  | [] =>
      setErrno ECONNREFUSED
      pure none
  | .opened fd :: rest =>
      set { s with dials := rest }
      pure (if fd = 0 then none else some fd)
  | .fail e :: rest =>
      set { s with dials := rest, errno := e }
      pure none

/-- `ConnectMgr::AddEvent`, and with the mask it uses `AddREvent`. -/
def addEvent (fd : ℕ) (m : Mask) : SdkM ℤ := do
  if fd = 0 then pure (-1)
  else
    match (← get).epoll fd with
    | some _ =>
        setErrno EEXIST
        pure (-1)
    | none =>
        modify (fun s => { s with epoll := Function.update s.epoll fd (some m) })
        pure 0

/-- `ConnectMgr::AddREvent`. -/
def addREvent (fd : ℕ) : SdkM ℤ := addEvent fd ⟨true, false, true⟩

/-- `ConnectMgr::RemoveEvent`: the whole registration goes, whatever events are named. -/
def removeEvent (fd : ℕ) : SdkM ℤ := do
  if fd = 0 then pure (-1)
  else
    match (← get).epoll fd with
    | none =>
        setErrno ENOENT
        pure (-1)
    | some _ =>
        modify (fun s => { s with epoll := Function.update s.epoll fd none })
        pure 0

/-- The state behind `removeEvent`. -/
def State.unregistered (s : State) (fd : ℕ) : State :=
  if fd = 0 then s
  else
    match s.epoll fd with
    | none => { s with errno := ENOENT }
    | some _ => { s with epoll := Function.update s.epoll fd none }

theorem wpe_removeEvent {fd : ℕ} {Q : State → Prop} {F : Fault → Prop} {s : State} :
    wpe (removeEvent fd) (fun _ s' => Q s') F s ↔ Q (s.unregistered fd) := by
  simp only [removeEvent, State.unregistered]
  split_ifs
  · rfl
  · simp only [wpe_bind, wpe_get]
    cases s.epoll fd <;> rfl

end HttpsTunnel.Sdk

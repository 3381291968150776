import HttpsTunnel.Sdk.Tunnel

/-! # The browser side of the SDK

What `ConnectMgr.cpp` does on a connection of a browser: the request is looked at for its
destination (`handleProxyProtocol`), a tunnel is opened (`createConn`) and logged in (`login`), and
what follows is written to the tunnel (`proxyRecvEvent`); `handleEPOEvent` sends on what a browser
did not take at first.  `handleRecvEvent` is the entry for both sides. -/

namespace HttpsTunnel.Sdk

open HttpsTunnel.Lib HttpsTunnel.Wire HttpsTunnel.Lib.CString

/-! ### The destination of a request -/

/-- What the beginning of a request says. -/
inductive Request where
  /-- A `CONNECT` to a host; the port, if it starts with a digit. -/
  | connect (host : Host) (port : Option ℕ)
  /-- A `CONNECT` with a first line that is too long. -/
  | tooLong
  /-- Any other request; the host, if one was found. -/
  | plain (host : Option Host)
deriving DecidableEq, Repr

/-- Size of `connect_val_buff`. -/
def connectValSize : ℕ := 256

/-- The `CONNECT` branch of `HandleProxyProtocol`, on the memory behind `CONNECT `.  A null result
of `strchr` ends as a `memcpy` of a negative length, one of `strtok` is dereferenced, and a line of
256 bytes leaves no room for its terminator. -/
def connectTarget (m : Mem) : Except Fault Request :=
  match strchr CR m with
  | none => .error .overread
  | some none => .error .nullDeref
  | some (some n) =>
      if connectValSize < n then .ok .tooLong
      else if n = connectValSize then .error .overflow
      else
        match strtok (lit ":") (m.take n) with
        | none => .error .nullDeref
        | some (h, rest) =>
            match strtok (lit "\r\n ") rest with
            | none => .error .nullDeref
            | some (p, _) =>
                .ok (.connect h (if p.head?.any isDigit then some (digits p % 2 ^ 16) else none))

/-- The loop of `HandleProxyProtocol` that looks for `Host: ` in `left` bytes; `skip` bytes are
passed over first.  The end of the line is looked for in all of the memory, but it has to be among
the `left` bytes. -/
def hostScan : Mem → (left skip : ℕ) → Option (Option Host)
  | _, 0, _ => some none
  | [], _ + 1, _ => none
  | _ :: m, left + 1, skip + 1 => hostScan m left skip
  | b :: m, left + 1, 0 =>
      if lower b = 104 then
        match caseStarts (lit "ost: ") m with
        | none => none
        | some false => hostScan m left 0
        | some true =>
            match strstr [CR, LF] (m.drop 5) with
            | none => none
            | some (some n) =>
                if 5 + n < left then some (some ((m.drop 5).take n)) else hostScan m left 6
            | some none => hostScan m left 6
      else hostScan m left 0

/-- What `HandleProxyProtocol` finds in the buffer, of which `slen` bytes count. -/
def findRequest (m : Mem) (slen : ℕ) : Except Fault Request :=
  match caseStarts (lit "CONNECT") m with
  | none => .error .overread
  | some true => connectTarget (m.drop 8)
  | some false =>
      match hostScan m slen 0 with
      | none => .error .overread
      | some host => .ok (.plain host)

/-! ### Opening a tunnel -/

/-- The object of a new tunnel. -/
def tunnelConnect (fd : ℕ) : Connect where
  sockFd := fd
  status := .online
  dec := ⟨.header, 0, hdrSize, 0, fun _ => 0⟩

/-- `ConnectMgr::CreateConn`. -/
def createConn : SdkM (Option Ptr) := do
  match ← sockOpen with
  | none => pure none
  | some fd =>
      let s ← get
      set { s.setConn s.nextConn (tunnelConnect fd) with
        nextConn := s.nextConn + 1
        connMap := Function.update s.connMap fd (some (some s.nextConn)) }
      pure (some s.nextConn)

/-- The end of `HandleProxyProtocol`: with a host, a tunnel is opened. -/
def openTunnel (p : Ptr) : SdkM ℤ := do
  let c ← deref p
  if c.host = [] then pure (-2)
  else
    match ← createConn with
    | none => pure (-1)
    | some t =>
        modConn p (fun c => { c with peer := some t })
        modConn t (fun c => { c with peer := some p })
        pure 0

/-- `Connect::HandleProxyProtocol`. -/
def handleProxyProtocol (p : Ptr) (msglen : ℕ) : SdkM ℤ := do
  let c ← deref p
  match findRequest (c.dec.buff.slice 0 buffSize) msglen with
  | .error e => throw e
  | .ok .tooLong =>
      modConn p (fun c => { c with httpVersion := .https })
      pure (-1)
  | .ok (.connect host port) =>
      modConn p (fun c => { c with
        httpVersion := .https
        webPort := port.getD c.webPort
        host := host })
      openTunnel p
  | .ok (.plain host) =>
      modConn p (fun c => { c with host := host.getD c.host })
      openTunnel p

/-! ### Logging in -/

/-- Size of `login_str`. -/
def loginStrSize : ℕ := 512

/-- `atoll` of a number printed with `%llu`. -/
def atollOf (n : ℕ) : ℕ := min n (2 ^ 63 - 1)

/-- The token field of a login request: the text with its 0, and behind it what was in memory. -/
def tokenField (auth : List UInt8) (mem : Buff) : List UInt8 :=
  auth ++ 0 :: mem.slice (19 + auth.length) (31 - auth.length)

/-- The login request for tunnel fields `t`. -/
def loginReq (t : Connect) (mem : Buff) : List UInt8 :=
  LoginReq.bytes ⟨t.uid, t.mobile, tokenField t.auth mem, t.webPort, t.host.length % 2 ^ 16⟩ t.host

/-- The login part of `ProxyRecvEvent`, after a read of `length` bytes. -/
def login (p t : Ptr) (length : ℕ) : SdkM Unit := do
  modConn p (fun c => { c with rDataLen := (c.rDataLen + length) % 2 ^ 32 })
  let c ← deref p
  let s ← get
  if tokenSize < s.config.auth.length + 1 then throw .overflow
  modConn t (fun d => { d with
    auth := s.config.auth
    uid := atollOf s.config.appid
    mobile := atollOf s.config.phone
    host := c.host
    webPort := c.webPort })
  let d ← deref t
  if loginStrSize < LoginReq.hostAt + d.host.length then throw .overflow
  sendTmsMsg t (loginReq d s.mem)
  let _ ← addEvent d.sockFd ⟨true, true, true⟩

/-! ### The read loop -/

/-- What `ProxyRecvEvent` does with a chunk once a tunnel was found. -/
def passUp (p : Ptr) (length : ℕ) : SdkM (Option ℤ) := do
  let c ← deref p
  match c.peer with
  | none => pure none
  | some t =>
      let d ← deref t
      if d.sockFd = 0 then pure none
      else if d.verified then
        let _ ← sendRaw t (some p) (c.dec.buff.slice c.dec.offset length)
        pure none
      else
        login p t length
        pure none

/-- The body of the loop of `ProxyRecvEvent`. -/
def onChunk (p : Ptr) (length : ℕ) : SdkM (Option ℤ) := do
  let c ← deref p
  emit (.recv p (c.dec.buff.slice c.dec.offset length))
  match c.peer with
  | some _ => passUp p length
  | none =>
      let ret ← handleProxyProtocol p (c.dec.offset + length)
      if ret = -1 then
        ackUserFail p .serverNotUp
        pure (some ret)
      else if ret < 0 then pure (some ret)
      else passUp p length

/-- A browser's connection as an endpoint: every read goes to `onChunk`, whatever `cstate` is. -/
def proxyEndpoint (p : Ptr) : Endpoint State Fault where
  fmt := hdrFormat
  size := buffSize
  view s := (s.conns p).map fun c => { c.dec with cstate := .forward }
  put d s := match s.conns p with
    | some c => s.setConn p { c with dec := { d with cstate := c.dec.cstate } }
    | none => s
  errno e s := { s with errno := e }
  onRead _ s := s
  onMsg _ := pure none
  onForward := onChunk p

/-- `Connect::ProxyRecvEvent`. -/
def proxyRecvEvent (p : Ptr) (reads : List ReadRes) : SdkM ℤ := do
  let r ← mapFault Fault.ofLoop (recvLoop (proxyEndpoint p) reads)
  pure r.code

/-! ### Event handlers -/

/-- `ConnectMgr::HandleRecvEvent`. -/
def handleRecvEvent (fd : ℕ) (reads : List ReadRes) : SdkM ℤ := do
  match (← get).connMap fd with
  | none | some none => pure (-1)
  | some (some p) =>
      let c ← deref p
      if c.type = .proxy then proxyRecvEvent p reads
      else
        modConn p (fun c => { c with host := [] })
        streamRecvEvent p reads

/-- The tunnel's pending bytes after a flush that wrote `wrote` of them. -/
def flushed (p t : Ptr) (wrote : Option ℕ) : SdkM Unit := do
  let c ← deref p
  let d ← deref t
  match wrote with
  | none =>
      let _ ← addEvent c.sockFd ⟨false, true, false⟩
  | some n =>
      if n = d.rDataLen then
        modConn t (fun d => { d with
          status := .online
          dec := { d.dec with offset := 0, stillneedtoread := buffSize } })
        let _ ← addREvent d.sockFd
      else if 0 < n then
        modConn t (fun d => { d with
          rDataLen := d.rDataLen - n
          dec := { d.dec with offset := d.dec.offset + n } })
      else
        let _ ← addEvent c.sockFd ⟨false, true, false⟩

/-- Write the bytes pending in the buffer of tunnel `t` to the browser `p`. -/
def flush (p t : Ptr) : SdkM Unit := do
  let d ← deref t
  if d.rDataLen = 0 then pure ()
  else if buffSize < d.dec.offset + d.rDataLen then throw .overread
  else
    let wrote ← sendRaw p (some t) (d.dec.buff.slice d.dec.offset d.rDataLen)
    flushed p t wrote

/-- `ConnectMgr::HandleEPOEvent`. -/
def handleEPOEvent (fd : ℕ) : SdkM ℤ := do
  let s ← get
  match s.connMap fd with
  | none =>
      set { s with connMap := Function.update s.connMap fd (some none) }
      pure (-1)
  | some none => pure (-1)
  | some (some p) =>
      let c ← deref p
      match c.peer with
      | none => pure 0
      | some t =>
          let d ← deref t
          if d.status = .hangup ∧ c.type = .proxy then flush p t
          pure 0

/-! ### Events -/

/-- An event of the main loop. -/
inductive Event where
  | readable (fd : ℕ) (reads : List ReadRes)
  | writable (fd : ℕ)

/-- The handler of an event. -/
def Event.run : Event → SdkM Unit
  | readable fd reads => do
      let _ ← handleRecvEvent fd reads
  | writable fd => do
      let _ ← handleEPOEvent fd

end HttpsTunnel.Sdk

import HttpsTunnel.Tms.Dns

/-! # Message and event handlers of the tunnel server

`Connect::HandleRecvMsg` with one definition for each message it knows,
`Connect::StreamRecvEvent` as the read loop of an endpoint, and the event handlers of
`ConnectMgr`.  A handler runs on the connection `p` it is called on (`this`); that connection
may be deleted by the time a handler returns, and using it then is a fault. -/

namespace HttpsTunnel.Tms

open HttpsTunnel.Lib HttpsTunnel.Wire

/-! ### LOGIN_REQ -/

/-- `memcpy(token, r->token, strlen(r->token) + 1)`: the rest of the old token stays. -/
def copyToken (old new : List UInt8) : List UInt8 :=
  new.take ((cstr new).length + 1) ++ old.drop ((cstr new).length + 1)

/-- The copied token is the same C string. -/
theorem cstr_copyToken (old : List UInt8) {new : List UInt8} (h : 0 ∈ new) :
    cstr (copyToken old new) = cstr new := by
  induction new generalizing old with
  | nil => cases h
  | cons b new ih =>
      by_cases hb : b = 0
      · simp [cstr, copyToken, hb]
      · have hmem : 0 ∈ new := (List.mem_cons.mp h).resolve_left (Ne.symm hb)
        have hrec := ih (old.drop 1) hmem
        simp only [cstr, copyToken, List.drop_drop, Nat.add_comm 1] at hrec
        simpa [cstr, copyToken, hb] using hrec

/-- The fields a login leaves in the connection. -/
def Connect.login (c : Connect) (r : LoginReq) : Connect :=
  { c with
    app := r.app
    mobile := r.mobile
    destPort := r.port
    token := copyToken c.token r.token
    currHost := c.dec.buff.slice LoginReq.hostAt r.hostLen
    dec := { c.dec with buff := c.dec.buff.store (LoginReq.hostAt + r.hostLen) [0] } }

/-- A login response with this code and nothing else. -/
def loginRsp (code : RespCode) : List UInt8 :=
  LoginRsp.bytes { LoginRsp.default with rspCode := code.toNat }

/-- The refusal of a request without mobile or host; the handler goes on after it. -/
def refuseParams (p : Ptr) (r : LoginReq) : TmsM Unit := do
  if r.mobile = 0 ∨ r.hostLen = 0 then
    let _ ← sendTmsMsg p (loginRsp .parametErr)
  else pure ()

/-- Ask the center to check the token. -/
def requestToken (p : Ptr) (r : LoginReq) : TmsM Unit := do
  let c ← deref p
  let req : ReadTokenReq := { cid := c.sockFd, app := r.app, mobile := r.mobile, token := r.token }
  let cn ← getCenterConn
  emit (.tokenReq p req)
  let _ ← sendTmsMsg cn req.bytes

/-- Let the stream of the tunnel wait for the address, creating it if there is none. -/
def awaitHost (p : Ptr) (u : UserId) (host : Host) (port : ℕ) : TmsM Unit := do
  let c ← deref p
  let s ← get
  let k ← createSCB u p none
  addWaitLists host k
  let b ← getScb k
  emit (.wait host u b.scbid p port (c.scb.map s.scbs))

/-- Ask the name server, with the stream waiting for the answer. -/
def resolveHost (p : Ptr) (u : UserId) (host : Host) (port : ℕ) : TmsM Unit := do
  let req := reqFill (← get).random host
  if dnsReqSize < req.length then throw .overflow
  else
    awaitHost p u host port
    let d ← getDnsConn
    sendMsg d req

/-- Connect to the requested host, or start to resolve its name.  False: the attempt failed. -/
def openStream (p : Ptr) (u : UserId) (host : Host) (port : ℕ) : TmsM Bool := do
  if ipOrHost host = 0 then
    return (← connectWebServer u p (inetAddr host) port).isSome
  else
    match (← get).cache host with
    | some ip => return (← connectWebServer u p ip port).isSome
    | none =>
        resolveHost p u host port
        pure true

/-- The part of LOGIN_REQ before a stream is opened. -/
def enterLogin (p : Ptr) (r : LoginReq) : TmsM Unit := do
  modConn p (fun c => c.login r)
  refuseParams p r
  requestToken p r
  retrieveUser ⟨r.mobile, r.app⟩
  modConn p (fun c => { c with user := some ⟨r.mobile, r.app⟩ })

/-- `HandleRecvMsg`, LOGIN_REQ. -/
def handleLoginReq (p : Ptr) : TmsM ℤ := do
  let c ← deref p
  let r := LoginReq.read c.dec.buff
  if 0 ∉ r.token ∨ buffSize ≤ LoginReq.hostAt + r.hostLen then throw .overflow
  else
    enterLogin p r
    if ← openStream p ⟨r.mobile, r.app⟩ (c.login r).currHost r.port then
      let _ ← sendTmsMsg p (loginRsp .prog)
      pure 0
    else pure (-1)

/-! ### BEGIN_TRANSMIT -/

/-- `Connect::SwitchConnModeForw`. -/
def Connect.switchForw (c : Connect) : Connect :=
  { c with dec := { c.dec with cstate := .forward, stillneedtoread := buffSize } }

/-- `HandleRecvMsg`, BEGIN_TRANSMIT. -/
def handleBeginTransmit (p : Ptr) : TmsM ℤ := do
  let c ← deref p
  match c.scb with
  | none => pure (-1)
  | some k =>
      let b ← getScb k
      if b.forwardId = (BeginTransmit.read c.dec.buff).forwardId ∧ b.agentConn ≠ none then
        modConn p Connect.switchForw
        pure 0
      else pure 0

/-! ### READ_TOKEN_RSP -/

/-- The refusal of a client whose token did not pass. -/
def rejectClient (q : Ptr) (r : ReadTokenRsp) : TmsM Unit := do
  let _ ← sendTmsMsg q (LoginRsp.bytes { LoginRsp.default with rspCode := r.rspCode })
  modConn q (fun c => { c with exit := true })
  let c ← deref q
  removeConn c.sockFd

/-- The response to a client that passed: ready when its agent is connected. -/
def verifiedRsp (b : SCB) (balance : ℤ) : LoginRsp :=
  if b.connected then ⟨RespCode.ready.toNat, balance, b.forwardId⟩
  else ⟨RespCode.tokenVerified.toNat, balance, 0⟩

/-- Tell the traffic inspector which address the user has. -/
def synUserTuple (q : Ptr) : TmsM Unit := do
  let c ← deref q
  let (ip, port) := ((← get).peer c.sockFd).getD (0, 0)
  let d ← getDpiConn
  let _ ← sendTmsMsg d (SynUserTuple.bytes ⟨c.app, c.mobile, ip, port⟩)

/-- The fields set when a client passed: its own, its stream's and its user's. -/
def setVerified (p q : Ptr) (cl : Connect) (k : ScbPtr) (r : ReadTokenRsp) : TmsM Unit := do
  let c ← deref p
  let u ← nonNull cl.user
  modConn q (fun c => { c with sdkVerified := true, trafficTmp := 0 })
  modScb k (fun b => { b with
    status := .validated
    traffic := (b.traffic + cl.trafficTmp) % 2 ^ 64 })
  modUser u (fun v => { v with balance := r.balance })
  emit (.auth p c.type q r u)

/-- A client that passed: it is removed if it has no stream. -/
def acceptClient (p q : Ptr) (cl : Connect) (r : ReadTokenRsp) : TmsM Unit := do
  match cl.scb with
  | none =>
      modConn q (fun c => { c with sdkVerified := true })
      removeConn cl.sockFd
  | some k =>
      setVerified p q cl k r
      let b ← getScb k
      let _ ← sendTmsMsg q (verifiedRsp b r.balance).bytes
      synUserTuple q

/-- `HandleRecvMsg`, READ_TOKEN_RSP. -/
def handleReadTokenRsp (p : Ptr) : TmsM ℤ := do
  let c ← deref p
  let r := ReadTokenRsp.read c.dec.buff
  -- `int cid = r->cid` is widened again by `GetConn(U64)`
  let cid := if r.cid % 2 ^ 32 < 2 ^ 31 then r.cid % 2 ^ 32 else r.cid % 2 ^ 32 + (2 ^ 64 - 2 ^ 32)
  match (← get).connMap cid with
  | none => pure 0
  | some q =>
      let cl ← deref q
      if r.rspCode ≠ 0 ∨ cstr cl.token ≠ cstr r.token then
        rejectClient q r
        pure 0
      else
        acceptClient p q cl r
        pure 0

/-! ### TRAFFIC_REPORT_RSP -/

/-- `HandleRecvMsg`, TRAFFIC_REPORT_RSP. -/
def handleTrafficReportRsp (p : Ptr) : TmsM ℤ := do
  let c ← deref p
  let r := TrafficReportRsp.read c.dec.buff
  let u : UserId := ⟨r.mobile, r.app⟩
  match (← get).userMap u with
  | none => pure 0
  | some v =>
      if v.traffic ≠ 0 then
        reportAccumulated u
        modUser u (fun v => { v with reporting := true })
        pure 0
      else
        modUser u (fun v => { v with reporting := false })
        pure 0

/-! ### Messages -/

/-- `Connect::HandleRecvMsg`. -/
def handleRecvMsg (p : Ptr) (msglen : ℕ) : TmsM ℤ := do
  let c ← deref p
  emit (.msg p c msglen)
  if msglen < 4 then pure (-1)
  else
    match MsgId.ofNat? (msgId c.dec.buff) with
    | some .loginReq => handleLoginReq p
    | some .beginTransmit => handleBeginTransmit p
    | some .readTokenRsp => handleReadTokenRsp p
    | some .trafficReportRsp => handleTrafficReportRsp p
    | _ => pure 0

/-- Note that the stream of `p` with this tunnel is cut off while `p` is read. -/
def emitCutoff (p tunnel : Ptr) : TmsM Unit := do
  let s ← get
  emit (.cutoff p tunnel (some s.errno))

/-- The charge for a message received: `none` goes on reading. -/
def chargeMsg (p : Ptr) (length : ℕ) : TmsM (Option ℤ) := do
  let c ← deref p
  let est ← charge (length + hdrSize)
  match c.sdkVerified, c.user with
  | true, some u =>
      let ret ← recordTraffic u c.scb est
      if ret = -1 then
        (if c.scb.isSome then emitCutoff p p else pure ())
        pure (some (-1))
      else pure none
  | _, _ =>
      (if c.type = .tunnel then
          modConn p (fun c => { c with trafficTmp := (c.trafficTmp + est) % 2 ^ 64 })
        else pure ())
      pure none

/-- The message branch of `StreamRecvEvent`. -/
def onMsg (p : Ptr) (length : ℕ) : TmsM (Option ℤ) := do
  let c ← deref p
  let _ ← handleRecvMsg p c.dec.h
  chargeMsg p length

/-! ### Forwarding -/

/-- `send` of bytes read from the other side of a stream. -/
def sendRelay (dir : Dir) (tunnel agent : Ptr) (fd : ℕ) (bs : List UInt8) : TmsM (Option ℕ) := do
  match ← sockSend fd bs with
  | some n =>
      emit (.relay dir tunnel agent (bs.take n))
      pure (some n)
  | none => pure none

/-- The tunnel took only `wrote` of the `length` bytes: keep the rest, stop reading the agent. -/
def hangUp (p : Ptr) (wrote length : ℕ) : TmsM (Option ℤ) := do
  modConn p (fun c => { c with
    datalen := length - wrote
    status := .hangup
    dec := { c.dec with offset := wrote } })
  let c ← deref p
  if (← removeEvent c.sockFd) ≠ 0 then pure (some (-1)) else pure (some (-2))

/-- Bytes from the web server: sent first, charged after. -/
def forwardDown (p : Ptr) (c : Connect) (k : ScbPtr) (t : Ptr) (length : ℕ) :
    TmsM (Option ℤ) := do
  let tn ← deref t
  match ← sendRelay .down t p tn.sockFd (c.dec.buff.slice 0 length) with
  | none => hangUp p 0 length
  | some wrote =>
      let u ← nonNull c.user
      if (← recordTraffic u (some k) (← charge wrote)) ≠ 0 then
        emitCutoff p t
        pure (some (-1))
      else if wrote ≠ length ∨ length = 0 then hangUp p wrote length
      else pure none

/-- Bytes from the client: charged first, and what the agent does not take is dropped. -/
def forwardUp (p : Ptr) (c : Connect) (k : ScbPtr) (a : Ptr) (length : ℕ) :
    TmsM (Option ℤ) := do
  let u ← nonNull c.user
  if (← recordTraffic u (some k) (← charge length)) ≠ 0 then
    emitCutoff p p
    pure (some (-1))
  else
    let ag ← deref a
    let _ ← sendRelay .up p a ag.sockFd (c.dec.buff.slice 0 length)
    pure none

/-- The fields of the tunnel of the stream of a connection. -/
def Server.tunnelOf (s : Server) (c : Connect) : Option Connect :=
  ((c.scb.map s.scbs).bind (·.tunnelConn)).bind s.conns

/-- Note the bytes read in forward mode and the state they find. -/
def emitFwd (p : Ptr) (c : Connect) (length : ℕ) : TmsM Unit := do
  let s ← get
  emit (.fwd p c (c.sockFd ∈ s.shutFds) (s.tunnelOf c) (s.chargeOf c length)
    (c.dec.buff.slice 0 length))

/-- The forward branch of `StreamRecvEvent`. -/
def onForward (p : Ptr) (length : ℕ) : TmsM (Option ℤ) := do
  let c ← deref p
  emitFwd p c length
  match c.scb with
  | none => pure (some 0)
  | some k =>
      let b ← getScb k
      match b.tunnelConn, b.agentConn with
      | some t, some a =>
          match c.type with
          | .agent => forwardDown p c k t length
          | .tunnel => forwardUp p c k a length
          | _ => pure none
      | _, _ =>
          let _ ← nonNull c.user
          pure (some 0)

/-- Connection `p` as an endpoint of the read loop. -/
def endpoint (p : Ptr) : Endpoint Server Fault where
  fmt := hdrFormat
  size := buffSize
  view s := (s.conns p).map (·.dec)
  put d s := match s.conns p with
    | some c => s.setConn p { c with dec := d }
    | none => s
  errno e s := { s with errno := e }
  onRead _ s := s
  onMsg := onMsg p
  onForward := onForward p

/-- The fault that ends a run of the read loop. -/
def Fault.ofLoop : LoopFault Fault → Fault
  | .freed => .useAfterFree
  | .overflow => .overflow
  | .handler e => e

/-- `Connect::StreamRecvEvent`. -/
def streamRecvEvent (p : Ptr) (reads : List ReadRes) : TmsM ℤ := do
  let r ← mapFault Fault.ofLoop (recvLoop (endpoint p) reads)
  pure r.code

/-! ### Event handlers -/

/-- The object `HandleAcceptEvent` uses for an accepted tunnel, before its fields are assigned. -/
def Connect.reset (c : Connect) : Connect :=
  { c with
    dec := { c.dec with stillneedtoread := 0, cstate := .header }
    status := .offline
    sdkVerified := false
    agentStatus := false
    type := .tunnel
    app := 0
    user := none
    scb := none }

/-- The assignments of `HandleAcceptEvent`. -/
def Connect.accepted (c : Connect) (fd : ℕ) (now : Timeval) : Connect :=
  { c with
    sockFd := fd
    beginTime := now
    dec := { c.dec with stillneedtoread := hdrSize } }

/-- A new connection object. -/
def Connect.fresh (mem : Buff) : Connect :=
  { dec := { cstate := .header, h := 0, stillneedtoread := 0, offset := 0, buff := mem } }

/-- `ConnectMgr::HandleAcceptEvent`, for a descriptor the kernel returned. -/
def handleAcceptEvent (fd : ℕ) : TmsM Unit := do
  let s ← get
  match s.connMap fd with
  | some p =>
      modConn p (fun c => c.reset.accepted fd s.now)
      modify (fun s => { s with openFds := fd :: s.openFds }.emit (.newfd fd p))
  | none =>
      let _ ← newConn fd ((Connect.fresh s.mem).accepted fd s.now)

/-- The dispatch of `HandleRecvEvent`. -/
def recvEvent (p : Ptr) (reads : List ReadRes) : TmsM ℤ := do
  let c ← deref p
  if c.type = .dns then dnsRecvEvent p reads else streamRecvEvent p reads

/-- `ConnectMgr::HandleRecvEvent`. -/
def handleRecvEvent (fd : ℕ) (reads : List ReadRes) : TmsM ℤ := do
  match (← get).connMap fd with
  | none => pure (-2)
  | some p =>
      let ret ← recvEvent p reads
      if ret = -1 then pure ret
      else
        let c ← deref p
        if c.exit then
          removeConn c.sockFd
          pure ret
        else pure ret

/-- The agent of a stream is connected: a forward id is issued and the tunnel is told. -/
def agentReady (p : Ptr) (k : ScbPtr) (t : Ptr) : TmsM Unit := do
  modConn t (fun c => { c with agentStatus := true })
  let id ← newForwardId
  modScb k (fun b => { b with forwardId := id, connected := true })
  let b ← getScb k
  if b.status ≠ .invalid then
    modConn p (fun c => { c with status := SockStat.ofNum (transStatNum .forward) })
    let c ← deref p
    let v ← derefUser (← nonNull c.user)
    let _ ← sendTmsMsg t (LoginRsp.bytes ⟨RespCode.ready.toNat, v.balance, id⟩)
  else
    let _ ← sendTmsMsg t (LoginRsp.bytes ⟨RespCode.agentEstablished.toNat, 0, id⟩)

/-- `HandleEPOEvent` on a connection in progress. -/
def establish (fd : ℕ) (p : Ptr) (c : Connect) : TmsM ℤ := do
  modConn p (fun c => { c with status := .online, agentStatus := true })
  let s ← get
  match c.scb, (c.scb.map s.scbs).bind (·.tunnelConn) with
  | some k, some t =>
      agentReady p k t
      let _ ← modifyEvent fd ⟨true, false, true⟩
      pure 0
  | _, _ =>
      mapErase fd
      pure (-1)

/-- The agent's pending bytes after a flush that wrote `wrote` of them. -/
def flushed (a : Ptr) (wrote : ℕ) : TmsM Unit := do
  let ac ← deref a
  if wrote = ac.datalen then
    modConn a (fun c => { c with
      status := .online
      dec := { c.dec with offset := 0, stillneedtoread := buffSize } })
    let _ ← addEvent ac.sockFd ⟨true, false, false⟩
  else if 0 < wrote then
    modConn a (fun c => { c with
      datalen := c.datalen - wrote
      dec := { c.dec with offset := c.dec.offset + wrote } })
  else pure ()

/-- The charge for a flush. -/
def chargeFlush (p : Ptr) (c : Connect) (k : ScbPtr) (wrote : ℕ) : TmsM ℤ := do
  if 0 < wrote then
    let u ← nonNull c.user
    if (← recordTraffic u (some k) (← charge wrote)) = -1 then
      emit (.cutoff p p none)
      pure (-1)
    else pure 0
  else pure 0

/-- `HandleEPOEvent` on a tunnel that can be written again. -/
def flush (fd : ℕ) (p : Ptr) (c : Connect) : TmsM ℤ := do
  let k ← nonNull c.scb
  let b ← getScb k
  let a ← nonNull b.agentConn
  let ac ← deref a
  if ac.datalen = 0 then pure 0
  else
    match ← sendRelay .down p a fd (ac.dec.buff.slice ac.dec.offset ac.datalen) with
    | none => pure 0
    | some wrote =>
        flushed a wrote
        chargeFlush p c k wrote

/-- `ConnectMgr::HandleEPOEvent`. -/
def handleEPOEvent (fd : ℕ) : TmsM ℤ := do
  match (← get).connMap fd with
  | none => pure (-2)
  | some p =>
      let c ← deref p
      if c.status = .inprogress then establish fd p c
      else if c.dec.cstate ≠ .forward then pure (-2)
      else if c.type ≠ .tunnel then pure 0
      else flush fd p c

end HttpsTunnel.Tms

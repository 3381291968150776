import HttpsTunnel.Sdk.State

/-! # The tunnel side of the SDK

What `ConnectMgr.cpp` does on a connection to the TMS: `sendMsg` and `sendTmsMsg`, the answers of
the TMS (`handleRecvMsg`), the relay to the browser (`onForward`), and with these the read loop
`streamRecvEvent`.

What `HandleRecvHttp` makes of the bytes of a tunnel without a browser is described in `Http`; here
the log says which bytes it is given. -/

namespace HttpsTunnel.Sdk

open HttpsTunnel.Lib HttpsTunnel.Wire

/-! ### Traffic -/

/-- `Tcp_Ack_Len`. -/
def tcpAckLen : ℤ := 40

/-- `Traffic_Est`. -/
def trafficEst (accurate : Bool) (x : ℤ) : ℤ :=
  if accurate ∧ 5 ≤ x then x + tcpAckLen * 2 + x / 1400 * tcpAckLen else x

/-- `Traffic_TCP_hss`. -/
def trafficTcpHss (accurate : Bool) : ℤ := if accurate then 7 * tcpAckLen + 2 * 20 else 0

/-- Add to `http_transmit_len` and to `g_rpt_traff_cost`. -/
def State.count (s : State) (p : Ptr) (z : ℤ) : State :=
  let s' := { s with rptTraffCost := toU64 (s.rptTraffCost + z) }
  match s.conns p with
  | some c => s'.setConn p { c with httpTransmitLen := toU64 (c.httpTransmitLen + z) }
  | none => s'

/-! ### Sending -/

/-- `write` to the socket of `p`; `src` is the connection whose buffer the bytes are in. -/
def sendRaw (p : Ptr) (src : Option Ptr) (bs : List UInt8) : SdkM (Option ℕ) := do
  let _ ← deref p
  match ← sockWrite bs with
  | none => pure none
  | some n =>
      emit (.raw p src (bs.take n))
      pure (some n)

/-- The `int` a `write` returned. -/
def lenOrErr : Option ℕ → ℤ
  | none => -1
  | some n => n

/-- `Connect::SendMsg`. -/
def sendMsg (p : Ptr) (src : Option Ptr) (msg : List UInt8) : SdkM Unit := do
  let sendlen ← sendRaw p src msg
  modify (fun s => s.count p (lenOrErr sendlen))

/-- Size of `tmsMsg`. -/
def tmsMsgSize : ℕ := 1024

/-- `Connect::SendTmsMsg`. -/
def sendTmsMsg (p : Ptr) (msg : List UInt8) : SdkM Unit := do
  if tmsMsgSize < hdrSize + msg.length then throw .overflow
  let _ ← deref p
  let sendlen ← sockWrite (frame msg)
  match sendlen with
  | none => pure ()
  | some n => emit (.frame p msg n)
  modify (fun s => s.count p (trafficEst s.accurate (lenOrErr sendlen)))

section Full

variable {p : Ptr} {F : Fault → Prop} {s : State}

/-! A write beyond its script is accepted in full. -/

theorem wpe_sockWrite {bs : List UInt8} {Q : Option ℕ → State → Prop} (hw : s.writes = []) :
    wpe (sockWrite bs) Q F s ↔ Q (some bs.length) s := by
  simp only [sockWrite, wpe_bind, wpe_get, hw, wpe_pure]

theorem wpe_sendRaw {src : Option Ptr} {bs : List UInt8} {Q : Option ℕ → State → Prop} (hw : s.writes = []) :
    wpe (sendRaw p src bs) Q F s ↔ (s.conns p = none → F .useAfterFree) ∧
      ∀ c, s.conns p = some c → Q (some bs.length) (s.emit (.raw p src bs)) := by
  simp only [sendRaw, wpe_bind, wpe_deref, wpe_sockWrite hw, wpe_emit, wpe_pure, List.take_length]

theorem wpe_sendMsg {src : Option Ptr} {msg : List UInt8} {Q : Unit → State → Prop} (hw : s.writes = []) :
    wpe (sendMsg p src msg) Q F s ↔ (s.conns p = none → F .useAfterFree) ∧
      ∀ c, s.conns p = some c → Q () ((s.emit (.raw p src msg)).count p msg.length) := by
  simp only [sendMsg, wpe_bind, wpe_sendRaw hw, wpe_modify, lenOrErr]

theorem wpe_sendTmsMsg {msg : List UInt8} {Q : Unit → State → Prop} (hw : s.writes = []) :
    wpe (sendTmsMsg p msg) Q F s ↔
      (tmsMsgSize < hdrSize + msg.length → F .overflow) ∧
      (¬ tmsMsgSize < hdrSize + msg.length → (s.conns p = none → F .useAfterFree) ∧
        ∀ c, s.conns p = some c → Q () ((s.emit (.frame p msg (frame msg).length)).count p
          (trafficEst s.accurate (frame msg).length))) := by
  simp only [sendTmsMsg, wpe_bind, wpe_ite, wpe_throw, wpe_deref, wpe_sockWrite hw, wpe_emit,
    wpe_modify, lenOrErr, State.emit]

end Full

/-- `Connect::WakeupUser`. -/
def wakeupUser (p : Ptr) : SdkM Unit := emit (.wakeup p)

/-- The page `AckUserFail` writes. -/
def failPage (r : ReplyType) : List UInt8 :=
  CString.lit ("HTTP/1.1 200 OK\r\n" ++ "Content-Type: html/text;charset=utf-8\r\n" ++
    "Connection: close\r\n" ++ "Location: localhost sdk\r\n" ++ "\r\n" ++
    "<html>\r\n" ++ "<html>\r\n" ++
    "<head>" ++ returnCode r ++ "</head>\r\n" ++
    "<body>" ++ returnCode r ++ "</body>\r\n" ++ "</html>\r\n\r\n")

/-- `Connect::AckUserFail`. -/
def ackUserFail (p : Ptr) (r : ReplyType) : SdkM Unit := do
  let c ← deref p
  match c.peer with
  | none => wakeupUser p
  | some q =>
      let d ← deref q
      if d.type = .proxy then
        let _ ← sendRaw q none (failPage r)
        emit (.shut q)
      else wakeupUser p

/-! ### Messages of the TMS -/

/-- `Connect::SwitchConnModeForw`. -/
def switchConnModeForw (p : Ptr) : SdkM Unit := do
  let hss := trafficTcpHss (← get).accurate
  modConn p (fun c => { c with
    dec := { c.dec with cstate := .forward, stillneedtoread := buffSize, offset := 0 }
    httpTransmitLen := toU64 (c.httpTransmitLen + hss) })

/-- Size of `tmp_buff`, in which a `ConnectHostReq` with the host is laid out before a
`BeginTransmit`; it is not sent. -/
def tmpBuffSize : ℕ := 1024

/-- What a failed login is reported as. -/
def loginFailure (rspCode : ℕ) : Option ReplyType :=
  if rspCode = RespCode.userNotExist.toNat then some .userNotExist
  else if rspCode = RespCode.incorrectToken.toNat then some .incorrectToken
  else if rspCode = RespCode.noBalance.toNat then some .noBalance
  else if rspCode = RespCode.hostNotExist.toNat then some .hostNotExist
  else if rspCode = RespCode.fail.toNat then some .exception
  else none

/-- `connect_reply_OK`. -/
def connectReplyOK : List UInt8 := CString.lit "HTTP/1.1 200 Connection established\r\n\r\n"

/-- What the browser, with fields `d`, sent before the login was answered goes to the tunnel, or the
browser is told that its `CONNECT` succeeded. -/
def answerPeer (p q : Ptr) (d : Connect) : SdkM Unit :=
  match d.httpVersion with
  | .http =>
      if buffSize < d.rDataLen then throw .overread
      else sendMsg p (some q) (d.dec.buff.slice 0 d.rDataLen)
  | .https => sendMsg q none connectReplyOK

/-- The browser can use the tunnel: its buffer is free again. -/
def activatePeer (p q : Ptr) : SdkM Unit := do
  let d ← deref q
  answerPeer p q d
  modConn q (fun d => { d with
    rDataLen := 0
    dec := { d.dec with offset := 0, stillneedtoread := buffSize } })
  let _ ← addREvent d.sockFd

/-- The tunnel is ready. -/
def loginReady (p : Ptr) (r : LoginRsp) : SdkM Unit := do
  let c ← deref p
  if tmpBuffSize < 6 + c.host.length % 2 ^ 16 then throw .overflow
  modConn p (fun c => { c with verified := true })
  switchConnModeForw p
  sendTmsMsg p (BeginTransmit.bytes ⟨r.forwardId % 2 ^ 32⟩)
  match c.peer with
  | none => wakeupUser p
  | some q =>
      modify (fun s => { s with avalTraffic := c.avalTraffic })
      activatePeer p q

/-- The tunnel is refused. -/
def loginFailed (p : Ptr) (rspCode : ℕ) : SdkM Unit :=
  match loginFailure rspCode with
  | none => pure ()
  | some t => do
      modConn p (fun c => { c with loginCode := t.code })
      ackUserFail p t

/-- `HandleRecvMsg`, `LOGIN_RSP`, after `aval_traffic` has been set. -/
def loginAnswered (p : Ptr) (r : LoginRsp) : SdkM Unit :=
  if r.rspCode = RespCode.ready.toNat then loginReady p r else loginFailed p r.rspCode

/-- `HandleRecvMsg`, `LOGIN_RSP`. -/
def handleLoginRsp (p : Ptr) (r : LoginRsp) : SdkM Unit := do
  if r.avalableTraffic ≠ 0 then modConn p (fun c => { c with avalTraffic := toU64 r.avalableTraffic })
  loginAnswered p r

/-- `HandleRecvMsg`, `CONNECT_HOST_RSP`. -/
def handleConnectHostRsp (p : Ptr) (r : ConnectHostRsp) : SdkM ℤ := do
  if r.rspCode ≠ RespCode.ready.toNat then pure r.rspCode
  else
    switchConnModeForw p
    sendTmsMsg p (BeginTransmit.bytes ⟨r.forwardId⟩)
    wakeupUser p
    pure 0

/-- `Connect::HandleRecvMsg`. -/
def handleRecvMsg (p : Ptr) (msglen : ℕ) : SdkM ℤ := do
  let b := (← deref p).dec.buff
  emit (.msg p b msglen)
  if msglen < 4 then pure (-1)
  else
    match MsgId.ofNat? (msgId b) with
    | some .loginRsp =>
        handleLoginRsp p (LoginRsp.read b)
        pure 0
    | some .connectHostRsp => handleConnectHostRsp p (ConnectHostRsp.read b)
    | _ => pure 0

/-! ### The read loop -/

/-- What the browser did not take stays in the buffer, and the tunnel is not read. -/
def hangUp (p : Ptr) (wrote length : ℕ) : SdkM (Option ℤ) := do
  modConn p (fun c => { c with
    rDataLen := length - wrote
    status := .hangup
    dec := { c.dec with offset := wrote } })
  let c ← deref p
  if (← removeEvent c.sockFd) ≠ 0 then pure (some (-1)) else pure (some (-2))

/-- The forward branch of `StreamRecvEvent`. -/
def onForward (p : Ptr) (length : ℕ) : SdkM (Option ℤ) := do
  let c ← deref p
  let bs := c.dec.buff.slice 0 length
  emit (.recv p bs)
  match c.peer with
  | none =>
      emit (.http p bs)
      pure none
  | some q =>
      match ← sendRaw q (some p) bs with
      | none => hangUp p 0 length
      | some wrote =>
          if wrote ≠ length ∨ length = 0 then hangUp p wrote length else pure none

/-- Connection `p` as an endpoint of the read loop. -/
def endpoint (p : Ptr) : Endpoint State Fault where
  fmt := hdrFormat
  size := buffSize
  view s := (s.conns p).map (·.dec)
  put d s := match s.conns p with
    | some c => s.setConn p { c with dec := d }
    | none => s
  errno e s := { s with errno := e }
  onRead n s := s.count p (trafficEst s.accurate n)
  onMsg _ := do
    let _ ← handleRecvMsg p (← deref p).dec.h
    pure none
  onForward := onForward p

/-- The fields of a connection after a read: the traffic `z` is counted. -/
def Connect.stored (c : Connect) (z : ℤ) (dec : Decoder) : Connect :=
  { c with httpTransmitLen := toU64 (c.httpTransmitLen + z), dec := dec }

/-- Counting traffic and storing a chunk. -/
theorem put_onRead {p : Ptr} {s : State} {c : Connect} (hc : s.conns p = some c) (n : ℕ) (dec : Decoder) :
    (endpoint p).put dec ((endpoint p).onRead n s) =
      { s.setConn p (c.stored (trafficEst s.accurate n) dec) with
        rptTraffCost := toU64 (s.rptTraffCost + trafficEst s.accurate n) } := by
  simp [endpoint, State.count, hc, State.setConn, Connect.stored]

/-- The fault that ends a run of a read loop. -/
def Fault.ofLoop : LoopFault Fault → Fault
  | .freed => .useAfterFree
  | .overflow => .overflow
  | .handler e => e

/-- `Connect::StreamRecvEvent`. -/
def streamRecvEvent (p : Ptr) (reads : List ReadRes) : SdkM ℤ := do
  let r ← mapFault Fault.ofLoop (recvLoop (endpoint p) reads)
  pure r.code

end HttpsTunnel.Sdk

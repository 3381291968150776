import HttpsTunnel.Tms.State

/-! # Users, streams and connections of the tunnel server

The functions of `UserMgr.cpp`, `SCB.h` and `ConnectMgr.cpp` that create, charge and take
down streams:

* `SCBMgr`: `newSCB`, `recycleSCB`;
* `User`: `recordTraffic`, `reportOrAccumulate`, `reportAccumulated`, `createSCB`,
  `connectWebServer`;
* `Connect`: `sendMsg`, `sendTmsMsg`, the destructor `deleteConn`;
* `ConnectMgr`: `createAgentConn`, `removeConn`, `informShutdownUser`. -/

namespace HttpsTunnel.Tms

open HttpsTunnel.Lib HttpsTunnel.Wire

/-! ### Traffic -/

/-- `Tcp_Ack_Len`. -/
def tcpAckLen : ℕ := 32 + 20

/-- `TrafficEst`. -/
def trafficEst (accurate : Bool) (x : ℕ) : ℕ :=
  if accurate then x + tcpAckLen * 2 + x / 1394 * tcpAckLen else x

/-- `Traffic_TCP_hss`. -/
def trafficTcpHss (accurate : Bool) : ℕ := if accurate then 5 * tcpAckLen + 2 * 60 else 0

def charge (x : ℕ) : TmsM ℕ := do
  return trafficEst (← get).accurate x

@[simp] theorem wpe_charge {x : ℕ} {Q : ℕ → Server → Prop} {F : Fault → Prop} {s : Server} :
    wpe (charge x) Q F s ↔ Q (trafficEst s.accurate x) s := Iff.rfl

/-- The balance below which a validated stream is cut off. -/
def minBalance : ℤ := 4000

/-- Charging `datalen` to a stream of this status and balance cuts it off. -/
def cutsOff (status : UserStat) (balance : ℤ) (datalen : ℕ) : Bool :=
  status = .validated ∧ wrapI64 (balance - datalen) < minBalance

/-- The charge, if there is one, cuts its stream off. -/
def cuts (charge : Option Charge) : Bool := charge.any fun x => cutsOff x.status x.balance x.due

/-- What charging `length` bytes to the stream of a connection finds. -/
def Server.chargeOf (s : Server) (c : Connect) (length : ℕ) : Option Charge :=
  match c.scb, c.user.bind s.userMap with
  | some k, some v => some ⟨(s.scbs k).status, v.balance, trafficEst s.accurate length⟩
  | _, _ => none

/-- `User::RecordTraffic`. -/
def recordTraffic (u : UserId) (scb : Option ScbPtr) (datalen : ℕ) : TmsM ℤ := do
  match scb with
  | none => pure (-1)
  | some k =>
      let v ← derefUser u
      let b ← getScb k
      modScb k (fun b => { b with traffic := (b.traffic + datalen) % 2 ^ 64 })
      modUser u (fun v => { v with balance := wrapI64 (v.balance - datalen) })
      if cutsOff b.status v.balance datalen then pure (-1) else pure 0

/-! ### Reports -/

/-- `_CenterConnPool[0]` and the like. -/
def firstConn (pool : List Ptr) : TmsM Ptr :=
  match pool with
  | [] => throw .emptyPool
  | p :: _ => pure p

/-- `ConnectMgr::GetCenterConn`. -/
def getCenterConn : TmsM Ptr := do firstConn (← get).centerConnPool

/-- `ConnectMgr::GetDnsConn`. -/
def getDnsConn : TmsM Ptr := do firstConn (← get).dnsConnPool

/-- `ConnectMgr::GetDpiConn`. -/
def getDpiConn : TmsM Ptr := do firstConn (← get).dpiConnPool

/-- Lexicographic comparison of two times, as `ReportOrAccumulate` writes it out. -/
def Timeval.lt (a b : Timeval) : Bool :=
  a.sec < b.sec ∨ a.sec = b.sec ∧ a.usec < b.usec

/-- The start time kept by `ReportOrAccumulate` for a stream that began at `btime`. -/
def accuStart (v : User) (now btime : Timeval) : Timeval :=
  if v.conReport = 0 then now
  else if v.accuStartTime.lt btime then v.accuStartTime
  else btime

/-- Size of `TrafficReport::host`. -/
def reportHostSize : ℕ := 256

/-- The end of `ReportOrAccumulate`: add to the running total while a report is under way, else
report. -/
def accumulateOrReport (u : UserId) (k : ScbPtr) (start : Timeval) : TmsM Unit := do
  let v ← derefUser u
  let b ← getScb k
  if v.reporting then
    modUser u (fun v => { v with
      conReport := (v.conReport + 1) % 2 ^ 16
      traffic := (v.traffic + b.traffic) % 2 ^ 64 })
  else
    emit (.report ⟨u, b.traffic, start, (← get).now⟩)
    let _ ← getCenterConn
    modUser u (fun v => { v with reporting := true, traffic := 0 })

/-- `User::ReportOrAccumulate`. -/
def reportOrAccumulate (u : UserId) (k : ScbPtr) : TmsM ℤ := do
  let b ← getScb k
  if b.traffic = 0 then pure (-1)
  else
    let hss := trafficTcpHss (← get).accurate
    modScb k (fun b => { b with traffic := (b.traffic + hss) % 2 ^ 64 })
    match b.tunnelConn with
    | none => pure (-1)
    | some t =>
        let tn ← deref t
        if reportHostSize < tn.currHost.length then throw .overflow
        else
          let v ← derefUser u
          let start := accuStart v (← get).now tn.beginTime
          modUser u (fun v => { v with accuStartTime := start })
          accumulateOrReport u k start
          modScb k (fun b => { b with traffic := 0 })
          pure 0

/-- `User::ReportAccumulated`. -/
def reportAccumulated (u : UserId) : TmsM Unit := do
  let v ← derefUser u
  emit (.report ⟨u, v.traffic, v.accuStartTime, (← get).now⟩)
  let _ ← getCenterConn
  modUser u (fun v => { v with traffic := 0, conReport := 0 })

/-- `UserMgr::RetrieveUser`. -/
def retrieveUser (u : UserId) : TmsM Unit := do
  let s ← get
  match s.userMap u with
  | some _ => pure ()
  | none => set (s.setUser u { accuStartTime := s.now })

/-- `UserMgr::NewForwardId`. -/
def newForwardId : TmsM ℕ := do
  let s ← get
  let id := if s.avalForwardId = 2 ^ 64 - 1 then 1 else s.avalForwardId
  set { s with avalForwardId := id + 1 }
  pure id

/-! ### Sending -/

/-- `Connect::SendMsg`. -/
def sendMsg (p : Ptr) (msg : List UInt8) : TmsM Unit := do
  let c ← deref p
  match ← sockSend c.sockFd msg with
  | some n => emit (.ctl p (msg.take n))
  | none => pure ()

/-- The charge for a message sent on a tunnel (the end of `SendTmsMsg`). -/
def chargeSent (p : Ptr) (sentlen : ℕ) : TmsM ℤ := do
  let c ← deref p
  match c.type, c.user with
  | .tunnel, some u =>
      emit (.sent p ((← get).chargeOf c sentlen))
      let r ← recordTraffic u c.scb (← charge sentlen)
      if r ≠ 0 ∨ c.scb = none then
        modConn p (fun c => { c with exit := true })
        pure (-1)
      else pure sentlen
  | _, _ => pure sentlen

/-- `Connect::SendTmsMsg`. -/
def sendTmsMsg (p : Ptr) (msg : List UInt8) : TmsM ℤ := do
  let c ← deref p
  match ← sockSend c.sockFd (frame msg) with
  | none => pure (-1)
  | some n =>
      emit (.ctl p ((frame msg).take n))
      if n ≠ (frame msg).length then pure n else chargeSent p n

/-! ### Stream control blocks -/

/-- `SCBMgr::NewSCB`: the first block of the free list, or a new one. -/
def newSCB : TmsM ScbPtr := do
  let s ← get
  let id := s.avalPcbId + 1
  match s.scbFreeList with
  | k :: rest =>
      set { s.setScb k { s.scbs k with scbid := id } with scbFreeList := rest, avalPcbId := id }
      pure k
  | [] =>
      set { s.setScb s.nextScb { scbid := id } with nextScb := s.nextScb + 1, avalPcbId := id }
      pure s.nextScb

/-- A block after `SCB::Reset`. -/
def SCB.reset : SCB := { destPort := 0 }

/-- `SCBMgr::RecycleSCB` (`User::ReleaseSCB` only calls it). -/
def recycleSCB (k : ScbPtr) : TmsM Unit :=
  modify (fun s => { s.setScb k SCB.reset with scbFreeList := s.scbFreeList ++ [k] })

/-- Link an agent to a stream. -/
def linkAgent (u : UserId) (k : ScbPtr) (agent : Ptr) : TmsM Unit := do
  let a ← deref agent
  modScb k (fun b => { b with agentConn := some agent, agentFd := a.sockFd })
  modConn agent (fun c => { c with user := some u, scb := some k })

/-- `scb_tree.insert`: an entry that exists is kept. -/
def User.insertScb (v : User) (id : ℕ) (k : ScbPtr) : User :=
  { v with scbTree := Function.update v.scbTree id (some ((v.scbTree id).getD k)) }

/-- Hand out a block and link tunnel `tunnel` with fields `t` to it. -/
def linkTunnel (u : UserId) (tunnel : Ptr) (t : Connect) : TmsM ScbPtr := do
  let k ← newSCB
  let now := (← get).now
  modScb k (fun b => { b with
    user := some u
    destPort := t.destPort
    tunnelConn := some tunnel
    tunnFd := t.sockFd
    lastActiveTime := now })
  modConn tunnel (fun c => { c with user := some u, scb := some k })
  pure k

/-- `User::CreateSCB`. -/
def createSCB (u : UserId) (tunnel : Ptr) (agent : Option Ptr) : TmsM ScbPtr := do
  let t ← deref tunnel
  match t.scb with
  | some k => pure k
  | none =>
      let k ← linkTunnel u tunnel t
      (match agent with
        | some a => linkAgent u k a
        | none => pure ())
      let b ← getScb k
      modUser u (fun v => v.insertScb b.scbid k)
      pure k

/-! ### Agents -/

/-- A connection object as `CreateAgentConn` leaves it. -/
def agentConnect (fd : ℕ) (mem : Buff) : Connect :=
  { sockFd := fd
    status := .inprogress
    type := .agent
    dec := { cstate := .forward, h := 0, stillneedtoread := buffSize, offset := 0, buff := mem } }

/-- Allocate `c` and enter it into the connection table. -/
def newConn (fd : ℕ) (c : Connect) : TmsM Ptr := do
  let s ← get
  let p := s.nextConn
  set ({ (s.setConn p c).setMap fd (some p) with
    nextConn := p + 1, openFds := fd :: s.openFds }.emit (.newfd fd p))
  pure p

/-- `ConnectMgr::CreateAgentConn`. -/
def createAgentConn : TmsM (Option Ptr) := do
  match ← sockOpen with
  | none => pure none
  | some fd =>
      let mem := (← get).mem
      let p ← newConn fd (agentConnect fd mem)
      pure (some p)

/-- Attach a new agent to the stream of a tunnel, creating the stream if there is none. -/
def attachAgent (u : UserId) (tunnel agent : Ptr) (port : ℕ) : TmsM ScbPtr := do
  let t ← deref tunnel
  match t.scb with
  | some k =>
      modScb k (fun b => { b with destPort := port })
      linkAgent u k agent
      pure k
  | none => createSCB u tunnel (some agent)

/-- `User::ConnectWebServer`. -/
def connectWebServer (u : UserId) (tunnel : Ptr) (ip port : ℕ) : TmsM (Option ScbPtr) := do
  match ← createAgentConn with
  | none =>
      let _ ← sendTmsMsg tunnel (ConnectHostRsp.bytes ⟨RespCode.fail.toNat, 0⟩)
      pure none
  | some agent =>
      let t ← deref tunnel
      let s ← get
      emit (.connect agent ip port u tunnel (t.scb.map s.scbs))
      let k ← attachAgent u tunnel agent port
      let a ← deref agent
      let _ ← addEvent a.sockFd ⟨false, true, true⟩
      let _ ← sendTmsMsg tunnel (ConnectHostRsp.bytes ⟨RespCode.prog.toNat, 0⟩)
      pure (some k)

/-! ### Taking connections down -/

/-- What `~Connect` does to the block of the connection. -/
def unlinkScb (c : Connect) : TmsM Unit :=
  match c.scb, c.type with
  | some k, .tunnel => modScb k (fun b => { b with tunnelConn := none })
  | some k, .agent => modScb k (fun b => { b with agentConn := none })
  | _, _ => pure ()

/-- `delete p`. -/
def deleteConn (p : Ptr) : TmsM Unit := do
  let c ← deref p
  (if 0 < c.sockFd then do
      let _ ← removeEvent c.sockFd
      closeFd c.sockFd
    else pure ())
  unlinkScb c
  modify (fun s => { s with conns := Function.update s.conns p none })

/-- Erase the other side of a stream from the table and delete it. -/
def dropPeer : Option Ptr → TmsM Unit
  | none => pure ()
  | some q => do
      let c ← deref q
      mapErase c.sockFd
      deleteConn q

/-- The part of `RemoveConn` for one side `p` of a stream `k` of user `u`. -/
def takeDownStream (p : Ptr) (c : Connect) (u : UserId) (k : ScbPtr) : TmsM Unit := do
  let _ ← reportOrAccumulate u k
  (match c.type with
    | .tunnel => do
        modScb k (fun b => { b with tunnelConn := none })
        dropPeer (← getScb k).agentConn
    | _ => do
        modScb k (fun b => { b with agentConn := none })
        dropPeer (← getScb k).tunnelConn)
  recycleSCB k
  modConn p (fun c => { c with user := none })

/-- The part of `RemoveConn` before the object is deleted. -/
def beforeRemove (p : Ptr) (c : Connect) : TmsM Unit :=
  match c.type, c.user, c.scb with
  | .center, _, _ => modify (fun s => { s with centerConnPool := s.centerConnPool.erase p })
  | .tunnel, some u, some k => takeDownStream p c u k
  | .agent, some u, some k => takeDownStream p c u k
  | _, _, _ => pure ()

/-- `ConnectMgr::RemoveConn`. -/
def removeConn (fd : ℕ) : TmsM Unit := do
  match (← get).connMap fd with
  | none => pure ()
  | some p =>
      let c ← deref p
      beforeRemove p c
      deleteConn p
      mapErase fd

/-- `ConnectMgr::InformShutdownUser`. -/
def informShutdownUser (fd : ℕ) : TmsM Unit := do
  match (← get).connMap fd with
  | none => pure ()
  | some p =>
      let c ← deref p
      match c.type, c.user with
      | .agent, some u =>
          let k ← nonNull c.scb
          let _ ← reportOrAccumulate u k
          mapErase fd
          dropPeer (← getScb k).tunnelConn
          modScb k (fun b => { b with agentConn := none })
          modConn p (fun c => { c with scb := none, user := none })
          emit (.agentDown p)
      | _, _ => pure ()

end HttpsTunnel.Tms

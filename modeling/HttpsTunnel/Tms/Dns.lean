import HttpsTunnel.Tms.Stream

/-! # Name resolution in the tunnel server

`DnsCache.cpp` and the parts of `ConnectMgr.cpp` that deal with names: the query built for a
host (`reqFill`), the parser of a response (`resParse`), the streams that wait for a name
(`addWaitLists`, `informClients`), and the receive loop of the name server's socket
(`dnsRecvEvent`).  A host name is a list of bytes, as in a `std::string`. -/

namespace HttpsTunnel.Tms

open HttpsTunnel.Lib HttpsTunnel.Wire

def dot : UInt8 := 46

/-! ### Addresses written in dotted form -/

/-- `Connect::IpOrHost`: the test for characters that are not digits can never hold, so only
the dots are counted. -/
def ipOrHost (host : Host) : ℤ := if host.count dot = 3 then 0 else -1

/-- The value of a digit in the given base. -/
def digitVal (base : ℕ) (c : UInt8) : Option ℕ :=
  let n := c.toNat
  let v := if 48 ≤ n ∧ n ≤ 57 then n - 48
    else if 97 ≤ n ∧ n ≤ 102 then n - 87
    else if 65 ≤ n ∧ n ≤ 70 then n - 55
    else 16
  if v < base then some v else none

/-- The digits of a number and what follows them. -/
def readDigits (base : ℕ) : ℕ → List UInt8 → ℕ × List UInt8
  | acc, [] => (acc, [])
  | acc, c :: cs =>
      match digitVal base c with
      | some v => readDigits base (acc * base + v) cs
      | none => (acc, c :: cs)

/-- A number as `strtoul` reads it with base 0; it has to start with a digit. -/
def readNumber : List UInt8 → Option (ℕ × List UInt8)
  | [] => none
  | c :: cs =>
      if (digitVal 10 c).isNone then none
      else if c ≠ 48 then some (readDigits 10 0 (c :: cs))
      else match cs with
        | x :: h :: rest =>
            if (x = 120 ∨ x = 88) ∧ (digitVal 16 h).isSome then some (readDigits 16 0 (h :: rest))
            else some (readDigits 8 0 cs)
        | _ => some (readDigits 8 0 cs)

def isSpaceByte (c : UInt8) : Bool := c = 32 ∨ (9 ≤ c.toNat ∧ c.toNat ≤ 13)

/-- The loop of `inet_aton`: `acc` holds the `n` leading parts read so far. -/
def inetParts : ℕ → ℕ → ℕ → List UInt8 → Option ℕ
  | 0, _, _, _ => none
  | fuel + 1, n, acc, cs =>
      match readNumber cs with
      | none => none
      | some (v, rest) =>
          match rest with
          | [] => if v < 256 ^ (4 - n) then some (acc * 256 ^ (4 - n) + v) else none
          | c :: rest' =>
              if c = dot ∧ n < 3 ∧ v < 256 then inetParts fuel (n + 1) (acc * 256 + v) rest'
              else if isSpaceByte c ∧ v < 256 ^ (4 - n) then some (acc * 256 ^ (4 - n) + v)
              else none

/-- `ntohl(inet_addr(host.c_str()))`; `INADDR_NONE` when the text is not an address. -/
def inetAddr (host : Host) : ℕ := (inetParts 4 0 0 (cstr host)).getD 0xffffffff

/-! ### Queries and responses -/

/-- The labels of a host name, each after its length. -/
def fillName : Host → Host → List UInt8
  | [], sec => UInt8.ofNat sec.length :: sec
  | c :: cs, sec =>
      if c = dot then (UInt8.ofNat sec.length :: sec) ++ fillName cs []
      else fillName cs (sec ++ [c])

/-- `req_fill`. -/
def reqFill (rv : ℕ) (host : Host) : List UInt8 :=
  toLE 2 ((rv >>> 16) ^^^ (rv ||| 0xffff)) ++ [1, 0] ++ [0, 1] ++ List.replicate 6 0 ++
    fillName host [] ++ [0] ++ [0, 1, 0, 1]

/-- Size of `dns_req_buff`. -/
def dnsReqSize : ℕ := 512

/-- `Rep`, one reply. -/
structure Rep where
  host : Host
  ip : ℕ
deriving DecidableEq, Repr

/-- Append a label to the name read so far. -/
def appendLabel (s sec : Host) : Host := (if s = [] then [] else s ++ [dot]) ++ sec

/-- The labels of a question, up to the empty one; the position after it. -/
def readName (b : Buff) : ℕ → ℕ → Host → Except Fault (Host × ℕ)
  | 0, _, _ => .error .overflow
  | fuel + 1, pos, s =>
      let len := (b pos).toNat
      if buffSize ≤ pos then .error .overflow
      else if len = 0 then .ok (s, pos + 1)
      else if buffSize < pos + 1 + len then .error .overflow
      else readName b fuel (pos + 1 + len) (appendLabel s (b.slice (pos + 1) len))

/-- The questions of a response. -/
def readQuestions (b : Buff) : ℕ → ℕ → Except Fault (List Rep × ℕ)
  | 0, pos => .ok ([], pos)
  | n + 1, pos => do
      let (host, pos') ← readName b (buffSize + 1) pos []
      let (reps, pos'') ← readQuestions b n (pos' + 4)
      pure (⟨host, 0⟩ :: reps, pos'')

/-- Size of `dns_ans_hdr`. -/
def ansHdrSize : ℕ := 12

/-- A 16-bit number in network order. -/
def be16 (b : Buff) (pos : ℕ) : ℕ := ofBE16 (b pos) (b (pos + 1))

/-- `ntohl` of the four bytes at `pos`. -/
def be32 (b : Buff) (pos : ℕ) : ℕ := be16 b pos * 65536 + be16 b (pos + 2)

/-- The answers of a response, `k` of them still to count: the first address found.  A record of
another type is skipped without being counted. -/
def readAnswers (b : Buff) : ℕ → ℕ → ℕ → Except Fault (Option ℕ)
  | _, 0, _ => .ok none
  | 0, _ + 1, _ => .error .overflow
  | fuel + 1, k + 1, pos =>
      if buffSize < pos + ansHdrSize then .error .overflow
      else
        let len := be16 b (pos + 10)
        let pos' := pos + ansHdrSize
        if be16 b (pos + 2) ≠ 1 then readAnswers b fuel (k + 1) (pos' + len)
        else if len = 4 then
          if buffSize < pos' + 4 then .error .overflow else .ok (some (be32 b pos'))
        else readAnswers b fuel k (pos' + len)

/-- Put an address into the first reply. -/
def setFirstIp : List Rep → Option ℕ → List Rep
  | r :: rs, some ip => { r with ip := ip } :: rs
  | rs, _ => rs

/-- `res_parse`. -/
def resParse (b : Buff) : Except Fault (List Rep) := do
  let (reps, pos) ← readQuestions b (be16 b 4) 12
  if reps = [] then pure []
  else return setFirstIp reps (← readAnswers b (buffSize + 1) (be16 b 6) pos)

/-! ### Waiting streams -/

/-- `DnsCache::AddWaitLists`. -/
def addWaitLists (host : Host) (k : ScbPtr) : TmsM Unit := do
  let b ← getScb k
  let u ← nonNull b.user
  modify (fun s => { s with waitingScb := s.waitingScb ++ [⟨host, u, b.scbid⟩] })

/-- `scb->tunnel_conn->SendTmsMsg(dns_fail_rsp)`. -/
def sendDnsFail (k : ScbPtr) : TmsM Unit := do
  let b ← getScb k
  let t ← nonNull b.tunnelConn
  let _ ← sendTmsMsg t (LoginRsp.bytes { LoginRsp.default with rspCode := RespCode.hostNotExist.toNat })

/-- Connect the stream of a waiter to the address found. -/
def informConnect (u : UserId) (k : ScbPtr) (ip : ℕ) : TmsM Unit := do
  let b ← getScb k
  match b.tunnelConn with
  | none => pure ()
  | some t =>
      match ← connectWebServer u t ip b.destPort with
      | some _ => pure ()
      | none => sendDnsFail k

/-- What `InformClients` does for one waiter. -/
def informWaiter (ip : ℕ) (w : Waiter) : TmsM Unit := do
  match (← get).userMap w.user with
  | none => pure ()
  | some v =>
      match v.scbTree w.scbid with
      | none => pure ()
      | some k => if ip ≠ 0 then informConnect w.user k ip else sendDnsFail k

/-- The loop of `InformClients`. -/
def informWaiters (ip : ℕ) : List Waiter → TmsM Unit
  | [] => pure ()
  | w :: ws => do
      informWaiter ip w
      informWaiters ip ws

/-- `DnsCache::InformClients`. -/
def informClients (host : Host) (ip : ℕ) : TmsM Unit := do
  informWaiters ip ((← get).waitingScb.filter (·.host = host))
  modify (fun s => { s with waitingScb := s.waitingScb.filter (·.host ≠ host) })
  emit (.answer host)

/-- `DnsCache::Update`. -/
def dnsUpdate (reps : List Rep) : TmsM Unit :=
  modify (fun s =>
    { s with cache := reps.foldl (fun c r => Function.update c r.host (some r.ip)) s.cache })

/-- The loop over the replies of one response. -/
def informAll : List Rep → TmsM Unit
  | [] => pure ()
  | r :: rs => do
      informClients r.host r.ip
      informAll rs

/-- One response. -/
def dnsReply (p : Ptr) (bs : List UInt8) : TmsM Unit := do
  modConn p (fun c => { c with dec := { c.dec with buff := c.dec.buff.store 0 bs } })
  let c ← deref p
  let reps ← (monadLift (resParse c.dec.buff) : TmsM (List Rep))
  dnsUpdate reps
  informAll reps

/-- `Connect::DnsRecvEvent`. -/
def dnsRecvEvent (p : Ptr) : List ReadRes → TmsM ℤ
  | [] => do
      let _ ← deref p
      setErrno EAGAIN
      pure (-1)
  | .fail e :: _ => do
      let _ ← deref p
      setErrno e
      pure (-1)
  | .data bs :: rs => do
      let _ ← deref p
      if bs = [] then pure 0
      else
        dnsReply p (bs.take buffSize)
        dnsRecvEvent p rs

end HttpsTunnel.Tms

import HttpsTunnel.Lib.Session

/-! # Messages between the programs

`TMSMessage.h` (`YMEMessage.h` in the SDK): the header `hdr_t`, the message identifiers, the
response codes and the packed structures the programs exchange.  The structures are packed
(`#pragma pack(1)`) and their numbers are in host order, that is little-endian; only the
length in the header is in network order.

A structure is read from the buffer at the fixed offset of each field (`LoginReq.read` and
the others), whatever the announced length of the message: the programs cast the buffer and
never compare the length with the size of the structure.  It is written by the matching
`bytes`. -/

namespace HttpsTunnel.Wire

open HttpsTunnel.Lib

/-! ### Header -/

def VALIDATER0 : UInt8 := 0x86
def VALIDATER1 : UInt8 := 0x68

/-- `sizeof(hdr_t)`: two validators, a length, a channel id. -/
def hdrSize : ℕ := 6

/-- The header of a message of `n` bytes, as `SendTmsMsg` fills it (`cid` is left 0). -/
def hdr (n : ℕ) : List UInt8 :=
  [VALIDATER0, VALIDATER1, UInt8.ofNat (n / 256), UInt8.ofNat n, 0, 0]

/-- A message as `SendTmsMsg` puts it on the wire. -/
def frame (msg : List UInt8) : List UInt8 := hdr msg.length ++ msg

/-- The receiving side's view of a header. -/
def hdrFormat : Format where
  hdrLen := hdrSize
  valid b := b[0]? = some VALIDATER0 ∧ b[1]? = some VALIDATER1
  bodyLen b := ofBE16 ((b[2]?).getD 0) ((b[3]?).getD 0)
  rawLen b := ofLE ((b.drop 2).take 2)
  hdrLen_pos := by decide

@[simp] theorem hdr_length (n : ℕ) : (hdr n).length = hdrSize := rfl

theorem hdrFormat_valid_hdr (n : ℕ) : hdrFormat.valid (hdr n) = true := by
  simp [hdrFormat, hdr]

theorem hdrFormat_bodyLen_hdr {n : ℕ} (h : n < 65536) : hdrFormat.bodyLen (hdr n) = n := by
  have e : hdrFormat.bodyLen (hdr n) =
      256 * (UInt8.ofNat (n / 256)).toNat + (UInt8.ofNat n).toNat := rfl
  rw [e, UInt8.toNat_ofNat', UInt8.toNat_ofNat']
  omega

/-- A message on the wire is a frame of the receiving side. -/
def msgFrame (msg : List UInt8) (h : msg.length < 65536) : Frame hdrFormat where
  hdr := hdr msg.length
  body := msg
  length_hdr := rfl
  valid := hdrFormat_valid_hdr _
  length_body := hdrFormat_bodyLen_hdr h

theorem msgFrame_bytes (msg : List UInt8) (h : msg.length < 65536) : (msgFrame msg h).bytes = frame msg := rfl

/-! ### Identifiers and codes -/

/-- `MessageEnum`. -/
inductive MsgId where
  | loginReq
  | loginRsp
  | connectHostReq
  | connectHostRsp
  | beginTransmit
  | readTokenReq
  | readTokenRsp
  | trafficReport
  | trafficReportRsp
  | keepAliveToken
  | synUserTuple
deriving DecidableEq, Repr

namespace MsgId

def toNat : MsgId → ℕ
  | loginReq => 1
  | loginRsp => 2
  | connectHostReq => 3
  | connectHostRsp => 4
  | beginTransmit => 5
  | readTokenReq => 7
  | readTokenRsp => 8
  | trafficReport => 9
  | trafficReportRsp => 10
  | keepAliveToken => 11
  | synUserTuple => 12

/-- The message a number stands for, if it is one of the known. -/
def ofNat? : ℕ → Option MsgId
  | 1 => some loginReq
  | 2 => some loginRsp
  | 3 => some connectHostReq
  | 4 => some connectHostRsp
  | 5 => some beginTransmit
  | 7 => some readTokenReq
  | 8 => some readTokenRsp
  | 9 => some trafficReport
  | 10 => some trafficReportRsp
  | 11 => some keepAliveToken
  | 12 => some synUserTuple
  | _ => none

@[simp] theorem ofNat?_toNat (m : MsgId) : ofNat? m.toNat = some m := by cases m <;> rfl

end MsgId

/-- `RespCode`. -/
inductive RespCode where
  | ready
  | prog
  | userNotExist
  | noBalance
  | parametErr
  | tokenVerified
  | incorrectToken
  | agentEstablished
  | agentNotConnected
  | hostNotExist
  | fail
deriving DecidableEq, Repr

/-- The value on the wire (`SUCC` and `READY` share 0). -/
def RespCode.toNat : RespCode → ℕ
  | ready => 0
  | prog => 1
  | userNotExist => 2
  | noBalance => 3
  | parametErr => 4
  | tokenVerified => 5
  | incorrectToken => 6
  | agentEstablished => 7
  | agentNotConnected => 8
  | hostNotExist => 9
  | fail => 0xFFFF

/-- Bytes of a token field. -/
def tokenSize : ℕ := 32

/-- A signed 64-bit number as the machine keeps it: the representative in `[-2^63, 2^63)`. -/
def wrapI64 (z : ℤ) : ℤ := Int.bmod z (2 ^ 64)

theorem wrapI64_mem (z : ℤ) : -2 ^ 63 ≤ wrapI64 z ∧ wrapI64 z < 2 ^ 63 :=
  ⟨Int.le_bmod (by decide), Int.bmod_lt (by decide)⟩

theorem wrapI64_of_mem {z : ℤ} (h : -2 ^ 63 ≤ z) (h' : z < 2 ^ 63) : wrapI64 z = z :=
  Int.bmod_eq_of_le (by omega) (by omega)

theorem wrapI64_wrapI64_sub (a b : ℤ) : wrapI64 (wrapI64 a - b) = wrapI64 (a - b) :=
  Int.bmod_sub_bmod

/-- A signed 32-bit number as the machine keeps it. -/
def wrapI32 (z : ℤ) : ℤ := Int.bmod z (2 ^ 32)

/-- A number converted to an unsigned 64-bit one. -/
def toU64 (z : ℤ) : ℕ := (z % 2 ^ 64).toNat

theorem wrapI32_of_mem {z : ℤ} (h : -2 ^ 31 ≤ z) (h' : z < 2 ^ 31) : wrapI32 z = z :=
  Int.bmod_eq_of_le (by omega) (by omega)

theorem wrapI32_mem (z : ℤ) : -2 ^ 31 ≤ wrapI32 z ∧ wrapI32 z < 2 ^ 31 :=
  ⟨Int.le_bmod (by decide), Int.bmod_lt (by decide)⟩

theorem toU64_of_mem {z : ℤ} (h : 0 ≤ z) (h' : z < 2 ^ 64) : (toU64 z : ℤ) = z := by
  rw [toU64, Int.emod_eq_of_lt h h', Int.toNat_of_nonneg h]

/-- A signed number from the bytes of a 64-bit field. -/
def ofLEI64 (bs : List UInt8) : ℤ := wrapI64 (ofLE bs)

/-- A signed number on the 8 bytes of a 64-bit field. -/
def toLEI64 (z : ℤ) : List UInt8 := toLE 8 (z % 2 ^ 64).toNat

/-- `((MessageID*)msg)->msg_id`. -/
def msgId (b : Buff) : ℕ := ofLE (b.slice 0 2)

/-! ### Structures -/

/-- Fields of `LoginReq`; `host` is the position of its first byte. -/
structure LoginReq where
  app : ℕ
  mobile : ℕ
  token : List UInt8
  port : ℕ
  hostLen : ℕ
deriving DecidableEq, Repr

/-- Position of `LoginReq::host`. -/
def LoginReq.hostAt : ℕ := 54

def LoginReq.read (b : Buff) : LoginReq where
  app := ofLE (b.slice 2 8)
  mobile := ofLE (b.slice 10 8)
  token := b.slice 18 tokenSize
  port := ofLE (b.slice 50 2)
  hostLen := ofLE (b.slice 52 2)

/-- A login request for `host`, as the SDK fills it (the token field zero-padded). -/
def LoginReq.bytes (r : LoginReq) (host : List UInt8) : List UInt8 :=
  toLE 2 MsgId.loginReq.toNat ++ toLE 8 r.app ++ toLE 8 r.mobile ++ r.token ++ toLE 2 r.port ++
    toLE 2 r.hostLen ++ host

structure LoginRsp where
  rspCode : ℕ
  avalableTraffic : ℤ
  forwardId : ℕ
deriving DecidableEq, Repr

def LoginRsp.bytes (r : LoginRsp) : List UInt8 :=
  toLE 2 MsgId.loginRsp.toNat ++ toLE 2 r.rspCode ++ toLEI64 r.avalableTraffic ++ toLE 8 r.forwardId

def LoginRsp.read (b : Buff) : LoginRsp where
  rspCode := ofLE (b.slice 2 2)
  avalableTraffic := ofLEI64 (b.slice 4 8)
  forwardId := ofLE (b.slice 12 8)

/-- A `LoginRsp` as declared: all fields 0. -/
def LoginRsp.default : LoginRsp := ⟨0, 0, 0⟩

structure ConnectHostRsp where
  rspCode : ℕ
  forwardId : ℕ
deriving DecidableEq, Repr

def ConnectHostRsp.bytes (r : ConnectHostRsp) : List UInt8 :=
  toLE 2 MsgId.connectHostRsp.toNat ++ toLE 2 r.rspCode ++ toLE 4 r.forwardId

def ConnectHostRsp.read (b : Buff) : ConnectHostRsp where
  rspCode := ofLE (b.slice 2 2)
  forwardId := ofLE (b.slice 4 4)

/-- `BeginTransmit` has a 32-bit `forward_id`. -/
structure BeginTransmit where
  forwardId : ℕ
deriving DecidableEq, Repr

def BeginTransmit.read (b : Buff) : BeginTransmit where
  forwardId := ofLE (b.slice 2 4)

def BeginTransmit.bytes (r : BeginTransmit) : List UInt8 :=
  toLE 2 MsgId.beginTransmit.toNat ++ toLE 4 r.forwardId

structure ReadTokenReq where
  cid : ℕ
  app : ℕ
  mobile : ℕ
  token : List UInt8
deriving DecidableEq, Repr

def ReadTokenReq.bytes (r : ReadTokenReq) : List UInt8 :=
  toLE 2 MsgId.readTokenReq.toNat ++ toLE 8 r.cid ++ toLE 8 r.app ++ toLE 8 r.mobile ++ r.token

def ReadTokenReq.read (b : Buff) : ReadTokenReq where
  cid := ofLE (b.slice 2 8)
  app := ofLE (b.slice 10 8)
  mobile := ofLE (b.slice 18 8)
  token := b.slice 26 tokenSize

structure ReadTokenRsp where
  rspCode : ℕ
  cid : ℕ
  app : ℕ
  mobile : ℕ
  balance : ℤ
  token : List UInt8
deriving DecidableEq, Repr

def ReadTokenRsp.read (b : Buff) : ReadTokenRsp where
  rspCode := ofLE (b.slice 2 2)
  cid := ofLE (b.slice 4 8)
  app := ofLE (b.slice 12 8)
  mobile := ofLE (b.slice 20 8)
  balance := ofLEI64 (b.slice 28 8)
  token := b.slice 36 tokenSize

def ReadTokenRsp.bytes (r : ReadTokenRsp) : List UInt8 :=
  toLE 2 MsgId.readTokenRsp.toNat ++ toLE 2 r.rspCode ++ toLE 8 r.cid ++ toLE 8 r.app ++
    toLE 8 r.mobile ++ toLEI64 r.balance ++ r.token

structure SynUserTuple where
  app : ℕ
  mobile : ℕ
  srcIpBe : ℕ
  srcPortBe : ℕ
deriving DecidableEq, Repr

def SynUserTuple.bytes (r : SynUserTuple) : List UInt8 :=
  toLE 2 MsgId.synUserTuple.toNat ++ toLE 8 r.app ++ toLE 8 r.mobile ++ toLE 4 r.srcIpBe ++
    toLE 2 r.srcPortBe

def SynUserTuple.read (b : Buff) : SynUserTuple where
  app := ofLE (b.slice 2 8)
  mobile := ofLE (b.slice 10 8)
  srcIpBe := ofLE (b.slice 18 4)
  srcPortBe := ofLE (b.slice 22 2)

/-- A `TrafficReport`; the times are `timeval`s, `host` the text in the field. -/
structure TrafficReport where
  app : ℕ
  mobile : ℕ
  traffic : ℕ
  btime : ℕ × ℕ
  etime : ℕ × ℕ
  ip : ℕ
  hlen : ℕ
  host : List UInt8
deriving DecidableEq, Repr

structure TrafficReportRsp where
  app : ℕ
  mobile : ℕ
  traffic : ℕ
  ip : ℕ
  rspCode : ℕ
deriving DecidableEq, Repr

def TrafficReportRsp.read (b : Buff) : TrafficReportRsp where
  app := ofLE (b.slice 2 8)
  mobile := ofLE (b.slice 10 8)
  traffic := ofLE (b.slice 18 8)
  ip := ofLE (b.slice 26 4)
  rspCode := ofLE (b.slice 30 1)

end HttpsTunnel.Wire

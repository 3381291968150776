import HttpsTunnel.Lib.Lru
import HttpsTunnel.Lib.Trace
import HttpsTunnel.Wire.Message

/-! # The traffic counters of the DPI

`LvldbMgr.cpp` and the packet callback of `PcapModule.cpp`.  The DPI keeps one `IpUserTraffic`
per client address in the cache of the vendored `ic-leveldb`, which has sixteen shards that each
drop their least recently used entry.  Captured packets add to
the counter of their client; when both directions have sent a FIN (or one a RST) the counter is
reported to the recorder, 40 bytes for the last ACK included, and starts again at -40.  At most
one report of an address waits for its reply.

A handler holds the handle of its entry from the lookup to the end and is one step here.  Its
`atomic_cas` loops then succeed at the first attempt.  What a handler sends is returned with the
new state; the result of the send is not looked at. -/

namespace HttpsTunnel.Dpi

open HttpsTunnel.Lib HttpsTunnel.Wire

structure IpUserTraffic where
  ipBe : ℕ := 0
  reporting : Bool := false
  fins : ℕ := 0
  traffic : ℤ := 0
  mobile : ℕ := 0
  app : ℕ := 0
deriving DecidableEq, Repr

def finTypeC : ℕ := 1
def finTypeS : ℕ := 2
def finTypeR : ℕ := 4

def minAckLen : ℤ := 40

def hashCapacity : ℕ := 100000

/-! ### The shards of the cache

`util/hash.cc` and `ShardedLRUCache` of `util/cache.cc`. -/

def hashMul : ℕ := 0xc6a4a793

/-- One turn of the loop of `Hash` over four bytes. -/
def hashWord (h w : ℕ) : ℕ :=
  let h := (h + w) % 2 ^ 32 * hashMul % 2 ^ 32
  h ^^^ (h >>> 16)

/-- What `Hash` does with the bytes that are left, at most three of them. -/
def hashTail (h : ℕ) (data : List UInt8) : ℕ :=
  if data = [] then h
  else
    let h := (h + ofLE data) % 2 ^ 32 * hashMul % 2 ^ 32
    h ^^^ (h >>> 24)

def hashLoop (h : ℕ) : List UInt8 → ℕ
  | a :: b :: c :: d :: rest => hashLoop (hashWord h (ofLE [a, b, c, d])) rest
  | data => hashTail h data

/-- `Hash`. -/
def hash (data : List UInt8) (seed : ℕ) : ℕ := hashLoop (seed ^^^ (data.length * hashMul % 2 ^ 32)) data

/-- `HashSlice` of a key, the four bytes of an address. -/
def hashSlice (ip : ℕ) : ℕ := hash (toLE 4 ip) 0

def numShardBits : ℕ := 4

def numShards : ℕ := 1 <<< numShardBits

theorem hashSlice_lt (ip : ℕ) : hashSlice ip < 2 ^ 32 := by
  have hlt : ∀ h w, hashWord h w < 2 ^ 32 := fun h w => by
    have hmod : (h + w) % 2 ^ 32 * hashMul % 2 ^ 32 < 2 ^ 32 := Nat.mod_lt _ (by norm_num)
    exact Nat.xor_lt_two_pow hmod (lt_of_le_of_lt (Nat.shiftRight_le ..) hmod)
  simp only [hashSlice, hash, toLE, hashLoop, hashTail, if_true]
  exact hlt _ _

/-- `Shard` of the hash of an address. -/
def shardOf (ip : ℕ) : Fin numShards :=
  ⟨hashSlice ip >>> (32 - numShardBits), by
    have := hashSlice_lt ip
    rw [Nat.shiftRight_eq_div_pow]
    simp only [numShards, numShardBits]
    omega⟩

/-- `per_shard`. -/
def perShard : ℕ := (hashCapacity + (numShards - 1)) / numShards

/-- The two readings of the clock for the report a handler may send. -/
structure Clock where
  btime : ℕ × ℕ := (0, 0)
  etime : ℕ × ℕ := (0, 0)
deriving DecidableEq, Repr

/-! ### One entry -/

namespace IpUserTraffic

/-- `memcpy(r.host, "-", 2)`. -/
def reportHost : List UInt8 := [0x2d]

/-- The report of `n` bytes for the user the entry is bound to. -/
def report (e : IpUserTraffic) (ip : ℕ) (n : ℤ) (t : Clock) : TrafficReport where
  app := e.app
  mobile := e.mobile
  traffic := toU64 n
  btime := t.btime
  etime := t.etime
  ip := ip
  hlen := 1
  host := reportHost

/-- The body of `OnTrafficReport` for the entry found. -/
def onTrafficReport (e : IpUserTraffic) (ip n finType : ℕ) (t : Clock) :
    IpUserTraffic × Option TrafficReport :=
  let e := { e with fins := e.fins ||| finType }
  let fin := e.fins ≥ finTypeC ||| finTypeS
  if ¬ fin then
    ({ e with traffic := wrapI32 (e.traffic + n) }, none)
  else if e.reporting = false ∧ e.traffic > 256 then
    -- the entry is not bound to a user: the packet is not counted
    if e.mobile = 0 then (e, none)
    else
      ({ e with reporting := true, traffic := -minAckLen, fins := 0 },
        some (e.report ip (e.traffic + n + minAckLen) t))
  else
    ({ e with traffic := wrapI32 (e.traffic + n) }, none)

/-- The body of `OnTrafficReportReply` for the entry found. -/
def onTrafficReportReply (e : IpUserTraffic) (ip : ℕ) (t : Clock) :
    IpUserTraffic × Option TrafficReport :=
  if e.reporting then
    if e.traffic > 256 ∧ e.fins &&& (finTypeC ||| finTypeS) ≠ 0 then
      ({ e with traffic := -minAckLen, fins := 0 },
        -- an `int` sum
        some (e.report ip (wrapI32 (e.traffic + minAckLen)) t))
    else
      ({ e with reporting := false }, none)
  else (e, none)

/-- The body of `OnUserLogin` for the entry found. -/
def onUserLogin (e : IpUserTraffic) (u : SynUserTuple) : IpUserTraffic :=
  { e with ipBe := u.srcIpBe, mobile := u.mobile, app := u.app }

end IpUserTraffic

/-! ### The manager -/

structure LvldbMgr where
  cache : Shards shardOf IpUserTraffic

namespace LvldbMgr

/-- `Init`. -/
def init : LvldbMgr := ⟨Shards.empty shardOf perShard (by decide)⟩

/-- The entry of an address, a zeroed one if there is none yet. -/
def entry (m : LvldbMgr) (ip : ℕ) : IpUserTraffic := (m.cache.lookup ip).getD {}

def put (m : LvldbMgr) (ip : ℕ) (e : IpUserTraffic) : LvldbMgr := ⟨m.cache.put ip e⟩

def onUserLogin (m : LvldbMgr) (u : SynUserTuple) : LvldbMgr :=
  m.put u.srcIpBe ((m.entry u.srcIpBe).onUserLogin u)

def onTrafficReport (m : LvldbMgr) (ip n finType : ℕ) (t : Clock) :
    LvldbMgr × Option TrafficReport :=
  let (e, r) := (m.entry ip).onTrafficReport ip n finType t
  (m.put ip e, r)

def onTrafficReportReply (m : LvldbMgr) (ip : ℕ) (t : Clock) : LvldbMgr × Option TrafficReport :=
  let (e, r) := (m.entry ip).onTrafficReportReply ip t
  (m.put ip e, r)

end LvldbMgr

/-- The calls of the manager. -/
inductive Call where
  | login (u : SynUserTuple)
  | packet (ip n finType : ℕ) (t : Clock)
  | reply (ip : ℕ) (t : Clock)
deriving DecidableEq, Repr

/-- The address a call is about. -/
def Call.ip : Call → ℕ
  | login u => u.srcIpBe
  | packet ip _ _ _ => ip
  | reply ip _ => ip

/-- What a call does to the entry of its address. -/
def Call.onEntry : Call → IpUserTraffic → IpUserTraffic × Option TrafficReport
  | login u, e => (e.onUserLogin u, none)
  | packet ip n f t, e => e.onTrafficReport ip n f t
  | reply ip t, e => e.onTrafficReportReply ip t

def LvldbMgr.call (m : LvldbMgr) : Call → LvldbMgr × Option TrafficReport
  | .login u => (m.onUserLogin u, none)
  | .packet ip n f t => m.onTrafficReport ip n f t
  | .reply ip t => m.onTrafficReportReply ip t

/-- A call changes the entry of its address only. -/
theorem LvldbMgr.call_eq (m : LvldbMgr) (c : Call) :
    m.call c = (m.put c.ip (c.onEntry (m.entry c.ip)).1, (c.onEntry (m.entry c.ip)).2) := by
  cases c <;> rfl

/-! ### Packets -/

def tcpAckLen : ℤ := 32 + 20

/-- `TelecomTrafficPredict`. -/
def telecomTrafficPredict (tcplen : ℤ) : ℤ :=
  if tcplen ≤ 0 then tcplen + tcpAckLen
  else tcplen + tcpAckLen + (tcplen - 1) / 1388 * tcpAckLen

/-- What the callback reads of a captured frame. -/
structure Packet where
  len : ℕ
  srcAddr : ℕ
  dstAddr : ℕ
  fin : Bool
  rst : Bool
deriving DecidableEq, Repr

/-- `dpi_packet_process`: the call it makes, `tmsAddr` being the address of the TMS. -/
def dpiPacketProcess (tmsAddr : ℕ) (p : Packet) (t : Clock) : Call :=
  let finType := if p.fin then (if p.srcAddr = tmsAddr then finTypeS else finTypeC) else 0
  let payloadLen := wrapI32 (telecomTrafficPredict (wrapI32 (p.len - 14 - tcpAckLen)))
  .packet (if p.srcAddr = tmsAddr then p.dstAddr else p.srcAddr) (toU64 payloadLen)
    (if p.rst then finTypeR else finType) t

end HttpsTunnel.Dpi

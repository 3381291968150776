import HttpsTunnel.Tms.MainLoop

/-! # The tunnel server as a net of connections and streams

An abstract view of the server, in which its safety properties are stated and proved: which
connections exist and under which descriptor, who has been verified, which stream control
block links which tunnel with which agent, which blocks are free, who waits for a name, and
what has been observed at the interface.  Balances, traffic counters, buffers, timers, the
epoll set and the bytes the server sends on its own account are left out.

* `Net` is the abstract state, `Server.net` the view of a concrete one.
* `Act` lists what the handlers can do to it, each with the conditions under which the code
  does it; `Big` adds what the main loop does around them (taking a connection down after an
  error, shutting a socket).

`Run.lean` proves that every event the main loop handles is a sequence of `Big` steps. -/

namespace HttpsTunnel.Tms

open HttpsTunnel.Lib HttpsTunnel.Wire

/-- What counts of a connection. -/
structure Node where
  fd : ℕ
  type : ConnType
  /-- `status` is `sta_inprogress`. -/
  connecting : Bool
  verified : Bool
  app : ℕ
  mobile : ℕ
  token : List UInt8
  destPort : ℕ
  user : Option UserId
  scb : Option ScbPtr
  cstate : Mode
  still : ℕ
  offset : ℕ
deriving DecidableEq

def Connect.node (c : Connect) : Node where
  fd := c.sockFd
  type := c.type
  connecting := c.status = .inprogress
  verified := c.sdkVerified
  app := c.app
  mobile := c.mobile
  token := c.token
  destPort := c.destPort
  user := c.user
  scb := c.scb
  cstate := c.dec.cstate
  still := c.dec.stillneedtoread
  offset := c.dec.offset

/-- What counts of a stream control block. -/
structure Block where
  scbid : ℕ
  user : Option UserId
  tunnel : Option Ptr
  agent : Option Ptr
  status : UserStat
  destPort : ℕ
deriving DecidableEq

def SCB.block (b : SCB) : Block where
  scbid := b.scbid
  user := b.user
  tunnel := b.tunnelConn
  agent := b.agentConn
  status := b.status
  destPort := b.destPort

/-- The observations kept in the abstract log: all but the server's own messages and reports. -/
def Obs.isKey : Obs → Bool
  | .ctl _ _ | .sent _ _ => false
  | .report _ => false
  | _ => true

/-- The abstract state. -/
@[ext] structure Net where
  conns : Ptr → Option Node
  next : Ptr
  /-- The connection table. -/
  table : ℕ → Option Ptr
  blocks : ScbPtr → Block
  nextBlock : ScbPtr
  free : List ScbPtr
  lastId : ℕ
  trees : UserId → Option (ℕ → Option ScbPtr)
  waiting : List Waiter
  fds : List ℕ
  shut : List ℕ
  log : List Obs

/-- The abstract view of a server. -/
def Server.net (s : Server) : Net where
  conns p := (s.conns p).map Connect.node
  next := s.nextConn
  table := s.connMap
  blocks k := (s.scbs k).block
  nextBlock := s.nextScb
  free := s.scbFreeList
  lastId := s.avalPcbId
  trees u := (s.userMap u).map (·.scbTree)
  waiting := s.waitingScb
  fds := s.openFds
  shut := s.shutFds
  log := s.log.filter Obs.isKey

/-- The `len` bytes in the buffer are dispatched as message `id`. -/
def Connect.Gets (c : Connect) (len : ℕ) (id : MsgId) : Prop :=
  4 ≤ len ∧ MsgId.ofNat? (msgId c.dec.buff) = some id

instance (c : Connect) (len : ℕ) (id : MsgId) : Decidable (c.Gets len id) :=
  inferInstanceAs (Decidable (_ ∧ _))

namespace Net

/-! ### Operations -/

def emit (w : Net) (o : Obs) : Net := { w with log := w.log ++ [o] }

def setConn (w : Net) (p : Ptr) (n : Node) : Net :=
  { w with conns := Function.update w.conns p (some n) }

def setBlock (w : Net) (k : ScbPtr) (b : Block) : Net :=
  { w with blocks := Function.update w.blocks k b }

def setTable (w : Net) (fd : ℕ) (p : Option Ptr) : Net :=
  { w with table := Function.update w.table fd p }

theorem setConn_self {w : Net} {p : Ptr} {n : Node} (h : w.conns p = some n) :
    w.setConn p n = w := by
  rw [setConn, ← h, Function.update_eq_self]

theorem setBlock_self (w : Net) (k : ScbPtr) : w.setBlock k (w.blocks k) = w := by
  rw [setBlock, Function.update_eq_self]

/-- A new connection under a new descriptor. -/
def newConn (w : Net) (fd : ℕ) (n : Node) : Net :=
  { w with
    conns := Function.update w.conns w.next (some n)
    next := w.next + 1
    table := Function.update w.table fd (some w.next)
    fds := fd :: w.fds
    log := w.log ++ [.newfd fd w.next] }

/-- The block `NewSCB` hands out. -/
def newKey (w : Net) : ScbPtr := w.free.headD w.nextBlock

/-- Hand out a block under a new id. -/
def newBlock (w : Net) : Net :=
  match w.free with
  | k :: rest =>
      { w.setBlock k { w.blocks k with scbid := w.lastId + 1 } with
        free := rest, lastId := w.lastId + 1 }
  | [] =>
      { w.setBlock w.nextBlock (SCB.block { scbid := w.lastId + 1 }) with
        nextBlock := w.nextBlock + 1, lastId := w.lastId + 1 }

theorem newBlock_cons {w : Net} {k : ScbPtr} {rest : List ScbPtr} (h : w.free = k :: rest) :
    w.newBlock = { w.setBlock k { w.blocks k with scbid := w.lastId + 1 } with
      free := rest, lastId := w.lastId + 1 } := by
  simp [newBlock, h]

theorem newBlock_nil {w : Net} (h : w.free = []) :
    w.newBlock = { w.setBlock w.nextBlock (SCB.block { scbid := w.lastId + 1 }) with
      nextBlock := w.nextBlock + 1, lastId := w.lastId + 1 } := by
  simp [newBlock, h]

theorem newBlock_scbid (w : Net) : (w.newBlock.blocks w.newKey).scbid = w.lastId + 1 := by
  cases h : w.free with
  | cons k rest => simp [newBlock_cons h, newKey, h, setBlock]
  | nil => simp [newBlock_nil h, newKey, h, setBlock, SCB.block]

/-- Make sure the user exists. -/
def addUser (w : Net) (u : UserId) : Net :=
  match w.trees u with
  | some _ => w
  | none => { w with trees := Function.update w.trees u (some fun _ => none) }

/-- Enter a block into the tree of a user; an entry that exists is kept. -/
def insertTree (w : Net) (u : UserId) (id : ℕ) (k : ScbPtr) : Net :=
  { w with
    trees := Function.update w.trees u
      ((w.trees u).map fun t => Function.update t id (some ((t id).getD k))) }

/-- `CreateSCB` for a tunnel `t` with fields `n` that has no stream. -/
def openStream (w : Net) (u : UserId) (t : Ptr) (n : Node) (agent : Option Ptr) : Net :=
  let k := w.newKey
  let w₁ := w.newBlock
  let b := { w₁.blocks k with user := some u, destPort := n.destPort, tunnel := some t }
  ((w₁.setConn t { n with user := some u, scb := some k }).setBlock k
    (match agent with
      | some a => { b with agent := some a }
      | none => b)).insertTree u (w.lastId + 1) k

/-- An agent as it is created. -/
def agentNode (fd : ℕ) : Node := (agentConnect fd fun _ => 0).node

/-- An agent of user `u` on stream `k`. -/
def linkedAgent (fd : ℕ) (u : UserId) (k : ScbPtr) : Node :=
  { agentNode fd with user := some u, scb := some k }

/-- `ConnectWebServer` on a tunnel `t` with fields `n`, up to the response. -/
def connectAgent (w : Net) (u : UserId) (t : Ptr) (n : Node) (fd port : ℕ) (o : Obs) : Net :=
  match n.scb with
  | some k =>
      ((w.newConn fd (linkedAgent fd u k)).emit o).setBlock k
        { w.blocks k with destPort := port, agent := some w.next }
  | none =>
      ((w.newConn fd (linkedAgent fd u w.newKey)).emit o).openStream u t n (some w.next)

/-- What the destructor does to the block of a connection. -/
def unlink (w : Net) (n : Node) : Net :=
  match n.scb, n.type with
  | some k, .tunnel => w.setBlock k { w.blocks k with tunnel := none }
  | some k, .agent => w.setBlock k { w.blocks k with agent := none }
  | _, _ => w

/-- `close`, for descriptors other than 0. -/
def closeFd (w : Net) (fd : ℕ) : Net :=
  { w with fds := w.fds.filter (· ≠ fd), shut := w.shut.filter (· ≠ fd) }

/-- `delete p`. -/
def delete (w : Net) (p : Ptr) (n : Node) : Net :=
  let w₁ := (if 0 < n.fd then w.closeFd n.fd else w).unlink n
  { w₁ with conns := Function.update w₁.conns p none }

/-- Delete the other side of a stream. -/
def dropPeer (w : Net) (q : Option Ptr) : Net :=
  match q with
  | none => w
  | some q =>
      match w.conns q with
      | none => w
      | some m => (w.setTable m.fd none).delete q m

/-- `RecycleSCB`. -/
def recycle (w : Net) (k : ScbPtr) : Net :=
  { w.setBlock k SCB.reset.block with free := w.free ++ [k] }

/-- The part of `RemoveConn` for one side of a stream. -/
def takeDown (w : Net) (n : Node) (k : ScbPtr) : Net :=
  match n.type with
  | .tunnel =>
      let w₁ := w.setBlock k { w.blocks k with tunnel := none }
      (w₁.dropPeer (w₁.blocks k).agent).recycle k
  | _ =>
      let w₁ := w.setBlock k { w.blocks k with agent := none }
      (w₁.dropPeer (w₁.blocks k).tunnel).recycle k

/-- The stream a connection takes with it when it is removed. -/
def streamOf (n : Node) : Option ScbPtr :=
  match n.type, n.user, n.scb with
  | .tunnel, some _, some k => some k
  | .agent, some _, some k => some k
  | _, _, _ => none

/-- What `RemoveConn` does before the object is deleted. -/
def beforeRemove (w : Net) (n : Node) : Net :=
  match streamOf n with
  | some k => w.takeDown n k
  | none => w

/-- `RemoveConn` of the connection `p` with fields `n`, found under `fd`. -/
def remove (w : Net) (fd : ℕ) (p : Ptr) (n : Node) : Net :=
  ((w.beforeRemove n).delete p n).setTable fd none

/-- `InformShutdownUser` of agent `p` on stream `k`. -/
def agentDown (w : Net) (fd : ℕ) (p : Ptr) (n : Node) (k : ScbPtr) : Net :=
  let w₁ := (w.setTable fd none).dropPeer (w.blocks k).tunnel
  ((w₁.setBlock k { w₁.blocks k with agent := none }).setConn p
    { n with scb := none, user := none }).emit (.agentDown p)

/-- The fields of the tunnel of the stream of a connection. -/
def tunnelOf (w : Net) (n : Node) : Option Node :=
  ((n.scb.map w.blocks).bind (·.tunnel)).bind w.conns

/-! ### What the handlers do -/

/-- The descriptor a token reply names: `int cid = r->cid`, widened again by `GetConn(U64)`. -/
def tokenCid (r : ReadTokenRsp) : ℕ :=
  if r.cid % 2 ^ 32 < 2 ^ 31 then r.cid % 2 ^ 32 else r.cid % 2 ^ 32 + (2 ^ 64 - 2 ^ 32)

/-- The fields of a connection after a login. -/
def loggedIn (n : Node) (r : LoginReq) : Node :=
  { n with
    app := r.app
    mobile := r.mobile
    destPort := r.port
    token := copyToken n.token r.token
    user := some ⟨r.mobile, r.app⟩ }

/-- A login on `p`: the fields are set and the token request is made. -/
def login (w : Net) (p : Ptr) (c : Connect) (len : ℕ) (r : LoginReq) : Net :=
  let w₁ := (w.setConn p (loggedIn c.node r)).addUser ⟨r.mobile, r.app⟩
  (w₁.emit (.msg p c len)).emit (.tokenReq p ⟨c.sockFd, r.app, r.mobile, r.token⟩)

/-- Client `q` on stream `k` of user `u` passes a reply `r` received on `p`. -/
def verify (w : Net) (p : Ptr) (c : Connect) (len : ℕ) (r : ReadTokenRsp) (q : Ptr) (m : Node)
    (k : ScbPtr) (u : UserId) : Net :=
  let w₁ := (w.setConn q { m with verified := true }).setBlock k
    { w.blocks k with status := .validated }
  (w₁.emit (.msg p c len)).emit (.auth p c.type q r u)

/-- The stream `id` of user `v` on tunnel `t` waits for `host`, which user `u` asked for when the
stream of `t` was `k`. -/
def addWaiter (w : Net) (host : Host) (u v : UserId) (id : ℕ) (t : Ptr) (port : ℕ)
    (k : Option SCB) : Net :=
  { w with
    waiting := w.waiting ++ [⟨host, v, id⟩]
    log := w.log ++ [.wait host u id t port k] }

/-- Pending bytes `bs` of agent `a` were accepted by tunnel `p`. -/
def flushed (w : Net) (p a : Ptr) (m : Node) (bs : List UInt8) (connecting : Bool)
    (still offset : ℕ) : Net :=
  (w.emit (.relay .down p a bs)).setConn a
    { m with connecting := connecting, still := still, offset := offset }

/-- Tunnel `p`, found under `fd`, is writable and has an agent `a`. -/
structure Flushable (w : Net) (fd : ℕ) (p a : Ptr) (n m : Node) : Prop where
  table : w.table fd = some p
  conn : w.conns p = some n
  type : n.type = .tunnel
  mode : n.cstate = .forward
  link : ∃ k, n.scb = some k ∧ (w.blocks k).agent = some a
  agent : w.conns a = some m
  notShut : fd ∉ w.shut

/-- One thing a handler does. -/
inductive Act : Net → Net → Prop
  /-- A message is received. -/
  | message {w : Net} {p : Ptr} {c : Connect} (len : ℕ) (hc : w.conns p = some c.node)
      (hm : c.dec.cstate = .header) : Act w (w.emit (.msg p c len))
  /-- LOGIN_REQ: the fields are set and the token request is made. -/
  | login {w : Net} {p : Ptr} {c : Connect} (len : ℕ) (r : LoginReq) (hc : w.conns p = some c.node)
      (hm : c.dec.cstate = .header) (hid : c.Gets len .loginReq)
      (hr : r = LoginReq.read c.dec.buff) (ht : 0 ∈ r.token) :
      Act w (w.login p c len r)
  /-- BEGIN_TRANSMIT: the tunnel is switched. -/
  | switch {w : Net} {p : Ptr} {c : Connect} {k : ScbPtr} (len : ℕ) (hc : w.conns p = some c.node)
      (hm : c.dec.cstate = .header) (hid : c.Gets len .beginTransmit)
      (hk : c.scb = some k) (ha : (w.blocks k).agent ≠ none) :
      Act w ((w.setConn p { c.node with cstate := .forward, still := buffSize }).emit (.msg p c len))
  /-- READ_TOKEN_RSP: client `q` is verified. -/
  | verify {w : Net} {p q : Ptr} {c : Connect} {m : Node} {k : ScbPtr} {u : UserId} (len : ℕ)
      (r : ReadTokenRsp) (hc : w.conns p = some c.node) (hm : c.dec.cstate = .header)
      (hid : c.Gets len .readTokenRsp)
      (hr : r = ReadTokenRsp.read c.dec.buff) (hq : w.table (tokenCid r) = some q)
      (hn : w.conns q = some m) (hcode : r.rspCode = 0) (htok : cstr m.token = cstr r.token)
      (hk : m.scb = some k) (hu : m.user = some u) :
      Act w (w.verify p c len r q m k u)
  /-- A stream is opened for a tunnel that has none, and waits for a name. -/
  | ask {w : Net} {t : Ptr} {n : Node} (host : Host) (u : UserId) (hn : w.conns t = some n)
      (hs : n.scb = none) (hm : n.cstate = .header) (hu : n.user = some u) :
      Act w ((w.openStream u t n none).addWaiter host u u (w.lastId + 1) t n.destPort none)
  /-- An agent is started for tunnel `t`; if `t` has no stream one is opened. -/
  | connect {w : Net} {t : Ptr} {n : Node} (u : UserId) (fd ip port : ℕ) (k : Option SCB)
      (hn : w.conns t = some n) (hk : k.map SCB.block = n.scb.map w.blocks)
      (hm : n.scb = none → n.cstate = .header ∧ n.user = some u)
      (hfd : 0 < fd ∧ fd < 2 ^ 31 ∧ fd ∉ w.fds) :
      Act w (w.connectAgent u t n fd port (.connect w.next ip port u t k))
  /-- The stream a tunnel has waits for a name. -/
  | askAgain {w : Net} {t : Ptr} {n : Node} {k : ScbPtr} {v : UserId} (host : Host) (u : UserId)
      (b : SCB) (hn : w.conns t = some n) (hk : n.scb = some k) (hb : b.block = w.blocks k)
      (hv : (w.blocks k).user = some v) (hu : n.user = some u) :
      Act w (w.addWaiter host u v (w.blocks k).scbid t n.destPort (some b))
  /-- The waiters of a name are removed. -/
  | woken {w : Net} (host : Host) :
      Act w { w with waiting := w.waiting.filter (·.host ≠ host), log := w.log ++ [.answer host] }
  /-- A tunnel is accepted. -/
  | accept {w : Net} (fd : ℕ) (mem : Buff) (now : Timeval) (ht : w.table fd = none)
      (hfd : 0 < fd ∧ fd < 2 ^ 31 ∧ fd ∉ w.fds) :
      Act w (w.newConn fd ((Connect.fresh mem).accepted fd now).node)
  /-- A connection is removed. -/
  | remove {w : Net} {fd : ℕ} {p : Ptr} {n : Node} (ht : w.table fd = some p)
      (hn : w.conns p = some n) : Act w (w.remove fd p n)
  /-- The decoder of a connection advances. -/
  | read {w : Net} {p : Ptr} {n : Node} (mode : Mode) (still offset : ℕ) (hn : w.conns p = some n)
      (hm : mode = .forward ↔ n.cstate = .forward) :
      Act w (w.setConn p { n with cstate := mode, still := still, offset := offset })
  /-- Bytes were read in forward mode. -/
  | forwarded {w : Net} {p : Ptr} {c : Connect} (tn : Option Connect) (x : Option Charge)
      (bs : List UInt8) (hc : w.conns p = some c.node) (hm : c.dec.cstate = .forward)
      (ht : tn.map Connect.node = w.tunnelOf c.node) :
      Act w (w.emit (.fwd p c (c.sockFd ∈ w.shut) tn x bs))
  /-- Bytes read from a tunnel were accepted by the agent. -/
  | upload {w : Net} {p a : Ptr} {c : Connect} {k : ScbPtr} (tn : Option Connect) {x : Option Charge}
      (bs bs' : List UInt8) (hx : cuts x = false) (hc : w.conns p = some c.node) (hm : c.dec.cstate = .forward)
      (ht : tn.map Connect.node = w.tunnelOf c.node) (hty : c.type = .tunnel) (hk : c.scb = some k)
      (ha : (w.blocks k).agent = some a) :
      Act w ((w.emit (.fwd p c (c.sockFd ∈ w.shut) tn x bs)).emit (.relay .up p a bs'))
  /-- Bytes read from an agent were accepted by the tunnel. -/
  | download {w : Net} {p t : Ptr} {c tn : Connect} {k : ScbPtr} (x : Option Charge) (bs bs' : List UInt8)
      (hc : w.conns p = some c.node) (hm : c.dec.cstate = .forward) (hty : c.type = .agent)
      (hk : c.scb = some k) (ht : (w.blocks k).tunnel = some t) (htn : w.conns t = some tn.node)
      (hfd : tn.sockFd ∉ w.shut) :
      Act w ((w.emit (.fwd p c (c.sockFd ∈ w.shut) (some tn) x bs)).emit (.relay .down t p bs'))
  /-- The tunnel did not take all: the agent is not read until the rest is flushed. -/
  | hangUp {w : Net} {p : Ptr} {n : Node} (offset : ℕ) (hn : w.conns p = some n)
      (hty : n.type = .agent) (hm : n.cstate = .forward) :
      Act w (w.setConn p { n with connecting := false, offset := offset })
  /-- Pending bytes of an agent were accepted by the tunnel. -/
  | flush {w : Net} {fd : ℕ} {p a : Ptr} {n m : Node} (bs : List UInt8) (connecting : Bool)
      (still offset : ℕ) (h : w.Flushable fd p a n m)
      (hc : connecting = true → m.connecting = true) :
      Act w (w.flushed p a m bs connecting still offset)
  /-- The connection of an agent is established. -/
  | establish {w : Net} {p t : Ptr} {n : Node} {k : ScbPtr} (connecting : Bool)
      (hn : w.conns p = some n) (hc : n.connecting = true) (hk : n.scb = some k)
      (ht : (w.blocks k).tunnel = some t) : Act w (w.setConn p { n with connecting := connecting })

/-! ### What the main loop does -/

/-- One thing the main loop does. -/
inductive Big : Net → Net → Prop
  | act {w w' : Net} (h : Act w w') : Big w w'
  /-- After an error: an agent is given up, and its descriptor is closed. -/
  | giveUp {w : Net} {fd : ℕ} {p : Ptr} {n : Node} {k : ScbPtr} (ht : w.table fd = some p)
      (hn : w.conns p = some n) (hty : n.type = .agent) (hu : n.user ≠ none) (hk : n.scb = some k) :
      Big w ((w.agentDown fd p n k).closeFd fd)
  /-- A stream is cut off while a connection is read, and the code leaves it at that. -/
  | cutIgnored {w : Net} (p t : Ptr) : Big w (w.emit (.cutoff p t (some EAGAIN)))
  /-- A stream is cut off while connection `p` is read, and `p` is removed. -/
  | cutRemove {w : Net} {fd : ℕ} {p t : Ptr} {n : Node} (e : ℕ) (ht : w.table fd = some p)
      (hn : w.conns p = some n) (htn : t = p ∨ n.type = .agent ∧ ∃ k, streamOf n = some k ∧
        (w.blocks k).tunnel = some t) :
      Big w ((w.emit (.cutoff p t (some e))).remove fd p n)
  /-- An agent is cut off and given up after an error. -/
  | cutGiveUp {w : Net} {fd : ℕ} {p t : Ptr} {n : Node} {k : ScbPtr} (e : ℕ)
      (ht : w.table fd = some p) (hn : w.conns p = some n) (hty : n.type = .agent)
      (hu : n.user ≠ none) (hk : n.scb = some k) (htn : t = p ∨ (w.blocks k).tunnel = some t) :
      Big w (((w.emit (.cutoff p t (some e))).agentDown fd p n k).closeFd fd)
  /-- A stream is cut off while pending bytes are flushed, and the tunnel is shut down. -/
  | cutShut {w : Net} {fd : ℕ} {p a : Ptr} {n m : Node} (bs : List UInt8) (connecting : Bool)
      (still offset : ℕ) (h : w.Flushable fd p a n m)
      (hc : connecting = true → m.connecting = true) :
      Big w { (w.flushed p a m bs connecting still offset).emit (.cutoff p p none) with
        shut := fd :: w.shut }
  /-- The agent of a stream without tunnel is dropped from the table and shut down. -/
  | orphan {w : Net} {fd : ℕ} {p : Ptr} {n : Node} (ht : w.table fd = some p)
      (hn : w.conns p = some n) (hc : n.connecting = true)
      (hk : (n.scb.map w.blocks).bind (·.tunnel) = none) :
      Big w { (w.setConn p { n with connecting := false }).setTable fd none with
        shut := fd :: w.shut }

end Net

end HttpsTunnel.Tms

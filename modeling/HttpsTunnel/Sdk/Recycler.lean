import HttpsTunnel.Sdk.Proxy

/-! # Accepting, removing and recycling connections

The rest of `ConnectMgr.cpp` and `Recycler.cpp`: a browser is accepted (`handleAcceptEvent`), a
connection is removed together with its peer (`removeConnect`, with the destructor `destroy`), and
after each batch of events the connections that no longer transmit are closed (`crbScan`).

`World` adds to the state of the SDK what these functions use.  A position in `expire_list` is a node
(`Iter`, with `none` for `end()`); nodes have an identity, so that an iterator to a node that has been
erased leads nowhere, and following it is a fault.  `times` is what the calls of `gettimeofday` to
come return. -/

namespace HttpsTunnel.Sdk

open HttpsTunnel.Lib HttpsTunnel.Wire

/-! ### State -/

structure Timeval where
  sec : ℤ
  usec : ℤ
deriving DecidableEq, Repr

/-- In microseconds. -/
def Timeval.micros (t : Timeval) : ℤ := t.sec * 1000000 + t.usec

abbrev BlockPtr := ℕ
/-- An iterator of `expire_list`. -/
abbrev Iter := Option ℕ

/-- `ConnRecycleBlock`. -/
structure Block where
  tv : Timeval := ⟨0, 0⟩
  fd : ℕ := 0
  traffic : ℕ := 0
  conn : Option Ptr := none
deriving DecidableEq, Repr

/-- What is recorded of the recycler; `pos` is the number of entries in the log of the SDK. -/
inductive Note where
  /-- From the time `tv` on a block waits for the connection with descriptor `fd`. -/
  | watched (fd pos : ℕ) (tv : Timeval)
  /-- At the time `now` the browser `p` is closed as no longer transmitting. -/
  | closed (fd : ℕ) (p : Ptr) (pos : ℕ) (now : Timeval)
deriving DecidableEq, Repr

/-- The SDK with its recycler. -/
structure World where
  sdk : State
  blocks : BlockPtr → Block := fun _ => {}
  nextBlock : BlockPtr := 0
  /-- The nodes of `expire_list`, each with the block it points to. -/
  expireList : List (ℕ × BlockPtr) := []
  nextNode : ℕ := 0
  recycleList : List BlockPtr := []
  /-- `Connect::crb_it`. -/
  crbIt : Ptr → Iter := fun _ => none
  connCount : ℤ := 0
  acceptBeginTime : ℤ := 0
  timeWindow : Bool := false
  times : List Timeval := []
  /-- The connections of the calls of `YMELoginTms` that wait for their answer. -/
  logins : List Ptr := []
  /-- What happened to the connections of browsers.  The code does not read it. -/
  record : List Note := []

/-- Where the behaviour of the SDK is no longer defined: a null `Connect*`, one to a deleted object or
an iterator to an erased node is followed, or a handler stops for another reason. -/
inductive Crash where
  | nullConnect
  | deletedConnect
  | erasedNode
  | handler (e : Fault)
deriving DecidableEq, Repr

/-- Where a handler stopped. -/
def Crash.ofFault : Fault → Crash
  | .useAfterFree => deletedConnect
  | e => handler e

abbrev WorldM := Prog World Crash

/-- A part of the SDK that does not use the recycler. -/
def onSdk {α : Type} (x : SdkM α) : WorldM α := fun w =>
  match x w.sdk with
  | .ok (a, s) => .ok (a, { w with sdk := s })
  | .error e => .error (.ofFault e)

@[simp] theorem wpe_onSdk {α : Type} {x : SdkM α} {Q : α → World → Prop} {F : Crash → Prop} {w : World} :
    wpe (onSdk x) Q F w ↔ wpe x (fun a s => Q a { w with sdk := s }) (fun e => F (.ofFault e)) w.sdk := by
  simp only [wpe, onSdk]
  cases x w.sdk <;> rfl

def note (o : Note) : WorldM Unit := modify (fun w => { w with record := w.record ++ [o] })

/-- The next result of `gettimeofday`. -/
def gettimeofday : WorldM Timeval := do
  let w ← get
  set { w with times := w.times.tail }
  pure (w.times.headD ⟨0, 0⟩)

/-! ### The lists of the recycler -/

/-- `*it`. -/
def atNode (n : ℕ) : WorldM BlockPtr := do
  match (← get).expireList.lookup n with
  | none => throw .erasedNode
  | some b => pure b

def modBlock (b : BlockPtr) (f : Block → Block) : WorldM Unit :=
  modify (fun w => { w with blocks := Function.update w.blocks b (f (w.blocks b)) })

/-- The iterator behind node `n` of a list. -/
def iterNext (n : ℕ) : List (ℕ × BlockPtr) → Iter
  | [] => none
  | e :: es => if e.1 = n then es.head?.map Prod.fst else iterNext n es

/-- `expire_list.erase`: the iterator behind the node. -/
def eraseNode (n : ℕ) : WorldM Iter := do
  let _ ← atNode n
  let w ← get
  set { w with expireList := w.expireList.filter (fun e => e.1 ≠ n) }
  pure (iterNext n w.expireList)

/-- Insert a node for block `b` at the end of `expire_list`. -/
def insertNode (b : BlockPtr) : WorldM ℕ := do
  let w ← get
  set { w with expireList := w.expireList ++ [(w.nextNode, b)], nextNode := w.nextNode + 1 }
  pure w.nextNode

/-- A block from `recycle_list`, or a new one. -/
def takeBlock : WorldM BlockPtr := do
  let w ← get
  match w.recycleList with
  | b :: rest =>
      set { w with recycleList := rest }
      pure b
  | [] =>
      set { w with blocks := Function.update w.blocks w.nextBlock {}, nextBlock := w.nextBlock + 1 }
      pure w.nextBlock

section Rules

variable {F : Crash → Prop} {w : World}

@[simp] theorem wpe_gettimeofday {Q : Timeval → World → Prop} :
    wpe gettimeofday Q F w ↔ Q (w.times.headD ⟨0, 0⟩) { w with times := w.times.tail } := Iff.rfl

@[simp] theorem wpe_atNode {n : ℕ} {Q : BlockPtr → World → Prop} :
    wpe (atNode n) Q F w ↔ (w.expireList.lookup n = none → F .erasedNode) ∧
      ∀ b, w.expireList.lookup n = some b → Q b w := by
  simp only [atNode, wpe_bind, wpe_get]
  cases w.expireList.lookup n <;> simp

@[simp] theorem wpe_modBlock {b : BlockPtr} {f : Block → Block} {Q : Unit → World → Prop} :
    wpe (modBlock b f) Q F w ↔
      Q () { w with blocks := Function.update w.blocks b (f (w.blocks b)) } := Iff.rfl

@[simp] theorem wpe_eraseNode {n : ℕ} {Q : Iter → World → Prop} :
    wpe (eraseNode n) Q F w ↔ (w.expireList.lookup n = none → F .erasedNode) ∧
      ∀ b, w.expireList.lookup n = some b →
        Q (iterNext n w.expireList) { w with expireList := w.expireList.filter (fun e => e.1 ≠ n) } := by
  simp only [eraseNode, wpe_bind, wpe_atNode, wpe_get, wpe_set, wpe_pure]

@[simp] theorem wpe_insertNode {b : BlockPtr} {Q : ℕ → World → Prop} :
    wpe (insertNode b) Q F w ↔ Q w.nextNode
      { w with expireList := w.expireList ++ [(w.nextNode, b)], nextNode := w.nextNode + 1 } := Iff.rfl

/-- The block `takeBlock` gives. -/
def World.freeBlock (w : World) : BlockPtr := w.recycleList.headD w.nextBlock

/-- The state behind `takeBlock`. -/
def World.blockTaken (w : World) : World :=
  { w with
    recycleList := w.recycleList.tail
    blocks := if w.recycleList = [] then Function.update w.blocks w.nextBlock {} else w.blocks
    nextBlock := if w.recycleList = [] then w.nextBlock + 1 else w.nextBlock }

@[simp] theorem wpe_takeBlock {Q : BlockPtr → World → Prop} :
    wpe takeBlock Q F w ↔ Q w.freeBlock w.blockTaken := by
  simp only [takeBlock, wpe_bind, wpe_get, World.freeBlock, World.blockTaken]
  cases h : w.recycleList <;> rfl

end Rules

/-- `ConnRecycleBlock::CRBNew`. -/
def crbNew : WorldM ℕ := do
  insertNode (← takeBlock)

/-- Assign `crb_it` of a connection object. -/
def setCrbIt (p : Option Ptr) (it : Iter) : WorldM Unit := do
  match p with
  | none => throw .nullConnect
  | some p =>
      let _ ← onSdk (deref p)
      modify (fun w => { w with crbIt := Function.update w.crbIt p it })

section Rules

variable {F : Crash → Prop} {w : World}

/-- The state behind `crbNew`. -/
def World.nodeAdded (w : World) : World :=
  { w.blockTaken with
    expireList := w.expireList ++ [(w.nextNode, w.freeBlock)]
    nextNode := w.nextNode + 1 }

@[simp] theorem wpe_crbNew {Q : ℕ → World → Prop} :
    wpe crbNew Q F w ↔ Q w.nextNode w.nodeAdded := by
  simp only [crbNew, wpe_bind, wpe_takeBlock, wpe_insertNode]
  rfl

@[simp] theorem wpe_setCrbIt {p : Ptr} {it : Iter} {Q : Unit → World → Prop} :
    wpe (setCrbIt (some p) it) Q F w ↔ (w.sdk.conns p = none → F .deletedConnect) ∧
      ∀ c, w.sdk.conns p = some c → Q () { w with crbIt := Function.update w.crbIt p it } := by
  simp only [setCrbIt, wpe_bind, wpe_onSdk, wpe_deref, wpe_modify, Crash.ofFault]

end Rules

/-- `ConnRecycleBlock::CRBDelay`: the new value of the iterator. -/
def crbDelay (n : ℕ) : WorldM Iter := do
  let toRemove ← atNode n
  let b ← atNode (← crbNew)
  let old := (← get).blocks toRemove
  modBlock b (fun k => { k with conn := old.conn, fd := old.fd, traffic := old.traffic })
  let now ← gettimeofday
  modBlock b (fun k => { k with tv := now })
  note (.watched old.fd (← get).sdk.log.length now)
  modify (fun w => { w with recycleList := w.recycleList ++ [toRemove] })
  let now ← gettimeofday
  modBlock toRemove (fun k => { k with tv := now })
  let it ← eraseNode n
  setCrbIt ((← get).blocks toRemove).conn it
  pure it

/-- The part of `CRBDelete` that clears the iterator of the block's connection. -/
def clearCrbIt (conn : Option Ptr) : WorldM Unit := do
  match conn with
  | none => pure ()
  | some p =>
      let _ ← onSdk (deref p)
      if (← get).crbIt p ≠ none then setCrbIt (some p) none

/-- `ConnRecycleBlock::CRBDelete`. -/
def crbDelete (it : Iter) : WorldM Unit := do
  match it with
  | none => pure ()
  | some n =>
      let toRemove ← atNode n
      clearCrbIt ((← get).blocks toRemove).conn
      modify (fun w => { w with recycleList := w.recycleList ++ [toRemove] })
      modBlock toRemove (fun _ => {})
      let _ ← eraseNode n

section Rules

variable {F : Crash → Prop} {w : World}

/-- The state behind `crbDelete` on node `n` with block `b` of the connection `p`. -/
def World.nodeRemoved (w : World) (n : ℕ) (b : BlockPtr) (p : Ptr) : World :=
  { w with
    crbIt := Function.update w.crbIt p none
    recycleList := w.recycleList ++ [b]
    blocks := Function.update w.blocks b {}
    expireList := w.expireList.filter (fun e => e.1 ≠ n) }

theorem wpe_crbDelete {n : ℕ} {b : BlockPtr} {p : Ptr} {c : Connect} {Q : Unit → World → Prop}
    (hn : w.expireList.lookup n = some b) (hb : (w.blocks b).conn = some p) (hp : w.sdk.conns p = some c)
    (hit : w.crbIt p ≠ none) : wpe (crbDelete (some n)) Q F w ↔ Q () (w.nodeRemoved n b p) := by
  simp only [crbDelete, clearCrbIt, wpe_bind, wpe_atNode, hn, wpe_get, hb, wpe_onSdk, wpe_deref, hp, wpe_ite, hit,
    wpe_setCrbIt, wpe_modify, wpe_modBlock, wpe_eraseNode, wpe_pure, World.nodeRemoved, found_iff, false_implies,
    not_false_eq_true, ne_eq, not_true, and_true, true_implies]

end Rules

/-! ### Connections -/

/-- `delete` of a connection object, with its destructor. -/
def destroy (p : Ptr) : WorldM Unit := do
  let c ← onSdk (deref p)
  if 0 < c.sockFd then
    let _ ← onSdk (removeEvent c.sockFd)
    onSdk (emit (.shut p))
  if c.type = .proxy then crbDelete ((← get).crbIt p)
  onSdk (modify (fun s => { s with conns := Function.update s.conns p none }))

section Rules

variable {F : Crash → Prop} {w : World}

/-- The state behind the destructor of `p` with fields `c`, apart from the recycler. -/
def State.deleted (s : State) (p : Ptr) (c : Connect) : State :=
  let s' := if 0 < c.sockFd then (s.unregistered c.sockFd).emit (.shut p) else s
  { s' with conns := Function.update s.conns p none }

theorem State.unregistered_conns (s : State) (fd : ℕ) : (s.unregistered fd).conns = s.conns := by
  unfold unregistered
  split_ifs
  · rfl
  · cases s.epoll fd <;> rfl

theorem wpe_destroy_tunnel {p : Ptr} {c : Connect} {Q : Unit → World → Prop} (hp : w.sdk.conns p = some c)
    (hty : c.type ≠ .proxy) :
    wpe (destroy p) Q F w ↔ Q () { w with sdk := w.sdk.deleted p c } := by
  simp only [destroy, wpe_bind, wpe_onSdk, wpe_deref, hp, found_iff, hty, if_false, State.deleted]
  split_ifs with hfd
  · simp only [wpe_bind, wpe_onSdk, wpe_removeEvent, wpe_emit, wpe_modify, State.emit,
      State.unregistered_conns]
  · simp only [wpe_onSdk, wpe_modify]

theorem wpe_destroy_proxy {p : Ptr} {c : Connect} {n : ℕ} {b : BlockPtr} {Q : Unit → World → Prop}
    (hp : w.sdk.conns p = some c) (hty : c.type = .proxy) (hit : w.crbIt p = some n)
    (hn : w.expireList.lookup n = some b) (hb : (w.blocks b).conn = some p) :
    wpe (destroy p) Q F w ↔ Q () { w.nodeRemoved n b p with sdk := w.sdk.deleted p c } := by
  have hdel : ∀ s : State, s.conns = w.sdk.conns → ∀ Q : Unit → World → Prop,
      wpe (crbDelete (some n)) Q F { w with sdk := s } ↔ Q () { w.nodeRemoved n b p with sdk := s } := by
    intro s hs Q
    exact wpe_crbDelete (w := { w with sdk := s }) hn hb (hs ▸ hp) (by simp [hit])
  simp only [destroy, wpe_bind, wpe_onSdk, wpe_deref, hp, found_iff, hty, if_true, State.deleted]
  split_ifs with hfd
  · simp only [wpe_bind, wpe_onSdk, wpe_removeEvent, wpe_emit, wpe_modify, wpe_get, hit]
    have hs : ((w.sdk.unregistered c.sockFd).emit (.shut p)).conns = w.sdk.conns := State.unregistered_conns _ _
    generalize (w.sdk.unregistered c.sockFd).emit (.shut p) = s at hs ⊢
    rw [hdel s hs, hs]
  · simp only [wpe_bind, wpe_onSdk, wpe_modify, wpe_get, hit]
    exact hdel _ rfl _

end Rules

/-- `_ConnMap.erase`. -/
def eraseEntry (fd : ℕ) : WorldM Unit :=
  onSdk (modify (fun s => { s with connMap := Function.update s.connMap fd none }))

/-- The connection is one of a browser, or its peer is. -/
def isProxied (c : Connect) : WorldM Bool := do
  if c.type = .proxy then pure true
  else
    match c.peer with
    | none => throw .nullConnect
    | some q => do
        let d ← onSdk (deref q)
        pure (decide (d.type = .proxy))

/-- A connection is taken out of the table and deleted. -/
def dropConn (p : Ptr) : WorldM Unit := do
  let c ← onSdk (deref p)
  eraseEntry c.sockFd
  destroy p

/-- The peer goes with the connection. -/
def dropPeer (peer : Option Ptr) : WorldM Unit :=
  match peer with
  | none => pure ()
  | some q => dropConn q

/-- The fields of a connection that is being removed. -/
def Connect.down (c : Connect) : Connect := { c with status := .disconnected }

/-- `RemoveConnect` on a connection of the table. -/
def removeEntry (p : Ptr) : WorldM Unit := do
  let c ← onSdk (deref p)
  if c.type = .proxy then
    if let some q := c.peer then
      let _ ← onSdk (deref q)
  onSdk (modConn p Connect.down)
  if ← isProxied c then
    dropPeer c.peer
    dropConn p
  else onSdk (wakeupUser p)
  modify (fun w => { w with connCount := w.connCount - 1 })

/-- `ConnectMgr::RemoveConnect`. -/
def removeConnect (fd : ℕ) : WorldM ℤ := do
  match (← get).sdk.connMap fd with
  | some (some p) => removeEntry p
  | some none => throw .nullConnect
  | none =>
      let _ ← onSdk (removeEvent fd)
  pure 0

/-! ### Accepting -/

def Expire_Seconds : ℤ := 12
def Expire_Count : ℕ := 5

/-- The time window of `HandleAcceptEvent`: whether a connection is taken now. -/
def inWindow : WorldM Bool := do
  if (← get).timeWindow then
    let now := (← gettimeofday).micros
    if 5 * 1000000 < now - (← get).acceptBeginTime then pure false
    else
      modify (fun w => { w with acceptBeginTime := now })
      pure true
  else pure true

/-- The object for a new descriptor: the one in the table, reset, or a new one. -/
def acceptObject (fd : ℕ) : SdkM Ptr := do
  let s ← get
  match s.connMap fd with
  | some (some p) =>
      -- `Connect::Reset`
      modConn p (fun c => { c with
        status := .offline
        type := .tunnel
        uid := 0
        dec := { c.dec with stillneedtoread := 0, cstate := .header } })
      pure p
  | some none => throw .nullDeref
  | none =>
      set { s.setConn s.nextConn {} with nextConn := s.nextConn + 1 }
      pure s.nextConn

/-- The table part of `HandleAcceptEvent`. -/
def acceptEntry (fd : ℕ) : SdkM Ptr := do
  let p ← acceptObject fd
  modify (fun s => { s with connMap := Function.update s.connMap fd (some (some p)) })
  modConn p (fun c => { c with
    sockFd := fd
    type := .proxy
    dec := { c.dec with stillneedtoread := buffSize } })
  pure p

/-- The recycler part of `HandleAcceptEvent`. -/
def watch (fd : ℕ) (p : Ptr) : WorldM Unit := do
  let n ← crbNew
  setCrbIt (some p) (some n)
  let b ← atNode n
  modBlock b (fun k => { k with fd := fd, conn := some p })
  let now ← gettimeofday
  modBlock b (fun k => { k with tv := now })
  note (.watched fd (← get).sdk.log.length now)

/-- `HandleAcceptEvent` on a connection that is taken. -/
def acceptConnection (fd : ℕ) : WorldM Unit := do
  let p ← onSdk (acceptEntry fd)
  watch fd p
  modify (fun w => { w with connCount := w.connCount + 1 })

/-- `ConnectMgr::HandleAcceptEvent`; `newfd` is what `accept` returned. -/
def handleAcceptEvent (newfd : ℤ) : WorldM ℤ := do
  if newfd ≤ 0 then pure newfd
  else if ← inWindow then
    acceptConnection newfd.toNat
    pure newfd
  else pure 0

/-- `YMEConnectable`. -/
def yMEConnectable : WorldM Unit := do
  let time ← gettimeofday
  modify (fun w => { w with acceptBeginTime := time.micros, timeWindow := true })

section Rules

variable {F : Crash → Prop} {w : World}

/-- The identities of the nodes have all been given out. -/
def World.Numbered (w : World) : Prop := ∀ e ∈ w.expireList, e.1 < w.nextNode

theorem World.Numbered.lookup_nextNode (h : w.Numbered) : w.expireList.lookup w.nextNode = none := by
  rw [List.lookup_eq_none_iff]
  intro e he
  simpa using (h e he).ne'

theorem World.Numbered.lookup_added (h : w.Numbered) :
    w.nodeAdded.expireList.lookup w.nextNode = some w.freeBlock := by
  simp [nodeAdded, List.lookup_append, h.lookup_nextNode]

theorem World.Numbered.nodeAdded (h : w.Numbered) : w.nodeAdded.Numbered := by
  intro e he
  simp only [World.nodeAdded, List.mem_append, List.mem_singleton] at he ⊢
  rcases he with he | rfl
  · exact (h e he).trans (Nat.lt_succ_self _)
  · exact Nat.lt_succ_self _

/-- The state behind `watch`. -/
def World.watched (w : World) (fd : ℕ) (p : Ptr) : World :=
  { w.nodeAdded with
    crbIt := Function.update w.crbIt p (some w.nextNode)
    blocks := Function.update w.nodeAdded.blocks w.freeBlock
      { w.nodeAdded.blocks w.freeBlock with fd := fd, conn := some p, tv := w.times.headD ⟨0, 0⟩ }
    times := w.times.tail
    record := w.record ++ [.watched fd w.sdk.log.length (w.times.headD ⟨0, 0⟩)] }

theorem wpe_watch {fd : ℕ} {p : Ptr} {c : Connect} {Q : Unit → World → Prop} (hw : w.Numbered)
    (hc : w.sdk.conns p = some c) : wpe (watch fd p) Q F w ↔ Q () (w.watched fd p) := by
  have hadd : w.nodeAdded.sdk = w.sdk ∧ w.nodeAdded.crbIt = w.crbIt ∧ w.nodeAdded.times = w.times ∧
      w.nodeAdded.record = w.record := ⟨rfl, rfl, rfl, rfl⟩
  simp only [watch, note, wpe_bind, wpe_crbNew, wpe_setCrbIt, hadd, hc, wpe_atNode, hw.lookup_added, wpe_modBlock,
    wpe_gettimeofday, wpe_get, wpe_modify, reduceCtorEq, false_implies, true_and, Option.some.injEq, forall_eq',
    World.watched, Function.update_self, Function.update_idem]

end Rules

/-! ### The scan -/

/-- What `CRBScan` does at the time `now` with node `n` whose time is over: where it goes on. -/
def scanNode (now : Timeval) (n : ℕ) (b : BlockPtr) : WorldM Iter := do
  let k := (← get).blocks b
  match (← get).sdk.connMap k.fd with
  | some (some p) =>
      let c ← onSdk (deref p)
      if k.traffic = c.httpTransmitLen then
        let _ ← atNode n
        let it := iterNext n (← get).expireList
        note (.closed k.fd p (← get).sdk.log.length now)
        let _ ← removeConnect k.fd
        pure it
      else
        modBlock b (fun k => { k with traffic := c.httpTransmitLen })
        crbDelay n
  | some none => throw .nullConnect
  | none =>
      -- the iterator stays where it is
      crbDelete (some n)
      pure (some n)

/-- The loop of `CRBScan`, for at most `i` nodes from `it` on. -/
def scanFrom (now : Timeval) : ℕ → Iter → WorldM Unit
  | 0, _ | _ + 1, none => pure ()
  | i + 1, some n => do
      let b ← atNode n
      if ((← get).blocks b).tv.sec + Expire_Seconds < now.sec then
        scanFrom now i (← scanNode now n b)

/-- `ConnRecycleBlock::CRBScan`. -/
def crbScan : WorldM Unit := do
  let now ← gettimeofday
  scanFrom now Expire_Count ((← get).expireList.head?.map Prod.fst)

end HttpsTunnel.Sdk

import HttpsTunnel.Sdk.Proxy
import HttpsTunnel.Lib.Meter

/-! # What the event handlers of the SDK do

Every run of `HandleRecvEvent` and `HandleEPOEvent` on a connection `p` is a sequence of acts: a write
that is counted or not, a tunnel that is opened, a field that changes.  `Act p` lists them with the
circumstances in which they occur, and `Acts p ns` is the sequence of a whole event, in which `ns` are
the lengths of the reads on a tunnel.  What an event keeps follows from what each act keeps.

The handling of a message is one step of the sequence: it happens only while the tunnel is not in
forward mode. -/

namespace HttpsTunnel.Sdk

open HttpsTunnel.Lib HttpsTunnel.Wire

/-! ### Effects -/

/-- The fields that decide what may happen to a connection. -/
structure Key where
  type : ConnType
  peer : Option Ptr
  sockFd : ℕ
  verified : Bool
  version : HttpVersion
  forward : Bool
  /-- `http_transmit_len`. -/
  counter : ℕ

def Connect.key (c : Connect) : Key where
  type := c.type
  peer := c.peer
  sockFd := c.sockFd
  verified := c.verified
  version := c.httpVersion
  forward := decide (c.dec.cstate = .forward)
  counter := c.httpTransmitLen

/-- The key of connection `p` when something is added to the counter of a connection. -/
def Key.counted (z : Option (Ptr × ℤ)) (p : Ptr) (k : Key) : Key :=
  { k with counter := match z with
      | none => k.counter
      | some (q, n) => if p = q then toU64 (k.counter + n) else k.counter }

/-- The counter of the traffic afterwards. -/
def addedTo (cost : ℕ) : Option (Ptr × ℤ) → ℕ
  | none => cost
  | some (_, n) => toU64 (cost + n)

/-- From `s` to `s'` the entries `l` are added to the log and, if `z` says so, a number to the counter of
the traffic and to that of a connection; otherwise the connections keep their keys. -/
structure Emits (s s' : State) (l : List Obs) (z : Option (Ptr × ℤ)) : Prop where
  keys : ∀ p, (s'.conns p).map Connect.key = ((s.conns p).map Connect.key).map (Key.counted z p)
  connMap : s'.connMap = s.connMap
  nextConn : s'.nextConn = s.nextConn
  accurate : s'.accurate = s.accurate
  writes : s'.writes <:+ s.writes
  dials : s'.dials <:+ s.dials
  log : s'.log = s.log ++ l
  cost : s'.rptTraffCost = addedTo s.rptTraffCost z

namespace Emits

variable {s s₁ s₂ s' : State} {l l' : List Obs} {z : Option (Ptr × ℤ)} {p : Ptr} {c c' : Connect}

/-- Only the environment changes. -/
theorem env (hc : s'.conns = s.conns) (hm : s'.connMap = s.connMap) (hn : s'.nextConn = s.nextConn)
    (ha : s'.accurate = s.accurate) (hw : s'.writes <:+ s.writes) (hd : s'.dials <:+ s.dials)
    (hl : s'.log = s.log) (hx : s'.rptTraffCost = s.rptTraffCost) : Emits s s' [] none :=
  ⟨fun _ => by rw [hc]; exact Option.map_id'.symm, hm, hn, ha, hw, hd, hl.trans (List.append_nil _).symm, hx⟩

theorem refl (s : State) : Emits s s [] none := .env rfl rfl rfl rfl List.suffix_rfl List.suffix_rfl rfl rfl

theorem keys_none (h : Emits s s' l none) (p : Ptr) : (s'.conns p).map Connect.key = (s.conns p).map Connect.key :=
  (h.keys p).trans Option.map_id'

theorem trans (h : Emits s s₁ l none) (h' : Emits s₁ s₂ l' z) : Emits s s₂ (l ++ l') z where
  keys p := by rw [h'.keys, h.keys_none]
  connMap := h'.connMap.trans h.connMap
  nextConn := h'.nextConn.trans h.nextConn
  accurate := h'.accurate.trans h.accurate
  writes := h'.writes.trans h.writes
  dials := h'.dials.trans h.dials
  log := by rw [h'.log, h.log, List.append_assoc]
  cost := by rw [h'.cost, h.cost, addedTo]

theorem quiet (h : Emits s s₁ l z) (h' : Emits s₁ s₂ l' none) : Emits s s₂ (l ++ l') z where
  keys p := (h'.keys_none p).trans (h.keys p)
  connMap := h'.connMap.trans h.connMap
  nextConn := h'.nextConn.trans h.nextConn
  accurate := h'.accurate.trans h.accurate
  writes := h'.writes.trans h.writes
  dials := h'.dials.trans h.dials
  log := by rw [h'.log, h.log, List.append_assoc]
  cost := h'.cost.trans h.cost

theorem setConn (hp : s.conns p = some c) (hk : c'.key = c.key) : Emits s (s.setConn p c') [] none where
  keys q := by
    rw [show Key.counted none q = id from rfl, Option.map_id_fun, id]
    by_cases h : q = p
    · subst h
      simp [State.setConn, hp, hk]
    · simp [State.setConn, h]
  connMap := rfl
  nextConn := rfl
  accurate := rfl
  writes := List.suffix_rfl
  dials := List.suffix_rfl
  log := (List.append_nil _).symm
  cost := rfl

theorem emit (s : State) (o : Obs) : Emits s (s.emit o) [o] none :=
  ⟨fun _ => Option.map_id'.symm, rfl, rfl, rfl, List.suffix_rfl, List.suffix_rfl, rfl, rfl⟩

/-- A connection and the counters, with `n` added to them. -/
theorem counts {n : ℤ} (hp : s.conns p = some c) (hk : c'.key = c.key.counted (some (p, n)) p) :
    Emits s { s.setConn p c' with rptTraffCost := toU64 (s.rptTraffCost + n) } [] (some (p, n)) where
  keys q := by
    by_cases h : q = p
    · subst h
      simp [State.setConn, hp, hk]
    · have hid : Key.counted (some (p, n)) q = id := by
        funext k
        simp [Key.counted, h]
      simp [State.setConn, h, hid]
  connMap := rfl
  nextConn := rfl
  accurate := rfl
  writes := List.suffix_rfl
  dials := List.suffix_rfl
  log := (List.append_nil _).symm
  cost := rfl

theorem count (hp : s.conns p = some c) (n : ℤ) : Emits s (s.count p n) [] (some (p, n)) := by
  have hk : ({ c with httpTransmitLen := toU64 (c.httpTransmitLen + n) } : Connect).key =
      c.key.counted (some (p, n)) p := by simp [Connect.key, Key.counted]
  simp only [State.count, hp]
  exact .counts hp hk

/-- The key of a connection. -/
theorem key (h : Emits s s' l z) (hp : s.conns p = some c) :
    ∃ c', s'.conns p = some c' ∧ c'.key = c.key.counted z p := by
  have hk := h.keys p
  rwa [hp, Option.map_some, Option.map_some, Option.map_eq_some_iff] at hk

theorem key_of (h : Emits s s' l z) (hp : s'.conns p = some c') :
    ∃ c, s.conns p = some c ∧ c'.key = c.key.counted z p := by
  have hk := h.keys p
  rw [hp, Option.map_some, Option.map_map, eq_comm, Option.map_eq_some_iff] at hk
  obtain ⟨c, hc, hkey⟩ := hk
  exact ⟨c, hc, hkey.symm⟩

end Emits

/-! ### Writing -/

/-- A fault is not that of a deleted connection, unless `U` holds. -/
def Fault.Within (U : Prop) (e : Fault) : Prop := e = .useAfterFree → U

section Writing

variable {U : Prop} {s : State} {p q : Ptr} {c : Connect} {bs msg : List UInt8} {src : Option Ptr}

/-- A write fails. -/
def State.Fails (s : State) : Prop := ∃ e, WriteRes.fail e ∈ s.writes

/-- How much of `len` bytes a write takes: all of them if the environment says nothing else. -/
def State.Takes (s : State) (len n : ℕ) : Prop := n ≤ len ∧ (s.writes = [] → n = len)

theorem wp_sockWrite (s : State) (bs : List UInt8) : wp (sockWrite bs) (fun r s' => Emits s s' [] none ∧
    match r with
    | some n => s.Takes bs.length n
    | none => s.Fails) s := by
  have hrest : ∀ {r rest} e, s.writes = r :: rest → Emits s { s with writes := rest, errno := e } [] none :=
    fun e hw => .env rfl rfl rfl rfl (hw ▸ List.suffix_cons _ _) List.suffix_rfl rfl rfl
  simp only [sockWrite, wp, wpe_bind, wpe_get]
  rcases hw : s.writes with _ | ⟨n | e, rest⟩
  · exact ⟨.refl s, le_rfl, fun _ => rfl⟩
  · exact ⟨hrest s.errno hw, min_le_right _ _, fun h => by simp [hw] at h⟩
  · exact ⟨hrest e hw, e, by simp [hw]⟩

theorem wp_sendRaw (hq : s.conns q = some c) : wp (sendRaw q src bs) (fun r s' =>
    match r with
    | some n => s.Takes bs.length n ∧ Emits s s' [.raw q src (bs.take n)] none
    | none => s.Fails ∧ Emits s s' [] none) s := by
  simp only [sendRaw, wp, wpe_bind, wpe_deref, hq, found_iff]
  refine wp_mono (wp_sockWrite s bs) ?_
  rintro (_ | n) s₁ ⟨h₁, hn⟩
  · exact ⟨hn, h₁⟩
  · exact ⟨hn, h₁.trans (.emit _ _)⟩

/-- What `SendMsg` does. -/
inductive Sends (q : Ptr) (src : Option Ptr) (msg : List UInt8) (s s' : State) : Prop
  | sent (n : ℕ) (hn : s.Takes msg.length n) (h : Emits s s' [.raw q src (msg.take n)] (some (q, n)))
  | fails (hf : s.Fails) (h : Emits s s' [] (some (q, -1)))

theorem wp_sendMsg (hq : s.conns q = some c) : wp (sendMsg q src msg) (fun _ s' => Sends q src msg s s') s := by
  simp only [sendMsg, wp, wpe_bind]
  refine wp_mono (wp_sendRaw hq) ?_
  rintro (_ | n) s₁ h₁
  · obtain ⟨c₁, hc₁, -⟩ := h₁.2.key hq
    exact .fails h₁.1 (h₁.2.trans (.count hc₁ _))
  · obtain ⟨c₁, hc₁, -⟩ := h₁.2.key hq
    exact .sent n h₁.1 (h₁.2.trans (.count hc₁ _))

/-- What `SendTmsMsg` does. -/
inductive SendsFrame (q : Ptr) (msg : List UInt8) (s s' : State) : Prop
  | sent (n : ℕ) (hn : s.Takes (frame msg).length n)
      (h : Emits s s' [.frame q msg n] (some (q, trafficEst s.accurate n)))
  | fails (hf : s.Fails) (h : Emits s s' [] (some (q, trafficEst s.accurate (-1))))

theorem wpe_sendTmsMsg_acts (hq : s.conns q = some c) :
    wpe (sendTmsMsg q msg) (fun _ s' => SendsFrame q msg s s') (Fault.Within U) s := by
  simp only [sendTmsMsg, wpe_bind, wpe_ite, wpe_throw, wpe_deref, hq, found_iff]
  refine ⟨fun _ => Fault.noConfusion, fun _ => wpe_mono (wp_sockWrite s (frame msg)) ?_ fun _ => False.elim⟩
  rintro (_ | n) s₁ ⟨h₁, hn⟩
  · obtain ⟨c₁, hc₁, -⟩ := h₁.key hq
    simp only [wpe_modify, h₁.accurate]
    exact .fails hn (h₁.trans (.count hc₁ _))
  · obtain ⟨c₁, hc₁, -⟩ := h₁.key hq
    simp only [wpe_bind, wpe_emit, wpe_modify]
    have hacc : (s₁.emit (.frame q msg n)).accurate = s.accurate := h₁.accurate
    rw [hacc]
    exact .sent n hn (h₁.trans ((Emits.emit _ _).trans (.count (s := s₁.emit _) hc₁ _)))

end Writing

/-! ### Acts -/

/-- An entry of the log that is not a write. -/
def Obs.Quiet : Obs → Prop
  | raw _ _ _ | frame _ _ _ => False
  | _ => True

/-- `p` is a browser, with fields `c`. -/
def State.Browser (s : State) (p : Ptr) (c : Connect) : Prop := s.conns p = some c ∧ c.type = .proxy

/-- `p` is a tunnel, with fields `c`. -/
def State.Tunnel (s : State) (p : Ptr) (c : Connect) : Prop := s.conns p = some c ∧ c.type ≠ .proxy

theorem State.Browser.not_tunnel {s : State} {p : Ptr} {c c' : Connect} (h : s.Browser p c) : ¬ s.Tunnel p c' := by
  intro ht
  obtain rfl : c = c' := Option.mem_unique h.1 ht.1
  exact ht.2 h.2

/-- The peer of a connection. -/
def State.peerOf (s : State) (p : Ptr) : Option Connect := (s.conns p).bind fun c => c.peer.bind s.conns

theorem State.peerOf_eq_some {s : State} {p : Ptr} {d : Connect} :
    s.peerOf p = some d ↔ ∃ c q, s.conns p = some c ∧ c.peer = some q ∧ s.conns q = some d := by
  simp only [peerOf, Option.bind_eq_some_iff]
  exact ⟨fun ⟨c, hc, q, hq, hd⟩ => ⟨c, q, hc, hq, hd⟩, fun ⟨c, q, hc, hq, hd⟩ => ⟨c, hc, q, hq, hd⟩⟩

/-- Bytes written to a browser: by the SDK itself, or bytes of a connection with `via`. -/
def Obs.ToBrowser (s : State) (via : Ptr → Ptr → Prop) (o : Obs) : Prop :=
  ∃ q d src bs, o = .raw q src bs ∧ s.Browser q d ∧ ∀ t ∈ src, via t q

/-- The tunnel `p` passes on what it reads. -/
def State.Passes (s : State) (p t q : Ptr) : Prop := t = p ∧ ∃ c, s.Tunnel p c ∧ c.peer = some q

/-- `s'` is `s` with a new tunnel for the browser `p`. -/
structure Opens (p : Ptr) (fd : ℕ) (s s' : State) : Prop where
  browser : ∃ c, s.Browser p c ∧ c.peer = none ∧ ∃ c', s'.conns p = some c' ∧
    c'.key = { c.key with peer := some s.nextConn }
  tunnel : ∃ t, s'.conns s.nextConn = some t ∧ t.key = ⟨.tunnel, some p, fd, false, .http, false, 0⟩
  others : ∀ q, q ≠ p → q ≠ s.nextConn → s'.conns q = s.conns q
  connMap : s'.connMap = Function.update s.connMap fd (some (some s.nextConn))
  nextConn : s'.nextConn = s.nextConn + 1
  accurate : s'.accurate = s.accurate
  writes : s'.writes = s.writes
  dials : s.dials = .opened fd :: s'.dials
  fd_ne : fd ≠ 0
  log : s'.log = s.log
  cost : s'.rptTraffCost = s.rptTraffCost

/-- The forward id of a `READY` response received on `t`. -/
def Obs.readyOn (t : Ptr) : Obs → Option ℕ
  | msg p b len =>
      if p = t ∧ 4 ≤ len ∧ MsgId.ofNat? (msgId b) = some .loginRsp ∧
          (LoginRsp.read b).rspCode = RespCode.ready.toNat then
        some (LoginRsp.read b).forwardId
      else none
  | _ => none

/-- The forward ids of the `READY` responses received on `t` so far. -/
def State.readyIds (s : State) (t : Ptr) : List ℕ := s.log.filterMap (Obs.readyOn t)

@[simp] theorem State.readyIds_emit (s : State) (o : Obs) (t : Ptr) :
    (s.emit o).readyIds t = s.readyIds t ++ (o.readyOn t).toList := by
  cases h : o.readyOn t <;> simp [readyIds, emit, h]

/-- A `ConnectHostRsp` with `SUCC` is handled. -/
def Obs.HostSucc : Obs → Prop
  | msg _ b len => 4 ≤ len ∧ MsgId.ofNat? (msgId b) = some .connectHostRsp ∧
      (ConnectHostRsp.read b).rspCode = RespCode.ready.toNat
  | _ => False

/-- What is done when the tunnel `p` can be used. -/
inductive Admits (p : Ptr) (s s' : State) : Prop
  | wakes (h : Emits s s' [.wakeup p] none)
  /-- What the browser sent before goes to the tunnel. -/
  | answer {c d : Connect} {q : Ptr} {bs : List UInt8} (hp : s.Tunnel p c) (hv : c.verified = true)
      (hpeer : c.peer = some q) (hq : s.Browser q d) (hd : d.httpVersion = .http) (h : Sends p (some q) bs s s')
  /-- The browser is told that its `CONNECT` succeeded. -/
  | established {c d : Connect} {q : Ptr} (hp : s.Tunnel p c) (hpeer : c.peer = some q) (hq : s.Browser q d)
      (hd : d.httpVersion = .https) (h : Sends q none connectReplyOK s s')

/-- One act of an event on `p`; `inMsg` says that it belongs to the handling of a message. -/
inductive Act (p : Ptr) : (inMsg : Bool) → State → State → Prop
  | quiet {b : Bool} {s s' : State} {l : List Obs} (h : Emits s s' l none)
      (hl : ∀ o ∈ l, o.Quiet ∨ o.ToBrowser s fun t q => b = false ∧ s.Passes p t q) : Act p b s s'
  /-- The browser's bytes go to its tunnel. -/
  | upload {s s' : State} {c d : Connect} {t : Ptr} {bs : List UInt8} (hp : s.Browser p c) (hpeer : c.peer = some t)
      (ht : s.Tunnel t d) (hv : d.verified = true) (h : Emits s s' [.raw t (some p) bs] none) : Act p false s s'
  /-- A login request. -/
  | login {s s' : State} {c d : Connect} {t : Ptr} {r : LoginReq} {host : Host} (hp : s.Browser p c)
      (ht : s.Tunnel t d) (hv : d.verified = false) (h : SendsFrame t (LoginReq.bytes r host) s s') : Act p false s s'
  /-- The tunnel is switched to forward mode, and `BEGIN_TRANSMIT` is sent: with the forward id of a `READY`
  response, when the tunnel becomes verified, or after a host response. -/
  | begins {s s₁ s' : State} {c c' : Connect} {v : Bool} {n : ℕ} {msg : List UInt8} (hp : s.Tunnel p c)
      (hm : c.dec.cstate ≠ .forward) (hk : c'.key = { c.key with verified := v, forward := true, counter := n })
      (hwhy : v = true ∧ (∃ id ∈ s.readyIds p, msg = BeginTransmit.bytes ⟨id % 2 ^ 32⟩) ∨ ∃ o ∈ s.log, o.HostSucc)
      (h : SendsFrame p msg (s.setConn p c') s₁) (hr : Admits p s₁ s') : Act p true s s'
  /-- The browser sent a `CONNECT`. -/
  | connect {s : State} {c c' : Connect} (hp : s.Browser p c) (hpeer : c.peer = none)
      (hk : c'.key = { c.key with version := .https }) : Act p false s (s.setConn p c')
  | opens {s s' : State} {fd : ℕ} (h : Opens p fd s s') : Act p false s s'

/-- A sequence of acts. -/
abbrev Steps (p : Ptr) (inMsg : Bool) : State → State → Prop := Relation.ReflTransGen (Act p inMsg)

/-- An event on `p`: acts, reads of the tunnel `p` with lengths `ns`, and messages that are handled
while `p` is not in forward mode. -/
inductive Acts (p : Ptr) : List ℕ → State → State → Prop
  | refl (s : State) : Acts p [] s s
  | act {ns : List ℕ} {s s₁ s₂ : State} (h : Acts p ns s s₁) (h' : Act p false s₁ s₂) : Acts p ns s s₂
  | read {ns : List ℕ} {s s₁ s₂ : State} {c : Connect} {n : ℕ} (h : Acts p ns s s₁) (hp : s₁.Tunnel p c)
      (h' : Emits s₁ s₂ [] (some (p, trafficEst s₁.accurate n))) : Acts p (ns ++ [n]) s s₂
  | message {ns : List ℕ} {s s₁ s₂ : State} {c : Connect} (h : Acts p ns s s₁) (hp : s₁.Tunnel p c)
      (hc : c.dec.cstate ≠ .forward) (h' : Steps p true s₁ s₂) : Acts p ns s s₂

/-! ### What acts keep -/

/-- Of two peers one is a browser, and pointers not handed out yet lead nowhere.  A peer is deleted only
if `U` holds. -/
structure State.Linked (U : Prop) (s : State) : Prop where
  alive : ∀ {p c q}, s.conns p = some c → c.peer = some q → s.conns q = none → U
  kinds : ∀ {p c q d}, s.conns p = some c → c.peer = some q → s.conns q = some d →
    (d.type = .proxy ↔ c.type ≠ .proxy)
  known : ∀ {p c q}, s.conns p = some c → c.peer = some q → q < s.nextConn
  unused : ∀ p, s.nextConn ≤ p → s.conns p = none

/-- Following the pointer to a peer. -/
theorem State.Linked.deref {U : Prop} {s : State} {p q : Ptr} {c : Connect} {Q : Connect → State → Prop}
    (hs : s.Linked U) (hp : s.conns p = some c) (hq : c.peer = some q)
    (h : ∀ d, s.conns q = some d → (d.type = .proxy ↔ c.type ≠ .proxy) → Q d s) :
    wpe (deref q) Q (Fault.Within U) s :=
  wpe_deref.mpr ⟨fun hn _ => hs.alive hp hq hn, fun d hd => h d hd (hs.kinds hp hq hd)⟩

/-- A new connection without a peer. -/
theorem State.Linked.added {U : Prop} {s s' : State} {c : Connect} (hs : s.Linked U) (hpeer : c.peer = none)
    (hconns : s'.conns = Function.update s.conns s.nextConn (some c)) (hnext : s'.nextConn = s.nextConn + 1) :
    s'.Linked U := by
  have hcases : ∀ {q d r}, s'.conns q = some d → d.peer = some r → s.conns q = some d := by
    intro q d r hq hr
    rw [hconns] at hq
    obtain ⟨rfl, rfl⟩ | ⟨-, hq⟩ := update_some_eq hq
    · cases hpeer.symm.trans hr
    · exact hq
  have hold : ∀ {q}, q ≠ s.nextConn → s'.conns q = s.conns q := fun hq => by
    rw [hconns, Function.update_of_ne hq]
  have hpeers : ∀ {q d r}, s.conns q = some d → d.peer = some r → r ≠ s.nextConn := fun hq hr =>
    Nat.ne_of_lt (hs.known hq hr)
  refine ⟨fun hq hr hnone => ?_, fun hq hr hd => ?_, fun hq hr => ?_, fun q hq => ?_⟩
  · have hq := hcases hq hr
    exact hs.alive hq hr ((hold (hpeers hq hr)).symm.trans hnone)
  · have hq := hcases hq hr
    exact hs.kinds hq hr ((hold (hpeers hq hr)).symm.trans hd)
  · rw [hnext]
    exact Nat.lt_succ_of_lt (hs.known (hcases hq hr) hr)
  · rw [hnext] at hq
    exact (hold (Nat.ne_of_gt hq)).trans (hs.unused q (Nat.le_of_succ_le hq))

/-- Every connection stays what it is, and none is opened. -/
structure SameIdents (s s' : State) : Prop where
  idents : ∀ p, (s'.conns p).map Connect.ident = (s.conns p).map Connect.ident
  connMap : s'.connMap = s.connMap
  nextConn : s'.nextConn = s.nextConn
  dials : s'.dials <:+ s.dials
  log : s.log <+: s'.log

namespace SameIdents

variable {U : Prop} {s s₁ s' : State} {p : Ptr} {c c' : Connect} {l : List Obs} {z : Option (Ptr × ℤ)}

theorem of_emits (h : Emits s s' l z) : SameIdents s s' where
  idents p := by
    have hk := congrArg (Option.map fun k : Key => (k.type, k.peer, k.sockFd)) (h.keys p)
    rw [Option.map_map, Option.map_map, Option.map_map] at hk
    exact hk
  connMap := h.connMap
  nextConn := h.nextConn
  dials := h.dials
  log := ⟨l, h.log.symm⟩

theorem setConn (hp : s.conns p = some c) (hk : c'.ident = c.ident) : SameIdents s (s.setConn p c') where
  idents q := by
    by_cases h : q = p
    · subst h
      simp [State.setConn, hp, hk]
    · simp [State.setConn, h]
  connMap := rfl
  nextConn := rfl
  dials := List.suffix_rfl
  log := List.prefix_rfl

theorem trans (h : SameIdents s s₁) (h' : SameIdents s₁ s') : SameIdents s s' where
  idents p := (h'.idents p).trans (h.idents p)
  connMap := h'.connMap.trans h.connMap
  nextConn := h'.nextConn.trans h.nextConn
  dials := h'.dials.trans h.dials
  log := h.log.trans h'.log

theorem conn_of (h : SameIdents s s') (hp : s'.conns p = some c') :
    ∃ c, s.conns p = some c ∧ c.ident = c'.ident := by
  have hk := h.idents p
  rwa [hp, Option.map_some, eq_comm, Option.map_eq_some_iff] at hk

theorem conn (h : SameIdents s s') (hp : s.conns p = some c) : ∃ c', s'.conns p = some c' ∧ c'.ident = c.ident := by
  have hk := h.idents p
  rwa [hp, Option.map_some, Option.map_eq_some_iff] at hk

theorem linked (h : SameIdents s s') (hs : s.Linked U) : s'.Linked U where
  alive := by
    intro p c q hp hq hnone
    obtain ⟨c₀, hc₀, hid⟩ := h.conn_of hp
    have hk := h.idents q
    rw [hnone, Option.map_none, eq_comm, Option.map_eq_none_iff] at hk
    exact hs.alive hc₀ ((Connect.ident_eq hid).2.1.trans hq) hk
  kinds := by
    intro p c q d hp hq hd
    obtain ⟨c₀, hc₀, hid⟩ := h.conn_of hp
    obtain ⟨d₀, hd₀, hid'⟩ := h.conn_of hd
    obtain ⟨hty, hpe, -⟩ := Connect.ident_eq hid
    rw [← hty, ← (Connect.ident_eq hid').1]
    exact hs.kinds hc₀ (hpe.trans hq) hd₀
  known := by
    intro p c q hp hq
    obtain ⟨c₀, hc₀, hid⟩ := h.conn_of hp
    rw [h.nextConn]
    exact hs.known hc₀ ((Connect.ident_eq hid).2.1.trans hq)
  unused := by
    intro p hp
    have hk := h.idents p
    rwa [hs.unused p (h.nextConn ▸ hp), Option.map_none, Option.map_eq_none_iff] at hk

end SameIdents

section Opens

variable {U : Prop} {p : Ptr} {fd : ℕ} {s s' : State}

/-- What the connections are behind a new tunnel. -/
theorem Opens.cases (h : Opens p fd s s') {q : Ptr} {d : Connect} (hq : s'.conns q = some d) :
    (q = s.nextConn ∧ d.ident = (.tunnel, some p, fd)) ∨
      (q = p ∧ ∃ c, s.Browser p c ∧ d.ident = (.proxy, some s.nextConn, c.sockFd)) ∨
      (q ≠ s.nextConn ∧ q ≠ p ∧ s.conns q = some d) := by
  obtain ⟨c, hc, -, c', hc', hk'⟩ := h.browser
  obtain ⟨t, ht, htk⟩ := h.tunnel
  by_cases hqn : q = s.nextConn
  · subst hqn
    obtain rfl : t = d := Option.mem_unique ht hq
    exact .inl ⟨rfl, congrArg (fun k : Key => (k.type, k.peer, k.sockFd)) htk⟩
  · by_cases hqp : q = p
    · subst hqp
      obtain rfl : c' = d := Option.mem_unique hc' hq
      refine .inr (.inl ⟨rfl, c, hc, ?_⟩)
      rw [← hc.2]
      exact congrArg (fun k : Key => (k.type, k.peer, k.sockFd)) hk'
    · exact .inr (.inr ⟨hqn, hqp, (h.others q hqp hqn).symm.trans hq⟩)

theorem Opens.conns_ne_none (h : Opens p fd s s') {q : Ptr} (hq : s.conns q ≠ none) : s'.conns q ≠ none := by
  obtain ⟨c, -, -, c', hc', -⟩ := h.browser
  obtain ⟨t, ht, -⟩ := h.tunnel
  by_cases hqn : q = s.nextConn
  · simp [hqn, ht]
  · by_cases hqp : q = p
    · simp [hqp, hc']
    · rwa [h.others q hqp hqn]

theorem Opens.linked (h : Opens p fd s s') (hs : s.Linked U) : s'.Linked U := by
  obtain ⟨c, hc, -, c', hc', -⟩ := h.browser
  obtain ⟨t, ht, -⟩ := h.tunnel
  have hp : p < s.nextConn := by
    by_contra hle
    cases (hs.unused p (Nat.le_of_not_lt hle)).symm.trans hc.1
  -- a connection has the peer it had, or is one of the two
  have hpeer : ∀ {q d r}, s'.conns q = some d → d.peer = some r →
      (d.type = .tunnel ∧ r = p) ∨ (d.type = .proxy ∧ r = s.nextConn) ∨ s.conns q = some d := by
    intro q d r hq hr
    obtain ⟨-, hd⟩ | ⟨-, c₀, -, hd⟩ | ⟨-, -, hd⟩ := h.cases hq
    · obtain ⟨hty, hpe, -⟩ := Connect.ident_eq_mk hd
      exact .inl ⟨hty, Option.mem_unique hr hpe⟩
    · obtain ⟨hty, hpe, -⟩ := Connect.ident_eq_mk hd
      exact .inr (.inl ⟨hty, Option.mem_unique hr hpe⟩)
    · exact .inr (.inr hd)
  constructor
  case alive =>
    intro q d r hq hr hnone
    obtain ⟨-, rfl⟩ | ⟨-, rfl⟩ | hd := hpeer hq hr
    · cases hnone.symm.trans hc'
    · cases hnone.symm.trans ht
    · exact hs.alive hd hr (by_contra fun hne => h.conns_ne_none hne hnone)
  case kinds =>
    intro q d r e hq hr he
    obtain ⟨hty, rfl⟩ | ⟨hty, rfl⟩ | hd := hpeer hq hr
    · obtain rfl : c' = e := Option.mem_unique hc' he
      have hbrowser : c'.type = .proxy := by
        obtain ⟨h₁, -⟩ | ⟨-, c₀, -, hd⟩ | ⟨-, h₁, -⟩ := h.cases hc'
        · exact absurd h₁ (Nat.ne_of_lt hp)
        · exact (Connect.ident_eq_mk hd).1
        · exact absurd rfl h₁
      simp [hty, hbrowser]
    · obtain rfl : t = e := Option.mem_unique ht he
      have htunnel : t.type = .tunnel := by
        obtain ⟨-, hd⟩ | ⟨h₁, -⟩ | ⟨h₁, -⟩ := h.cases ht
        · exact (Connect.ident_eq_mk hd).1
        · exact absurd h₁.symm (Nat.ne_of_lt hp)
        · exact absurd rfl h₁
      simp [hty, htunnel]
    · obtain ⟨rfl, -⟩ | ⟨rfl, c₀, hc₀, hd'⟩ | ⟨-, -, he'⟩ := h.cases he
      · exact absurd (hs.known hd hr) (Nat.lt_irrefl _)
      · have hkind := hs.kinds hd hr hc₀.1
        rw [(Connect.ident_eq_mk hd').1]
        rwa [hc₀.2] at hkind
      · exact hs.kinds hd hr he'
  case known =>
    intro q d r hq hr
    rw [h.nextConn]
    obtain ⟨-, rfl⟩ | ⟨-, rfl⟩ | hd := hpeer hq hr
    · exact Nat.lt_succ_of_lt hp
    · exact Nat.lt_succ_self _
    · exact Nat.lt_succ_of_lt (hs.known hd hr)
  case unused =>
    intro q hq
    rw [h.nextConn] at hq
    rw [h.others q (Nat.ne_of_gt (Nat.lt_of_lt_of_le hp (Nat.le_of_succ_le hq))) (Nat.ne_of_gt hq)]
    exact hs.unused q (Nat.le_of_succ_le hq)

end Opens

section Keeps

variable {U : Prop} {p q : Ptr} {b : Bool} {ns : List ℕ} {s s' s₁ s₂ : State} {c : Connect}

theorem Sends.emits {src : Option Ptr} {msg : List UInt8} (h : Sends q src msg s s') : ∃ l z, Emits s s' l z := by
  cases h with
  | sent _ _ h => exact ⟨_, _, h⟩
  | fails _ h => exact ⟨_, _, h⟩

theorem SendsFrame.emits {msg : List UInt8} (h : SendsFrame q msg s s') : ∃ l z, Emits s s' l z := by
  cases h with
  | sent _ _ h => exact ⟨_, _, h⟩
  | fails _ h => exact ⟨_, _, h⟩

theorem Admits.emits (h : Admits p s s') : ∃ l z, Emits s s' l z := by
  cases h with
  | wakes h => exact ⟨_, _, h⟩
  | answer _ _ _ _ _ h => exact h.emits
  | established _ _ _ _ h => exact h.emits

/-- An act opens a tunnel, or every connection stays what it is. -/
theorem Act.same_or_opens (h : Act p b s s') : SameIdents s s' ∨ b = false ∧ ∃ fd, Opens p fd s s' := by
  have hkey : ∀ {c c' : Connect}, c'.key.type = c.key.type → c'.key.peer = c.key.peer → c'.key.sockFd = c.key.sockFd →
      c'.ident = c.ident := by
    intro c c' h1 h2 h3
    exact Prod.ext h1 (Prod.ext h2 h3)
  cases h with
  | quiet h _ => exact .inl (.of_emits h)
  | upload _ _ _ _ h => exact .inl (.of_emits h)
  | login _ _ _ h =>
      obtain ⟨l, z, h⟩ := h.emits
      exact .inl (.of_emits h)
  | begins hp _ hk _ h hr =>
      obtain ⟨l, z, h⟩ := h.emits
      obtain ⟨l', z', hr⟩ := hr.emits
      refine .inl ((SameIdents.trans ?_ (.of_emits h)).trans (.of_emits hr))
      exact .setConn hp.1 (hkey (by rw [hk]) (by rw [hk]) (by rw [hk]))
  | connect hp _ hk => exact .inl (.setConn hp.1 (hkey (by rw [hk]) (by rw [hk]) (by rw [hk])))
  | opens h => exact .inr ⟨rfl, _, h⟩

theorem Act.log (h : Act p b s s') : s.log <+: s'.log := by
  obtain h | ⟨-, fd, h⟩ := h.same_or_opens
  · exact h.log
  · exact h.log ▸ List.prefix_rfl

theorem Act.linked (h : Act p b s s') (hs : s.Linked U) : s'.Linked U := by
  obtain h | ⟨-, fd, h⟩ := h.same_or_opens
  · exact h.linked hs
  · exact h.linked hs

theorem Steps.linked (h : Steps p b s s') (hs : s.Linked U) : s'.Linked U := by
  induction h with
  | refl => exact hs
  | tail _ h ih => exact h.linked ih

/-- A message opens no tunnel. -/
theorem Steps.same (h : Steps p true s s') : SameIdents s s' := by
  induction h with
  | refl => exact .of_emits (.refl s)
  | tail _ h ih =>
      obtain h | ⟨hf, -⟩ := h.same_or_opens
      · exact ih.trans h
      · cases hf

theorem Acts.linked (h : Acts p ns s s') (hs : s.Linked U) : s'.Linked U := by
  induction h with
  | refl => exact hs
  | act _ h ih => exact h.linked (ih hs)
  | read _ _ h ih => exact (SameIdents.of_emits h).linked (ih hs)
  | message _ _ _ h ih => exact h.linked (ih hs)

end Keeps

/-- A connection keeps its kind and its descriptor, and its peer once it has one. -/
structure Connect.Becomes (c c' : Connect) : Prop where
  type : c'.type = c.type
  sockFd : c'.sockFd = c.sockFd
  peer : ∀ q, c.peer = some q → c'.peer = some q

namespace Connect.Becomes

variable {c c' c'' : Connect}

theorem of_ident (h : c'.ident = c.ident) : c.Becomes c' :=
  let ⟨hty, hpe, hfd⟩ := Connect.ident_eq h
  ⟨hty, hfd, fun _ hq => hpe.trans hq⟩

theorem trans (h : c.Becomes c') (h' : c'.Becomes c'') : c.Becomes c'' :=
  ⟨h'.type.trans h.type, h'.sockFd.trans h.sockFd, fun q hq => h'.peer q (h.peer q hq)⟩

end Connect.Becomes

section Conn

variable {U : Prop} {p q : Ptr} {b : Bool} {ns : List ℕ} {fd : ℕ} {s s' : State} {c : Connect}

theorem Opens.conn (h : Opens p fd s s') (hs : s.Linked U) (hq : s.conns q = some c) :
    ∃ c', s'.conns q = some c' ∧ c.Becomes c' := by
  by_cases hqp : q = p
  · subst hqp
    obtain ⟨c₀, ⟨hc₀, -⟩, hnone, c', hc', hk⟩ := h.browser
    obtain rfl : c = c₀ := Option.mem_unique hq hc₀
    refine ⟨c', hc', congrArg Key.type hk, congrArg Key.sockFd hk, fun r hr => ?_⟩
    rw [hnone] at hr
    cases hr
  · have hqn : q ≠ s.nextConn := by
      rintro rfl
      rw [hs.unused _ le_rfl] at hq
      cases hq
    exact ⟨c, (h.others q hqp hqn).trans hq, rfl, rfl, fun _ => id⟩

theorem Act.conn (h : Act p b s s') (hs : s.Linked U) (hq : s.conns q = some c) :
    ∃ c', s'.conns q = some c' ∧ c.Becomes c' := by
  obtain h | ⟨-, fd, h⟩ := h.same_or_opens
  · obtain ⟨c', hc', hid⟩ := h.conn hq
    exact ⟨c', hc', .of_ident hid⟩
  · exact h.conn hs hq

theorem Acts.conn (h : Acts p ns s s') (hs : s.Linked U) (hq : s.conns q = some c) :
    ∃ c', s'.conns q = some c' ∧ c.Becomes c' := by
  induction h with
  | refl => exact ⟨c, hq, rfl, rfl, fun _ => id⟩
  | act h h' ih =>
      obtain ⟨c₁, hc₁, hb₁⟩ := ih hs hq
      obtain ⟨c₂, hc₂, hb₂⟩ := h'.conn (h.linked hs) hc₁
      exact ⟨c₂, hc₂, hb₁.trans hb₂⟩
  | read h _ h' ih =>
      obtain ⟨c₁, hc₁, hb₁⟩ := ih hs hq
      obtain ⟨c₂, hc₂, hid⟩ := (SameIdents.of_emits h').conn hc₁
      exact ⟨c₂, hc₂, hb₁.trans (.of_ident hid)⟩
  | message h _ _ h' ih =>
      obtain ⟨c₁, hc₁, hb₁⟩ := ih hs hq
      obtain ⟨c₂, hc₂, hid⟩ := h'.same.conn hc₁
      exact ⟨c₂, hc₂, hb₁.trans (.of_ident hid)⟩

theorem Acts.tunnel (h : Acts p ns s s') (hs : s.Linked U) (hp : s.Tunnel p c) : ∃ c', s'.Tunnel p c' := by
  obtain ⟨c', hc', hb⟩ := h.conn hs hp.1
  exact ⟨c', hc', hb.type ▸ hp.2⟩

theorem Acts.browser (h : Acts p ns s s') (hs : s.Linked U) (hp : s.Browser p c) : ∃ c', s'.Browser p c' := by
  obtain ⟨c', hc', hb⟩ := h.conn hs hp.1
  exact ⟨c', hc', hb.type.trans hp.2⟩

end Conn

theorem Acts.steps {p : Ptr} {ns : List ℕ} {s s₁ s₂ : State} (h : Acts p ns s s₁) (h' : Steps p false s₁ s₂) :
    Acts p ns s s₂ := by
  induction h' with
  | refl => exact h
  | tail _ ha ih => exact ih.act ha

theorem Acts.append {p : Ptr} {ms ns : List ℕ} {s s₁ s₂ : State} (h : Acts p ms s s₁) (h' : Acts p ns s₁ s₂) :
    Acts p (ms ++ ns) s s₂ := by
  induction h' with
  | refl => rwa [List.append_nil]
  | act _ ha ih => exact (ih h).act ha
  | read _ hp hr ih =>
      rw [← List.append_assoc]
      exact (ih h).read hp hr
  | message _ hp hc hm ih => exact (ih h).message hp hc hm

/-! ### Messages -/

theorem wp_addEvent (s : State) (fd : ℕ) (m : Mask) :
    wp (addEvent fd m) (fun _ s' => Emits s s' [] none) s := by
  have henv : ∀ ep e, Emits s { s with epoll := ep, errno := e } [] none := fun _ _ =>
    .env rfl rfl rfl rfl List.suffix_rfl List.suffix_rfl rfl rfl
  simp only [addEvent, setErrno, wp, wpe_ite, wpe_bind, wpe_get, wpe_pure]
  refine ⟨fun _ => .refl s, fun _ => ?_⟩
  cases s.epoll fd <;> exact henv _ _

theorem State.unregistered_emits (s : State) (fd : ℕ) : Emits s (s.unregistered fd) [] none := by
  have henv : ∀ ep e, Emits s { s with epoll := ep, errno := e } [] none := fun _ _ =>
    .env rfl rfl rfl rfl List.suffix_rfl List.suffix_rfl rfl rfl
  unfold State.unregistered
  split_ifs
  · exact .refl s
  · cases s.epoll fd <;> exact henv _ _

section Messages

variable {U : Prop} {p q : Ptr} {s : State} {c d : Connect}

/-- An effect without writes. -/
theorem Act.of_emits {b : Bool} {s s' : State} (h : Emits s s' [] none) : Act p b s s' :=
  .quiet h (by simp)

theorem Act.say {b : Bool} {o : Obs} (ho : o.Quiet) (s : State) : Act p b s (s.emit o) :=
  .quiet (.emit s o) (by simp [ho])

theorem ackUserFail_acts {b : Bool} (hs : s.Linked U) (hp : s.conns p = some c) (r : ReplyType) :
    wpe (ackUserFail p r) (fun _ s' => Act p b s s') (Fault.Within U) s := by
  simp only [ackUserFail, wpe_bind, wpe_deref, hp, found_iff]
  cases hpeer : c.peer with
  | none => exact .say (o := .wakeup p) trivial s
  | some q =>
      simp only [wpe_bind]
      refine hs.deref hp hpeer fun d hd _ => ?_
      simp only [wpe_ite, wpe_bind]
      refine ⟨fun hty => wpe_mono (wp_sendRaw hd) ?_ fun _ => False.elim, fun _ => .say (o := .wakeup p) trivial s⟩
      rintro (_ | n) s₁ h₁
      · refine .quiet (h₁.2.quiet (.emit s₁ (.shut q))) ?_
        simp [Obs.Quiet]
      · refine .quiet (h₁.2.quiet (.emit s₁ (.shut q))) ?_
        intro o ho
        rcases List.mem_append.mp ho with ho | ho
        · exact .inr ⟨q, d, none, _, List.mem_singleton.mp ho, ⟨hd, hty⟩, by simp⟩
        · rw [List.mem_singleton.mp ho]
          exact .inl trivial

theorem Sends.quiet {src : Option Ptr} {msg : List UInt8} {s₁ s₂ : State} (h : Sends q src msg s s₁)
    (h' : Emits s₁ s₂ [] none) : Sends q src msg s s₂ := by
  cases h with
  | sent n hn h => exact .sent n hn (h.quiet h')
  | fails hf h => exact .fails hf (h.quiet h')

theorem SendsFrame.quiet {msg : List UInt8} {s₁ s₂ : State} (h : SendsFrame q msg s s₁) (h' : Emits s₁ s₂ [] none) :
    SendsFrame q msg s s₂ := by
  cases h with
  | sent n hn h => exact .sent n hn (h.quiet h')
  | fails hf h => exact .fails hf (h.quiet h')

theorem Admits.quiet {s₁ s₂ : State} (h : Admits p s s₁) (h' : Emits s₁ s₂ [] none) : Admits p s s₂ := by
  cases h with
  | wakes h => exact .wakes (h.quiet h')
  | answer hp hv hpeer hq hd h => exact .answer hp hv hpeer hq hd (h.quiet h')
  | established hp hpeer hq hd h => exact .established hp hpeer hq hd (h.quiet h')

theorem answerPeer_acts (hp : s.Tunnel p c) (hv : c.verified = true) (hpeer : c.peer = some q) (hq : s.Browser q d) :
    wpe (answerPeer p q d) (fun _ s' => Admits p s s') (Fault.Within U) s := by
  rw [answerPeer]
  cases hd : d.httpVersion with
  | http =>
      simp only [wpe_ite, wpe_throw]
      refine ⟨fun _ => Fault.noConfusion, fun _ => wpe_mono (wp_sendMsg hp.1) ?_ fun _ => False.elim⟩
      exact fun _ s' h => .answer hp hv hpeer hq hd h
  | https =>
      refine wpe_mono (wp_sendMsg hq.1) ?_ fun _ => False.elim
      exact fun _ s' h => .established hp hpeer hq hd h

theorem activatePeer_acts (hs : s.Linked U) (hp : s.Tunnel p c) (hv : c.verified = true) (hpeer : c.peer = some q) :
    wpe (activatePeer p q) (fun _ s' => Admits p s s') (Fault.Within U) s := by
  simp only [activatePeer, wpe_bind]
  refine hs.deref hp.1 hpeer fun d hd hdt => ?_
  have hq : s.Browser q d := ⟨hd, hdt.mpr hp.2⟩
  refine wpe_mono (answerPeer_acts hp hv hpeer hq) ?_ fun _ => id
  intro _ s₁ h₁
  obtain ⟨l, z, he⟩ := h₁.emits
  obtain ⟨d₁, hd₁, -⟩ := he.key hd
  simp only [wpe_modConn, hd₁, found_iff]
  generalize hd' : ({ d₁ with rDataLen := _, dec := _ } : Connect) = d'
  have hk : d'.key = d₁.key := by
    rw [← hd']
    rfl
  refine wpe_mono (wp_addEvent _ _ _) ?_ fun _ => False.elim
  exact fun _ s₂ h₂ => (h₁.quiet (.setConn hd₁ hk)).quiet h₂

theorem loginReady_acts (hs : s.Linked U) (hp : s.Tunnel p c) (hm : c.dec.cstate ≠ .forward) {r : LoginRsp}
    (hid : r.forwardId ∈ s.readyIds p) :
    wpe (loginReady p r) (fun _ s' => Steps p true s s') (Fault.Within U) s := by
  simp only [loginReady, switchConnModeForw, wpe_bind, wpe_deref, hp.1, wpe_ite, wpe_throw, wpe_modConn, wpe_get,
    State.setConn_self, State.setConn_setConn, found_iff]
  refine ⟨fun _ => Fault.noConfusion, fun _ => ?_⟩
  generalize hc' : ({ c with verified := true, dec := _, httpTransmitLen := _ } : Connect) = c'
  have hk : c'.key = { c.key with verified := true, forward := true, counter := c'.httpTransmitLen } := by
    rw [← hc']
    rfl
  refine wpe_mono (wpe_sendTmsMsg_acts (State.setConn_self s p c')) ?_ fun _ => id
  intro _ s₁ h₁
  have hact : ∀ {s₁ s'}, SendsFrame p _ (s.setConn p c') s₁ → Admits p s₁ s' → Steps p true s s' := fun h₁ hr =>
    .single (.begins hp hm hk (.inl ⟨rfl, _, hid, rfl⟩) h₁ hr)
  cases hpeer : c.peer with
  | none => exact hact h₁ (.wakes (.emit _ _))
  | some q =>
      simp only [wpe_bind, wpe_modify]
      have hset : Emits s₁ { s₁ with avalTraffic := c.avalTraffic } [] none :=
        .env rfl rfl rfl rfl List.suffix_rfl List.suffix_rfl rfl rfl
      have h₂ := h₁.quiet hset
      generalize ({ s₁ with avalTraffic := c.avalTraffic } : State) = s₂ at h₂ ⊢
      obtain ⟨l, z, he⟩ := h₂.emits
      obtain ⟨c₂, hc₂, hk₂⟩ := he.key (State.setConn_self s p c')
      rw [hk] at hk₂
      have hid' : c'.ident = c.ident := by rw [← hc']; rfl
      have hs₂ := ((SameIdents.setConn hp.1 hid').trans (.of_emits he)).linked hs
      have hp₂ : s₂.Tunnel p c₂ := ⟨hc₂, fun h => hp.2 ((congrArg Key.type hk₂).symm.trans h)⟩
      refine wpe_mono (activatePeer_acts hs₂ hp₂ (congrArg Key.verified hk₂) ((congrArg Key.peer hk₂).trans hpeer)) ?_
        fun _ => id
      exact fun _ s₃ h₃ => hact h₂ h₃

theorem loginFailed_acts (hs : s.Linked U) (hp : s.Tunnel p c) (n : ℕ) :
    wpe (loginFailed p n) (fun _ s' => Steps p true s s') (Fault.Within U) s := by
  rw [loginFailed]
  cases loginFailure n with
  | none => exact .refl
  | some t =>
      simp only [wpe_bind, wpe_modConn, hp.1, found_iff]
      have h : Act p true s (s.setConn p { c with loginCode := t.code }) := .of_emits (.setConn hp.1 rfl)
      refine wpe_mono (ackUserFail_acts (b := true) (h.linked hs) (State.setConn_self _ _ _) t) ?_ fun _ => id
      exact fun _ s' h' => (Relation.ReflTransGen.single h).tail h'

theorem loginAnswered_acts (hs : s.Linked U) (hp : s.Tunnel p c) (hm : c.dec.cstate ≠ .forward) {r : LoginRsp}
    (hid : r.rspCode = RespCode.ready.toNat → r.forwardId ∈ s.readyIds p) :
    wpe (loginAnswered p r) (fun _ s' => Steps p true s s') (Fault.Within U) s := by
  rw [loginAnswered, wpe_ite]
  exact ⟨fun hr => loginReady_acts hs hp hm (hid hr), fun _ => loginFailed_acts hs hp _⟩

theorem handleLoginRsp_acts (hs : s.Linked U) (hp : s.Tunnel p c) (hm : c.dec.cstate ≠ .forward) {r : LoginRsp}
    (hid : r.rspCode = RespCode.ready.toNat → r.forwardId ∈ s.readyIds p) :
    wpe (handleLoginRsp p r) (fun _ s' => Steps p true s s') (Fault.Within U) s := by
  simp only [handleLoginRsp, wpe_bind, wpe_ite, wpe_modConn, hp.1, found_iff]
  refine ⟨fun _ => ?_, fun _ => loginAnswered_acts hs hp hm hid⟩
  have h : Act p true s (s.setConn p { c with avalTraffic := toU64 r.avalableTraffic }) := .of_emits (.setConn hp.1 rfl)
  have hp' : (s.setConn p { c with avalTraffic := toU64 r.avalableTraffic }).Tunnel p
      { c with avalTraffic := toU64 r.avalableTraffic } := ⟨State.setConn_self _ _ _, hp.2⟩
  exact wpe_mono (loginAnswered_acts (h.linked hs) hp' hm hid)
    (fun _ s' h' => (Relation.ReflTransGen.single h).trans h') fun _ => id

theorem handleConnectHostRsp_acts (hp : s.Tunnel p c) (hm : c.dec.cstate ≠ .forward) {r : ConnectHostRsp}
    (hr : r.rspCode = RespCode.ready.toNat → ∃ o ∈ s.log, o.HostSucc) :
    wpe (handleConnectHostRsp p r) (fun _ s' => Steps p true s s') (Fault.Within U) s := by
  simp only [handleConnectHostRsp, switchConnModeForw, wakeupUser, wpe_ite, wpe_pure, wpe_bind, wpe_get, wpe_modConn,
    hp.1, wpe_emit, found_iff]
  refine ⟨fun _ => .refl, fun hcode => ?_⟩
  generalize hc' : ({ c with dec := _, httpTransmitLen := _ } : Connect) = c'
  have hk : c'.key = { c.key with verified := c.verified, forward := true, counter := c'.httpTransmitLen } := by
    rw [← hc']
    rfl
  refine wpe_mono (wpe_sendTmsMsg_acts (State.setConn_self s p c')) ?_ fun _ => id
  exact fun _ s₁ h₁ => .single (.begins hp hm hk (.inr (hr (not_not.mp hcode))) h₁ (.wakes (.emit _ _)))

/-- A message on a tunnel. -/
theorem handleRecvMsg_acts (hs : s.Linked U) (hp : s.Tunnel p c) (hm : c.dec.cstate ≠ .forward) (n : ℕ) :
    wpe (handleRecvMsg p n) (fun _ s' => Steps p true s s') (Fault.Within U) s := by
  simp only [handleRecvMsg, wpe_bind, wpe_deref, hp.1, wpe_emit, wpe_ite, wpe_pure, found_iff]
  have h₁ : Act p true s (s.emit (.msg p c.dec.buff n)) :=
    .say (o := .msg p c.dec.buff n) trivial s
  have hready := s.readyIds_emit (.msg p c.dec.buff n) p
  have hlast : Obs.msg p c.dec.buff n ∈ (s.emit (.msg p c.dec.buff n)).log := List.mem_append_right _ (by simp)
  have hp₁ : (s.emit (.msg p c.dec.buff n)).Tunnel p c := hp
  have hs₁ := h₁.linked hs
  generalize s.emit (.msg p c.dec.buff n) = s₁ at h₁ hready hlast hp₁ hs₁ ⊢
  refine ⟨fun _ => .single h₁, fun hn => ?_⟩
  rw [not_lt] at hn
  split
  · next hmsg =>
    have hid : (LoginRsp.read c.dec.buff).rspCode = RespCode.ready.toNat →
        (LoginRsp.read c.dec.buff).forwardId ∈ s₁.readyIds p := by
      intro hr
      rw [hready, Obs.readyOn, if_pos ⟨rfl, hn, hmsg, hr⟩]
      exact List.mem_append_right _ (List.mem_singleton_self _)
    -- the fields of the response are not to be computed
    generalize LoginRsp.read c.dec.buff = r at hid ⊢
    simp only [wpe_bind, wpe_pure]
    exact wpe_mono (handleLoginRsp_acts hs₁ hp₁ hm hid) (fun _ s' h' => (Relation.ReflTransGen.single h₁).trans h')
      fun _ => id
  · next hmsg =>
    have hr : (ConnectHostRsp.read c.dec.buff).rspCode = RespCode.ready.toNat → ∃ o ∈ s₁.log, o.HostSucc :=
      fun hr => ⟨_, hlast, hn, hmsg, hr⟩
    generalize ConnectHostRsp.read c.dec.buff = r at hr ⊢
    exact wpe_mono (handleConnectHostRsp_acts hp₁ hm hr)
      (fun _ s' h' => (Relation.ReflTransGen.single h₁).trans h') fun _ => id
  · exact .single h₁

end Messages

end HttpsTunnel.Sdk

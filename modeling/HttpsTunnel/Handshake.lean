import HttpsTunnel.Sdk.Download
import HttpsTunnel.Tms.ForwardId
import HttpsTunnel.Tms.LoginChecks

/-! # The forward id between the server and the SDK

When a stream is ready the server sends its forward id to the SDK in a READY response, and the SDK
sends it back in a BEGIN_TRANSMIT; the server compares it with the id of the stream and switches the
tunnel to forward mode.  The id is issued and stored with 64 bits and sent with 64 bits, but
`BeginTransmit` has 32 bits for it: the answer is accepted as long as the id fits into them
(`forward_id_handshake`). -/

namespace HttpsTunnel

open HttpsTunnel.Lib HttpsTunnel.Wire

/-! ### Messages -/

section Messages

variable {b : Buff}

theorem Wire.LoginRsp.read_of_has {r : LoginRsp} (h : b.Has 0 r.bytes) :
    msgId b = MsgId.loginRsp.toNat ∧ (LoginRsp.read b).rspCode = r.rspCode % 2 ^ 16 ∧
      (LoginRsp.read b).forwardId = r.forwardId % 2 ^ 64 := by
  rw [LoginRsp.bytes, Buff.has_append, Buff.has_append, Buff.has_append] at h
  obtain ⟨⟨⟨hmsg, hcode⟩, -⟩, hid⟩ := h
  simp only [Buff.Has, List.length_append, toLE_length, toLEI64, Nat.zero_add, Nat.reduceAdd] at hmsg hcode hid
  simp only [msgId, LoginRsp.read, hmsg, hcode, hid, ofLE_toLE, Nat.reducePow, and_true]
  rfl

theorem Wire.BeginTransmit.read_of_has {r : BeginTransmit} (h : b.Has 0 r.bytes) :
    msgId b = MsgId.beginTransmit.toNat ∧ (BeginTransmit.read b).forwardId = r.forwardId % 2 ^ 32 := by
  rw [BeginTransmit.bytes, Buff.has_append] at h
  obtain ⟨hmsg, hid⟩ := h
  simp only [Buff.Has, toLE_length, Nat.zero_add] at hmsg hid
  simp only [msgId, BeginTransmit.read, hmsg, hid, ofLE_toLE, Nat.reducePow, and_true]
  rfl

end Messages

/-! ### The answer of the SDK -/

namespace Sdk

/-- From `s` to `s'` the frames written carry `body`. -/
def Frames (body : List UInt8) (s s' : State) : Prop :=
  ∃ l, s'.log = s.log ++ l ∧ ∀ q msg n, .frame q msg n ∈ l → msg = body

variable {body : List UInt8}

theorem Frames.of_log {s s' : State} (h : s'.log = s.log) : Frames body s s' :=
  ⟨[], by rw [h, List.append_nil], fun _ _ _ hm => absurd hm List.not_mem_nil⟩

theorem Frames.emit (s : State) {o : Obs} (h : ∀ q msg n, o = .frame q msg n → msg = body) :
    Frames body s (s.emit o) :=
  ⟨[o], rfl, fun q msg n hm => h q msg n (List.mem_singleton.mp hm).symm⟩

instance : Std.Refl (Frames body) := ⟨fun _ => .of_log rfl⟩

instance : IsTrans State (Frames body) := ⟨fun _ _ _ ⟨l, hl, h⟩ ⟨l', hl', h'⟩ =>
  ⟨l ++ l', by rw [hl', hl, List.append_assoc], fun q msg n hm =>
    (List.mem_append.mp hm).elim (h q msg n) (h' q msg n)⟩⟩

theorem deref_frames (p : Ptr) : Does (Frames body) (deref p) :=
  fun s => wpe_deref.mpr ⟨fun _ => trivial, fun _ _ => refl_of (Frames body) s⟩

theorem modConn_frames (p : Ptr) (f : Connect → Connect) : Does (Frames body) (modConn p f) :=
  fun _ => wpe_modConn.mpr ⟨fun _ => trivial, fun _ _ => .of_log rfl⟩

theorem sockWrite_frames (bs : List UInt8) : Does (Frames body) (sockWrite bs) := by
  intro s
  simp only [sockWrite, wlp, wpe_bind, wpe_get]
  rcases s.writes with _ | ⟨n | e, rest⟩ <;> exact .of_log rfl

theorem count_frames (s : State) (p : Ptr) (z : ℤ) : Frames body s (s.count p z) := by
  rw [State.count]
  cases s.conns p <;> exact .of_log rfl

theorem emit_frames {o : Obs} (h : ∀ q msg n, o = .frame q msg n → msg = body) : Does (Frames body) (emit o) :=
  fun s => wpe_emit.mpr (.emit s h)

theorem sendTmsMsg_frames (p : Ptr) : Does (Frames body) (sendTmsMsg p body) := by
  refine .ite (.throw _) (.seq (deref_frames p) <| .bind (sockWrite_frames _) fun r => ?_)
  have hcount : Does (Frames body) (modify fun s => s.count p (trafficEst s.accurate (lenOrErr r)) : SdkM Unit) :=
    .modify fun s => count_frames s p _
  cases r with
  | none => exact hcount
  | some n => exact .seq (emit_frames fun _ _ _ h => by cases h; rfl) <| hcount

theorem sendMsg_frames (p : Ptr) (src : Option Ptr) (msg : List UInt8) :
    Does (Frames body) (sendMsg p src msg) := by
  refine .bind (.seq (deref_frames p) <| .bind (sockWrite_frames _) fun r => ?_)
    fun r => .modify fun s => count_frames s p _
  cases r with
  | none => exact .pure _
  | some n => exact .ret (emit_frames fun _ _ _ h => by cases h)

theorem answerPeer_frames (p q : Ptr) (d : Connect) : Does (Frames body) (answerPeer p q d) := by
  rw [answerPeer]
  cases d.httpVersion with
  | http => exact .ite (.throw _) (sendMsg_frames p _ _)
  | https => exact sendMsg_frames q _ _

theorem addEvent_frames (fd : ℕ) (m : Mask) : Does (Frames body) (addEvent fd m) := by
  refine .ite (.pure _) (.get_bind fun s => ?_)
  cases s.epoll fd with
  | some _ => exact .ret (.modify fun _ => .of_log rfl)
  | none => exact .ret (.modify fun _ => .of_log rfl)

theorem activatePeer_frames (p q : Ptr) : Does (Frames body) (activatePeer p q) :=
  .bind (deref_frames q) fun d => .seq (answerPeer_frames p q d) <| .seq (modConn_frames q _) <|
    .ret (addEvent_frames _ _)

theorem loginReady_frames (p : Ptr) (r : LoginRsp) :
    Does (Frames (BeginTransmit.bytes ⟨r.forwardId % 2 ^ 32⟩)) (loginReady p r) := by
  refine .bind (deref_frames p) fun c => .ite (.throw _) (.seq (modConn_frames p _) <|
    .seq (.get_bind fun _ => modConn_frames p _) <| .bind (sendTmsMsg_frames p) fun _ => ?_)
  cases c.peer with
  | none => exact emit_frames fun _ _ _ h => by cases h
  | some q => exact .seq (.modify fun _ => .of_log rfl) <| activatePeer_frames p q

/-- What the SDK sends on a READY response is the forward id in 32 bits. -/
theorem handleLoginRsp_frames (p : Ptr) {r : LoginRsp} (hr : r.rspCode = RespCode.ready.toNat) :
    Does (Frames (BeginTransmit.bytes ⟨r.forwardId % 2 ^ 32⟩)) (handleLoginRsp p r) := by
  have hready : Does (Frames (BeginTransmit.bytes ⟨r.forwardId % 2 ^ 32⟩)) (loginAnswered p r) := by
    rw [loginAnswered, if_pos hr]
    exact loginReady_frames p r
  exact .ite (.seq (modConn_frames p _) <| hready) hready

/-- On the message `rsp` the SDK sends a frame with `body`. -/
def Replies (rsp body : List UInt8) : Prop :=
  ∃ p c s s' ret l n, s.conns p = some c ∧ c.dec.buff.Has 0 rsp ∧ handleRecvMsg p rsp.length s = .ok (ret, s') ∧
    s'.log = s.log ++ l ∧ .frame p body n ∈ l

/-- **The answer to READY** names the forward id in 32 bits. -/
theorem Replies.eq {balance : ℤ} {id : ℕ} (hid : id < 2 ^ 64)
    (h : Replies (LoginRsp.bytes ⟨RespCode.ready.toNat, balance, id⟩) body) :
    body = BeginTransmit.bytes ⟨id % 2 ^ 32⟩ := by
  obtain ⟨p, c, s, s', ret, l, n, hc, hb, hrun, hlog, hmem⟩ := h
  obtain ⟨hmsg, hcode, hread⟩ := LoginRsp.read_of_has hb
  generalize hr : LoginRsp.read c.dec.buff = r at hcode hread
  have hfid : r.forwardId = id := hread.trans (Nat.mod_eq_of_lt hid)
  have hready : r.rspCode = RespCode.ready.toNat :=
    hcode.trans (show RespCode.ready.toNat % 2 ^ 16 = RespCode.ready.toNat by decide)
  have hlogin := handleLoginRsp_frames p hready
  rw [hfid] at hlogin
  generalize BeginTransmit.bytes ⟨id % 2 ^ 32⟩ = sent at *
  have hdoes : wlp (handleRecvMsg p 20) (fun _ s' => Frames sent s s') s := by
    simp only [handleRecvMsg, wlp, wpe_bind, wpe_deref, wpe_emit, wpe_ite]
    refine ⟨fun _ => trivial, fun d hd => ⟨fun hlen => absurd hlen (by decide), fun _ => ?_⟩⟩
    obtain rfl := Option.mem_unique hc hd
    rw [hmsg, show MsgId.ofNat? MsgId.loginRsp.toNat = some .loginRsp by decide]
    simp only [wpe_bind, wpe_pure, hr]
    exact wlp_mono (hlogin _) fun _ _ h₁ => trans_of (Frames sent) (.emit s fun _ _ _ h => by cases h) h₁
  obtain ⟨l', hlog', hl'⟩ := (wlp_iff _ _ _).mp hdoes _ _ hrun
  rw [List.append_cancel_left (hlog.symm.trans hlog')] at hmem
  exact hl' p body n hmem

/-- A tunnel of the SDK that has received `rsp`. -/
def waitingTunnel (rsp : List UInt8) : Connect where
  sockFd := 11
  status := .online
  dec := ⟨.body, 0, 0, 0, Buff.store (fun _ => 0) 0 rsp⟩

def waitingSdk (rsp : List UInt8) : State := { joinedState.setConn 1 (waitingTunnel rsp) with writes := [] }

/-- The frame of an entry of the log that is one of `p`. -/
def Obs.frameOn (p : Ptr) : Obs → Option (List UInt8)
  | .frame q bs _ => if q = p then some bs else none
  | _ => none

theorem Obs.eq_of_frameOn {p : Ptr} {o : Obs} (h : o.frameOn p = some body) : ∃ n, o = .frame p body n := by
  cases o <;> simp only [frameOn, reduceCtorEq, Option.ite_none_right_eq_some, Option.some.injEq] at h
  obtain ⟨rfl, rfl⟩ := h
  exact ⟨_, rfl⟩

theorem Replies.of_run {rsp : List UInt8} (h : ((handleRecvMsg 1 rsp.length (waitingSdk rsp)).toOption.map fun r =>
    r.2.log.filterMap (Obs.frameOn 1)) = some [body]) : Replies rsp body := by
  obtain ⟨⟨ret, s'⟩, hrun, hlog⟩ := Option.map_eq_some_iff.mp h
  have hmem : body ∈ s'.log.filterMap (Obs.frameOn 1) := by
    rw [hlog]
    exact List.mem_singleton_self body
  obtain ⟨o, ho, hof⟩ := List.mem_filterMap.mp hmem
  obtain ⟨n, rfl⟩ := Obs.eq_of_frameOn hof
  exact ⟨1, waitingTunnel rsp, waitingSdk rsp, s', ret, s'.log, n, rfl, Buff.has_store _ _, eq_ok_of_toOption hrun,
    rfl, ho⟩

end Sdk

/-! ### What the server makes of it -/

namespace Tms

/-- The tunnel `p` of the block `k` has received the message `body`, and is not in forward mode yet. -/
structure Awaiting (t : Server) (p : Ptr) (k : ScbPtr) (c : Connect) (body : List UInt8) : Prop where
  live : t.conns p = some c
  block : c.scb = some k
  agent : (t.scbs k).agentConn ≠ none
  framed : c.dec.cstate ≠ .forward
  has : c.dec.buff.Has 0 body

/-- The message `body` switches `p` to forward mode. -/
def Accepts (t : Server) (p : Ptr) (body : List UInt8) : Prop :=
  ∃ ret t' c', handleRecvMsg p body.length t = .ok (ret, t') ∧ t'.conns p = some c' ∧ c'.dec.cstate = .forward

/-- A BEGIN_TRANSMIT is accepted if it names the id of the block. -/
theorem Awaiting.accepts_iff {t : Server} {p : Ptr} {k : ScbPtr} {c : Connect} {id : ℕ} (hid : id < 2 ^ 32)
    (h : Awaiting t p k c (BeginTransmit.bytes ⟨id⟩)) :
    Accepts t p (BeginTransmit.bytes ⟨id⟩) ↔ (t.scbs k).forwardId = id := by
  obtain ⟨hmsg, hread⟩ := BeginTransmit.read_of_has h.has
  rw [Nat.mod_eq_of_lt hid] at hread
  have hwp : Accepts t p (BeginTransmit.bytes ⟨id⟩) ↔
      wp (handleRecvMsg p 6) (fun _ t' => ∃ c', t'.conns p = some c' ∧ c'.dec.cstate = .forward) t := by
    rw [wp_iff]
    constructor
    · rintro ⟨ret, t', c', hrun, hc'⟩
      exact ⟨ret, t', hrun, c', hc'⟩
    · rintro ⟨ret, t', hrun, c', hc'⟩
      exact ⟨ret, t', c', hrun, hc'⟩
  rw [hwp]
  simp only [handleRecvMsg, wp, wpe_bind, wpe_deref, wpe_emit, wpe_ite, h.live]
  simp only [reduceCtorEq, false_implies, true_and, Option.some.injEq, forall_eq', hmsg,
    show MsgId.ofNat? MsgId.beginTransmit.toNat = some .beginTransmit by decide]
  simp only [show ¬ 6 < 4 by decide, false_implies, true_and, not_false_eq_true, forall_const, handleBeginTransmit,
    wpe_bind, wpe_deref]
  have hlive : (t.emit (Obs.msg p c 6)).conns p = some c := h.live
  simp only [hlive, h.block, reduceCtorEq, false_implies, true_and, Option.some.injEq, forall_eq', wpe_bind,
    wpe_getScb, wpe_ite, wpe_modConn, wpe_pure]
  rw [show ((t.emit (.msg p c 6)).scbs k) = t.scbs k from rfl, hread]
  constructor
  · rintro ⟨-, hno⟩
    by_contra hne
    obtain ⟨c', rfl, hf⟩ := hno fun heq => hne heq.1
    exact h.framed hf
  · rintro heq
    exact ⟨fun _ => ⟨_, Function.update_self .., rfl⟩, fun hne => absurd ⟨heq, h.agent⟩ hne⟩

/-- **The forward id handshake.**  The id that an event of a run issues after `n` calls of `NewForwardId` is not 0,
goes to one block, and is that of no other block (unless the counter has gone round).  The BEGIN_TRANSMIT with
which the SDK answers the READY response that carries it is accepted exactly when fewer than `2 ^ 32 - 1` calls
precede it in its cycle. -/
theorem forward_id_handshake {accurate : Bool} {errno err n : ℕ} {mem : Buff} {s s' : Server} {e : Event}
    {rest : List Event} (h : ReachableAfter (Server.init accurate errno err mem) n s (e :: rest))
    (he : handleEvent e s = .ok ((), s')) (hnew : s'.avalForwardId ≠ s.avalForwardId) :
    issuedId n ≠ 0 ∧ ∃ k, (s'.scbs k).forwardId = issuedId n ∧
      (n < idCycle → ∀ j ≠ k, (s'.scbs j).forwardId ≠ issuedId n) ∧
      ∀ balance body t p c, Sdk.Replies (LoginRsp.bytes ⟨RespCode.ready.toNat, balance, issuedId n⟩) body →
        (t.scbs k).forwardId = issuedId n → Awaiting t p k c body →
          (Accepts t p body ↔ n % idCycle < 2 ^ 32 - 1) := by
  obtain ⟨k, hk, hothers⟩ := h.issues he hnew
  refine ⟨issuedId_ne_zero n, k, hk, hothers, fun balance body t p c hans hid hwait => ?_⟩
  have hlt : issuedId n < 2 ^ 64 := (issuedId_lt n).trans (by decide)
  obtain rfl := hans.eq hlt
  rw [hwait.accepts_iff (Nat.mod_lt _ (by decide)), hid, eq_comm, Nat.mod_eq_iff_lt (by decide), issuedId]
  omega

/-- A client logs in. -/
def loginEvent : Event := { Event.arrives 10 sampleLogin with socks := [.opened 11 true] }

/-- The connection with `bs` in its buffer. -/
def Connect.given (c : Connect) (bs : List UInt8) : Connect :=
  { c with dec := { c.dec with buff := c.dec.buff.store 0 bs } }

/-- A client has logged in and its agent is connected: the first id is issued. -/
def Server.HasFirstId (s s' : Server) : Prop :=
  s.Reports (.writable 11) ∧ s.avalForwardId = 1 ∧ s'.avalForwardId = 2 ∧ (s'.scbs 0).forwardId = 1 ∧
    (s'.scbs 0).agentConn ≠ none ∧ ((s'.conns 3).map fun c => (c.scb, c.dec.cstate)) = some (some 0, .header)

instance (s s' : Server) : Decidable (s.HasFirstId s') := inferInstanceAs (Decidable (_ ∧ _))

theorem firstId : ∃ s s', ReachableAfter (Server.init false 0 0 fun _ => 0) 0 s [.writable 11] ∧
    handleEvent (.writable 11) s = .ok ((), s') ∧ s.HasFirstId s' := by
  have hrun : ((handleEvent (.connects 10) (Server.init false 0 0 fun _ => 0)).toOption.bind fun r₁ =>
      (handleEvent loginEvent r₁.2).toOption.bind fun r₂ => (handleEvent (.writable 11) r₂.2).toOption.map fun r₃ =>
        decide ((Server.init false 0 0 fun _ => 0).Reports (.connects 10) ∧ r₁.2.Reports loginEvent ∧
          r₁.2.avalForwardId = 1 ∧ r₂.2.HasFirstId r₃.2)) = some true := by
    decide +kernel
  obtain ⟨⟨⟨⟩, s₁⟩, h₁, hrun⟩ := Option.bind_eq_some_iff.mp hrun
  obtain ⟨⟨⟨⟩, s₂⟩, h₂, hrun⟩ := Option.bind_eq_some_iff.mp hrun
  obtain ⟨⟨⟨⟩, s₃⟩, h₃, hrun⟩ := Option.map_eq_some_iff.mp hrun
  obtain ⟨hr₁, hr₂, ha₁, hfirst⟩ := of_decide_eq_true hrun
  have ha₂ : s₂.avalForwardId = s₁.avalForwardId := hfirst.2.1.trans ha₁.symm
  have hreach₁ := ReachableAfter.event (.wait [.connects 10] .start (by simpa using hr₁) (by simp))
    (eq_ok_of_toOption h₁)
  rw [if_pos (show s₁.avalForwardId = (Server.init false 0 0 fun _ => 0).avalForwardId from ha₁)] at hreach₁
  have hreach₂ := ReachableAfter.event (.wait [loginEvent] hreach₁ (by simpa using hr₂) (by simp))
    (eq_ok_of_toOption h₂)
  rw [if_pos ha₂] at hreach₂
  exact ⟨s₂, s₃, .wait [.writable 11] hreach₂ (by simpa using hfirst.1) (by simp), eq_ok_of_toOption h₃, hfirst⟩

/-- The first id is accepted. -/
theorem forward_id_handshake_first : ∃ s s' t c,
    ReachableAfter (Server.init false 0 0 fun _ => 0) 0 s [.writable 11] ∧
    handleEvent (.writable 11) s = .ok ((), s') ∧ (s'.scbs 0).forwardId = 1 ∧
    Sdk.Replies (LoginRsp.bytes ⟨RespCode.ready.toNat, 0, 1⟩) (BeginTransmit.bytes ⟨1⟩) ∧
    Awaiting t 3 0 c (BeginTransmit.bytes ⟨1⟩) ∧ Accepts t 3 (BeginTransmit.bytes ⟨1⟩) := by
  obtain ⟨s, s', hreach, he, hfirst⟩ := firstId
  obtain ⟨-, ha, ha', hid, hagent, hc⟩ := hfirst
  obtain ⟨c, hc, hcs⟩ := Option.map_eq_some_iff.mp hc
  obtain ⟨hscb, hstate⟩ := Prod.mk.inj hcs
  have hreplies : Sdk.Replies (LoginRsp.bytes ⟨RespCode.ready.toNat, 0, 1⟩) (BeginTransmit.bytes ⟨1⟩) :=
    .of_run (by decide +kernel)
  have hwait : Awaiting (s'.setConn 3 (c.given (BeginTransmit.bytes ⟨1⟩))) 3 0 (c.given (BeginTransmit.bytes ⟨1⟩))
      (BeginTransmit.bytes ⟨1⟩) :=
    ⟨Function.update_self 3 _ s'.conns, hscb, hagent, fun hf => Mode.noConfusion (hstate.symm.trans hf),
      Buff.has_store _ _⟩
  obtain ⟨-, k, hk, hothers, haccept⟩ := forward_id_handshake hreach he (by omega)
  obtain rfl : k = 0 := by
    by_contra hne
    exact hothers (by decide) 0 (Ne.symm hne) hid
  exact ⟨s, s', _, _, hreach, he, hid, hreplies, hwait,
    (haccept 0 _ (s'.setConn 3 _) 3 _ hreplies hid hwait).mpr (by decide)⟩

/-- `n` calls of `NewForwardId`. -/
def issueIds (n : ℕ) : TmsM Unit := runAll (fun _ => do let _ ← newForwardId) (List.replicate n ())

theorem issueIds_run {n : ℕ} {s : Server} (h : s.avalForwardId + n < 2 ^ 64) :
    issueIds n s = .ok ((), { s with avalForwardId := s.avalForwardId + n }) := by
  induction n generalizing s with
  | zero => rfl
  | succ n ih =>
      have hnext : s.nextId = s.avalForwardId := if_neg (by omega)
      have hstep : issueIds (n + 1) s = issueIds n { s with avalForwardId := s.nextId + 1 } := rfl
      rw [hstep, hnext, ih (by simp only; omega)]
      simp only [Nat.add_assoc, Nat.add_comm 1]

/-- A client whose agent is connected and whose token passes; the SDK's reply names the id 0. -/
def refusedIdRun : List (List Event) :=
  [[.connects 10], [loginEvent], [.writable 11],
    [.arrives 6 (frame (ReadTokenRsp.bytes ⟨0, 10, 1, 2, 1000000, 65 :: List.replicate 31 0⟩))],
    [.arrives 10 (frame (BeginTransmit.bytes ⟨0⟩))]]

/-- **The id that does not fit**: after `2 ^ 32 - 1` calls a client's stream gets the id `2 ^ 32` and the client the
READY response with it; the SDK's reply names the id 0, and the tunnel stays out of forward mode. -/
theorem forward_id_refused : ∃ s s', issueIds (2 ^ 32 - 1) (Server.init false 0 0 fun _ => 0) = .ok ((), s) ∧
    mainLoop refusedIdRun s = some s' ∧ (s'.scbs 0).forwardId = 2 ^ 32 ∧
    frame (LoginRsp.bytes ⟨RespCode.ready.toNat, 1000000, 2 ^ 32⟩) <:+ s'.sentTo 3 ∧
    Sdk.Replies (LoginRsp.bytes ⟨RespCode.ready.toNat, 1000000, 2 ^ 32⟩) (BeginTransmit.bytes ⟨0⟩) ∧
    (s'.conns 3).map (·.dec.cstate) = some .header := by
  have hrun : (mainLoop refusedIdRun { Server.init false 0 0 fun _ => 0 with avalForwardId := 2 ^ 32 }).map (fun s' =>
      decide ((s'.scbs 0).forwardId = 2 ^ 32 ∧
        frame (LoginRsp.bytes ⟨RespCode.ready.toNat, 1000000, 2 ^ 32⟩) <:+ s'.sentTo 3 ∧
        (s'.conns 3).map (·.dec.cstate) = some .header)) = some true := by
    decide +kernel
  obtain ⟨s', hs', hfacts⟩ := Option.map_eq_some_iff.mp hrun
  obtain ⟨hid, hready, hstate⟩ := of_decide_eq_true hfacts
  exact ⟨_, s', issueIds_run (by decide), hs', hid, hready, .of_run (by decide +kernel), hstate⟩

end Tms

end HttpsTunnel

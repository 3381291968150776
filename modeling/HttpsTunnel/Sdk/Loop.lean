import HttpsTunnel.Sdk.Scan
import HttpsTunnel.Sdk.Events
import HttpsTunnel.Lib.Plan

/-! # The main loop of the SDK

`SdkMainLoopRun` goes through the events of a batch and calls the handlers, and after the batch
`CRBScan`; threads of the application call `YMELoginTms` at any time.  What the loop calls, and how it
goes on by the results, is a `Plan` (`Ready.plan`); `Call.run` is what the calls do.

`YMELoginTms` waits for the answer of the TMS in the middle: what it does before is the call `login`, what
it does after is the call `loginEnd`.  The entries of a run (`LoopOp`) are events, scans and the calls of
the application, in any order; the batches of the main loop with a scan behind each are such runs. -/

namespace HttpsTunnel.Sdk

open HttpsTunnel.Lib HttpsTunnel.Wire

def EINTR : ℕ := 4

/-! ### Logging in from the application -/

/-- The arguments of `YMELoginTms` that are used; `web_port` is not. -/
structure LoginArgs where
  app : ℕ
  mobile : ℕ
  auth : List UInt8
  host : Host
deriving DecidableEq, Repr

/-- The login request of `YMELoginTms`. -/
def LoginArgs.request (a : LoginArgs) (mem : Buff) : List UInt8 :=
  LoginReq.bytes ⟨a.app, a.mobile, tokenField a.auth mem, 80, a.host.length % 2 ^ 16⟩ a.host

/-- `YMELoginTms` up to the wait: the connection. -/
def yMELoginTms (a : LoginArgs) : SdkM (Option Ptr) := do
  match ← createConn with
  | none => pure none
  | some p =>
      modConn p (fun c => { c with uid := a.app, mobile := a.mobile, host := a.host, webPort := 80 })
      if tokenSize < a.auth.length + 1 then throw .overflow
      if loginStrSize < LoginReq.hostAt + a.host.length then throw .overflow
      let c ← deref p
      let mem := (← get).mem
      let _ ← addREvent c.sockFd
      sendTmsMsg p (a.request mem)
      pure (some p)

theorem yMELoginTms_spec {s : State} {U : Prop} (a : LoginArgs) :
    wpe (yMELoginTms a) (fun r s' =>
      match r with
      | none => Emits s s' [] none
      | some p => p = s.nextConn ∧ ∃ fd rest s₁, s.dials = .opened fd :: rest ∧
          Emits (s.dialled fd rest) s₁ [] none ∧ ∃ msg, SendsFrame p msg s₁ s') (Fault.Within U) s := by
  simp only [yMELoginTms, wpe_bind]
  refine wpe_mono (wp_createConn s) ?_ fun _ => False.elim
  rintro (_ | p) s₁ h₁
  · exact h₁
  · obtain ⟨rfl, fd, rest, hd, -, rfl⟩ := h₁
    have hp : (s.dialled fd rest).conns s.nextConn = some (tunnelConnect fd) := Function.update_self _ _ _
    simp only [wpe_bind, wpe_modConn, hp, wpe_ite, wpe_throw, wpe_deref, State.setConn_self, wpe_get, wpe_pure,
      found_iff, true_and]
    refine ⟨fun _ => Fault.noConfusion, fun _ => ⟨fun _ => Fault.noConfusion, fun _ => ?_⟩⟩
    generalize hc : ({ tunnelConnect fd with uid := _, mobile := _, host := _, webPort := _ } : Connect) = c
    have hset : Emits (s.dialled fd rest) ((s.dialled fd rest).setConn s.nextConn c) [] none := by
      refine .setConn hp ?_
      rw [← hc]
      rfl
    refine wpe_mono (wp_addEvent _ _ _) ?_ fun _ => False.elim
    intro _ s₂ h₂
    have hemits := hset.trans h₂
    obtain ⟨c₂, hc₂, -⟩ := hemits.key hp
    refine wpe_mono (wpe_sendTmsMsg_acts hc₂) ?_ fun _ => id
    exact fun _ s₃ h₃ => ⟨fd, rest, s₂, hd, hemits, _, h₃⟩

/-- `YMEShutDown`; `delete` of a null pointer does nothing. -/
def yMEShutDown (fd : ℕ) : WorldM ℤ := do
  match (← get).sdk.connMap fd with
  | none => pure (-1)
  | some e =>
      match e with
      | none => pure ()
      | some p => destroy p
      eraseEntry fd
      pure 0

/-- `YMELoginTms` after the wait, where `p` is its connection. -/
def loginEnd (p : Ptr) : WorldM ℤ := do
  if p ∈ (← get).logins then
    modify (fun w => { w with logins := w.logins.erase p })
    let c ← onSdk (deref p)
    if c.loginCode < 0 then
      let _ ← yMEShutDown c.sockFd
      pure c.loginCode
    else pure c.sockFd
  else pure 0

/-! ### Calls -/

/-- What the kernel answers during a call. -/
structure Answers where
  reads : List ReadRes := []
  writes : List WriteRes := []
  dial : DialRes := .fail ECONNREFUSED
deriving DecidableEq, Repr

/-- The calls of the main loop and of the application, each with what the kernel and the clock answer. -/
inductive Call where
  /-- `HandleAcceptEvent`, where `accept` returns `newfd`. -/
  | accept (newfd : ℤ) (ts : List Timeval)
  /-- `AddEvent` for a new browser. -/
  | register (fd : ℕ)
  /-- `HandleRecvEvent`. -/
  | recv (fd : ℕ) (k : Answers)
  /-- `HandleEPOEvent`. -/
  | writable (fd : ℕ) (k : Answers)
  /-- `RemoveConnect`. -/
  | remove (fd : ℕ)
  /-- `CRBScan`. -/
  | scan (ts : List Timeval)
  /-- `YMELoginTms` up to the wait. -/
  | login (a : LoginArgs) (k : Answers)
  /-- `YMELoginTms` after the wait. -/
  | loginEnd (p : Ptr)

namespace Call

/-- Set what the next writes and the next `connect` return. -/
def answering (k : Answers) : WorldM Unit :=
  modify (fun w => { w with sdk := { w.sdk with writes := k.writes, dials := [k.dial] } })

/-- Set what the clock shows. -/
def timing (ts : List Timeval) : WorldM Unit := modify (fun w => { w with times := ts })

/-- The call and the value it returns. -/
def exec : Call → WorldM ℤ
  | accept newfd ts => do
      timing ts
      handleAcceptEvent newfd
  | register fd => onSdk (addEvent fd ⟨true, true, true⟩)
  | recv fd k => do
      answering k
      onSdk (handleRecvEvent fd k.reads)
  | writable fd k => do
      answering k
      onSdk (handleEPOEvent fd)
  | remove fd => removeConnect fd
  | scan ts => do
      timing ts
      crbScan
      pure 0
  | login a k => do
      answering k
      match ← onSdk (yMELoginTms a) with
      | none => pure (-1)
      | some p =>
          modify (fun w => { w with logins := p :: w.logins })
          pure 0
  | loginEnd p => Sdk.loginEnd p

/-- The call, its value and `errno`. -/
def run (c : Call) : WorldM (ℤ × ℕ) := do
  let ret ← c.exec
  pure (ret, (← get).sdk.errno)

end Call

/-! ### The loop -/

abbrev LoopPlan := Plan Call (ℤ × ℕ)

/-- One call of `HandleRecvEvent`: `again` follows where the loop repeats it, and `next` unless it goes to the
next event. -/
def recvCall (fd : ℕ) (next again : LoopPlan) (k : Answers) : LoopPlan :=
  .call (.recv fd k) fun (ret, errno) =>
    if ret = -2 then .done
    else if ret = -1 then if errno = EAGAIN then next else .once (.remove fd)
    else if ret = 0 then if errno = EINTR then next else .once (.remove fd)
    else if errno = EINTR then again
    else next

/-- The part of an event for `EPOLLIN`. -/
def recvPlan (fd : ℕ) (next : LoopPlan) (first : Answers) : List Answers → LoopPlan
  | [] => recvCall fd next next first
  | k :: more => recvCall fd next (recvPlan fd next k more) first

/-- The part of an event for `EPOLLOUT`; `err` is what `getsockopt` finds. -/
def outPlan (fd err : ℕ) (k : Answers) : LoopPlan :=
  if err = 0 ∨ err = EAGAIN then
    .call (.writable fd k) fun (ret, _) => if ret = -1 then .once (.remove fd) else .done
  else .done

/-- An event of a batch. -/
inductive Ready where
  /-- On the listening socket. -/
  | listening (newfd : ℤ) (ts : List Timeval)
  /-- On another descriptor, with `EPOLLIN` and `EPOLLOUT` set or not; `first` and `more` are for the
  calls of `HandleRecvEvent`, `last` is for that of `HandleEPOEvent`. -/
  | conn (fd : ℕ) (inn out : Bool) (first : Answers) (more : List Answers) (err : ℕ) (last : Answers)

/-- What the loop does with an event. -/
def Ready.plan : Ready → LoopPlan
  | listening newfd ts => .call (.accept newfd ts) fun (ret, _) =>
      if 0 < ret then .once (.register ret.toNat) else .done
  | conn fd inn out first more err last =>
      let next := if out then outPlan fd err last else .done
      if inn then recvPlan fd next first more else next

/-- An entry of a run. -/
inductive LoopOp where
  | event (e : Ready)
  | scan (ts : List Timeval)
  | login (a : LoginArgs) (k : Answers)
  | loginEnd (p : Ptr)

namespace LoopOp

def plan : LoopOp → LoopPlan
  | event e => e.plan
  | scan ts => .once (.scan ts)
  | login a k => .once (.login a k)
  | loginEnd p => .once (.loginEnd p)

def run (op : LoopOp) : WorldM Unit := op.plan.run Call.run

end LoopOp

end HttpsTunnel.Sdk

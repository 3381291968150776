import HttpsTunnel.Lib.Alike
import HttpsTunnel.Lib.Probe
import HttpsTunnel.Tms.MainLoop

/-! # What a login request is read from

A LOGIN_REQ is taken from the receive buffer of its connection, in which older bytes lie behind it.  `loginProbe`
is what the handler takes from the buffer, and `serveLogin` what it does with it: `handleLoginReq_eq` puts the two
together, and `serveLogin` does not depend on any buffer (`serveLogin_blind`).

`login_ownBytes_iff`: the handler stays inside the message, and does the same whatever lies behind it, exactly if
the message holds the fields and the host it announces (`LoginFits`). -/

namespace HttpsTunnel.Tms

open HttpsTunnel.Lib HttpsTunnel.Wire

/-! ### Programs that do not look at buffers -/

/-- A connection with its buffer wiped. -/
def Connect.unread (c : Connect) : Connect := { c with dec := { c.dec with buff := fun _ => 0 } }

def Obs.unread : Obs → Obs
  | .msg p c len => .msg p c.unread len
  | o => o

/-- What is left of the state when the contents of all buffers are wiped. -/
def Server.unread (s : Server) : Server :=
  { s with
    conns := fun p => (s.conns p).map Connect.unread
    log := s.log.map Obs.unread }

theorem unread_setConn (s : Server) (p : Ptr) (c : Connect) :
    (s.setConn p c).unread = s.unread.setConn p c.unread := by
  simp only [Server.unread, Server.setConn, Server.mk.injEq, true_and, and_true]
  funext q
  by_cases h : q = p <;> simp [h, Function.update]

theorem unread_emit (s : Server) (o : Obs) : (s.emit o).unread = s.unread.emit o.unread := by
  simp [Server.unread, Server.emit]

/-- The program does the same on states that differ in the contents of buffers only. -/
abbrev BufferBlind {α : Type} (x : TmsM α) : Prop := Alike Server.unread x x

section Blind

variable {α : Type}

theorem deref_alike {q : Ptr} {f g : Connect → TmsM α}
    (h : ∀ c c', c.unread = c'.unread → Alike Server.unread (f c) (g c')) :
    Alike Server.unread (deref q >>= f) (deref q >>= g) := by
  intro s s' hs
  have hq : (s.conns q).map Connect.unread = (s'.conns q).map Connect.unread :=
    congrArg (fun t : Server => t.conns q) hs
  rw [run_bind, run_bind]
  cases hc : s.conns q with
  | none =>
      cases hc' : s'.conns q with
      | none =>
          rw [deref_none hc, deref_none hc']
          exact .error _
      | some c' => simp [hc, hc'] at hq
  | some c =>
      cases hc' : s'.conns q with
      | none => simp [hc, hc'] at hq
      | some c' =>
          simp only [hc, hc', Option.map_some, Option.some.injEq] at hq
          rw [deref_eq hc, deref_eq hc']
          exact h c c' hq s s' hs

theorem deref_blind {q : Ptr} {f : Connect → TmsM α} (hf : ∀ c, f c = f c.unread)
    (h : ∀ c, BufferBlind (f c)) : BufferBlind (deref q >>= f) :=
  deref_alike fun c c' hc => by
    rw [hf c, hf c', hc]
    exact h _

theorem modify_blind {f : Server → Server} (hf : ∀ s, (f s).unread = f s.unread) :
    BufferBlind (modify f) :=
  .modify fun s s' hs => by rw [hf, hf, hs]

theorem get_blind {f : Server → TmsM α} (hf : ∀ s, f s = f s.unread) (h : ∀ s, BufferBlind (f s)) :
    BufferBlind (get >>= f) :=
  .get_bind fun s s' hs => by
    rw [hf s, hf s', hs]
    exact h _

theorem modConn_blind {q : Ptr} {f : Connect → Connect} (hf : ∀ c, (f c).unread = (f c.unread).unread) :
    BufferBlind (modConn q f) :=
  deref_alike fun c c' hc => .modify fun s s' hs => by
    rw [unread_setConn, unread_setConn, hf c, hf c', hc, hs]

theorem modScb_blind (k : ScbPtr) (f : SCB → SCB) : BufferBlind (modScb k f) := modify_blind fun _ => rfl

theorem getScb_blind (k : ScbPtr) : BufferBlind (getScb k) := .of_view fun _ => rfl

theorem derefUser_blind (u : UserId) : BufferBlind (derefUser u) := .of_view fun s => by
  simp only [derefUser]
  show nonNull (s.userMap u) _ = (nonNull (s.userMap u) s).map _
  cases s.userMap u <;> rfl

theorem modUser_blind (u : UserId) (f : User → User) : BufferBlind (modUser u f) :=
  .seq (derefUser_blind u) <| modify_blind fun _ => rfl

theorem emit_blind {o : Obs} (h : o.unread = o) : BufferBlind (emit o) :=
  modify_blind fun s => by rw [unread_emit, h]

theorem nonNull_blind (o : Option α) : BufferBlind (nonNull o) := by
  cases o with
  | none => exact .throw _
  | some a => exact .pure a

theorem firstConn_blind (pool : List Ptr) : BufferBlind (firstConn pool) := by
  cases pool with
  | nil => exact .throw _
  | cons p _ => exact .pure p

theorem charge_blind (x : ℕ) : BufferBlind (charge x) := .of_view fun _ => rfl

theorem setErrno_blind (e : ℕ) : BufferBlind (setErrno e) := modify_blind fun _ => rfl

theorem sockSend_blind (fd : ℕ) (bs : List UInt8) : BufferBlind (sockSend fd bs) := .of_view fun s => by
  have hsends : s.unread.sends = s.sends := rfl
  show (if fd ∉ s.openFds then _ else if fd ∈ s.shutFds then _ else _ : TmsM (Option ℕ)) s.unread =
    ((if fd ∉ s.openFds then _ else if fd ∈ s.shutFds then _ else _ : TmsM (Option ℕ)) s).map _
  by_cases hopen : fd ∉ s.openFds
  · rw [if_pos hopen, if_pos hopen]
    rfl
  · rw [if_neg hopen, if_neg hopen]
    by_cases hshut : fd ∈ s.shutFds
    · rw [if_pos hshut, if_pos hshut]
      rfl
    · rw [if_neg hshut, if_neg hshut, hsends]
      match s.sends with
      | [] => rfl
      | .sent m :: rest => rfl
      | .fail e :: rest => rfl

theorem recordTraffic_blind (u : UserId) (scb : Option ScbPtr) (n : ℕ) :
    BufferBlind (recordTraffic u scb n) := by
  cases scb with
  | none => exact .pure _
  | some k =>
      exact .seq (derefUser_blind u) <| .seq (getScb_blind k) <|
        .seq (modScb_blind k _) <| .seq (modUser_blind u _) <| .ite (.pure _) (.pure _)

theorem chargeSent_blind (p : Ptr) (n : ℕ) : BufferBlind (chargeSent p n) :=
  deref_blind (fun _ => rfl) fun c => by
    split
    · exact get_blind (fun _ => rfl) fun _ => .seq (emit_blind rfl) <| .seq (charge_blind _) <|
        .seq (recordTraffic_blind _ _ _) <| .ite (.ret (modConn_blind fun _ => rfl)) (.pure _)
    · exact .pure _

theorem sendTmsMsg_blind (p : Ptr) (msg : List UInt8) : BufferBlind (sendTmsMsg p msg) :=
  deref_blind (fun _ => rfl) fun c => .bind (sockSend_blind _ _) fun r => by
    cases r with
    | none => exact .pure _
    | some n => exact .seq (emit_blind rfl) <| .ite (.pure _) (chargeSent_blind p n)

theorem sendMsg_blind (p : Ptr) (msg : List UInt8) : BufferBlind (sendMsg p msg) :=
  deref_blind (fun _ => rfl) fun c => .bind (sockSend_blind _ _) fun r => by
    cases r with
    | none => exact .pure _
    | some n => exact emit_blind rfl

theorem sockOpen_blind : BufferBlind sockOpen :=
  .get_bind fun s s' hs => by
    have hsocks : s.socks = s'.socks := (congrArg Server.socks hs :)
    have hopen : s.openFds = s'.openFds := (congrArg Server.openFds hs :)
    have hfree : ∀ fd, s.fdFree fd ↔ s'.fdFree fd := fun fd => by rw [Server.fdFree, Server.fdFree, hopen]
    have hset : ∀ f : Server → Server, (∀ t, (f t).unread = f t.unread) → ∀ r : Option ℕ,
        Alike Server.unread (do set (f s); pure r : TmsM (Option ℕ)) (do set (f s'); pure r) :=
      fun f hf r => .seq (.set (by rw [hf, hf, hs])) <| .pure r
    match h : s.socks with
    | [] =>
        simp only [hsocks.symm.trans h]
        exact .ret (setErrno_blind _)
    | .fail e :: rest =>
        simp only [hsocks.symm.trans h]
        exact hset (fun t => { t with socks := rest, errno := e }) (fun _ => rfl) _
    | .opened fd inprogress :: rest =>
        simp only [hsocks.symm.trans h, hfree]
        exact .ite
          (hset (fun t => { t with socks := rest, errno := if inprogress then EINPROGRESS else t.errno })
            (fun _ => rfl) _)
          (hset (fun t => { t with socks := rest, errno := EMFILE }) (fun _ => rfl) _)

theorem addEvent_blind (fd : ℕ) (m : Mask) : BufferBlind (addEvent fd m) :=
  get_blind (fun _ => rfl) fun s => by
    split
    · exact .ret (setErrno_blind _)
    · exact .ret (modify_blind fun _ => rfl)

theorem newConn_blind (fd : ℕ) (c : Connect) : BufferBlind (newConn fd c) :=
  .get_bind fun s s' hs => by
    have hnext : s.nextConn = s'.nextConn := (congrArg Server.nextConn hs :)
    simp only [hnext]
    refine .ret (.set ?_)
    have h : ∀ t : Server, ({ (t.setConn s'.nextConn c).setMap fd (some s'.nextConn) with
        nextConn := s'.nextConn + 1, openFds := fd :: t.openFds }.emit (.newfd fd s'.nextConn)).unread =
        { (t.unread.setConn s'.nextConn c.unread).setMap fd (some s'.nextConn) with
          nextConn := s'.nextConn + 1, openFds := fd :: t.unread.openFds }.emit (.newfd fd s'.nextConn) := by
      intro t
      rw [unread_emit, ← unread_setConn]
      rfl
    rw [h, h, hs]

theorem createAgentConn_blind : BufferBlind createAgentConn :=
  .bind sockOpen_blind fun r => by
    cases r with
    | none => exact .pure _
    | some fd =>
        exact get_blind (fun _ => rfl) fun _ => .ret (newConn_blind _ _)

theorem linkAgent_blind (u : UserId) (k : ScbPtr) (a : Ptr) : BufferBlind (linkAgent u k a) :=
  deref_blind (fun _ => rfl) fun _ => .seq (modScb_blind k _) <| modConn_blind fun _ => rfl

theorem newSCB_blind : BufferBlind newSCB :=
  .of_view fun s => by
    have hfree : s.unread.scbFreeList = s.scbFreeList := rfl
    simp only [newSCB, run_get_bind, hfree]
    cases s.scbFreeList <;> rfl

theorem linkTunnel_blind (u : UserId) (t : Ptr) {c c' : Connect} (h : c.unread = c'.unread) :
    Alike Server.unread (linkTunnel u t c) (linkTunnel u t c') := by
  have hc : linkTunnel u t c = linkTunnel u t c' := by
    show linkTunnel u t c.unread = linkTunnel u t c'.unread
    rw [h]
  rw [hc]
  exact .bind newSCB_blind fun k => get_blind (fun _ => rfl) fun _ => .seq (modScb_blind k _) <|
    .ret (modConn_blind fun _ => rfl)

theorem createSCB_blind (u : UserId) (t : Ptr) (agent : Option Ptr) : BufferBlind (createSCB u t agent) :=
  deref_blind (fun _ => rfl) fun c => by
    split
    · exact .pure _
    · refine .bind (linkTunnel_blind u t rfl) fun k => .bind ?_ fun _ => .seq (getScb_blind k) <|
        .ret (modUser_blind u _)
      cases agent with
      | none => exact .pure _
      | some a => exact linkAgent_blind u k a

theorem attachAgent_blind (u : UserId) (t a : Ptr) (port : ℕ) : BufferBlind (attachAgent u t a port) :=
  deref_blind (fun _ => rfl) fun c => by
    split
    · next k _ => exact .seq (modScb_blind k _) <| .ret (linkAgent_blind u k a)
    · exact createSCB_blind u t _

theorem connectWebServer_blind (u : UserId) (t : Ptr) (ip port : ℕ) :
    BufferBlind (connectWebServer u t ip port) :=
  .bind createAgentConn_blind fun r => by
    cases r with
    | none => exact .ret (sendTmsMsg_blind t _)
    | some a =>
        exact deref_blind (fun _ => rfl) fun _ => get_blind (fun _ => rfl) fun _ => .seq (emit_blind rfl) <|
          .seq (attachAgent_blind u t a port) <| deref_blind (fun _ => rfl) fun _ =>
            .seq (addEvent_blind _ _) <| .ret (sendTmsMsg_blind t _)

theorem awaitHost_blind (p : Ptr) (u : UserId) (host : Host) (port : ℕ) :
    BufferBlind (awaitHost p u host port) :=
  deref_blind (fun _ => rfl) fun _ => get_blind (fun _ => rfl) fun _ => .bind (createSCB_blind u p none) fun k =>
    .seq (.seq (getScb_blind k) <| .seq (nonNull_blind _) <| modify_blind fun _ => rfl) <|
      .seq (getScb_blind k) <| emit_blind rfl

theorem resolveHost_blind (p : Ptr) (u : UserId) (host : Host) (port : ℕ) :
    BufferBlind (resolveHost p u host port) :=
  get_blind (fun _ => rfl) fun _ => .ite (.throw _) <|
    .seq (awaitHost_blind p u host port) <| get_blind (fun _ => rfl) fun _ =>
      .bind (firstConn_blind _) fun d => sendMsg_blind d _

theorem openStream_blind (p : Ptr) (u : UserId) (host : Host) (port : ℕ) :
    BufferBlind (openStream p u host port) :=
  .ite (.ret (connectWebServer_blind u p _ port)) <|
    get_blind (fun _ => rfl) fun s => by
      split
      · exact .ret (connectWebServer_blind u p _ port)
      · exact .ret (resolveHost_blind p u host port)

theorem requestToken_blind (p : Ptr) (r : LoginReq) : BufferBlind (requestToken p r) :=
  deref_blind (fun _ => rfl) fun _ => .bind (get_blind (fun _ => rfl) fun _ => firstConn_blind _) fun cn =>
    .seq (emit_blind rfl) <| .ret (sendTmsMsg_blind cn _)

theorem retrieveUser_blind (u : UserId) : BufferBlind (retrieveUser u) := .of_view fun s => by
  have huser : s.unread.userMap u = s.userMap u := rfl
  simp only [retrieveUser, run_get_bind, huser]
  cases s.userMap u <;> rfl

end Blind

/-! ### The handler in two parts -/

/-- What the handler takes from the buffer: the request and its host. -/
def loginProbe : Probe (Except Fault (LoginReq × Host)) := do
  let app ← Probe.bytes 2 8
  let mobile ← Probe.bytes 10 8
  let token ← Probe.bytes 18 tokenSize
  let port ← Probe.bytes 50 2
  let hostLen ← Probe.bytes 52 2
  if 0 ∉ token ∨ buffSize ≤ LoginReq.hostAt + ofLE hostLen then pure (.error .overflow)
  else do
    let host ← Probe.bytes LoginReq.hostAt (ofLE hostLen)
    pure (.ok (⟨ofLE app, ofLE mobile, token, ofLE port, ofLE hostLen⟩, host))

theorem run_loginProbe (b : Buff) : loginProbe.run b =
    if 0 ∉ (LoginReq.read b).token ∨ buffSize ≤ LoginReq.hostAt + (LoginReq.read b).hostLen then .error .overflow
    else .ok (LoginReq.read b, b.slice LoginReq.hostAt (LoginReq.read b).hostLen) := by
  simp only [loginProbe, Probe.run_bind, Probe.run_ite, Probe.run_bytes, Probe.run_pure]
  rfl

/-- The fields a login for `host` leaves in the connection. -/
def Connect.loggedIn (c : Connect) (r : LoginReq) (host : Host) : Connect :=
  { c with
    app := r.app
    mobile := r.mobile
    destPort := r.port
    token := copyToken c.token r.token
    currHost := host
    dec := { c.dec with buff := c.dec.buff.store (LoginReq.hostAt + r.hostLen) [0] } }

/-- What the handler does with a request for `host`. -/
def serveLogin (p : Ptr) (r : LoginReq) (host : Host) : TmsM ℤ := do
  modConn p (fun c => c.loggedIn r host)
  refuseParams p r
  requestToken p r
  retrieveUser ⟨r.mobile, r.app⟩
  modConn p (fun c => { c with user := some ⟨r.mobile, r.app⟩ })
  if ← openStream p ⟨r.mobile, r.app⟩ host r.port then
    let _ ← sendTmsMsg p (loginRsp .prog)
    pure 0
  else pure (-1)

/-- **The handler depends on the buffer through the probe only.** -/
theorem handleLoginReq_eq {s : Server} {p : Ptr} {c : Connect} (hc : s.conns p = some c) :
    handleLoginReq p s = match loginProbe.run c.dec.buff with
      | .error e => .error e
      | .ok (r, host) => serveLogin p r host s := by
  have hderef : deref p s = .ok (c, s) := deref_eq hc
  have hmod : ∀ f, modConn p f s = .ok ((), s.setConn p (f c)) := fun f => by
    rw [modConn, run_bind, hderef]
    rfl
  rw [run_loginProbe, handleLoginReq, run_bind, hderef]
  simp only
  split_ifs with hbad
  · rfl
  · simp only [enterLogin, serveLogin, bind_assoc]
    rw [run_bind, run_bind (modConn p fun c => c.loggedIn _ _), hmod, hmod]
    rfl

theorem serveLogin_blind (p : Ptr) (r : LoginReq) (host : Host) : BufferBlind (serveLogin p r host) :=
  .seq (modConn_blind fun _ => rfl) <|
    .seq (.ite (.ret (sendTmsMsg_blind p _)) (.pure _)) <|
      .seq (requestToken_blind p r) <| .seq (retrieveUser_blind _) <|
        .seq (modConn_blind fun _ => rfl) <| .seq (openStream_blind p _ host r.port) <|
          .ite (.ret (sendTmsMsg_blind p _)) (.pure _)

/-! ### Requests that hold what they announce -/

/-- The message holds the fields of a request, a token that ends, and the host it announces, which leaves a byte of
the buffer for its terminator. -/
def LoginFits (bs : List UInt8) : Prop :=
  LoginReq.hostAt ≤ bs.length ∧
    let r := LoginReq.read (Buff.store (fun _ => 0) 0 bs)
    0 ∈ r.token ∧ LoginReq.hostAt + r.hostLen ≤ bs.length ∧ LoginReq.hostAt + r.hostLen < buffSize

instance (bs : List UInt8) : Decidable (LoginFits bs) := inferInstanceAs (Decidable (_ ∧ _ ∧ _ ∧ _))

/-- The probe stays among the first `n` bytes. -/
theorem loginProbe_stays_iff {b : Buff} {n : ℕ} : Probe.Stays n loginProbe b ↔
    LoginReq.hostAt ≤ n ∧ 0 ∈ (LoginReq.read b).token ∧ LoginReq.hostAt + (LoginReq.read b).hostLen ≤ n ∧
      LoginReq.hostAt + (LoginReq.read b).hostLen < buffSize := by
  have hbytes : ∀ off len, (∀ i ∈ (Probe.bytes off len).asked b, i < n) ↔ len = 0 ∨ off + len ≤ n := by
    intro off len
    simp only [Probe.mem_asked_bytes]
    constructor
    · intro h
      by_contra hno
      have := h (off + len - 1) (by omega)
      omega
    · intro h i hi
      omega
  have htoken : tokenSize = 32 := rfl
  have hhost : LoginReq.hostAt = 54 := rfl
  -- what the fields come to, with the names of the request
  have hfields : Probe.Stays n loginProbe b ↔ 54 ≤ n ∧
      Probe.Stays n (if 0 ∉ (LoginReq.read b).token ∨ buffSize ≤ LoginReq.hostAt + (LoginReq.read b).hostLen then
          pure (.error .overflow)
        else do
          let host ← Probe.bytes LoginReq.hostAt (LoginReq.read b).hostLen
          pure (.ok (LoginReq.read b, host)) : Probe (Except Fault (LoginReq × Host))) b := by
    simp only [Probe.Stays, loginProbe, Probe.gives_bind, hbytes, Probe.run_bytes, htoken, exists_and_left, ← and_assoc]
    exact and_congr_left fun _ => by omega
  rw [hfields, hhost]
  split_ifs with hbad
  · simp only [Probe.Stays, Probe.gives_error, exists_false, and_false, false_iff]
    rintro ⟨-, hmem, -, hlt⟩
    rcases hbad with hno | hbig
    · exact hno hmem
    · omega
  · simp only [Probe.Stays, Probe.gives_bind, Probe.gives_ok, exists_and_left, exists_eq', and_true, hbytes]
    rw [not_or, not_not] at hbad
    constructor
    · rintro ⟨h54, hin⟩
      exact ⟨h54, hbad.1, by omega, by omega⟩
    · rintro ⟨h54, -, hin, -⟩
      exact ⟨h54, .inr hin⟩

/-- A connection whose receive buffer holds `b`. -/
def Connect.holding (c : Connect) (b : Buff) : Connect := { c with dec := { c.dec with buff := b } }

/-- What the message handler does with a login request. -/
theorem handleRecvMsg_login {s : Server} {p : Ptr} {c : Connect} {len : ℕ} (hlen : 4 ≤ len)
    (hc : s.conns p = some c) (hid : MsgId.ofNat? (msgId c.dec.buff) = some .loginReq) :
    handleRecvMsg p len s = match loginProbe.run c.dec.buff with
      | .error e => .error e
      | .ok (r, host) => serveLogin p r host (s.emit (.msg p c len)) := by
  have hshort : ¬ len < 4 := by omega
  have hderef : deref p s = .ok (c, s) := deref_eq hc
  rw [← handleLoginReq_eq (s := s.emit (.msg p c len)) hc, handleRecvMsg, run_bind, hderef]
  simp only [hshort, if_false, hid]
  rfl

/-- **A login request is read from its own bytes exactly if it holds what it announces.**  For a message body `bs`
at the start of the receive buffer, whatever lies behind it: the handler looks at nothing behind it, and in any
state of the server does the same, and sends the same, for any two contents. -/
theorem login_ownBytes_iff (bs : List UInt8) (hlen : 4 ≤ bs.length)
    (hid : MsgId.ofNat? (msgId (Buff.store (fun _ => 0) 0 bs)) = some .loginReq) :
    ((∀ mem : Buff, Probe.Stays bs.length loginProbe (mem.store 0 bs)) ∧
      ∀ (s : Server) (p : Ptr) (c : Connect) (mem mem' : Buff),
        (handleRecvMsg p bs.length (s.setConn p (c.holding (mem.store 0 bs)))).map (Prod.map id Server.unread) =
        (handleRecvMsg p bs.length (s.setConn p (c.holding (mem'.store 0 bs)))).map (Prod.map id Server.unread)) ↔
    LoginFits bs := by
  have hagree : ∀ mem mem' : Buff, ∀ i < bs.length, mem.store 0 bs i = mem'.store 0 bs i := fun mem mem' i hi => by
    rw [Buff.store_apply mem hi, Buff.store_apply mem' hi]
  have hmsg : ∀ mem : Buff, MsgId.ofNat? (msgId (mem.store 0 bs)) = some .loginReq := fun mem => by
    have hin : 0 + 2 ≤ bs.length := by omega
    rw [← hid, msgId, msgId, Buff.slice_store_part mem hin, Buff.slice_store_part _ hin]
  constructor
  · exact fun h => loginProbe_stays_iff.mp (h.1 _)
  · intro h
    have hall : ∀ mem : Buff, Probe.Stays bs.length loginProbe (mem.store 0 bs) := fun mem =>
      (loginProbe_stays_iff.mpr h).congr (hagree _ _)
    refine ⟨hall, fun s p c mem mem' => ?_⟩
    obtain ⟨⟨r, host⟩, hgives⟩ := hall mem
    obtain ⟨hrun', -⟩ := hgives.congr (hagree mem' mem)
    have hconn : ∀ b, (s.setConn p (c.holding b)).conns p = some (c.holding b) := fun b => Function.update_self ..
    rw [handleRecvMsg_login hlen (hconn (mem.store 0 bs)) (hmsg mem),
      handleRecvMsg_login hlen (hconn (mem'.store 0 bs)) (hmsg mem')]
    simp only [Connect.holding, hgives.1, hrun']
    refine (serveLogin_blind p r host).map_eq ?_
    rw [unread_emit, unread_emit, unread_setConn, unread_setConn]
    rfl

/-- The login of user 2 to `a` fits. -/
theorem login_ownBytes_iff_short :
    let bs := LoginReq.bytes ⟨1, 2, 65 :: List.replicate 31 0, 80, 1⟩ [97]
    (∀ mem : Buff, Probe.Stays bs.length loginProbe (mem.store 0 bs)) ∧
      ∀ (s : Server) (p : Ptr) (c : Connect) (mem mem' : Buff),
        (handleRecvMsg p bs.length (s.setConn p (c.holding (mem.store 0 bs)))).map (Prod.map id Server.unread) =
        (handleRecvMsg p bs.length (s.setConn p (c.holding (mem'.store 0 bs)))).map (Prod.map id Server.unread) :=
  (login_ownBytes_iff _ (by decide) (by decide)).mpr (by decide)

/-- A login for a host of one byte that ends before its host. -/
def hostlessLogin : List UInt8 := LoginReq.bytes ⟨1, 2, 65 :: List.replicate 31 0, 80, 1⟩ []

/-- The request arrives on a connection whose buffer held `mem`. -/
def hostlessRun (mem : Buff) : List (List Event) :=
  [[{ Event.connects 10 with mem := mem }], [.arrives 10 (frame hostlessLogin)]]

/-- What was sent to the name server. -/
def queries (l : List Obs) : List (List UInt8) :=
  l.filterMap fun
    | .ctl 0 bs => some bs
    | _ => none

/-- **The host is taken from what lies behind the message**: the byte behind it is looked at, and the server asks
for `a` or for `b`. -/
theorem login_leftoverHost :
    54 ∈ loginProbe.asked (Buff.store (fun _ => 97) 0 hostlessLogin) ∧ hostlessLogin.length = 54 ∧
    (mainLoop (hostlessRun fun _ => 97) (Server.init false 0 0 fun _ => 0)).map (fun s =>
      ((s.conns 3).map Connect.currHost, queries s.log)) = some (some [97], [reqFill 0 [97]]) ∧
    (mainLoop (hostlessRun fun _ => 98) (Server.init false 0 0 fun _ => 0)).map (fun s =>
      ((s.conns 3).map Connect.currHost, queries s.log)) = some (some [98], [reqFill 0 [98]]) := by
  refine ⟨?_, by decide, by decide +kernel, by decide +kernel⟩
  decide +kernel

end HttpsTunnel.Tms

import HttpsTunnel.Tms.MainLoop
import HttpsTunnel.Lib.Session

/-! # Functions that leave the connections in place

A relation `R` between states is followed by a function of the server if it allows the changes the function
makes.  The classes below say which changes a relation allows: traffic that is charged (`Charging`), messages
of the server (`Sending`), links between connections and blocks (`Linking`), registrations (`Unwatched`).

Most of what a handler calls neither opens, closes nor registers a descriptor, and changes of a connection
only what its decoder and its socket do not look at.  `Passive R` says that a relation does not see such
changes.  What is left to show for a relation is then what it says of the few functions that open and close. -/

namespace HttpsTunnel.Tms

open HttpsTunnel.Lib HttpsTunnel.Wire

/-- What the socket and the decoder of a connection are: all that the passive functions leave alone. -/
structure Desk where
  fd : ℕ
  type : ConnType
  status : SockStat
  datalen : ℕ
  cstate : Mode
  h : ℕ
  still : ℕ
  offset : ℕ
deriving DecidableEq

def Connect.desk (c : Connect) : Desk :=
  ⟨c.sockFd, c.type, c.status, c.datalen, c.dec.cstate, c.dec.h, c.dec.stillneedtoread, c.dec.offset⟩

/-- The connections, their descriptors, the pools and the error the main loop fetched last. -/
structure Tables where
  conns : Ptr → Option Connect
  nextConn : Ptr
  connMap : ℕ → Option Ptr
  openFds : List ℕ
  shutFds : List ℕ
  epoll : ℕ → Option Mask
  dnsConnPool : List Ptr
  centerConnPool : List Ptr
  dpiConnPool : List Ptr
  err : ℕ

def Server.tables (s : Server) : Tables :=
  ⟨s.conns, s.nextConn, s.connMap, s.openFds, s.shutFds, s.epoll, s.dnsConnPool, s.centerConnPool,
    s.dpiConnPool, s.err⟩

/-- The forward ids: the next one to issue, and those of the blocks. -/
structure Ids where
  next : ℕ
  block : ScbPtr → ℕ

def Server.ids (s : Server) : Ids := ⟨s.avalForwardId, fun k => (s.scbs k).forwardId⟩

theorem ids_setScb {s : Server} {k : ScbPtr} {b : SCB} (h : b.forwardId = (s.scbs k).forwardId) :
    (s.setScb k b).ids = s.ids := by
  refine congrArg (Ids.mk _) (funext fun j => ?_)
  by_cases hj : j = k
  · subst hj
    simp [Server.setScb, h]
  · simp [Server.setScb, hj]

/-- A relation that allows traffic to be charged to a stream and its user. -/
class Charging (R : Server → Server → Prop) : Prop extends Std.Refl R, IsTrans Server R where
  traffic : ∀ (s : Server) k n, R s (s.setScb k { s.scbs k with traffic := n })
  user : ∀ {s : Server} {u : UserId} {v v' : User}, s.userMap u = some v → v'.scbTree = v.scbTree →
    R s (s.setUser u v')
  sent : ∀ (s : Server) p x, R s (s.emit (.sent p x))

/-- A relation that also allows messages of the server to be sent. -/
class Sending (R : Server → Server → Prop) : Prop extends Charging R where
  exit : ∀ {s : Server} {p : Ptr} {c : Connect}, s.conns p = some c → R s (s.setConn p { c with exit := true })
  kernel : ∀ (s : Server) sends errno, R s { s with sends := sends, errno := errno }
  ctl : ∀ (s : Server) p bs, R s (s.emit (.ctl p bs))
  report : ∀ (s : Server) r, R s (s.emit (.report r))

/-- A relation that allows connections to be linked to blocks. -/
class Linking (R : Server → Server → Prop) : Prop extends Charging R where
  conn : ∀ {s : Server} {p : Ptr} {c c' : Connect}, s.conns p = some c → c'.desk = c.desk →
    R s (s.setConn p c')
  id : ∀ {s : Server} {k : ScbPtr} {b : SCB}, b.forwardId = (s.scbs k).forwardId → R s (s.setScb k b)
  clear : ∀ {s : Server} {k : ScbPtr} {b : SCB}, b.forwardId = 0 → R s (s.setScb k b)
  tree : ∀ {s : Server} {u : UserId} {v : User}, s.userMap u = some v → ∀ v', R s (s.setUser u v')
  spares : ∀ (s : Server) next free id,
    R s { s with nextScb := next, scbFreeList := free, avalPcbId := id }

section Reads

variable {R : Server → Server → Prop} [Std.Refl R]

theorem deref_does (p : Ptr) : Does R (deref p) := fun s => wpe_deref.mpr ⟨fun _ => trivial, fun _ _ => refl_of R s⟩

theorem nonNull_does {α : Type} (o : Option α) : Does R (nonNull o) :=
  fun s => wpe_nonNull.mpr ⟨fun _ => trivial, fun _ _ => refl_of R s⟩

theorem getScb_does (k : ScbPtr) : Does R (getScb k) := fun s => wpe_getScb.mpr (refl_of R s)

theorem derefUser_does (u : UserId) : Does R (derefUser u) :=
  fun s => wpe_derefUser.mpr ⟨fun _ => trivial, fun _ _ => refl_of R s⟩

theorem charge_does (x : ℕ) : Does R (charge x) := fun s => refl_of R s

theorem firstConn_does (pool : List Ptr) : Does R (firstConn pool) := by
  cases pool with
  | nil => exact .throw _
  | cons p _ => exact fun s => refl_of R s

theorem getCenterConn_does : Does R getCenterConn := .get_bind fun _ => firstConn_does _

theorem getDnsConn_does : Does R getDnsConn := .get_bind fun _ => firstConn_does _

theorem getDpiConn_does : Does R getDpiConn := .get_bind fun _ => firstConn_does _

end Reads

/-! ### Traffic, reports and messages -/

section Charging

variable {R : Server → Server → Prop} [Charging R]

theorem modUser_does {u : UserId} {f : User → User} (h : ∀ v, (f v).scbTree = v.scbTree) :
    Does R (modUser u f) :=
  fun _ => wpe_modUser.mpr ⟨fun _ => trivial, fun v hv => Charging.user hv (h v)⟩

theorem recordTraffic_does (u : UserId) (scb : Option ScbPtr) (n : ℕ) : Does R (recordTraffic u scb n) := by
  cases scb with
  | none => exact .pure _
  | some k =>
      exact .seq (derefUser_does u) <| .seq (getScb_does k) <| .bind (fun s => Charging.traffic s k _) fun _ =>
        .seq (modUser_does fun _ => rfl) <| .ite (.pure _) (.pure _)

theorem chargeSent_of {p : Ptr} (n : ℕ) (hexit : Does R (modConn p fun c => { c with exit := true })) :
    Does R (chargeSent p n) := .bind (deref_does p) fun c => by
  split
  · exact .get_bind fun _ => .bind (fun s => Charging.sent s p _) fun _ => .seq (charge_does _) <|
      .seq (recordTraffic_does _ _ _) <| .ite (.ret hexit) (.pure _)
  · exact .pure _

end Charging

section Sending

variable {R : Server → Server → Prop} [Sending R]

theorem setErrno_does (e : ℕ) : Does R (setErrno e) := fun s => Sending.kernel s s.sends e

theorem sockSend_does (fd : ℕ) (bs : List UInt8) : Does R (sockSend fd bs) := by
  intro s
  simp only [sockSend, wlp, wpe_bind, wpe_get, wpe_ite]
  refine ⟨fun _ => Sending.kernel s s.sends _, fun _ => ⟨fun _ => Sending.kernel s s.sends _, fun _ => ?_⟩⟩
  rcases s.sends with _ | ⟨m | e, rest⟩
  · exact refl_of R s
  · exact Sending.kernel s rest s.errno
  · exact Sending.kernel s rest e

theorem accumulateOrReport_does (u : UserId) (k : ScbPtr) (start : Timeval) :
    Does R (accumulateOrReport u k start) :=
  .seq (derefUser_does u) <| .seq (getScb_does k) <|
    .ite (modUser_does fun _ => rfl) (.get_bind fun _ => .bind (fun s => Sending.report s _) fun _ =>
      .seq getCenterConn_does <| modUser_does fun _ => rfl)

theorem reportOrAccumulate_does (u : UserId) (k : ScbPtr) : Does R (reportOrAccumulate u k) := by
  refine .bind (getScb_does k) fun b => .ite (.pure _) (.get_bind fun _ =>
    .bind (fun s => Charging.traffic s k _) fun _ => ?_)
  cases b.tunnelConn with
  | none => exact .pure _
  | some t =>
      exact .seq (deref_does t) <| .ite (.throw _) (.seq (derefUser_does u) <|
        .get_bind fun _ => .seq (modUser_does fun _ => rfl) <|
        .seq (accumulateOrReport_does u k _) <| .ret fun s => Charging.traffic s k _)

theorem reportAccumulated_does (u : UserId) : Does R (reportAccumulated u) :=
  .seq (derefUser_does u) <| .get_bind fun _ => .bind (fun s => Sending.report s _) fun _ =>
    .seq getCenterConn_does <| modUser_does fun _ => rfl

theorem sendMsg_does (p : Ptr) (msg : List UInt8) : Does R (sendMsg p msg) :=
  .seq (deref_does p) <| .bind (sockSend_does _ _) fun r => by
    cases r with
    | some n => exact fun s => Sending.ctl s p _
    | none => exact .pure _

theorem sendTmsMsg_does (p : Ptr) (msg : List UInt8) : Does R (sendTmsMsg p msg) :=
  .seq (deref_does p) <| .bind (sockSend_does _ _) fun r => by
    cases r with
    | none => exact .pure _
    | some n =>
        refine .bind (fun s => Sending.ctl s p _) fun _ => .ite (.pure _) (chargeSent_of n fun _ => ?_)
        exact wpe_modConn.mpr ⟨fun _ => trivial, fun _ hc => Sending.exit hc⟩

theorem sendDnsFail_does (k : ScbPtr) : Does R (sendDnsFail k) :=
  .seq (getScb_does k) <| .bind (nonNull_does _) fun t => .ret (sendTmsMsg_does t _)

theorem refuseParams_does (p : Ptr) (r : LoginReq) : Does R (refuseParams p r) :=
  .ite (.ret (sendTmsMsg_does p _)) (.pure _)

theorem synUserTuple_does (q : Ptr) : Does R (synUserTuple q) :=
  .seq (deref_does q) <| .get_bind fun _ => .bind getDpiConn_does fun d => .ret (sendTmsMsg_does d _)

theorem handleTrafficReportRsp_does (p : Ptr) : Does R (handleTrafficReportRsp p) :=
  .seq (deref_does p) <| .get_bind fun s => by
    split
    · exact .pure _
    · exact .ite (.seq (reportAccumulated_does _) <| .ret (modUser_does fun _ => rfl))
        (.ret (modUser_does fun _ => rfl))

end Sending

/-! ### Streams -/

section Linking

variable {R : Server → Server → Prop} [Linking R]

theorem modConn_linking {p : Ptr} {f : Connect → Connect} (h : ∀ c, (f c).desk = c.desk) : Does R (modConn p f) :=
  fun _ => wpe_modConn.mpr ⟨fun _ => trivial, fun c hc => Linking.conn hc (h c)⟩

theorem newSCB_does : Does R newSCB := by
  intro s
  simp only [newSCB, wlp, wpe_bind, wpe_get]
  cases s.scbFreeList with
  | cons k rest =>
      simp only [wpe_bind, wpe_set, wpe_pure]
      have hid : R s (s.setScb k { s.scbs k with scbid := s.avalPcbId + 1 }) := Linking.id rfl
      exact trans_of R hid (Linking.spares _ s.nextScb rest (s.avalPcbId + 1))
  | nil =>
      simp only [wpe_bind, wpe_set, wpe_pure]
      have hnew : R s (s.setScb s.nextScb { scbid := s.avalPcbId + 1 }) := Linking.clear rfl
      exact trans_of R hnew (Linking.spares _ (s.nextScb + 1) _ (s.avalPcbId + 1))

theorem linkAgent_does (u : UserId) (k : ScbPtr) (a : Ptr) : Does R (linkAgent u k a) :=
  .seq (deref_does a) <| .bind (fun _ => Linking.id rfl) fun _ => modConn_linking fun _ => rfl

theorem linkTunnel_does (u : UserId) (t : Ptr) (c : Connect) : Does R (linkTunnel u t c) :=
  .seq newSCB_does <| .get_bind fun _ => .bind (fun _ => Linking.id rfl) fun _ =>
    .ret (modConn_linking fun _ => rfl)

theorem createSCB_does (u : UserId) (t : Ptr) (agent : Option Ptr) : Does R (createSCB u t agent) :=
  .bind (deref_does t) fun c => by
    split
    · exact .pure _
    · refine .bind (linkTunnel_does u t c) fun k => .bind ?_ fun _ => .seq (getScb_does k) <|
        .ret fun _ => wpe_modUser.mpr ⟨fun _ => trivial, fun _ hv => Linking.tree hv _⟩
      cases agent with
      | none => exact .pure _
      | some a => exact linkAgent_does u k a

theorem attachAgent_does (u : UserId) (t a : Ptr) (port : ℕ) : Does R (attachAgent u t a port) :=
  .bind (deref_does t) fun c => by
    split
    · next k _ => exact .bind (fun _ => Linking.id rfl) fun _ => .ret (linkAgent_does u k a)
    · exact createSCB_does u t _

end Linking

/-! ### Registrations -/

/-- A relation that does not see what is registered. -/
class Unwatched (R : Server → Server → Prop) : Prop where
  epoll : ∀ (s : Server) f e, R s { s with epoll := f, errno := e }

section Unwatched

variable {R : Server → Server → Prop} [Unwatched R]

theorem addEvent_does (fd : ℕ) (m : Mask) : Does R (addEvent fd m) := by
  intro s
  simp only [addEvent, wlp, wpe_bind, wpe_get]
  cases s.epoll fd with
  | some _ => exact Unwatched.epoll s s.epoll EEXIST
  | none => exact Unwatched.epoll s _ s.errno

theorem removeEvent_does (fd : ℕ) : Does R (removeEvent fd) := by
  intro s
  simp only [removeEvent, wlp, wpe_bind, wpe_get]
  cases s.epoll fd with
  | none => exact Unwatched.epoll s s.epoll ENOENT
  | some _ => exact Unwatched.epoll s _ s.errno

theorem modifyEvent_does (fd : ℕ) (m : Mask) : Does R (modifyEvent fd m) := by
  intro s
  simp only [modifyEvent, wlp, wpe_bind, wpe_get]
  cases s.epoll fd with
  | none => exact Unwatched.epoll s s.epoll ENOENT
  | some _ => exact Unwatched.epoll s _ s.errno

end Unwatched

theorem fetchError_of {R : Server → Server → Prop}
    (h : ∀ (s : Server) errno err, R s { s with errno := errno, err := err })
    (e : Event) : Does R (fetchError e) := by
  intro s
  simp only [fetchError, wlp, wpe_bind, wpe_get, wpe_ite]
  exact ⟨fun _ => h s s.errno _, fun _ => h s _ s.err⟩

/-! ### Passive functions -/

/-- A relation that sees neither what is outside the tables and the forward ids nor the other fields of a
connection. -/
class Passive (R : Server → Server → Prop) : Prop extends Std.Refl R, IsTrans Server R where
  tables : ∀ {s s' : Server}, s'.tables = s.tables → s'.ids = s.ids → R s s'
  desk : ∀ {s : Server} {p : Ptr} {c c' : Connect}, s.conns p = some c → c'.desk = c.desk →
    R s (s.setConn p c')

/-- A passive relation that allows a block to be taken or given back. -/
class Recycling (R : Server → Server → Prop) : Prop extends Passive R where
  clear : ∀ {s : Server} {b : SCB} (k : ScbPtr), b.forwardId = 0 → R s (s.setScb k b)

instance {R : Server → Server → Prop} [Passive R] : Sending R where
  traffic _ _ _ := Passive.tables rfl (ids_setScb rfl)
  user _ _ := Passive.tables rfl rfl
  sent _ _ _ := Passive.tables rfl rfl
  exit hc := Passive.desk hc rfl
  kernel _ _ _ := Passive.tables rfl rfl
  ctl _ _ _ := Passive.tables rfl rfl
  report _ _ := Passive.tables rfl rfl

instance {R : Server → Server → Prop} [Recycling R] : Linking R where
  conn := Passive.desk
  id h := Passive.tables rfl (ids_setScb h)
  clear h := Recycling.clear _ h
  tree _ _ := Passive.tables rfl rfl
  spares _ _ _ _ := Passive.tables rfl rfl

section Passive

variable {R : Server → Server → Prop} [Passive R]

theorem modConn_passive {p : Ptr} {f : Connect → Connect} (h : ∀ c, (f c).desk = c.desk) :
    Does R (modConn p f) :=
  fun _ => wpe_modConn.mpr ⟨fun _ => trivial, fun c hc => Passive.desk hc (h c)⟩

theorem modScb_passive (k : ScbPtr) {f : SCB → SCB} (h : ∀ b, (f b).forwardId = b.forwardId) :
    Does R (modScb k f) := fun _ => Passive.tables rfl (ids_setScb (h _))

theorem modUser_passive (u : UserId) (f : User → User) : Does R (modUser u f) :=
  fun _ => wpe_modUser.mpr ⟨fun _ => trivial, fun _ _ => Passive.tables rfl rfl⟩

theorem emit_passive (o : Obs) : Does R (emit o) := fun _ => Passive.tables rfl rfl

theorem sockOpen_passive : Does R sockOpen := by
  intro s
  simp only [sockOpen, wlp, wpe_bind, wpe_get]
  rcases s.socks with _ | ⟨⟨fd, b⟩ | e, rest⟩
  · exact Passive.tables rfl rfl
  · simp only [wpe_ite]
    exact ⟨fun _ => Passive.tables rfl rfl, fun _ => Passive.tables rfl rfl⟩
  · exact Passive.tables rfl rfl

theorem retrieveUser_passive (u : UserId) : Does R (retrieveUser u) := by
  intro s
  simp only [retrieveUser, wlp, wpe_bind, wpe_get]
  cases s.userMap u with
  | some _ => exact refl_of R s
  | none => exact Passive.tables rfl rfl

theorem emitCutoff_passive (p t : Ptr) : Does R (emitCutoff p t) := .get_bind fun _ => emit_passive _

theorem chargeMsg_passive (p : Ptr) (n : ℕ) : Does R (chargeMsg p n) :=
  .bind (deref_does p) fun c => .bind (charge_does _) fun est => by
    split
    · exact .seq (recordTraffic_does _ _ _) <|
        .ite (.ret (.ite (emitCutoff_passive p p) (.pure _))) (.pure _)
    · exact .ret (.ite (modConn_passive fun _ => rfl) (.pure _))

theorem sendRelay_passive (dir : Dir) (t a : Ptr) (fd : ℕ) (bs : List UInt8) :
    Does R (sendRelay dir t a fd bs) := .bind (sockSend_does _ _) fun r => by
  cases r with
  | some n => exact .ret (emit_passive _)
  | none => exact .pure _

theorem forwardUp_passive (p : Ptr) (c : Connect) (k : ScbPtr) (a : Ptr) (length : ℕ) :
    Does R (forwardUp p c k a length) :=
  .seq (nonNull_does _) <| .seq (charge_does _) <| .seq (recordTraffic_does _ _ _) <|
    .ite (.ret (emitCutoff_passive p p))
      (.seq (deref_does a) <| .ret (sendRelay_passive _ _ _ _ _))

end Passive

/-! ### Logins -/

section Streams

variable {R : Server → Server → Prop} [Recycling R]

theorem recycleSCB_passive (k : ScbPtr) : Does R (recycleSCB k) := by
  intro s
  simp only [recycleSCB, wlp, wpe_modify]
  have hclear : R s (s.setScb k SCB.reset) := Recycling.clear k rfl
  refine trans_of R hclear ?_
  exact Passive.tables rfl rfl

theorem unlinkScb_passive (c : Connect) : Does R (unlinkScb c) := by
  unfold unlinkScb
  split
  · exact modScb_passive _ fun _ => rfl
  · exact modScb_passive _ fun _ => rfl
  · exact .pure _

theorem addWaitLists_passive (host : Host) (k : ScbPtr) : Does R (addWaitLists host k) :=
  .seq (getScb_does k) <| .seq (nonNull_does _) <| fun _ => Passive.tables rfl rfl

theorem dnsUpdate_passive (reps : List Rep) : Does R (dnsUpdate reps) := fun _ => Passive.tables rfl rfl

theorem awaitHost_passive (p : Ptr) (u : UserId) (host : Host) (port : ℕ) : Does R (awaitHost p u host port) :=
  .seq (deref_does p) <| .get_bind fun _ => .bind (createSCB_does u p none) fun k =>
    .seq (addWaitLists_passive host k) <| .seq (getScb_does k) <| emit_passive _

theorem resolveHost_passive (p : Ptr) (u : UserId) (host : Host) (port : ℕ) :
    Does R (resolveHost p u host port) :=
  .get_bind fun _ => .ite (.throw _) (.seq (awaitHost_passive p u host port) <|
    .bind getDnsConn_does fun d => sendMsg_does d _)

theorem requestToken_passive (p : Ptr) (r : LoginReq) : Does R (requestToken p r) :=
  .seq (deref_does p) <| .bind getCenterConn_does fun cn => .seq (emit_passive _) <|
    .ret (sendTmsMsg_does cn _)

theorem enterLogin_passive (p : Ptr) (r : LoginReq) : Does R (enterLogin p r) :=
  .seq (modConn_passive fun _ => rfl) <| .seq (refuseParams_does p r) <|
    .seq (requestToken_passive p r) <| .seq (retrieveUser_passive _) <|
    modConn_passive fun _ => rfl

theorem setVerified_passive (p q : Ptr) (cl : Connect) (k : ScbPtr) (r : ReadTokenRsp) :
    Does R (setVerified p q cl k r) :=
  .seq (deref_does p) <| .bind (nonNull_does _) fun u => .seq (modConn_passive fun _ => rfl) <|
    .seq (modScb_passive k fun _ => rfl) <| .seq (modUser_passive u _) <| emit_passive _

end Streams

/-! ### Connections that go and come -/

/-- A passive relation that allows connections to be closed. -/
class Closing (R : Server → Server → Prop) : Prop extends Recycling R where
  unregister : ∀ fd, Does R (removeEvent fd)
  close : ∀ fd, Does R (closeFd fd)
  erase : ∀ (s : Server) fd, R s (s.setMap fd none)
  delete : ∀ (s : Server) p, R s { s with conns := Function.update s.conns p none }
  pool : ∀ (s : Server) p, R s { s with centerConnPool := s.centerConnPool.erase p }

section Closing

variable {R : Server → Server → Prop} [Closing R]

theorem mapErase_closing (fd : ℕ) : Does R (mapErase fd) := fun s => Closing.erase s fd

theorem deleteConn_closing (p : Ptr) : Does R (deleteConn p) :=
  .bind (deref_does p) fun c =>
    .seq (.ite (.seq (Closing.unregister _) <| Closing.close _) (.pure _)) <|
    .seq (unlinkScb_passive c) <| fun s => Closing.delete s p

theorem dropPeer_closing (q : Option Ptr) : Does R (dropPeer q) := by
  cases q with
  | none => exact .pure _
  | some q => exact .seq (deref_does q) <| .seq (mapErase_closing _) <| deleteConn_closing q

theorem takeDownStream_closing (p : Ptr) (c : Connect) (u : UserId) (k : ScbPtr) :
    Does R (takeDownStream p c u k) := by
  refine .seq (reportOrAccumulate_does u k) <| .bind ?_ fun _ => .seq (recycleSCB_passive k) <|
    modConn_passive fun _ => rfl
  split
  · exact .seq (modScb_passive k fun _ => rfl) <| .seq (getScb_does k) <| dropPeer_closing _
  · exact .seq (modScb_passive k fun _ => rfl) <| .seq (getScb_does k) <| dropPeer_closing _

theorem beforeRemove_closing (p : Ptr) (c : Connect) : Does R (beforeRemove p c) := by
  unfold beforeRemove
  split
  · exact fun s => Closing.pool s p
  · exact takeDownStream_closing p c _ _
  · exact takeDownStream_closing p c _ _
  · exact .pure _

theorem removeConn_closing (fd : ℕ) : Does R (removeConn fd) := .get_bind fun s => by
  split
  · exact .pure _
  · next p _ =>
      exact .bind (deref_does p) fun c => .seq (beforeRemove_closing p c) <|
        .seq (deleteConn_closing p) <| mapErase_closing fd

theorem informShutdownUser_closing (fd : ℕ) : Does R (informShutdownUser fd) := .get_bind fun s => by
  split
  · exact .pure _
  · next p _ =>
      refine .bind (deref_does p) fun c => ?_
      split
      · exact .bind (nonNull_does _) fun k => .seq (reportOrAccumulate_does _ k) <|
          .seq (mapErase_closing fd) <| .seq (getScb_does k) <|
          .seq (dropPeer_closing _) <| .seq (modScb_passive k fun _ => rfl) <|
          .seq (modConn_passive fun _ => rfl) <| emit_passive _
      · exact .pure _

theorem rejectClient_closing (q : Ptr) (r : ReadTokenRsp) : Does R (rejectClient q r) :=
  .seq (sendTmsMsg_does q _) <| .seq (modConn_passive fun _ => rfl) <|
    .seq (deref_does q) <| removeConn_closing _

theorem acceptClient_closing (p q : Ptr) (cl : Connect) (r : ReadTokenRsp) : Does R (acceptClient p q cl r) := by
  unfold acceptClient
  split
  · exact .seq (modConn_passive fun _ => rfl) <| removeConn_closing _
  · next k _ =>
      exact .seq (setVerified_passive p q cl k r) <| .seq (getScb_does k) <|
        .seq (sendTmsMsg_does q _) <| synUserTuple_does q

theorem handleReadTokenRsp_closing (p : Ptr) : Does R (handleReadTokenRsp p) :=
  .bind (deref_does p) fun c => .get_bind fun s => by
    split
    · exact .pure _
    · next q _ =>
        exact .bind (deref_does q) fun cl => .ite (.ret (rejectClient_closing q _))
          (.ret (acceptClient_closing p q cl _))

theorem recvFailed_closing (e : Event) : Does R (recvFailed e) :=
  .get_bind fun _ => .ite (.pure _) (.ite (.seq (informShutdownUser_closing _) <|
    .seq (removeConn_closing _) <| Closing.close _) (removeConn_closing _))

end Closing

/-- A relation that also allows agents to be started. -/
class Opening (R : Server → Server → Prop) : Prop extends Closing R where
  connect : ∀ u t ip port, Does R (connectWebServer u t ip port)

section Opening

variable {R : Server → Server → Prop} [Opening R]

theorem informConnect_opening (u : UserId) (k : ScbPtr) (ip : ℕ) : Does R (informConnect u k ip) :=
  .bind (getScb_does k) fun b => by
    split
    · exact .pure _
    · refine .bind (Opening.connect _ _ _ _) fun r => ?_
      split
      · exact .pure _
      · exact sendDnsFail_does k

theorem informWaiter_opening (ip : ℕ) (w : Waiter) : Does R (informWaiter ip w) := .get_bind fun s => by
  split
  · exact .pure _
  · split
    · exact .pure _
    · exact .ite (informConnect_opening _ _ _) (sendDnsFail_does _)

theorem informWaiters_opening (ip : ℕ) (ws : List Waiter) : Does R (informWaiters ip ws) := by
  induction ws with
  | nil => exact .pure _
  | cons w ws ih => exact .seq (informWaiter_opening ip w) <| ih

theorem informAll_opening (reps : List Rep) : Does R (informAll reps) := by
  induction reps with
  | nil => exact .pure _
  | cons r rs ih =>
      exact .seq (.get_bind fun _ => .seq (informWaiters_opening _ _) <|
        .seq (fun _ => Passive.tables rfl rfl) <| emit_passive _) <| ih

theorem resParse_passive (b : Buff) : Does R (monadLift (resParse b) : TmsM (List Rep)) := by
  intro s
  show wlp (fun s => (resParse b).map (·, s)) _ s
  rw [wlp_iff]
  intro a s' h
  cases hr : resParse b with
  | error e => simp [hr, Except.map] at h
  | ok reps =>
      simp only [hr, Except.map, Except.ok.injEq, Prod.mk.injEq] at h
      exact h.2 ▸ refl_of R s

theorem dnsReply_opening (p : Ptr) (bs : List UInt8) : Does R (dnsReply p bs) :=
  .seq (modConn_passive fun _ => rfl) <| .seq (deref_does p) <|
    .bind (resParse_passive _) fun reps => .seq (dnsUpdate_passive reps) <| informAll_opening reps

theorem dnsRecvEvent_opening (p : Ptr) (rs : List ReadRes) : Does R (dnsRecvEvent p rs) := by
  induction rs with
  | nil => exact .seq (deref_does p) <| .ret (setErrno_does _)
  | cons r rs ih =>
      cases r with
      | fail e => exact .seq (deref_does p) <| .ret (setErrno_does _)
      | data bs =>
          exact .seq (deref_does p) <| .ite (.pure _) (.seq (dnsReply_opening p _) <| ih)

theorem openStream_opening (p : Ptr) (u : UserId) (host : Host) (port : ℕ) :
    Does R (openStream p u host port) :=
  .ite (.ret (Opening.connect _ _ _ _)) (.get_bind fun s => by
    split
    · exact .ret (Opening.connect _ _ _ _)
    · exact .ret (resolveHost_passive p u host port))

theorem handleLoginReq_opening (p : Ptr) : Does R (handleLoginReq p) :=
  .seq (deref_does p) <| .ite (.throw _) (.seq (enterLogin_passive p _) <|
    .seq (openStream_opening _ _ _ _) <| .ite (.ret (sendTmsMsg_does p _)) (.pure _))

end Opening

/-! ### Input -/

/-- A relation that allows all that the input part of an event does: it sees no field of a connection and no
registration, and connections may come and go. -/
class Receiving (R : Server → Server → Prop) : Prop extends Closing R, Unwatched R where
  conn : ∀ (s : Server) p c, R s (s.setConn p c)
  create : ∀ fd c, Does R (newConn fd c)

section Receiving

variable {R : Server → Server → Prop} [Receiving R]

theorem modConn_receiving (p : Ptr) (f : Connect → Connect) : Does R (modConn p f) :=
  fun _ => wpe_modConn.mpr ⟨fun _ => trivial, fun _ _ => Receiving.conn _ p _⟩

instance : Opening R where
  connect u t ip port := by
    have hagent : Does R createAgentConn := .bind sockOpen_passive fun r => by
      cases r with
      | none => exact .pure _
      | some fd => exact .get_bind fun _ => .ret (Receiving.create fd _)
    refine .bind hagent fun r => ?_
    cases r with
    | none => exact .ret (sendTmsMsg_does t _)
    | some a =>
        exact .seq (deref_does t) <| .get_bind fun _ => .seq (emit_passive _) <|
          .seq (attachAgent_does u t a port) <| .seq (deref_does a) <|
          .seq (addEvent_does _ _) <| .ret (sendTmsMsg_does t _)

theorem handleRecvMsg_receiving (p : Ptr) (msglen : ℕ) : Does R (handleRecvMsg p msglen) := by
  refine .bind (deref_does p) fun c => .seq (emit_passive _) <| .ite (.pure _) ?_
  split
  · exact handleLoginReq_opening p
  · refine .bind (deref_does p) fun d => ?_
    split
    · exact .pure _
    · next k _ =>
        exact .seq (getScb_does k) <| .ite (.ret (modConn_receiving p _)) (.pure _)
  · exact handleReadTokenRsp_closing p
  · exact handleTrafficReportRsp_does p
  · exact .pure _

theorem onForward_receiving (p : Ptr) (length : ℕ) : Does R (onForward p length) := by
  have hhang : ∀ wrote, Does R (hangUp p wrote length) := fun _ =>
    .seq (modConn_receiving p _) <| .seq (deref_does p) <| .seq (removeEvent_does _) <|
      .ite (.pure _) (.pure _)
  have hdown : ∀ c k t, Does R (forwardDown p c k t length) := fun c k t =>
    .seq (deref_does t) <| .bind (sendRelay_passive _ _ _ _ _) fun r => by
      cases r with
      | none => exact hhang 0
      | some wrote =>
          exact .seq (nonNull_does _) <| .seq (charge_does _) <|
            .seq (recordTraffic_does _ _ _) <| .ite (.ret (emitCutoff_passive p t))
            (.ite (hhang wrote) (.pure _))
  refine .bind (deref_does p) fun c => .bind (.get_bind fun _ => emit_passive _) fun _ => ?_
  split
  · exact .pure _
  · next k _ =>
      refine .bind (getScb_does k) fun b => ?_
      split
      · next t a _ _ =>
          split
          · exact hdown c k t
          · exact forwardUp_passive p c k a length
          · exact .pure _
      · exact .ret (nonNull_does _)

theorem streamRecvEvent_receiving (p : Ptr) (reads : List ReadRes) : Does R (streamRecvEvent p reads) := by
  have hput : ∀ d s, R s ((endpoint p).put d s) := by
    intro d s
    simp only [endpoint]
    cases s.conns p with
    | some c => exact Receiving.conn s p _
    | none => exact refl_of R s
  have hmsg : ∀ n, Does R (onMsg p n) := fun n =>
    .seq (deref_does p) <| .seq (handleRecvMsg_receiving p _) <| chargeMsg_passive p n
  have hloop : Does R (recvLoop (endpoint p) reads) :=
    .recvLoop hput (fun _ _ => Passive.tables rfl rfl) (fun _ s => refl_of R s) hmsg (onForward_receiving p) reads
  intro s
  rw [streamRecvEvent, wlp, wpe_bind, wpe_mapFault]
  exact hloop s

theorem handleRecvEvent_receiving (fd : ℕ) (reads : List ReadRes) : Does R (handleRecvEvent fd reads) :=
  .get_bind fun s => by
    split
    · exact .pure _
    · next p _ =>
        have hrecv : Does R (recvEvent p reads) :=
          .seq (deref_does p) <| .ite (dnsRecvEvent_opening p _) (streamRecvEvent_receiving p _)
        exact .seq hrecv <| .ite (.pure _) (.seq (deref_does p) <| .ite (.ret (removeConn_closing _)) (.pure _))

theorem inputEvent_receiving (e : Event) : Does R (inputEvent e) :=
  .seq (handleRecvEvent_receiving _ _) <| .ite (.pure _) (.ite (.ret (recvFailed_closing e))
    (.ite (.get_bind fun _ => .ite (.ret (removeConn_closing _)) (.pure _)) (.pure _)))

end Receiving

end HttpsTunnel.Tms

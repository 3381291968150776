import Mathlib
import HttpsTunnel.Tms.Leftover

/-! # A connection object that is used again

`HandleAcceptEvent` takes the object it finds in the table for the new descriptor, and `Reset` is to make it like
new.  It leaves the offset in the buffer, the flag `exit`, the traffic before the login and the token (two of its
assignments go to local variables).  What it leaves besides these has no influence (`Leftover`), unless a block of
the streams still names the object. -/

namespace HttpsTunnel.Tms

open HttpsTunnel.Lib HttpsTunnel.Wire

/-- What can be seen of the server from outside: everything but the fields of connections, with messages and
forwarded bytes noted without the fields that a login brings. -/
def Server.observed (s : Server) : Server := { s with conns := fun _ => none, log := s.log.map Obs.bare }

/-- No block names `p`. -/
def Server.Unnamed (s : Server) (p : Ptr) : Prop :=
  ∀ k, (s.scbs k).tunnelConn ≠ some p ∧ (s.scbs k).agentConn ≠ some p

/-- `Reset` and the assignments of `HandleAcceptEvent` make of `c`, the object `p` of the server `s`, what they make
of a new object (with the same contents of its buffer, which a new object does not initialise): whatever the
descriptor and whatever the events, the server ends in the same way. -/
def Connect.LikeNew (c : Connect) (s : Server) (p : Ptr) : Prop :=
  ∀ (fd : ℕ) (events : List Event),
    (runAll handleEvent events (s.setConn p (c.reset.accepted fd s.now))).map (·.2.observed) =
      (runAll handleEvent events (s.setConn p ((Connect.fresh c.dec.buff).accepted fd s.now))).map (·.2.observed)

/-- What `Reset` leaves that has an influence is as in a new object. -/
structure Connect.Clean (c : Connect) : Prop where
  offset : c.dec.offset = 0
  exit : c.exit = false
  trafficTmp : c.trafficTmp = 0
  token : cstr c.token = []

theorem Near.observed {p : Ptr} {l : Bool} {s s' : Server} (h : Near p l s s') : s.observed = s'.observed :=
  congrArg (fun t : Server => { t with conns := fun _ => none }) h.view

theorem observed_eq_of_ends {p : Ptr} {r r' : Except Fault (Unit × Server)} (h : Ends (Close p) r r') :
    r.map (·.2.observed) = r'.map (·.2.observed) := by
  cases h with
  | error e => rfl
  | ok a h =>
      obtain ⟨l, hs⟩ := h
      exact congrArg Except.ok hs.observed

theorem handleEvents_close {p : Ptr} (events : List Event) :
    Sim (Close p) (runAll handleEvent events) (runAll handleEvent events) := by
  induction events with
  | nil => exact .pure _
  | cons e events ih => exact .bind (handleEvent_close e) fun _ => ih

/-- Two tunnels without user and stream that agree in what counts are treated the same way. -/
theorem runs_agree {s : Server} {p : Ptr} (hold : p < s.nextConn) (hp : s.Unnamed p) {c c' : Connect}
    (hplain : c.Plain false) (hb : c.blank false = c'.blank false) (events : List Event) :
    (runAll handleEvent events (s.setConn p c)).map (·.2.observed) =
      (runAll handleEvent events (s.setConn p c')).map (·.2.observed) := by
  have hlone : (s.setConn p c).Lone p false := by
    refine ⟨hold, fun k => ⟨(hp k).2, fun _ => (hp k).1⟩, fun d hd => ?_⟩
    obtain rfl : c = d := by simpa [Server.setConn] using hd
    exact hplain
  have hview : (s.setConn p c).blank p false = (s.setConn p c').blank p false := by
    simp [Server.blank, Server.setConn, hb]
  exact observed_eq_of_ends (handleEvents_close events _ _ ⟨false, hlone, hview⟩)

theorem Connect.Clean.likeNew {c : Connect} (h : c.Clean) {s : Server} {p : Ptr} (hold : p < s.nextConn)
    (hp : s.Unnamed p) : c.LikeNew s p := by
  intro fd events
  refine runs_agree hold hp ⟨rfl, fun _ => ⟨rfl, rfl⟩⟩ ?_ events
  simp only [Connect.blank, Connect.reset, Connect.accepted, Connect.fresh, Decoder.blank, h.offset, h.exit,
    h.trafficTmp, h.token]
  rfl

/-! ### A client that is given a used object -/

/-- A server with a client on descriptor 10, whose object is `c`. -/
def hosting (c : Connect) : Server :=
  let s := Server.init false 0 0 fun _ => 0
  { s.setConn 3 c with
    nextConn := 4
    connMap := Function.update s.connMap 10 (some 3)
    openFds := 10 :: s.openFds
    epoll := Function.update s.epoll 10 (some ⟨true, true, true⟩) }

theorem hosting_setConn (c d : Connect) : (hosting c).setConn 3 d = hosting d := by
  simp [hosting, Server.setConn]

/-- A new object on descriptor 10 but for what `Reset` leaves. -/
def Connect.kept (buff : Buff) (offset : ℕ) (exit : Bool) (token : List UInt8) (traffic : ℕ) : Connect :=
  { (Connect.fresh buff).accepted 10 ⟨0, 0⟩ with
    exit := exit
    token := token
    trafficTmp := traffic
    dec := ⟨.header, 0, hdrSize, offset, buff⟩ }

theorem hosting_unnamed (c : Connect) : (hosting c).Unnamed 3 :=
  fun _ => ⟨(Option.some_ne_none 3).symm, (Option.some_ne_none 3).symm⟩

theorem hosting_old (c : Connect) : 3 < (hosting c).nextConn := show 3 < 4 by decide

/-- The object is like new where it has no past but its own fields. -/
abbrev Connect.LikeNewAlone (c : Connect) : Prop := c.LikeNew (hosting c) 3

theorem Connect.LikeNewAlone.kept {c : Connect} (h : c.LikeNewAlone) (events : List Event) :
    (runAll handleEvent events (hosting (.kept c.dec.buff c.dec.offset c.exit c.token c.trafficTmp))).map
        (·.2.observed) =
      (runAll handleEvent events (hosting ((Connect.fresh c.dec.buff).accepted 10 ⟨0, 0⟩))).map (·.2.observed) := by
  let s := hosting c
  have hnew := h 10 events
  rw [hosting_setConn, hosting_setConn] at hnew
  refine Eq.trans ?_ hnew
  rw [← hosting_setConn c, ← hosting_setConn c (c.reset.accepted 10 s.now)]
  have hplain : (Connect.kept c.dec.buff c.dec.offset c.exit c.token c.trafficTmp).Plain false :=
    ⟨rfl, fun _ => ⟨rfl, rfl⟩⟩
  have hblank : (Connect.kept c.dec.buff c.dec.offset c.exit c.token c.trafficTmp).blank false =
      (c.reset.accepted 10 s.now).blank false := rfl
  exact runs_agree (hosting_old c) (hosting_unnamed c) hplain hblank events

/-- What the loop does for the client on descriptor 10 after the read loop returned `ret`. -/
def afterRead (e : Event) (ret : ℤ) : TmsM Unit := do
  let ret ← (if ret = -1 then pure ret
    else do
      let c ← deref 3
      if c.exit then
        removeConn c.sockFd
        pure ret
      else pure ret)
  let goes ← (if ret = -2 then pure false
    else if ret = -1 then do
      recvFailed e
      pure false
    else if ret = 0 then do
      if (← get).err ≠ EINTR then
        removeConn e.fd
        pure false
      else pure true
    else pure true)
  if goes then outputPart e else pure ()

theorem handleEvent_read {c : Connect} (ht : c.type = .tunnel) (bs : List UInt8) :
    handleEvent (.arrives 10 bs) (hosting c) =
      (streamRecvEvent 3 [.data bs] >>= afterRead (.arrives 10 bs)) (hosting c) := by
  have hevent : recvEvent 3 [.data bs] (hosting c) = streamRecvEvent 3 [.data bs] (hosting c) := by
    have hdns : ¬c.type = .dns := ht ▸ by decide
    rw [recvEvent, run_bind, deref_eq (c := c) rfl]
    simp only [hdns, if_false]
  have hfd : (hosting c).connMap (Event.arrives 10 bs).fd = some 3 := rfl
  have hloop : handleEvent (.arrives 10 bs) (hosting c) =
      (recvEvent 3 [.data bs] >>= afterRead (.arrives 10 bs)) (hosting c) := by
    show (inputEvent (.arrives 10 bs) >>= fun goes =>
      if goes then outputPart (.arrives 10 bs) else pure ()) (hosting c) = _
    rw [inputEvent, handleRecvEvent]
    simp only [bind_assoc]
    rw [run_get_bind]
    simp only [hfd, bind_assoc]
    rfl
  rw [hloop, run_bind, run_bind, hevent]

/-- The client is still there after the event. -/
def Connect.Stays (c : Connect) (e : Event) : Prop :=
  ((handleEvent e (hosting c)).toOption.bind fun r => r.2.connMap 10) = some 3

theorem streamRecvEvent_ok {p : Ptr} {reads : List ReadRes} {s s' : Server} {r : Ret}
    (h : recvLoop (endpoint p) reads s = .ok (r, s')) : streamRecvEvent p reads s = .ok (r.code, s') := by
  rw [streamRecvEvent, run_bind, mapFault, h]
  rfl

theorem streamRecvEvent_error {p : Ptr} {reads : List ReadRes} {s : Server} {e : LoopFault Fault}
    (h : recvLoop (endpoint p) reads s = .error e) : streamRecvEvent p reads s = .error (.ofLoop e) := by
  rw [streamRecvEvent, run_bind, mapFault, h]
  rfl

section

variable (buff : Buff) (offset : ℕ) (exit : Bool) (token : List UInt8) (traffic : ℕ)

/-- The six bytes that come first are taken for the rest of a header that begins with the bytes before the offset. -/
theorem Connect.kept_stays {bs : List UInt8} (hbs : bs.length = hdrSize) :
    (Connect.kept buff offset exit token traffic).Stays (.arrives 10 bs) ↔
      offset + hdrSize ≤ buffSize ∧ hdrFormat.valid ((buff.store offset bs).slice 0 hdrSize) ∧
        hdrFormat.bodyLen ((buff.store offset bs).slice 0 hdrSize) ≠ 0 := by
  have hne : bs ≠ [] := List.ne_nil_of_length_pos (hbs ▸ by decide)
  have hview : (endpoint 3).view (hosting (.kept buff offset exit token traffic)) =
      some ⟨.header, 0, hdrSize, offset, buff⟩ := rfl
  have hgone : (none : Option Ptr) ≠ some 3 := (Option.some_ne_none 3).symm
  rw [Connect.Stays, handleEvent_read rfl, run_bind]
  by_cases hfit : offset + hdrSize ≤ buffSize
  · have hloop := recvLoop_header hview rfl hbs hne (fun _ => rfl) (hbs ▸ hfit)
    cases hvalid : hdrFormat.valid ((buff.store offset bs).slice 0 hdrSize) with
    | false =>
        rw [streamRecvEvent_ok (hloop.trans (if_pos hvalid))]
        simp only [Bool.false_eq_true, false_and, and_false, iff_false]
        exact hgone
    | true =>
        have hloop := hloop.trans (if_neg fun h => Bool.noConfusion (hvalid.symm.trans h))
        by_cases hlen : hdrFormat.bodyLen ((buff.store offset bs).slice 0 hdrSize) = 0
        · rw [streamRecvEvent_ok (hloop.trans (if_pos hlen))]
          simp only [hlen, ne_eq, not_true_eq_false, and_false, iff_false]
          cases exit <;> exact hgone
        · rw [streamRecvEvent_ok (hloop.trans (if_neg hlen))]
          exact iff_of_true rfl ⟨hfit, rfl, hlen⟩
  · have hloop := recvLoop_segment hview hne hbs.le
    have hover : buffSize < offset + bs.length := hbs ▸ Nat.lt_of_not_le hfit
    rw [streamRecvEvent_error (hloop.trans (if_pos hover))]
    exact iff_of_false hgone fun h => hfit h.1

end

/-- What is seen of a run of the events on a new object is seen on a used one that is like new. -/
theorem Connect.LikeNewAlone.sees {c : Connect} (h : c.LikeNewAlone) (events : List Event) {α : Type}
    (f : Server → Option α) :
    ((runAll handleEvent events (hosting (.kept c.dec.buff c.dec.offset c.exit c.token c.trafficTmp))).toOption.bind
        fun r => f r.2.observed) =
      ((runAll handleEvent events (hosting ((Connect.fresh c.dec.buff).accepted 10 ⟨0, 0⟩))).toOption.bind
        fun r => f r.2.observed) := by
  have hmap (r : Except Fault (Unit × Server)) :
      (r.map (·.2.observed)).toOption.bind f = r.toOption.bind fun r => f r.2.observed := by cases r <;> rfl
  rw [← hmap, h.kept events, hmap]

theorem Connect.LikeNewAlone.stays {c : Connect} (h : c.LikeNewAlone) (e : Event) :
    (Connect.kept c.dec.buff c.dec.offset c.exit c.token c.trafficTmp).Stays e ↔
      ((Connect.fresh c.dec.buff).accepted 10 ⟨0, 0⟩).Stays e := by
  have hone (s : Server) : runAll handleEvent [e] s = handleEvent e s := by
    rw [runAll, run_bind]
    cases handleEvent e s <;> rfl
  have hsees := h.sees [e] fun s => s.connMap 10
  rw [hone, hone] at hsees
  exact Eq.congr_left hsees

/-! ### The offset -/

/-- The bytes are the header of a message that is not empty. -/
def Announces (bs : List UInt8) : Prop := hdrFormat.valid bs ∧ hdrFormat.bodyLen bs ≠ 0

/-- Six bytes that are no header. -/
def noHeader : List UInt8 := List.replicate 6 1

/-- At an offset that is not 0 the bytes read do not decide whether there is a header. -/
theorem offset_eq_zero {buff : Buff} {offset : ℕ} (hh : Announces ((buff.store offset (hdr 5)).slice 0 hdrSize))
    (hn : ¬Announces ((buff.store offset noHeader).slice 0 hdrSize)) : offset = 0 := by
  rcases offset with _ | _ | _ | _ | n
  · rfl
  -- offset 1 moves the second delimiter; from 2 on both are those of the buffer, and the length is never 0
  all_goals
    simp [Announces, hdrFormat, Buff.slice, Buff.store, hdr, noHeader, hdrSize, List.range, List.range.loop,
      VALIDATER0, VALIDATER1] at hh hn
  · have hzero := hn hh.1.1 hh.1.2
    simp [ofBE16] at hzero
  · have hzero := hn hh.1.1 hh.1.2
    simp [ofBE16] at hzero
  · exact absurd (hn hh.1.1 hh.1.2) hh.2

theorem Connect.LikeNewAlone.offset_eq {c : Connect} (h : c.LikeNewAlone) : c.dec.offset = 0 := by
  have hnew {bs : List UInt8} (hbs : bs.length = hdrSize) :=
    (h.stays (.arrives 10 bs)).symm.trans (kept_stays _ _ _ _ _ hbs)
  have hh := (hnew (hdr_length 5)).mp rfl
  have hn : ¬((Connect.fresh c.dec.buff).accepted 10 ⟨0, 0⟩).Stays (.arrives 10 noHeader) :=
    (Option.some_ne_none 3).symm
  have hlen : noHeader.length = hdrSize := rfl
  exact offset_eq_zero hh.2 fun h => hn ((hnew hlen).mpr ⟨hh.1, h⟩)

/-! ### The other fields -/

section

variable (buff : Buff) (token : List UInt8) (traffic : ℕ)

/-- A client whose object is marked is closed after its first byte. -/
theorem Connect.kept_exit : ¬(Connect.kept buff 0 true token traffic).Stays (.arrives 10 [0]) :=
  (Option.some_ne_none 3).symm

/-- The center accepts the empty token for the client on descriptor 10. -/
def emptyToken : Event := .arrives 6 (frame (ReadTokenRsp.bytes ⟨0, 10, 1, 2, 1000000, List.replicate 32 0⟩))

/-- A client that has not logged in is closed without a word, unless its object has a token: then the answer is for
another token and the client is told so. -/
theorem Connect.kept_token {x : UInt8} (hx : x ≠ 0) :
    ((runAll handleEvent [emptyToken] (hosting (.kept buff 0 false (x :: token) traffic))).toOption.bind
      fun r => some r.2.observed.log.length) = some 2 := by
  have hx' : decide (x = 0 → False) = true := decide_eq_true hx
  -- the run is computed as far as the comparison of the tokens, then to its end
  cbv
  simp only [hx', reduceCtorEq, imp_self, dite_true]
  cbv

/-- A login with a cached host, and the center's answer. -/
def loginEvents : List Event :=
  [{ Event.arrives 10 sampleLogin with socks := [.opened 11 true] },
   .arrives 6 (frame (ReadTokenRsp.bytes ⟨0, 10, 1, 2, 1000000, 65 :: List.replicate 31 0⟩))]

/-- The traffic in the object is charged to the stream of the client that logs in. -/
theorem Connect.kept_traffic :
    ((runAll handleEvent loginEvents (hosting (.kept buff 0 false token traffic))).toOption.bind
      fun r => some (r.2.observed.scbs 0).traffic) =
        some (((40 + (traffic + 69) % 2 ^ 64) % 2 ^ 64 + 26) % 2 ^ 64) := by
  cbv

end

theorem Connect.fresh_eq_kept (buff : Buff) :
    (Connect.fresh buff).accepted 10 ⟨0, 0⟩ = .kept buff 0 false (List.replicate 32 0) 0 := rfl

theorem Connect.LikeNewAlone.exit_eq {c : Connect} (h : c.LikeNewAlone) : c.exit = false := by
  have hstays := h.stays (.arrives 10 [0])
  rw [h.offset_eq] at hstays
  cases hexit : c.exit with
  | false => rfl
  | true =>
      rw [hexit] at hstays
      exact absurd (hstays.mpr rfl) (kept_exit _ _ _)

theorem Connect.LikeNewAlone.token_eq {c : Connect} (h : c.LikeNewAlone) : cstr c.token = [] := by
  have hsees := h.sees [emptyToken] fun s => some s.log.length
  rw [h.offset_eq, h.exit_eq] at hsees
  have hnew : ((runAll handleEvent [emptyToken]
      (hosting ((Connect.fresh c.dec.buff).accepted 10 ⟨0, 0⟩))).toOption.bind
        fun r => some r.2.observed.log.length) = some 1 := by cbv
  cases htoken : c.token with
  | nil => rfl
  | cons x token =>
      by_cases hx : x = 0
      · simp [cstr, hx]
      · rw [htoken, kept_token _ _ _ hx, hnew] at hsees
        exact absurd hsees (by decide)

theorem Connect.LikeNewAlone.traffic_eq {c : Connect} (h : c.LikeNewAlone) (h64 : c.trafficTmp < 2 ^ 64) :
    c.trafficTmp = 0 := by
  have hsees := h.sees loginEvents fun s => some (s.scbs 0).traffic
  rw [h.offset_eq, h.exit_eq, fresh_eq_kept, kept_traffic, kept_traffic] at hsees
  have := Option.some.inj hsees
  omega

/-- **Reuse of a connection object.**  `Reset` and the assignments of `HandleAcceptEvent` make an object that no block
names behave like a new one, in every server and on every sequence of events, exactly if the fields that `Reset` leaves
and that have an influence are those of a new object: the offset in the buffer, `exit`, the traffic before the login
and the token. -/
theorem reused_like_new (c : Connect) (h64 : c.trafficTmp < 2 ^ 64) :
    (∀ s p, p < s.nextConn → s.Unnamed p → c.LikeNew s p) ↔ c.Clean := by
  constructor
  · intro h
    have halone : c.LikeNewAlone := h (hosting c) 3 (hosting_old c) (hosting_unnamed c)
    exact ⟨halone.offset_eq, halone.exit_eq, halone.traffic_eq h64, halone.token_eq⟩
  · exact fun h s p hold hp => h.likeNew hold hp

/-- The object of a client that was logged in and forwarding, with data pending. -/
def forwarded : Connect :=
  { Connect.fresh (fun _ => 7) with
    sockFd := 12, status := .hangup, sdkVerified := true, agentStatus := true, app := 1, mobile := 2, destPort := 80
    user := some ⟨2, 1⟩, scb := some 4, datalen := 9, dec := ⟨.forward, 61, buffSize, 0, fun _ => 7⟩ }

theorem reused_like_new_forwarded : forwarded.trafficTmp < 2 ^ 64 ∧ (hosting forwarded).Unnamed 3 ∧
    forwarded.LikeNew (hosting forwarded) 3 :=
  ⟨by decide, hosting_unnamed _, (reused_like_new forwarded (by decide)).mpr ⟨rfl, rfl, rfl, by decide⟩ _ _
    (hosting_old _) (hosting_unnamed _)⟩

/-- The object of a client that was closed after two bytes of a header. -/
def halfRead : Connect :=
  { Connect.fresh (fun _ => 0) with sockFd := 10, dec := ⟨.header, 0, 4, 2, Buff.store (fun _ => 0) 0 [0x86, 0x68]⟩ }

/-- The object is given to a client that logs in: its header is read behind the two bytes that are left, so that its
delimiters become the length of a message, and no stream is opened.  With a new object there is one. -/
theorem halfRead_not_like_new : (hosting halfRead).Unnamed 3 ∧ ¬halfRead.LikeNew (hosting halfRead) 3 ∧
    (runAll handleEvent loginEvents (hosting (halfRead.reset.accepted 10 ⟨0, 0⟩))).toOption.map (·.2.nextScb) =
      some 0 ∧
    (runAll handleEvent loginEvents (hosting ((Connect.fresh halfRead.dec.buff).accepted 10 ⟨0, 0⟩))).toOption.map
      (·.2.nextScb) = some 1 :=
  ⟨hosting_unnamed _, fun h => absurd (Connect.LikeNewAlone.offset_eq h) (by decide), by decide +kernel,
    by decide +kernel⟩

end HttpsTunnel.Tms

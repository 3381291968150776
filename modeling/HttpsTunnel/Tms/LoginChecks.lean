import HttpsTunnel.Tms.Passive

/-! # The checks of a login request

Two checks `HandleRecvMsg` makes on a LOGIN_REQ, and what they are worth.

`IpOrHost` is to tell addresses from names.  Its test for characters that are not digits can never
succeed, so every name with three dots passes for an address (`address_classified_iff`).

A request without mobile or host is answered with PARAMET_ERR, but the handler does not return then.
It goes on to ask for the token, to look up the user and to open a stream, and leaves no trace only
if the center refuses the request, the user is known, the address is known and no socket can be
created (`rejected_login_iff`). -/

namespace HttpsTunnel.Tms

open HttpsTunnel.Lib HttpsTunnel.Wire

/-! ### Addresses and names -/

/-- A `char` as a number. -/
def charVal (c : UInt8) : ℤ := if c.toNat < 128 then c.toNat else c.toNat - 256

/-- The loop of `IpOrHost`: the dots seen, none if it returns. -/
def countPoints : Host → ℕ → Option ℕ
  | [], n => some n
  | c :: cs, n =>
      if c = dot then countPoints cs (n + 1)
      else if charVal c < charVal 48 ∧ charVal c > charVal 57 then none
      else countPoints cs n

/-- `IpOrHost` as it is written. -/
def ipOrHostLoop (host : Host) : ℤ :=
  match countPoints host 0 with
  | none => -1
  | some n => if n = 3 then 0 else -1

theorem countPoints_eq (host : Host) (n : ℕ) : countPoints host n = some (n + host.count dot) := by
  induction host generalizing n with
  | nil => rfl
  | cons c cs ih =>
      -- no character is below `0` and above `9`
      have hnone : ¬ (charVal c < charVal 48 ∧ charVal c > charVal 57) := by
        rintro ⟨h, h'⟩
        have h48 : charVal 48 = 48 := by decide
        have h57 : charVal 57 = 57 := by decide
        omega
      rw [countPoints, if_neg hnone, ih, ih]
      by_cases hc : c = dot
      · rw [if_pos hc, hc, List.count_cons_self]
        congr 1
        omega
      · rw [if_neg hc, List.count_cons_of_ne hc]

theorem ipOrHostLoop_eq (host : Host) : ipOrHostLoop host = ipOrHost host := by
  rw [ipOrHostLoop, countPoints_eq, ipOrHost, Nat.zero_add]

/-- A digit or a dot. -/
def isDigitOrDot (c : UInt8) : Bool := c = dot || 48 ≤ c && c ≤ 57

/-- Digits and exactly three dots: what the check is meant for. -/
def Dotted (host : Host) : Prop := host.all isDigitOrDot = true ∧ host.count dot = 3

instance (host : Host) : Decidable (Dotted host) := inferInstanceAs (Decidable (_ ∧ _))

/-- The branch of LOGIN_REQ for names. -/
def openByName (p : Ptr) (u : UserId) (host : Host) (port : ℕ) : TmsM Bool := do
  match (← get).cache host with
  | some ip => return (← connectWebServer u p ip port).isSome
  | none =>
      resolveHost p u host port
      pure true

theorem openStream_eq (p : Ptr) (u : UserId) (host : Host) (port : ℕ) :
    openStream p u host port =
      if ipOrHost host = 0 then do return (← connectWebServer u p (inetAddr host) port).isSome
      else openByName p u host port := rfl

/-- **Addresses and names are told apart** exactly if a host with three dots has only digits besides:
`IpOrHost` returns 0 for a dotted address and for nothing else, and a login resolves everything else by
name. -/
theorem address_classified_iff (host : Host) :
    ((ipOrHostLoop host = 0 ↔ Dotted host) ∧
      (¬ Dotted host → ∀ p u port, openStream p u host port = openByName p u host port)) ↔
    (host.all isDigitOrDot = true ∨ host.count dot ≠ 3) := by
  rw [ipOrHostLoop_eq]
  have hip : ipOrHost host = 0 ↔ host.count dot = 3 := by
    rw [ipOrHost]
    split_ifs with h <;> simp [h]
  constructor
  · rintro ⟨h, -⟩
    by_cases h3 : host.count dot = 3
    · exact .inl (h.mp (hip.mpr h3)).1
    · exact .inr h3
  · intro hcond
    have hiff : ipOrHost host = 0 ↔ Dotted host := by
      rw [hip, Dotted]
      exact ⟨fun h3 => ⟨hcond.resolve_right (not_not.mpr h3), h3⟩, And.right⟩
    refine ⟨hiff, fun hd p u port => ?_⟩
    rw [openStream_eq, if_neg fun h => hd (hiff.mp h)]

/-- **A name with three dots.**  It is taken for an address, and the address it is taken for is the
broadcast address. -/
theorem name_taken_for_address :
    ipOrHostLoop "www.news.co.uk".toUTF8.toList = 0 ∧ ¬ Dotted "www.news.co.uk".toUTF8.toList ∧
      inetAddr "www.news.co.uk".toUTF8.toList = 0xffffffff := by
  decide +kernel

/-! ### What a login can add -/

/-- The bytes the socket of `q` accepted with an entry. -/
def Obs.sentTo (q : Ptr) : Obs → List UInt8
  | .ctl p bs => if p = q then bs else []
  | _ => []

/-- The bytes of the server's own that the socket of `q` has accepted. -/
def Server.sentTo (s : Server) (q : Ptr) : List UInt8 := s.log.flatMap (Obs.sentTo q)

theorem sentTo_emit (s : Server) (o : Obs) (q : Ptr) : (s.emit o).sentTo q = s.sentTo q ++ o.sentTo q := by
  simp [Server.sentTo, Server.emit]

/-- What is counted of a state. -/
structure Tally where
  userMap : UserId → Option User
  nextConn : Ptr
  waitingScb : List Waiter
  log : List Obs

def Server.tally (s : Server) : Tally := ⟨s.userMap, s.nextConn, s.waitingScb, s.log⟩

/-- Users, connections, waiters and bytes sent only become more. -/
structure Adds (s s' : Server) : Prop where
  users : ∀ u, (s.userMap u).isSome → (s'.userMap u).isSome
  conns : s.nextConn ≤ s'.nextConn
  waiters : s.waitingScb.length ≤ s'.waitingScb.length
  sent : ∀ q, s.sentTo q <+: s'.sentTo q

theorem Adds.of_tally {s s' : Server} (h : s'.tally = s.tally) : Adds s s' := by
  have hu : s'.userMap = s.userMap := congrArg Tally.userMap h
  have hc : s'.nextConn = s.nextConn := congrArg Tally.nextConn h
  have hw : s'.waitingScb = s.waitingScb := congrArg Tally.waitingScb h
  have hl : s'.log = s.log := congrArg Tally.log h
  exact ⟨fun u => hu ▸ id, hc.ge, (congrArg List.length hw).ge, fun q => by
    rw [Server.sentTo, Server.sentTo, hl]⟩

instance : Std.Refl Adds := ⟨fun _ => .of_tally rfl⟩

instance : IsTrans Server Adds := ⟨fun _ _ _ h h' => ⟨fun u hu => h'.users u (h.users u hu),
  h.conns.trans h'.conns, h.waiters.trans h'.waiters, fun q => (h.sent q).trans (h'.sent q)⟩⟩

theorem adds_setUser {s : Server} (u : UserId) (v : User) : Adds s (s.setUser u v) := by
  refine ⟨fun x hx => ?_, le_rfl, le_rfl, fun _ => List.prefix_rfl⟩
  by_cases h : x = u
  · simp [Server.setUser, h]
  · simpa [Server.setUser, h] using hx

theorem adds_emit (s : Server) (o : Obs) : Adds s (s.emit o) :=
  ⟨fun _ => id, le_rfl, le_rfl, fun q => sentTo_emit s o q ▸ List.prefix_append ..⟩

instance : Sending Adds where
  traffic _ _ _ := .of_tally rfl
  user _ _ := adds_setUser _ _
  sent s _ _ := adds_emit s _
  exit _ := .of_tally rfl
  kernel _ _ _ := .of_tally rfl
  ctl s _ _ := adds_emit s _
  report s _ := adds_emit s _

instance : Linking Adds where
  conn _ _ := .of_tally rfl
  id _ := .of_tally rfl
  clear _ := .of_tally rfl
  tree _ v' := adds_setUser _ v'
  spares _ _ _ _ := .of_tally rfl

theorem emit_adds (o : Obs) : Does Adds (emit o) := fun s => adds_emit s o

instance : Unwatched Adds := ⟨fun _ _ _ => .of_tally rfl⟩

/-! ### What stays as it is -/

/-- The SCB pool, the connection table and the waiting streams. -/
structure Stores where
  nextScb : ScbPtr
  scbFreeList : List ScbPtr
  avalPcbId : ℕ
  connMap : ℕ → Option Ptr
  nextConn : Ptr
  waitingScb : List Waiter

def Server.stores (s : Server) : Stores :=
  ⟨s.nextScb, s.scbFreeList, s.avalPcbId, s.connMap, s.nextConn, s.waitingScb⟩

/-- The stores and what a login looks at besides. -/
structure Setting where
  stores : Stores
  centerConnPool : List Ptr
  openFds : List ℕ
  shutFds : List ℕ
  cache : Host → Option ℕ
  socks : List SockRes

def Server.setting (s : Server) : Setting :=
  ⟨s.stores, s.centerConnPool, s.openFds, s.shutFds, s.cache, s.socks⟩

/-- Nothing changes apart from the connection `p`, what is sent to it and what is charged. -/
structure Apart (p : Ptr) (s s' : Server) : Prop where
  setting : s'.setting = s.setting
  users : ∀ u, (s'.userMap u).isSome = (s.userMap u).isSome
  conns : ∀ q ≠ p, s'.conns q = s.conns q
  sent : ∀ q ≠ p, s'.sentTo q = s.sentTo q

/-- Nor is anything sent. -/
structure Still (p : Ptr) (s s' : Server) : Prop extends Apart p s s' where
  sends : s'.sends = s.sends
  self : s'.sentTo p = s.sentTo p

instance (p : Ptr) : Std.Refl (Apart p) := ⟨fun _ => ⟨rfl, fun _ => rfl, fun _ _ => rfl, fun _ _ => rfl⟩⟩

instance (p : Ptr) : IsTrans Server (Apart p) := ⟨fun _ _ _ h h' => ⟨h'.setting.trans h.setting,
  fun u => (h'.users u).trans (h.users u), fun q hq => (h'.conns q hq).trans (h.conns q hq),
  fun q hq => (h'.sent q hq).trans (h.sent q hq)⟩⟩

instance (p : Ptr) : Std.Refl (Still p) := ⟨fun s => ⟨refl_of (Apart p) s, rfl, rfl⟩⟩

instance (p : Ptr) : IsTrans Server (Still p) := ⟨fun _ _ _ h h' =>
  ⟨trans_of (Apart p) h.toApart h'.toApart, h'.sends.trans h.sends, h'.self.trans h.self⟩⟩

/-- Bytes written to `fd` can be accepted. -/
def Server.usable (s : Server) (fd : ℕ) : Prop := fd ∈ s.openFds ∧ fd ∉ s.shutFds

instance (s : Server) (fd : ℕ) : Decidable (s.usable fd) := inferInstanceAs (Decidable (_ ∧ _))

/-- How many sends the environment decides when `fd` is written. -/
def Server.uses (s : Server) (fd : ℕ) : ℕ := if s.usable fd then 1 else 0

/-- How many of `n` bytes written to `fd` are accepted, after `k` other sends. -/
def Server.takes (s : Server) (fd n k : ℕ) : ℕ :=
  if s.usable fd then
    match s.sends[k]? with
    | none => n
    | some (.sent m) => min m n
    | some (.fail _) => 0
  else 0

section Send

variable {s : Server} {p : Ptr}

theorem still_setConn (c : Connect) : Still p s (s.setConn p c) :=
  ⟨⟨rfl, fun _ => rfl, fun _ hq => Function.update_of_ne hq .., fun _ _ => rfl⟩, rfl, rfl⟩

theorem still_setUser {u : UserId} {v : User} (v' : User) (h : s.userMap u = some v) :
    Still p s (s.setUser u v') := by
  refine ⟨⟨rfl, fun x => ?_, fun _ _ => rfl, fun _ _ => rfl⟩, rfl, rfl⟩
  by_cases hx : x = u
  · simp [Server.setUser, hx, h]
  · simp [Server.setUser, hx]

instance : Charging (Still p) where
  traffic _ _ _ := ⟨⟨rfl, fun _ => rfl, fun _ _ => rfl, fun _ _ => rfl⟩, rfl, rfl⟩
  user hv _ := still_setUser _ hv
  sent s r x := by
    have hq : ∀ q, (s.emit (.sent r x)).sentTo q = s.sentTo q := fun q =>
      (sentTo_emit s _ q).trans (List.append_nil _)
    exact ⟨⟨rfl, fun _ => rfl, fun _ _ => rfl, fun q _ => hq q⟩, rfl, hq p⟩

theorem chargeSent_still (n : ℕ) : Does (Still p) (chargeSent p n) :=
  chargeSent_of n fun _ => wpe_modConn.mpr ⟨fun _ => trivial, fun _ _ => still_setConn _⟩

theorem sockSend_takes (fd : ℕ) (bs : List UInt8) (s : Server) :
    wlp (sockSend fd bs) (fun r s' => r.getD 0 = s.takes fd bs.length 0 ∧
      ∃ e, s' = { s with sends := s.sends.drop (s.uses fd), errno := e }) s := by
  simp only [sockSend, wlp, wpe_bind, wpe_get, wpe_ite]
  refine ⟨fun ho => ?_, fun ho => ⟨fun hs => ?_, fun hs => ?_⟩⟩
  · have hu : ¬ s.usable fd := fun h => ho h.1
    exact ⟨by simp [Server.takes, hu], EBADF, by simp [Server.uses, hu]⟩
  · have hu : ¬ s.usable fd := fun h => h.2 hs
    exact ⟨by simp [Server.takes, hu], EPIPE, by simp [Server.uses, hu]⟩
  · have hu : s.usable fd := ⟨not_not.mp ho, hs⟩
    cases hsend : s.sends with
    | nil =>
        refine ⟨by simp [Server.takes, hu, hsend], s.errno, ?_⟩
        rw [List.drop_nil, ← hsend]
    | cons res rest =>
        cases res with
        | sent m => exact ⟨by simp [Server.takes, hu, hsend], s.errno, by simp [Server.uses, hu]⟩
        | fail e => exact ⟨by simp [Server.takes, hu, hsend], e, by simp [Server.uses, hu]⟩

/-- What sending a message does: it consumes a send and charges the stream of `p`. -/
theorem sendTmsMsg_apart {c : Connect} (msg : List UInt8) (hc : s.conns p = some c) :
    wlp (sendTmsMsg p msg) (fun _ s' => Apart p s s' ∧ s'.sends = s.sends.drop (s.uses c.sockFd) ∧
      s'.sentTo p = s.sentTo p ++ (frame msg).take (s.takes c.sockFd (frame msg).length 0)) s := by
  rw [sendTmsMsg, wlp, wpe_bind, wpe_deref, found hc]
  refine wlp_bind (sockSend_takes c.sockFd (frame msg) s) ?_
  rintro r _ ⟨hr, e, rfl⟩
  have hsend : Apart p s { s with sends := s.sends.drop (s.uses c.sockFd), errno := e } :=
    ⟨rfl, fun _ => rfl, fun _ _ => rfl, fun _ _ => rfl⟩
  cases r with
  | none =>
      refine ⟨hsend, rfl, ?_⟩
      rw [← show 0 = s.takes c.sockFd (frame msg).length 0 from hr, List.take_zero, List.append_nil]
      rfl
  | some n =>
      have hn : n = s.takes c.sockFd (frame msg).length 0 := hr
      rw [← hn, wpe_bind, wpe_emit, wpe_ite]
      generalize hs₁ : { s with sends := s.sends.drop (s.uses c.sockFd), errno := e } = s₁ at hsend
      have hsends : s₁.sends = s.sends.drop (s.uses c.sockFd) := by rw [← hs₁]
      have hto : s₁.sentTo p = s.sentTo p := by rw [← hs₁]; rfl
      have hstep : Apart p s₁ (s₁.emit (.ctl p ((frame msg).take n))) := by
        refine ⟨rfl, fun _ => rfl, fun _ _ => rfl, fun q hq => ?_⟩
        rw [sentTo_emit, Obs.sentTo, if_neg (Ne.symm hq), List.append_nil]
      have hemit := trans_of (Apart p) hsend hstep
      have hself : (s₁.emit (.ctl p ((frame msg).take n))).sentTo p = s.sentTo p ++ (frame msg).take n := by
        rw [sentTo_emit, Obs.sentTo, if_pos rfl, hto]
      refine ⟨fun _ => ⟨hemit, hsends, hself⟩, fun _ => ?_⟩
      refine wlp_mono (chargeSent_still n _) fun _ s₂ h₂ => ⟨trans_of (Apart p) hemit h₂.toApart, ?_, ?_⟩
      · rw [h₂.sends]
        exact hsends
      · rw [h₂.self]
        exact hself

theorem usable_of_setting {s' : Server} (h : s'.setting = s.setting) (fd : ℕ) : s'.usable fd ↔ s.usable fd := by
  have ho : s'.openFds = s.openFds := congrArg Setting.openFds h
  have hs : s'.shutFds = s.shutFds := congrArg Setting.shutFds h
  rw [Server.usable, Server.usable, ho, hs]

theorem takes_of_setting {s' : Server} {k : ℕ} (h : s'.setting = s.setting) (hs : s'.sends = s.sends.drop k)
    (fd n : ℕ) : s'.takes fd n 0 = s.takes fd n k := by
  simp only [Server.takes, usable_of_setting h, hs, List.getElem?_drop, Nat.add_zero]

end Send

/-! ### A rejected login -/

/-- The request is answered with PARAMET_ERR. -/
def Rejected (r : LoginReq) : Prop := r.mobile = 0 ∨ r.hostLen = 0

instance (r : LoginReq) : Decidable (Rejected r) := inferInstanceAs (Decidable (_ ∨ _))

/-- No token is asked for and no name, and no user, block, connection or waiter is new. -/
structure NoEffect (s s' : Server) : Prop where
  stores : s'.stores = s.stores
  users : ∀ u, (s'.userMap u).isSome = (s.userMap u).isSome
  sent : ∀ q ∈ s.centerConnPool ++ s.dnsConnPool, s'.sentTo q = s.sentTo q

/-- The address to connect to is at hand: the host is one, or its name is in the cache. -/
def Server.knows (s : Server) (host : Host) : Prop := ipOrHost host = 0 ∨ (s.cache host).isSome = true

instance (s : Server) (host : Host) : Decidable (s.knows host) := inferInstanceAs (Decidable (_ ∨ _))

/-- Length of a `ReadTokenReq` on the wire. -/
def tokenReqSize : ℕ := 64

/-- All that a login on a connection with fields `c` does after the refusal comes to nothing. -/
structure Inert (s : Server) (c : Connect) (r : LoginReq) : Prop where
  user : (s.userMap ⟨r.mobile, r.app⟩).isSome = true
  address : s.knows (c.login r).currHost
  socket : s.canOpen = false
  center : ∀ cn ∈ s.centerConnPool.head?, ∀ cc ∈ s.conns cn,
    s.takes cc.sockFd tokenReqSize (s.uses c.sockFd) = 0

/-- After the part of LOGIN_REQ before a stream is opened: the center `cn` has been asked, and there is a
user. -/
structure Entered (s : Server) (p cn : Ptr) (asked : List UInt8) (u : UserId) (s' : Server) : Prop where
  setting : s'.setting = s.setting
  users : ∀ x, (s'.userMap x).isSome = ((s.userMap x).isSome || decide (x = u))
  center : s'.sentTo cn = s.sentTo cn ++ asked
  others : ∀ q, q ≠ p → q ≠ cn → s'.sentTo q = s.sentTo q

section Login

variable {s : Server} {p : Ptr} {c : Connect} {r : LoginReq}

theorem retrieveUser_adds (u : UserId) (s : Server) : wlp (retrieveUser u) (fun _ s' =>
    s'.setting = s.setting ∧ s'.log = s.log ∧
      ∀ x, (s'.userMap x).isSome = ((s.userMap x).isSome || decide (x = u))) s := by
  simp only [retrieveUser, wlp, wpe_bind, wpe_get]
  cases hu : s.userMap u with
  | some v =>
      refine ⟨rfl, rfl, fun x => ?_⟩
      by_cases hx : x = u <;> simp [hx, hu]
  | none =>
      refine ⟨rfl, rfl, fun x => ?_⟩
      by_cases hx : x = u <;> simp [Server.setUser, hx]

theorem requestToken_asks (hr : r.token.length = tokenSize) :
    wlp (requestToken p r) (fun _ s' => ∃ cn cc asked, s.centerConnPool.head? = some cn ∧ s.conns cn = some cc ∧
      asked.length = s.takes cc.sockFd tokenReqSize 0 ∧ Apart cn s s' ∧ s'.sentTo cn = s.sentTo cn ++ asked) s := by
  rw [requestToken, wlp, wpe_bind, wpe_deref]
  refine ⟨fun _ => trivial, fun c hc => ?_⟩
  rw [wpe_bind, getCenterConn, wpe_bind, wpe_get]
  cases hpool : s.centerConnPool with
  | nil => exact trivial
  | cons cn rest =>
      simp only [firstConn, wpe_pure]
      generalize hreq : ({ cid := c.sockFd, app := r.app, mobile := r.mobile, token := r.token } : ReadTokenReq) = req
      have hlen : (frame req.bytes).length = tokenReqSize := by
        rw [← hreq]
        simp [frame, ReadTokenReq.bytes, hr, tokenSize, tokenReqSize, hdrSize]
      rw [wpe_bind, wpe_emit, wpe_bind]
      cases hcn : s.conns cn with
      | none =>
          have hgone : (s.emit (.tokenReq p req)).conns cn = none := hcn
          rw [sendTmsMsg, wpe_bind, wpe_deref]
          exact ⟨fun _ => trivial, fun cc hcc => absurd (hgone.symm.trans hcc) (by simp)⟩
      | some cc =>
          have hcn' : (s.emit (.tokenReq p req)).conns cn = some cc := hcn
          refine wlp_mono (sendTmsMsg_apart req.bytes hcn') ?_
          rintro _ s' ⟨hap, -, hto⟩
          have hlog : ∀ q, (s.emit (.tokenReq p req)).sentTo q = s.sentTo q := fun q =>
            (sentTo_emit ..).trans (List.append_nil _)
          have hemit : Apart cn s (s.emit (.tokenReq p req)) := ⟨rfl, fun _ => rfl, fun _ _ => rfl, fun q _ => hlog q⟩
          refine ⟨cn, cc, _, rfl, hcn, ?_, trans_of (Apart cn) hemit hap, hto.trans (by rw [hlog])⟩
          rw [List.length_take, hlen]
          refine Nat.min_eq_left ?_
          rw [Server.takes]
          split_ifs
          · split <;> simp
          · exact Nat.zero_le _

theorem enterLogin_enters (hr : r.token.length = tokenSize) (hrej : Rejected r) (hp : p ∉ s.centerConnPool)
    (hc : s.conns p = some c) :
    wlp (enterLogin p r) (fun _ s' => ∃ cn cc asked, s.centerConnPool.head? = some cn ∧ s.conns cn = some cc ∧
      asked.length = s.takes cc.sockFd tokenReqSize (s.uses c.sockFd) ∧
      Entered s p cn asked ⟨r.mobile, r.app⟩ s') s := by
  rw [enterLogin, wlp, wpe_bind, wpe_modConn, found hc]
  have h₁ : Still p s (s.setConn p (c.login r)) := still_setConn _
  have hc₁ : (s.setConn p (c.login r)).conns p = some (c.login r) := Function.update_self ..
  rw [wpe_bind, refuseParams, if_pos (show r.mobile = 0 ∨ r.hostLen = 0 from hrej)]
  refine wlp_bind (sendTmsMsg_apart _ hc₁) ?_
  rintro _ s₂ ⟨h₂, hsends, -⟩
  have h₂ : Apart p s s₂ := trans_of (Apart p) h₁.toApart h₂
  have hp₂ : s₂.centerConnPool = s.centerConnPool := congrArg Setting.centerConnPool h₂.setting
  rw [wpe_pure]
  refine wlp_bind (requestToken_asks hr) ?_
  rintro _ s₃ ⟨cn, cc, asked, hcn, hcc, hlen, h₃, hto⟩
  rw [hp₂] at hcn
  have hne : cn ≠ p := fun he => hp (List.mem_of_mem_head? (he ▸ hcn))
  rw [h₂.conns cn hne] at hcc
  have hlen : asked.length = s.takes cc.sockFd tokenReqSize (s.uses c.sockFd) :=
    hlen.trans (takes_of_setting h₂.setting hsends _ _)
  refine wlp_bind (retrieveUser_adds _ s₃) ?_
  rintro _ s₄ ⟨hset, hlog, husers⟩
  rw [wpe_modConn]
  refine ⟨fun _ => trivial, fun c₄ _ => ⟨cn, cc, asked, hcn, hcc, hlen, ?_⟩⟩
  have h₅ : ∀ q, (s₄.setConn p { c₄ with user := some ⟨r.mobile, r.app⟩ }).sentTo q = s₃.sentTo q := fun q => by
    rw [← show s₄.sentTo q = s₃.sentTo q by rw [Server.sentTo, hlog, Server.sentTo]]
    rfl
  refine ⟨hset.trans (h₃.setting.trans h₂.setting), fun x => ?_, ?_, fun q hqp hqc => ?_⟩
  · show (s₄.userMap x).isSome = _
    rw [husers, h₃.users, h₂.users]
  · rw [h₅, hto, h₂.sent cn hne]
  · rw [h₅, h₃.sent q hqc, h₂.sent q hqp]

end Login

/-! ### Opening the stream -/

section Open

variable {s : Server} {p : Ptr} {u : UserId} {host : Host} {port : ℕ}

theorem sockOpen_tally (s : Server) : wlp sockOpen (fun r s' =>
    r.isSome = s.canOpen ∧ s'.tally = s.tally ∧ s'.stores = s.stores) s := by
  simp only [sockOpen, wlp, wpe_bind, wpe_get, Server.canOpen]
  rcases s.socks with _ | ⟨fd | e, rest⟩
  · exact ⟨rfl, rfl, rfl⟩
  · rw [wpe_ite]
    refine ⟨fun h => ⟨?_, rfl, rfl⟩, fun h => ⟨?_, rfl, rfl⟩⟩
    · simpa using h
    · simpa using h
  · exact ⟨rfl, rfl, rfl⟩

/-- An agent is a new connection. -/
theorem createAgentConn_adds (s : Server) : wlp createAgentConn (fun r s' =>
    r.isSome = s.canOpen ∧ Adds s s' ∧ (s.canOpen = true → s.nextConn < s'.nextConn) ∧
      (s.canOpen = false → s'.tally = s.tally ∧ s'.stores = s.stores)) s := by
  rw [createAgentConn]
  refine wlp_bind (sockOpen_tally s) ?_
  rintro r s₁ ⟨hr, htally, hstores⟩
  cases r with
  | none =>
      have hr : s.canOpen = false := hr.symm
      exact ⟨hr.symm, .of_tally htally, fun h => absurd (hr.symm.trans h) (by decide), fun _ => ⟨htally, hstores⟩⟩
  | some fd =>
      have hr : s.canOpen = true := hr.symm
      have hnext : s₁.nextConn = s.nextConn := congrArg Tally.nextConn htally
      have hnew : Adds s₁ ({ (s₁.setConn s₁.nextConn (agentConnect fd s₁.mem)).setMap fd (some s₁.nextConn) with
          nextConn := s₁.nextConn + 1, openFds := fd :: s₁.openFds }.emit (.newfd fd s₁.nextConn)) :=
        ⟨fun _ => id, Nat.le_succ _, le_rfl, fun q => sentTo_emit .. ▸ List.prefix_append ..⟩
      refine ⟨hr.symm, trans_of Adds (.of_tally htally) hnew, fun _ => ?_,
        fun h => absurd (hr.symm.trans h) (by decide)⟩
      exact hnext ▸ Nat.lt_succ_self _

theorem connectWebServer_adds (s : Server) (ip : ℕ) : wlp (connectWebServer u p ip port) (fun _ s' =>
    Adds s s' ∧ (s.canOpen = true → s.nextConn < s'.nextConn)) s := by
  rw [connectWebServer]
  refine wlp_bind (createAgentConn_adds s) ?_
  rintro r s₁ ⟨-, hadd, hnew, -⟩
  have hrest : ∀ {α : Type} {x : TmsM α}, Does Adds x →
      wlp x (fun _ s' => Adds s s' ∧ (s.canOpen = true → s.nextConn < s'.nextConn)) s₁ := fun hx =>
    wlp_mono (hx s₁) fun _ _ h => ⟨trans_of Adds hadd h, fun ho => (hnew ho).trans_le h.conns⟩
  cases r with
  | none => exact hrest (.ret (sendTmsMsg_does p _))
  | some a =>
      exact hrest (.seq (deref_does p) <| .get_bind fun _ => .seq (emit_adds _) <|
        .seq (attachAgent_does u p a port) <| .seq (deref_does a) <| .seq (addEvent_does _ _) <|
        .ret (sendTmsMsg_does p _))

/-- Without a socket there is no stream: the tunnel is told, and that is all. -/
theorem connectWebServer_refused (ip : ℕ) (h : s.canOpen = false) : wlp (connectWebServer u p ip port)
    (fun r s' => r = none ∧ s'.stores = s.stores ∧ (∀ x, (s'.userMap x).isSome = (s.userMap x).isSome) ∧
      ∀ q ≠ p, s'.sentTo q = s.sentTo q) s := by
  rw [connectWebServer]
  refine wlp_bind (createAgentConn_adds s) ?_
  rintro r s₁ ⟨hr, -, -, hsame⟩
  obtain ⟨htally, hstores⟩ := hsame h
  have hu : s₁.userMap = s.userMap := congrArg Tally.userMap htally
  have hlog : s₁.log = s.log := congrArg Tally.log htally
  cases r with
  | some a => exact absurd (hr.trans h) (by simp)
  | none =>
      rw [wpe_bind]
      cases hc : s₁.conns p with
      | none =>
          rw [sendTmsMsg, wpe_bind, wpe_deref]
          exact ⟨fun _ => trivial, fun c hc' => absurd (hc.symm.trans hc') (by simp)⟩
      | some c =>
          refine wlp_mono (sendTmsMsg_apart _ hc) ?_
          rintro _ s' ⟨hap, -, -⟩
          refine ⟨rfl, (congrArg Setting.stores hap.setting).trans hstores, fun x => ?_, fun q hq => ?_⟩
          · rw [hap.users, hu]
          · rw [hap.sent q hq, Server.sentTo, hlog, Server.sentTo]

theorem addWaitLists_adds (k : ScbPtr) (s : Server) : wlp (addWaitLists host k) (fun _ s' =>
    Adds s s' ∧ s.waitingScb.length < s'.waitingScb.length) s := by
  rw [addWaitLists, wlp, wpe_bind, wpe_getScb, wpe_bind, wpe_nonNull]
  refine ⟨fun _ => trivial, fun v _ => ?_⟩
  rw [wpe_modify]
  have hgrow : s.waitingScb.length < (s.waitingScb ++ [(⟨host, v, (s.scbs k).scbid⟩ : Waiter)]).length := by
    rw [List.length_append]
    exact Nat.lt_succ_self _
  exact ⟨⟨fun _ => id, le_rfl, hgrow.le, fun _ => List.prefix_rfl⟩, hgrow⟩

/-- A name that is not known is waited for. -/
theorem awaitHost_adds (s : Server) : wlp (awaitHost p u host port) (fun _ s' =>
    Adds s s' ∧ s.waitingScb.length < s'.waitingScb.length) s := by
  rw [awaitHost, wlp, wpe_bind, wpe_deref]
  refine ⟨fun _ => trivial, fun c _ => ?_⟩
  rw [wpe_bind, wpe_get]
  refine wlp_bind (createSCB_does (R := Adds) u p none s) fun k s₁ h₁ => ?_
  refine wlp_bind (addWaitLists_adds k s₁) ?_
  rintro _ s₂ ⟨h₂, hlt⟩
  rw [wpe_bind, wpe_getScb, wpe_emit]
  have h₃ := adds_emit s₂ (.wait host u (s₂.scbs k).scbid p port (c.scb.map s.scbs))
  exact ⟨trans_of Adds h₁ (trans_of Adds h₂ h₃), h₁.waiters.trans_lt hlt⟩

theorem resolveHost_adds (s : Server) : wlp (resolveHost p u host port) (fun _ s' =>
    Adds s s' ∧ s.waitingScb.length < s'.waitingScb.length) s := by
  have hsend : ∀ d, Does Adds (sendMsg d (reqFill s.random host)) := fun d =>
    .seq (deref_does d) <| .bind (sockSend_does _ _) fun r => by
      cases r with
      | none => exact .pure _
      | some n => exact emit_adds _
  have hask : Does Adds (do
      let d ← getDnsConn
      sendMsg d (reqFill s.random host)) := .bind (.get_bind fun _ => firstConn_does _) fun d => hsend d
  rw [resolveHost, wlp, wpe_bind, wpe_get, wpe_ite]
  refine ⟨fun _ => trivial, fun _ => ?_⟩
  refine wlp_bind (awaitHost_adds s) ?_
  rintro _ s₁ ⟨h₁, hlt⟩
  exact wlp_mono (hask s₁) fun _ _ h => ⟨trans_of Adds h₁ h, hlt.trans_le h.waiters⟩

/-- With a socket, or a name to resolve, there is a new connection or a new waiter. -/
theorem openStream_adds (s : Server) : wlp (openStream p u host port) (fun _ s' =>
    Adds s s' ∧ (s.canOpen = true ∨ ¬ s.knows host →
      s.nextConn < s'.nextConn ∨ s.waitingScb.length < s'.waitingScb.length)) s := by
  have hknown : ∀ ip, s.knows host → wlp (do return (← connectWebServer u p ip port).isSome) (fun _ s' =>
      Adds s s' ∧ (s.canOpen = true ∨ ¬ s.knows host →
        s.nextConn < s'.nextConn ∨ s.waitingScb.length < s'.waitingScb.length)) s := by
    intro ip hk
    rw [wlp]
    refine wlp_bind (connectWebServer_adds s ip) ?_
    rintro _ s' ⟨hadd, hnew⟩
    exact ⟨hadd, fun h => .inl (hnew (h.resolve_right (not_not_intro hk)))⟩
  rw [openStream, wlp, wpe_ite]
  refine ⟨fun h => hknown _ (.inl h), fun _ => ?_⟩
  rw [wpe_bind, wpe_get]
  cases hcache : s.cache host with
  | some ip => exact hknown ip (.inr (by rw [hcache]; rfl))
  | none =>
      refine wlp_bind (resolveHost_adds s) ?_
      rintro _ s' ⟨hadd, hlt⟩
      exact ⟨hadd, fun _ => .inr hlt⟩

theorem openStream_refused (hk : s.knows host) (h : s.canOpen = false) : wlp (openStream p u host port)
    (fun r s' => r = false ∧ s'.stores = s.stores ∧ (∀ x, (s'.userMap x).isSome = (s.userMap x).isSome) ∧
      ∀ q ≠ p, s'.sentTo q = s.sentTo q) s := by
  have hconn : ∀ ip, wlp (do return (← connectWebServer u p ip port).isSome) (fun r s' =>
      r = false ∧ s'.stores = s.stores ∧ (∀ x, (s'.userMap x).isSome = (s.userMap x).isSome) ∧
        ∀ q ≠ p, s'.sentTo q = s.sentTo q) s := by
    intro ip
    rw [wlp]
    refine wlp_bind (connectWebServer_refused ip h) ?_
    rintro r s' ⟨rfl, hrest⟩
    exact ⟨rfl, hrest⟩
  rw [openStream, wlp, wpe_ite]
  refine ⟨fun _ => hconn _, fun hn => ?_⟩
  obtain ⟨ip, hip⟩ := Option.isSome_iff_exists.mp (hk.resolve_left hn)
  rw [wpe_bind, wpe_get, hip]
  exact hconn ip

end Open

/-! ### The whole handler -/

section Handler

variable {s s' : Server} {p : Ptr} {c : Connect} {ret : ℤ}

theorem canOpen_of_setting (h : s'.setting = s.setting) : s'.canOpen = s.canOpen := by
  have hs : s'.socks = s.socks := congrArg Setting.socks h
  have ho : s'.openFds = s.openFds := congrArg Setting.openFds h
  rw [Server.canOpen, Server.canOpen, hs]
  rcases s.socks with _ | ⟨fd | e, rest⟩
  · rfl
  · exact decide_eq_decide.mpr (by rw [Server.fdFree, Server.fdFree, ho])
  · rfl

theorem knows_of_setting (h : s'.setting = s.setting) (host : Host) : s'.knows host ↔ s.knows host := by
  have hc : s'.cache = s.cache := congrArg Setting.cache h
  rw [Server.knows, Server.knows, hc]

variable {r : LoginReq}

theorem loginReq_token_length (b : Buff) : (LoginReq.read b).token.length = tokenSize := Buff.slice_length ..

/-- The handler in its two parts: what is done before the stream, and the stream. -/
theorem wlp_handleLoginReq {Q : ℤ → Server → Prop} (hc : s.conns p = some c) (hr : r = LoginReq.read c.dec.buff)
    (hrej : Rejected r) (hp : p ∉ s.centerConnPool)
    (hopen : ∀ cn cc asked s₁, s.centerConnPool.head? = some cn → s.conns cn = some cc →
      asked.length = s.takes cc.sockFd tokenReqSize (s.uses c.sockFd) →
      Entered s p cn asked ⟨r.mobile, r.app⟩ s₁ →
      wlp (openStream p ⟨r.mobile, r.app⟩ (c.login r).currHost r.port)
        (fun ok s₂ => (ok = false → Q (-1) s₂) ∧ (ok = true → ∀ s', Adds s₂ s' → Q 0 s')) s₁) :
    wlp (handleLoginReq p) Q s := by
  rw [handleLoginReq, wlp, wpe_bind, wpe_deref, found hc]
  simp only [← hr]
  rw [wpe_ite]
  refine ⟨fun _ => trivial, fun _ => ?_⟩
  refine wlp_bind (enterLogin_enters (hr ▸ loginReq_token_length _) hrej hp hc) ?_
  rintro _ s₁ ⟨cn, cc, asked, hcn, hcc, hlen, hent⟩
  refine wlp_bind (hopen cn cc asked s₁ hcn hcc hlen hent) ?_
  rintro ok s₂ ⟨hfail, hok⟩
  rw [wpe_ite]
  refine ⟨fun h => ?_, fun h => hfail (Bool.eq_false_iff.mpr h)⟩
  exact wlp_bind (sendTmsMsg_does p _ s₂) fun _ s' hadd => hok h s' hadd

/-- What has no effect was bound to have none. -/
theorem handleLoginReq_inert (hc : s.conns p = some c) (hr : r = LoginReq.read c.dec.buff)
    (hrej : Rejected r) (hp : p ∉ s.centerConnPool) :
    wlp (handleLoginReq p) (fun _ s' => NoEffect s s' → Inert s c r) s := by
  refine wlp_handleLoginReq hc hr hrej hp fun cn cc asked s₁ hcn hcc hlen hent => ?_
  refine wlp_mono (openStream_adds s₁) ?_
  rintro ok s₂ ⟨hadd, hnew⟩
  suffices hall : ∀ s', Adds s₂ s' → NoEffect s s' → Inert s c r from
    ⟨fun _ => hall s₂ (refl_of Adds s₂), fun _ => hall⟩
  intro s' hadd' hno
  have hadd : Adds s₁ s' := trans_of Adds hadd hadd'
  have hstores : s'.stores = s₁.stores := hno.stores.trans (congrArg Setting.stores hent.setting).symm
  have hconns : s'.nextConn = s₁.nextConn := congrArg Stores.nextConn hstores
  have hwait : s'.waitingScb = s₁.waitingScb := congrArg Stores.waitingScb hstores
  have hnone : ¬ (s₁.canOpen = true ∨ ¬ s₁.knows (c.login r).currHost) := by
    intro h
    rcases hnew h with hlt | hlt
    · exact absurd (hlt.trans_le hadd'.conns) (hconns ▸ lt_irrefl _)
    · exact absurd (hlt.trans_le hadd'.waiters) (hwait ▸ lt_irrefl _)
  rw [canOpen_of_setting hent.setting, knows_of_setting hent.setting, not_or, not_not] at hnone
  refine ⟨?_, hnone.2, Bool.eq_false_iff.mpr hnone.1, fun cn' hcn' cc' hcc' => ?_⟩
  · rw [← hno.users]
    refine hadd.users _ ?_
    rw [hent.users]
    simp
  · obtain rfl : cn = cn' := Option.mem_unique hcn hcn'
    obtain rfl : cc = cc' := Option.mem_unique hcc hcc'
    have hpre := (hadd.sent cn).length_le
    rw [hent.center, hno.sent cn (List.mem_append_left _ (List.mem_of_mem_head? hcn)), List.length_append] at hpre
    omega

theorem handleLoginReq_noEffect (hc : s.conns p = some c) (hr : r = LoginReq.read c.dec.buff)
    (hrej : Rejected r) (hp : p ∉ s.centerConnPool ++ s.dnsConnPool) (hin : Inert s c r) :
    wlp (handleLoginReq p) (fun _ s' => NoEffect s s') s := by
  refine wlp_handleLoginReq hc hr hrej (fun h => hp (List.mem_append_left _ h))
    fun cn cc asked s₁ hcn hcc hlen hent => ?_
  have hk : s₁.knows (c.login r).currHost := (knows_of_setting hent.setting _).mpr hin.address
  have ho : s₁.canOpen = false := (canOpen_of_setting hent.setting).trans hin.socket
  refine wlp_mono (openStream_refused hk ho) ?_
  rintro ok s₂ ⟨rfl, hstores, husers, hsent⟩
  refine ⟨fun _ => ⟨hstores.trans (congrArg Setting.stores hent.setting), fun x => ?_, fun q hq => ?_⟩,
    fun h => absurd h (by decide)⟩
  · rw [husers, hent.users]
    by_cases hx : x = ⟨r.mobile, r.app⟩
    · rw [hx, hin.user, Bool.true_or]
    · rw [decide_eq_false hx, Bool.or_false]
  · have hqp : q ≠ p := fun h => hp (h ▸ hq)
    rw [hsent q hqp]
    by_cases hqc : q = cn
    · have hnil : asked = [] := List.eq_nil_of_length_eq_zero (hlen.trans (hin.center cn hcn cc hcc))
      rw [hqc, hent.center, hnil, List.append_nil]
    · exact hent.others q hqp hqc

/-- **A rejected login goes on as an accepted one would**: it is without effect exactly if every step after
the refusal comes to nothing. -/
theorem rejected_login_iff (hc : s.conns p = some c) (hrej : Rejected (LoginReq.read c.dec.buff))
    (hp : p ∉ s.centerConnPool ++ s.dnsConnPool) (hrun : handleLoginReq p s = .ok (ret, s')) :
    NoEffect s s' ↔ Inert s c (LoginReq.read c.dec.buff) :=
  ⟨(wlp_iff _ _ _).mp (handleLoginReq_inert hc rfl hrej fun h => hp (List.mem_append_left _ h)) _ _ hrun,
    fun hin => (wlp_iff _ _ _).mp (handleLoginReq_noEffect hc rfl hrej hp hin) _ _ hrun⟩

end Handler

/-- A login without mobile to `localhost`. -/
def mobilelessLogin : List UInt8 :=
  LoginReq.bytes ⟨1, 0, 65 :: List.replicate 31 0, 80, 9⟩ "localhost".toUTF8.toList

/-- A client that has sent the request. -/
def refusedTunnel : Connect :=
  let c := (Connect.fresh fun _ => 0).accepted 10 ⟨0, 0⟩
  { c with dec := { c.dec with buff := c.dec.buff.store 0 mobilelessLogin } }

/-- Its user is known, the center takes nothing, and there is no socket. -/
def refusingState : Server :=
  { ((Server.init false 0 0 fun _ => 0).setConn 3 refusedTunnel).setUser ⟨0, 1⟩ {} with
    openFds := [10, 7, 6, 5, 4, 3, 2, 1, 0], nextConn := 4, sends := [.sent 100, .fail 32] }

theorem rejected_login_iff_refusing : ∃ ret s', Rejected (LoginReq.read refusedTunnel.dec.buff) ∧
    handleLoginReq 3 refusingState = .ok (ret, s') ∧ NoEffect refusingState s' := by
  have hrun : (handleLoginReq 3 refusingState).toOption.isSome = true := by decide +kernel
  obtain ⟨⟨ret, s'⟩, hs⟩ := Option.isSome_iff_exists.mp hrun
  have hs : handleLoginReq 3 refusingState = .ok (ret, s') := eq_ok_of_toOption hs
  have hc : refusingState.conns 3 = some refusedTunnel := rfl
  have hrej : Rejected (LoginReq.read refusedTunnel.dec.buff) := by decide +kernel
  have hcenter : refusingState.conns 1 = some (serviceConnect .center 6 hdrSize fun _ => 0) := rfl
  refine ⟨ret, s', hrej, hs, (rejected_login_iff hc hrej (by decide) hs).mpr ⟨?_, ?_, rfl, fun cn hcn cc hcc => ?_⟩⟩
  · decide +kernel
  · decide +kernel
  · obtain rfl : 1 = cn := Option.some.inj hcn
    obtain rfl := Option.mem_unique hcenter hcc
    decide +kernel

/-- A client logs in without a mobile, with a socket for an agent at hand. -/
def rejectedRun : List (List Event) := [[{ Event.arrives 10 (frame mobilelessLogin) with socks := [.opened 11 true] }]]

/-- **The refused client is served**: it is sent PARAMET_ERR, the center is asked for its token, and there are a
user, a block and an agent for it. -/
theorem rejected_login_served : ∃ s s', mainLoop [[.connects 10]] (Server.init false 0 0 fun _ => 0) = some s ∧
    mainLoop rejectedRun s = some s' ∧ frame (loginRsp .parametErr) <+: s'.sentTo 3 ∧
    (s.sentTo 1).length = 0 ∧ (s'.sentTo 1).length = tokenReqSize ∧
    (s.userMap ⟨0, 1⟩).isSome = false ∧ (s'.userMap ⟨0, 1⟩).isSome = true ∧
    s.nextScb = 0 ∧ s'.nextScb = 1 ∧ s.connMap 11 = none ∧ s'.connMap 11 = some 4 ∧ ¬ NoEffect s s' := by
  have hrun : ((mainLoop [[.connects 10]] (Server.init false 0 0 fun _ => 0)).bind fun s =>
      (mainLoop rejectedRun s).map fun s' => decide (frame (loginRsp .parametErr) <+: s'.sentTo 3 ∧
        (s.sentTo 1).length = 0 ∧ (s'.sentTo 1).length = tokenReqSize ∧
        (s.userMap ⟨0, 1⟩).isSome = false ∧ (s'.userMap ⟨0, 1⟩).isSome = true ∧
        s.nextScb = 0 ∧ s'.nextScb = 1 ∧ s.connMap 11 = none ∧ s'.connMap 11 = some 4)) = some true := by
    decide +kernel
  obtain ⟨s, hs, hrest⟩ := Option.bind_eq_some_iff.mp hrun
  obtain ⟨s', hs', hd⟩ := Option.map_eq_some_iff.mp hrest
  obtain ⟨herr, hc, hc', hu, hu', hrest⟩ := of_decide_eq_true hd
  refine ⟨s, s', hs, hs', herr, hc, hc', hu, hu', hrest.1, hrest.2.1, hrest.2.2.1, hrest.2.2.2, fun hno => ?_⟩
  exact absurd ((hno.users _).symm.trans hu') (by rw [hu]; decide)

end HttpsTunnel.Tms

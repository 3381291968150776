import HttpsTunnel.Tms.Wake

/-! # Addresses from the cache and from the name server

A client that asks for a host by name is answered in one of two places: `InformClients` answers the
clients that wait when the reply comes, and the login handler answers those that come later from
the cache.  `Outcome` says what either should do: try the address, or say that the host does not
exist when the address is 0.  The login handler never says so: the cache keeps the zeros of negative
replies, and they are connected to like any other address (`cached_zero_tried`).  `InformClients`
also says so when it has no socket.  Both do what they should exactly if the address is not 0 and a
socket can be opened (`resolution_agrees_iff`). -/

namespace HttpsTunnel.Tms

open HttpsTunnel.Lib HttpsTunnel.Wire Relation

/-! ### Outcomes -/

/-- The frame that says HOST_NOT_EXIST. -/
def notExistRsp : List UInt8 := frame (loginRsp .hostNotExist)

/-- The addresses at which a web server was tried for tunnel `t`. -/
def tried (t : Ptr) (l : List Obs) : List ℕ :=
  l.filterMap fun
    | .connect _ ip _ _ tunnel _ => if tunnel = t then some ip else none
    | _ => none

/-- How often tunnel `t` was told that the host does not exist. -/
def toldNotExist (t : Ptr) (l : List Obs) : ℕ :=
  l.countP fun
    | .ctl p bs => p = t && bs = notExistRsp
    | _ => false

/-- What a client with tunnel `t` should see when its host has address `ip`: an attempt at this
address, or, when it is 0, a HOST_NOT_EXIST and no attempt. -/
structure Outcome (ip : ℕ) (t : Ptr) (s s' : Server) : Prop where
  tried : tried t s'.log = tried t s.log ++ if ip = 0 then [] else [ip]
  told : toldNotExist t s'.log = toldNotExist t s.log + if ip = 0 then 1 else 0

/-! ### What is logged -/

/-- No client sees anything of it. -/
def Hush (s s' : Server) : Prop :=
  ∀ t, tried t s'.log = tried t s.log ∧ toldNotExist t s'.log = toldNotExist t s.log

instance : Std.Refl Hush := ⟨fun _ _ => ⟨rfl, rfl⟩⟩

instance : IsTrans Server Hush := ⟨fun _ _ _ h h' t => ⟨(h' t).1.trans (h t).1, (h' t).2.trans (h t).2⟩⟩

theorem Hush.of_log {s s' : Server} (h : s'.log = s.log) : Hush s s' := fun _ => by rw [h]; exact ⟨rfl, rfl⟩

theorem Hush.emit {o : Obs} (h : ∀ t, tried t [o] = [] ∧ toldNotExist t [o] = 0) (s : Server) :
    Hush s (s.emit o) := fun t =>
  ⟨List.filterMap_append.trans (by rw [← tried, ← tried, (h t).1, List.append_nil]),
    List.countP_append.trans (by rw [← toldNotExist, ← toldNotExist, (h t).2, Nat.add_zero])⟩

instance : Linking Hush where
  traffic _ _ _ := .of_log rfl
  user _ _ := .of_log rfl
  sent s _ _ := .emit (fun _ => ⟨rfl, rfl⟩) s
  conn _ _ := .of_log rfl
  id _ := .of_log rfl
  clear _ := .of_log rfl
  tree _ _ := .of_log rfl
  spares _ _ _ _ := .of_log rfl

instance : Unwatched Hush := ⟨fun _ _ _ => .of_log rfl⟩

section Logs

variable {s : Server} {t : Ptr}

theorem sockSend_log (fd : ℕ) (bs : List UInt8) (s : Server) :
    wlp (sockSend fd bs) (fun _ s' => s'.log = s.log) s := by
  simp only [sockSend, setErrno, wpe_bind, wpe_get, wpe_ite, wpe_modify, wpe_pure]
  refine ⟨fun _ => trivial, fun _ => ⟨fun _ => trivial, fun _ => ?_⟩⟩
  rcases s.sends with _ | ⟨m | e, rest⟩ <;> rfl

/-- A message of the server is no attempt, and says that the host does not exist only if it is made for that. -/
theorem sendTmsMsg_logs (p : Ptr) (msg : List UInt8) (s : Server) :
    wlp (sendTmsMsg p msg) (fun _ s' => tried t s'.log = tried t s.log ∧
      ((∀ n, (frame msg).take n ≠ notExistRsp) → toldNotExist t s'.log = toldNotExist t s.log)) s := by
  simp only [sendTmsMsg, wpe_bind, wpe_deref]
  refine ⟨fun _ => trivial, fun c _ => wlp_mono (sockSend_log _ _ s) fun r s₁ hlog => ?_⟩
  cases r with
  | none => exact ⟨by rw [hlog], fun _ => by rw [hlog]⟩
  | some n =>
      have hlate : Does Hush (if n ≠ (frame msg).length then pure (n : ℤ) else chargeSent p n) :=
        .ite (.pure _) (chargeSent_of n (modConn_linking fun _ => rfl))
      simp only [wpe_bind, wpe_emit]
      refine wlp_mono (hlate _) fun _ s₂ h₂ => ?_
      rw [(h₂ t).1, (h₂ t).2, ← hlog]
      refine ⟨List.filterMap_append.trans (List.append_nil _), fun hne => List.countP_append.trans ?_⟩
      simp [toldNotExist, hne n]

/-- A connect response says nothing about the host. -/
theorem sendConnectHostRsp_logs (p : Ptr) (r : ConnectHostRsp) (s : Server) :
    wlp (sendTmsMsg p r.bytes) (fun _ s' => tried t s'.log = tried t s.log ∧
      toldNotExist t s'.log = toldNotExist t s.log) s := by
  refine wlp_mono (sendTmsMsg_logs (t := t) p r.bytes s) fun _ s' h => ⟨h.1, h.2 fun n he => ?_⟩
  have hlen := congrArg List.length he
  have hrsp : notExistRsp.length = 26 := by decide
  have hmsg : (frame r.bytes).length = 14 := by simp [frame, ConnectHostRsp.bytes, hdrSize]
  rw [List.length_take, hrsp, hmsg] at hlen
  omega

/-- A socket is opened exactly if the kernel has one. -/
theorem sockOpen_logs (s : Server) :
    wlp sockOpen (fun r s' => s'.log = s.log ∧ r.isSome = s.canOpen) s := by
  simp only [sockOpen, setErrno, Server.canOpen, wpe_bind, wpe_get]
  match s.socks with
  | [] => exact ⟨rfl, rfl⟩
  | .fail e :: rest => exact ⟨rfl, rfl⟩
  | .opened fd inprogress :: rest =>
      simp only [wpe_ite]
      exact ⟨fun h => ⟨rfl, by simp [h]⟩, fun h => ⟨rfl, by simp [h]⟩⟩

theorem createAgentConn_logs (s : Server) :
    wlp createAgentConn (fun r s' => tried t s'.log = tried t s.log ∧
      toldNotExist t s'.log = toldNotExist t s.log ∧ r.isSome = s.canOpen) s := by
  simp only [createAgentConn, wpe_bind]
  refine wlp_mono (sockOpen_logs s) ?_
  rintro r s₁ ⟨hlog, hopen⟩
  cases r with
  | none => exact ⟨by rw [hlog], by rw [hlog], hopen⟩
  | some fd =>
      have hemit : Hush s₁ (s₁.emit (.newfd fd s₁.nextConn)) := .emit (fun _ => ⟨rfl, rfl⟩) s₁
      refine ⟨?_, ?_, hopen⟩
      · rw [← hlog]
        exact (hemit t).1
      · rw [← hlog]
        exact (hemit t).2

/-- A web server is tried at the given address exactly if a socket can be opened, and the client is
not told that its host does not exist. -/
theorem connectWebServer_logs (u : UserId) (t : Ptr) (ip port : ℕ) (s : Server) :
    wlp (connectWebServer u t ip port) (fun r s' =>
      tried t s'.log = tried t s.log ++ (if s.canOpen then [ip] else []) ∧
      toldNotExist t s'.log = toldNotExist t s.log ∧ r.isSome = s.canOpen) s := by
  simp only [connectWebServer, wpe_bind]
  refine wlp_mono (createAgentConn_logs (t := t) s) ?_
  rintro r s₁ ⟨htried, htold, hopen⟩
  cases r with
  | none =>
      have hno : s.canOpen = false := hopen.symm
      simp only [hno, Bool.false_eq_true, if_false, List.append_nil]
      refine wlp_bind (sendConnectHostRsp_logs (t := t) t _ s₁) ?_
      exact fun _ s₂ h₂ => ⟨h₂.1.trans htried, h₂.2.trans htold, rfl⟩
  | some a =>
      have hyes : s.canOpen = true := hopen.symm
      simp only [hyes, if_true]
      rw [wpe_bind, wpe_deref]
      refine ⟨fun _ => trivial, fun c _ => ?_⟩
      rw [wpe_bind, wpe_get, wpe_bind, wpe_emit, wpe_bind]
      generalize ho : Obs.connect a ip port u t (c.scb.map s₁.scbs) = o
      have hquiet : Does Hush (do
          let k ← attachAgent u t a port
          let a ← deref a
          let _ ← addEvent a.sockFd ⟨false, true, true⟩
          pure k) :=
        .seq (attachAgent_does u t a port) <| .seq (deref_does a) <|
          .ret (addEvent_does _ _)
      have h₁ := hquiet (s₁.emit o)
      simp only [wlp, wpe_bind] at h₁ ⊢
      refine wlp_mono h₁ fun k s₂ h₂ => wlp_mono h₂ fun a₂ s₃ h₃ => wlp_mono h₃ fun _ s₄ h₄ => ?_
      refine wlp_mono (sendConnectHostRsp_logs (t := t) t _ s₄) fun _ s₅ h₅ => ?_
      rw [wpe_pure, h₅.1, h₅.2, (h₄ t).1, (h₄ t).2, ← htried, ← htold]
      refine ⟨List.filterMap_append.trans ?_, List.countP_append.trans ?_, rfl⟩
      · simp [tried, ← ho]
      · simp [toldNotExist, ← ho]

end Logs

/-! ### The client that waited -/

/-- A client waits with question `a`: looking it up leads to its stream, on block `k` and with
tunnel `n`. -/
structure Server.Waits (s : Server) (a : Ask) (k : ScbPtr) (n : Node) : Prop where
  tree : ∃ tr, s.net.trees a.user = some tr ∧ tr a.scbid = some k
  stream : s.net.Open a k n

variable {s : Server} {a : Ask} {k : ScbPtr} {n : Node}

/-- At an address other than 0 a waiting client has a web server tried, if there is a socket, and is then
not told that its host does not exist. -/
theorem informWaiter_logs (h : s.Waits a k n) (host : Host) {ip : ℕ} (hip : ip ≠ 0) :
    wp (informWaiter ip (a.waiter host)) (fun _ s' =>
      tried a.tunnel s'.log = tried a.tunnel s.log ++ (if s.canOpen then [ip] else []) ∧
      (s.canOpen → toldNotExist a.tunnel s'.log = toldNotExist a.tunnel s.log)) s := by
  obtain ⟨⟨tr, htr, hk⟩, hopen⟩ := h
  have hready : s.net.Ready ip (fun _ => true) (Allowed (fun _ => True) (fun _ => True) fun _ => True) a :=
    ⟨tr, k, htr, hk, n, hopen, trivial, trivial, fun _ _ => trivial⟩
  have hrun : informWaiter ip (a.waiter host) s = answerAsk ip a s := informWaiter_eq host hready
  have hret := answerAsk_within (T := fun _ => True) (K := fun _ => True) (U := fun _ => True) hopen
    ⟨trivial, trivial, fun _ _ => trivial⟩ (fun _ _ => trivial) ip
  rw [wp, wpe, hrun, ← wpe]
  refine wp_mono (wp_and_wlp hret (Q := fun _ s' => _ ∧ _) ?_) fun _ _ h => h.2
  rw [answerAsk, wlp, wpe_ite]
  refine ⟨fun h0 => absurd h0 hip, fun _ => ?_⟩
  refine wlp_bind (connectWebServer_logs a.user a.tunnel ip a.port s) ?_
  rintro r s₁ ⟨htried, htold, hsome⟩
  cases r with
  | some j => exact ⟨htried, fun _ => htold⟩
  | none =>
      have hno : s.canOpen = false := hsome.symm
      simp only [hostNotExist, wpe_bind]
      refine wlp_mono (sendTmsMsg_logs (t := a.tunnel) a.tunnel _ s₁) fun _ s₂ h₂ => ?_
      exact ⟨h₂.1.trans htried, fun h => by simp [hno] at h⟩

/-! ### The client that comes later -/

/-- A login of user `u` on tunnel `p` with fields `c` has come to the point where its stream is
opened. -/
structure Server.LogsIn (s : Server) (p : Ptr) (u : UserId) (c : Connect) : Prop where
  conn : s.conns p = some c
  old : p < s.nextConn
  user : c.user = some u
  known : s.userMap u ≠ none

variable {p : Ptr} {u : UserId} {c : Connect}

theorem newSCB_fields (s : Server) :
    wp newSCB (fun _ s' => s'.conns = s.conns ∧ s'.userMap = s.userMap) s := by
  simp only [newSCB, wp, wpe_bind, wpe_get]
  cases s.scbFreeList <;> exact ⟨rfl, rfl⟩

/-- The parties of a login that gets an agent: the tunnel is the user's, the agent is there, and the
user is known. -/
structure Server.Meets (s : Server) (u : UserId) (p q : Ptr) : Prop where
  tunnel : ∃ c, s.conns p = some c ∧ c.user = some u
  agent : s.conns q ≠ none
  known : s.userMap u ≠ none

theorem Server.Meets.of_eq {q : Ptr} {s' : Server} (h : s.Meets u p q) (hc : s'.conns = s.conns)
    (hu : s'.userMap = s.userMap) : s'.Meets u p q :=
  ⟨hc ▸ h.tunnel, hc ▸ h.agent, hu ▸ h.known⟩

theorem Server.Meets.setScb {q : Ptr} (h : s.Meets u p q) (k : ScbPtr) (b : SCB) :
    (s.setScb k b).Meets u p q :=
  ⟨h.tunnel, h.agent, h.known⟩

theorem Server.Meets.emit {q : Ptr} (h : s.Meets u p q) (o : Obs) : (s.emit o).Meets u p q :=
  ⟨h.tunnel, h.agent, h.known⟩

theorem Server.Meets.setConn {q x : Ptr} (h : s.Meets u p q) (c : Connect) (hc : c.user = some u) :
    (s.setConn x c).Meets u p q where
  tunnel := by
    by_cases hx : p = x
    · exact ⟨c, by simp [Server.setConn, hx], hc⟩
    · obtain ⟨c', h', hu⟩ := h.tunnel
      exact ⟨c', by simpa [Server.setConn, Function.update_of_ne hx] using h', hu⟩
  agent := by
    by_cases hx : q = x
    · simp [Server.setConn, hx]
    · simpa [Server.setConn, Function.update_of_ne hx] using h.agent
  known := h.known

theorem linkAgent_meets {q : Ptr} (h : s.Meets u p q) (k : ScbPtr) :
    wp (linkAgent u k q) (fun _ s' => s'.Meets u p q) s := by
  simp only [linkAgent, wp, wpe_bind, wpe_deref, wpe_modScb, wpe_modConn]
  refine ⟨h.agent, fun ca _ => ⟨h.agent, fun ca' _ => ?_⟩⟩
  exact (h.setScb _ _).setConn _ rfl

theorem createSCB_meets {q : Ptr} (h : s.Meets u p q) :
    wp (createSCB u p (some q)) (fun _ s' => s'.Meets u p q) s := by
  obtain ⟨c, hc, -⟩ := h.tunnel
  simp only [createSCB, wp, wpe_bind, wpe_deref]
  refine ⟨by simp [hc], fun c' hc' => ?_⟩
  split
  · exact h
  · simp only [linkTunnel, wpe_bind, wpe_get, wpe_modScb, wpe_modConn, wpe_pure, wpe_getScb, wpe_modUser]
    refine wp_mono (newSCB_fields s) ?_
    rintro k s₁ ⟨hconns, husers⟩
    have h₁ := h.of_eq hconns husers
    refine ⟨fun hn => ?_, fun c₁ _ => ?_⟩
    · have : s₁.conns p = none := hn
      simp [hconns, hc] at this
    · refine wp_mono (linkAgent_meets ((h₁.setScb _ _).setConn _ rfl) k) ?_
      intro _ s₂ h₂
      refine ⟨h₂.known, fun v _ => ⟨h₂.tunnel, h₂.agent, ?_⟩⟩
      simp [Server.setUser]

theorem attachAgent_meets {q : Ptr} (h : s.Meets u p q) (port : ℕ) :
    wp (attachAgent u p q port) (fun _ s' => s'.Meets u p q) s := by
  obtain ⟨c, hc, -⟩ := h.tunnel
  simp only [attachAgent, wp, wpe_bind, wpe_deref]
  refine ⟨by simp [hc], fun c' _ => ?_⟩
  split
  · simp only [wpe_bind, wpe_modScb, wpe_pure]
    exact linkAgent_meets (h.setScb _ _) _
  · exact createSCB_meets h

theorem sendTmsMsg_returns (hc : s.conns p = some c) (hu : c.user = some u) (hknown : s.userMap u ≠ none)
    (msg : List UInt8) : wp (sendTmsMsg p msg) (fun _ _ => True) s := by
  refine wp_mono (sendTmsMsg_within (T := fun _ => True) (K := fun _ => True) (U := fun _ => True) hc
    trivial (fun _ _ => trivial) (fun x hx => ⟨trivial, ?_⟩) msg) fun _ _ _ => trivial
  cases hu.symm.trans hx
  exact hknown

/-- Connecting a web server returns. -/
theorem connectWebServer_returns (h : s.LogsIn p u c) (ip port : ℕ) :
    wp (connectWebServer u p ip port) (fun _ _ => True) s := by
  simp only [connectWebServer, wp, wpe_bind]
  refine wp_mono (createAgentConn_fields s) ?_
  rintro r s₁ ⟨-, husers, hr⟩
  cases r with
  | none =>
      simp only [wpe_bind, wpe_pure]
      exact sendTmsMsg_returns (hr ▸ h.conn) h.user (husers ▸ h.known) _
  | some a =>
      obtain ⟨rfl, ca, hconns⟩ := hr
      have hcp : s₁.conns p = some c := by rw [hconns, Function.update_of_ne h.old.ne, h.conn]
      have hmeets : s₁.Meets u p s.nextConn :=
        ⟨⟨c, hcp, h.user⟩, by simp [hconns], husers ▸ h.known⟩
      simp only [wpe_bind, wpe_deref, wpe_get, wpe_emit, wpe_pure]
      refine ⟨by simp [hcp], fun c₁ _ => ?_⟩
      refine wp_mono (attachAgent_meets (hmeets.emit _) port) fun k s₂ h₂ => ?_
      refine ⟨h₂.agent, fun a₂ _ => wp_mono (addEvent_fields s₂ _ _) ?_⟩
      rintro _ s₃ ⟨hc₃, -, hu₃⟩
      obtain ⟨⟨c₃, hc, hu⟩, -, hknown⟩ := h₂.of_eq hc₃ hu₃
      exact sendTmsMsg_returns hc hu hknown _

/-- A client that is served from the cache has the address tried, whatever it is. -/
theorem openStream_cached (h : s.LogsIn p u c) {host : Host} (hname : ipOrHost host ≠ 0) {ip : ℕ}
    (hcache : s.cache host = some ip) (port : ℕ) :
    wp (openStream p u host port) (fun _ s' =>
      tried p s'.log = tried p s.log ++ (if s.canOpen then [ip] else []) ∧
      toldNotExist p s'.log = toldNotExist p s.log) s := by
  simp only [openStream, hname, if_false, wp, wpe_bind, wpe_get, hcache]
  refine wp_mono (wp_and_wlp (connectWebServer_returns h ip port)
    (connectWebServer_logs u p ip port s)) ?_
  exact fun _ s' h' => ⟨h'.2.1, h'.2.2.1⟩

/-! ### Agreement -/

/-- **Cached and uncached resolution agree exactly for addresses other than 0 and with sockets for both.**
A client that waits for `host` when the reply comes, in any state `s`, and one whose login finds the reply
in the cache, in any state `s'`, both see the outcome of the address. -/
theorem resolution_agrees_iff {s s' : Server} {a : Ask} {k : ScbPtr} {n : Node} {p : Ptr} {u : UserId}
    {c : Connect} {host : Host} {ip : ℕ} (hname : ipOrHost host ≠ 0) (hw : s.Waits a k n)
    (hl : s'.LogsIn p u c) (hcache : s'.cache host = some ip) (port : ℕ) :
    (wp (informWaiter ip (a.waiter host)) (fun _ t => Outcome ip a.tunnel s t) s ∧
      wp (openStream p u host port) (fun _ t => Outcome ip p s' t) s') ↔
    ip ≠ 0 ∧ s.canOpen ∧ s'.canOpen := by
  obtain ⟨b, t', hrun, htried, htold⟩ := (wp_iff _ _ _).mp (openStream_cached hl hname hcache port)
  rw [and_comm, wp, wpe_of_ok hrun]
  constructor
  · rintro ⟨ho, hwait⟩
    have hip : ip ≠ 0 := by
      intro h0
      have := htold.symm.trans ho.told
      simp [h0] at this
    have hopen : s'.canOpen := by
      by_contra hno
      have := htried.symm.trans ho.tried
      simp [hno, hip] at this
    refine ⟨hip, by_contra fun hno => ?_, hopen⟩
    obtain ⟨_, t, hrun', htried', -⟩ := (wp_iff _ _ _).mp (informWaiter_logs hw host hip)
    rw [wp, wpe_of_ok hrun'] at hwait
    have := htried'.symm.trans hwait.tried
    simp [hno, hip] at this
  · rintro ⟨hip, hopen, hopen'⟩
    refine ⟨⟨by simp [htried, hip, hopen'], by simp [htold, hip]⟩, wp_mono (informWaiter_logs hw host hip) ?_⟩
    rintro _ t ⟨htried', htold'⟩
    exact ⟨by simp [htried', hip, hopen], by simp [htold' hopen, hip]⟩

/-- User 2 asks for a host, on tunnel 3 and with block 0. -/
def askingRun : List (List Event) :=
  [[.connects 10], [{ Event.arrives 10 (loginTo 2 unknownHost) with socks := [.opened 20 true] }]]

/-- The client of `askingRun` waits, and would be served from the cache if it asked again when the
reply has been stored. -/
theorem resolution_agrees_iff_asking :
    ∃ s s' n c, mainLoop askingRun (Server.init false 0 0 fun _ => 0) = some s ∧
      dnsUpdate [⟨unknownHost, 5⟩] s = .ok ((), s') ∧ s.Waits ⟨⟨2, 1⟩, 1, 3, 80⟩ 0 n ∧
      s'.LogsIn 3 ⟨2, 1⟩ c ∧
      wp (informWaiter 5 ⟨unknownHost, ⟨2, 1⟩, 1⟩) (fun _ t => Outcome 5 3 s t) s ∧
      wp (openStream 3 ⟨2, 1⟩ unknownHost 80) (fun _ t => Outcome 5 3 s' t) s' := by
  have hrun : (mainLoop askingRun (Server.init false 0 0 fun _ => 0)).map (fun s =>
      decide ((s.userMap ⟨2, 1⟩).bind (·.scbTree 1) = some 0) && decide (3 < s.nextConn) &&
      (s.conns 3).any (fun c => c.scb = some 0 && c.user = some ⟨2, 1⟩) &&
      decide ((s.scbs 0).tunnelConn = some 3) && decide ((s.scbs 0).destPort = 80) && s.canOpen) = some true := by
    decide +kernel
  obtain ⟨s, hs, hfacts⟩ := Option.map_eq_some_iff.mp hrun
  simp only [Bool.and_eq_true, decide_eq_true_eq, Option.any_eq_true] at hfacts
  obtain ⟨⟨⟨⟨⟨htree, hold⟩, c, hc, hscb, huser⟩, htunnel⟩, hport⟩, hopen⟩ := hfacts
  obtain ⟨v, hv, hk⟩ := Option.bind_eq_some_iff.mp htree
  have hw : s.Waits ⟨⟨2, 1⟩, 1, 3, 80⟩ 0 c.node :=
    ⟨⟨v.scbTree, by simp [Server.net, hv], hk⟩, net_conns_of hc, hold, hscb, htunnel, hport,
      fun u hu => by
        cases huser.symm.trans hu
        simp [Server.net, hv]⟩
  have hl : ({ s with cache := Function.update s.cache unknownHost (some 5) } : Server).LogsIn 3 ⟨2, 1⟩ c :=
    ⟨hc, hold, huser, by simp [hv]⟩
  have h := (resolution_agrees_iff (by decide +kernel) hw hl (Function.update_self ..) 80).mpr
    ⟨by decide, hopen, hopen⟩
  exact ⟨s, _, c.node, c, hs, rfl, hw, hl, h⟩

/-- A response of the name server that repeats the question for `unknownHost` and has no answer. -/
def noAnswer : List UInt8 := reqFill 0 unknownHost

/-- User 2 waits for the host when the response without answer comes, and user 3 asks for it later. -/
def negativeReplyRun : List (List Event) :=
  askingRun ++ [[.arrives 5 noAnswer], [.connects 11],
    [{ Event.arrives 11 (loginTo 3 unknownHost) with socks := [.opened 20 true] }]]

/-- **A negative reply is connected to.**  The client that waited is told that the host does not
exist; the one that comes later is not, and its web server is tried at address 0. -/
theorem cached_zero_tried :
    ∃ s, Reachable (Server.init false 0 0 fun _ => 0) s [] ∧
      tried 3 s.log = [] ∧ toldNotExist 3 s.log = 1 ∧ tried 4 s.log = [0] ∧ toldNotExist 4 s.log = 0 := by
  have hrun : (mainLoop negativeReplyRun (Server.init false 0 0 fun _ => 0)).map (fun s =>
      (tried 3 s.log, toldNotExist 3 s.log, tried 4 s.log, toldNotExist 4 s.log)) =
        some ([], 1, [0], 0) := by
    decide +kernel
  obtain ⟨s, hs, he⟩ := Option.map_eq_some_iff.mp hrun
  simp only [Prod.mk.injEq] at he
  exact ⟨s, mainLoop_reachable .start hs, he⟩

end HttpsTunnel.Tms

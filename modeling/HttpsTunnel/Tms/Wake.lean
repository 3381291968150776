import HttpsTunnel.Tms.Waiters

/-! # What an answer of the name server does

`InformClients` looks its waiters up by user and stream id.  `wake` says what it is for: every
question for the host whose tunnel still exists is answered, on behalf of the user who asked and
for the port asked for, and nothing else happens.  `wake_exact` says that `InformClients` does
this in every reachable state in which the blocks it looks up are still those of the waiters
(`Server.resolves`).  They need not be: the tree entries of a closed stream stay, and lead to a
block without tunnel, which is dereferenced, or to the block of another stream
(`stale_waiters`). -/

namespace HttpsTunnel.Tms

open HttpsTunnel.Lib HttpsTunnel.Wire Relation

/-! ### What is touched -/

/-- Connections, blocks and users outside the given sets are as before. -/
structure Within (T : Ptr → Prop) (K : ScbPtr → Prop) (U : UserId → Prop) (s s' : Server) : Prop where
  conns : ∀ p, ¬ T p → s'.conns p = s.conns p
  scbs : ∀ k, ¬ K k → s'.scbs k = s.scbs k
  users : ∀ u, ¬ U u → s'.userMap u = s.userMap u

section Within

variable {T : Ptr → Prop} {K : ScbPtr → Prop} {U : UserId → Prop} {s s' s'' : Server} {t : Ptr}
  {c : Connect} {k : ScbPtr}

theorem Within.trans (h : Within T K U s s') (h' : Within T K U s' s'') : Within T K U s s'' where
  conns p hp := (h'.conns p hp).trans (h.conns p hp)
  scbs k hk := (h'.scbs k hk).trans (h.scbs k hk)
  users u hu := (h'.users u hu).trans (h.users u hu)

theorem Within.of_eq (hc : s'.conns = s.conns) (hs : s'.scbs = s.scbs) (hu : s'.userMap = s.userMap) :
    Within T K U s s' :=
  ⟨fun _ _ => by rw [hc], fun _ _ => by rw [hs], fun _ _ => by rw [hu]⟩

theorem Within.setConn (c : Connect) (ht : T t) : Within T K U s (s.setConn t c) where
  conns p hp := by
    have hne : p ≠ t := fun he => hp (he ▸ ht)
    exact Function.update_of_ne hne _ _
  scbs _ _ := rfl
  users _ _ := rfl

theorem Within.setScb (b : SCB) (hk : K k) : Within T K U s (s.setScb k b) where
  conns _ _ := rfl
  scbs j hj := by
    have hne : j ≠ k := fun he => hj (he ▸ hk)
    exact Function.update_of_ne hne _ _
  users _ _ := rfl

theorem Within.setUser {u : UserId} (v : User) (hu : U u) : Within T K U s (s.setUser u v) where
  conns _ _ := rfl
  scbs _ _ := rfl
  users x hx := by
    have hne : x ≠ u := fun he => hx (he ▸ hu)
    exact Function.update_of_ne hne _ _

theorem sockSend_fields (s : Server) (fd : ℕ) (bs : List UInt8) :
    wp (sockSend fd bs) (fun _ s' =>
      s'.conns = s.conns ∧ s'.scbs = s.scbs ∧ s'.userMap = s.userMap) s := by
  simp only [sockSend, wpe_bind, wpe_get, wpe_ite]
  refine ⟨fun _ => ⟨rfl, rfl, rfl⟩, fun _ => ⟨fun _ => ⟨rfl, rfl, rfl⟩, fun _ => ?_⟩⟩
  rcases s.sends with _ | ⟨m | e, rest⟩
  · exact ⟨rfl, rfl, rfl⟩
  · exact ⟨rfl, rfl, rfl⟩
  · exact ⟨rfl, rfl, rfl⟩

theorem recordTraffic_within {u : UserId} {scb : Option ScbPtr} (hK : ∀ k, scb = some k → K k)
    (hU : U u) (hu : s.userMap u ≠ none) (len : ℕ) :
    wp (recordTraffic u scb len) (fun _ s' => Within T K U s s' ∧ s'.conns = s.conns) s := by
  cases scb with
  | none => exact ⟨.of_eq rfl rfl rfl, rfl⟩
  | some k =>
      simp only [recordTraffic, wpe_bind, wpe_derefUser, wpe_getScb, wpe_modScb, wpe_modUser]
      refine ⟨fun h => hu h, fun v hv => ⟨fun h => hu h, fun v' _ => ?_⟩⟩
      have hw : Within T K U s ((s.setScb k { s.scbs k with
          traffic := ((s.scbs k).traffic + len) % 2 ^ 64 }).setUser u
            { v' with balance := wrapI64 (v'.balance - len) }) :=
        (Within.setScb _ (hK k rfl)).trans (Within.setUser _ hU)
      split_ifs <;> exact ⟨hw, rfl⟩

theorem chargeSent_within (hc : s.conns t = some c) (hT : T t) (hK : ∀ k, c.scb = some k → K k)
    (hU : ∀ u, c.user = some u → U u ∧ s.userMap u ≠ none) (len : ℕ) :
    wp (chargeSent t len) (fun _ s' => Within T K U s s') s := by
  simp only [chargeSent, wpe_bind, wpe_deref]
  refine ⟨fun h => by simp [hc] at h, fun c' hc' => ?_⟩
  obtain rfl : c' = c := Option.mem_unique hc' hc
  split
  · next u hty hu =>
      rw [wpe_bind, wpe_get, wpe_bind, wpe_emit, wpe_bind, wpe_charge, wpe_bind]
      refine wp_mono (recordTraffic_within (T := T) (s := s.emit _) hK (hU u hu).1 (hU u hu).2 _) ?_
      rintro r s₁ ⟨h₁, hconns⟩
      have hconns : s₁.conns = s.conns := hconns
      have hemit : ∀ o, Within T K U s (s.emit o) := fun _ => .of_eq rfl rfl rfl
      have h₁ := (hemit _).trans h₁
      rw [wpe_ite]
      refine ⟨fun _ => ?_, fun _ => h₁⟩
      simp only [wpe_bind, wpe_modConn]
      refine ⟨fun h => by simp [hconns, hc] at h, fun c₁ _ => ?_⟩
      exact h₁.trans (Within.setConn _ hT)
  · exact Within.of_eq rfl rfl rfl

/-- A message on a tunnel touches the tunnel, its block and its user. -/
theorem sendTmsMsg_within (hc : s.conns t = some c) (hT : T t) (hK : ∀ k, c.scb = some k → K k)
    (hU : ∀ u, c.user = some u → U u ∧ s.userMap u ≠ none) (msg : List UInt8) :
    wp (sendTmsMsg t msg) (fun _ s' => Within T K U s s') s := by
  simp only [sendTmsMsg, wpe_bind, wpe_deref]
  refine ⟨fun h => by simp [hc] at h, fun c' hc' => ?_⟩
  refine wp_mono (sockSend_fields s _ _) ?_
  rintro r s₁ ⟨hconns, hscbs, husers⟩
  cases r with
  | none => exact .of_eq hconns hscbs husers
  | some n =>
      simp only [wpe_bind, wpe_emit, wpe_ite]
      have h₁ : Within T K U s (s₁.emit (.ctl t ((frame msg).take n))) := .of_eq hconns hscbs husers
      refine ⟨fun _ => h₁, fun _ => ?_⟩
      refine wp_mono (chargeSent_within (T := T) (K := K) (U := U)
        (show (s₁.emit _).conns t = some c from hconns ▸ hc) hT hK ?_ _) fun _ _ h₂ => h₁.trans h₂
      exact fun u hu => ⟨(hU u hu).1, husers ▸ (hU u hu).2⟩

theorem sockOpen_fields (s : Server) :
    wp sockOpen (fun _ s' => s'.conns = s.conns ∧ s'.scbs = s.scbs ∧ s'.userMap = s.userMap ∧
      s'.nextConn = s.nextConn) s := by
  simp only [sockOpen, wpe_bind, wpe_get]
  rcases s.socks with _ | ⟨⟨fd, inprogress⟩ | e, rest⟩
  · exact ⟨rfl, rfl, rfl, rfl⟩
  · simp only [wpe_ite]
    exact ⟨fun _ => ⟨rfl, rfl, rfl, rfl⟩, fun _ => ⟨rfl, rfl, rfl, rfl⟩⟩
  · exact ⟨rfl, rfl, rfl, rfl⟩

/-- The agent is a new connection. -/
theorem createAgentConn_fields (s : Server) :
    wp createAgentConn (fun r s' => s'.scbs = s.scbs ∧ s'.userMap = s.userMap ∧ match r with
      | none => s'.conns = s.conns
      | some a => a = s.nextConn ∧ ∃ ca, s'.conns = Function.update s.conns a (some ca)) s := by
  simp only [createAgentConn, wpe_bind]
  refine wp_mono (sockOpen_fields s) ?_
  rintro r s₁ ⟨hconns, hscbs, husers, hnext⟩
  cases r with
  | none => exact ⟨hscbs, husers, hconns⟩
  | some fd =>
      refine ⟨hscbs, husers, hnext, agentConnect fd s₁.mem, ?_⟩
      show Function.update s₁.conns _ _ = _
      rw [hconns]

theorem attachAgent_within {a : Ptr} {ca : Connect} (hc : s.conns t = some c) (hs : c.scb = some k)
    (ha : s.conns a = some ca) (hat : t ≠ a) (hTa : T a) (hK : K k) (u : UserId) (port : ℕ) :
    wp (attachAgent u t a port) (fun _ s' => Within T K U s s' ∧ s'.conns t = some c ∧
      s'.conns a ≠ none ∧ s'.userMap = s.userMap) s := by
  simp only [attachAgent, wpe_bind, wpe_deref]
  refine ⟨fun h => by simp [hc] at h, fun c' hc' => ?_⟩
  obtain rfl : c' = c := Option.mem_unique hc' hc
  rw [hs]
  simp only [linkAgent, wpe_bind, wpe_deref, wpe_modScb, wpe_modConn, wpe_pure]
  refine ⟨fun h => by simp [Server.setScb, ha] at h, fun a₁ _ => ⟨fun h => ?_, fun a₂ _ => ?_⟩⟩
  · simp [Server.setScb, ha] at h
  · refine ⟨((Within.setScb _ hK).trans (Within.setScb _ hK)).trans (Within.setConn _ hTa), ?_, ?_, rfl⟩
    · simpa [Server.setConn, Server.setScb, Function.update_of_ne hat] using hc
    · simp [Server.setConn]

theorem addEvent_fields (s : Server) (fd : ℕ) (m : Mask) :
    wp (addEvent fd m) (fun _ s' =>
      s'.conns = s.conns ∧ s'.scbs = s.scbs ∧ s'.userMap = s.userMap) s := by
  simp only [addEvent, wpe_bind, wpe_get]
  cases s.epoll fd <;> exact ⟨rfl, rfl, rfl⟩

/-- Connecting a web server touches the tunnel, its block, its user and the new connection. -/
theorem connectWebServer_within (hc : s.conns t = some c) (hs : c.scb = some k) (ht : t < s.nextConn)
    (hT : T t) (hnew : T s.nextConn) (hK : K k)
    (hU : ∀ u, c.user = some u → U u ∧ s.userMap u ≠ none) (u : UserId) (ip port : ℕ) :
    wp (connectWebServer u t ip port) (fun _ s' => Within T K U s s') s := by
  have hKc : ∀ j, c.scb = some j → K j := fun j hj => Option.mem_unique hs hj ▸ hK
  simp only [connectWebServer, wpe_bind]
  refine wp_mono (createAgentConn_fields s) ?_
  rintro r s₁ ⟨hscbs, husers, hr⟩
  have hU₁ : ∀ u, c.user = some u → U u ∧ s₁.userMap u ≠ none := fun u hu => husers ▸ hU u hu
  cases r with
  | none =>
      have h₁ : Within T K U s s₁ := .of_eq hr hscbs husers
      simp only [wpe_bind]
      refine wp_mono (sendTmsMsg_within (T := T) (hr ▸ hc) hT hKc hU₁ _) ?_
      exact fun _ s₂ h₂ => h₁.trans h₂
  | some a =>
      obtain ⟨rfl, ca, hconns⟩ := hr
      have hct : s₁.conns t = some c := by rw [hconns, Function.update_of_ne ht.ne, hc]
      have hca : s₁.conns s.nextConn = some ca := by rw [hconns, Function.update_self]
      have h₁ : Within T K U s s₁ := by
        refine ⟨fun p hp => ?_, fun _ _ => by rw [hscbs], fun _ _ => by rw [husers]⟩
        have hne : p ≠ s.nextConn := fun he => hp (he ▸ hnew)
        rw [hconns, Function.update_of_ne hne]
      rw [wpe_bind, wpe_deref]
      refine ⟨fun h => by simp [hct] at h, fun c₁ _ => ?_⟩
      rw [wpe_bind, wpe_get, wpe_bind, wpe_emit, wpe_bind]
      refine wp_mono (attachAgent_within (T := T) (K := K) (U := U) (s := s₁.emit _) hct hs hca ht.ne
        hnew hK u port) ?_
      rintro k₂ s₂ ⟨h₂, hct₂, hca₂, hu₂⟩
      rw [wpe_bind, wpe_deref]
      refine ⟨hca₂, fun a₂ _ => ?_⟩
      rw [wpe_bind]
      refine wp_mono (addEvent_fields s₂ _ _) ?_
      rintro _ s₃ ⟨hc₃, hs₃, hu₃⟩
      have h₂' : Within T K U s₁ s₂ := ⟨h₂.conns, h₂.scbs, h₂.users⟩
      have h₃ : Within T K U s s₃ := (h₁.trans h₂').trans (.of_eq hc₃ hs₃ hu₃)
      rw [wpe_bind]
      refine wp_mono (sendTmsMsg_within (T := T) (K := K) (U := U) (hc₃ ▸ hct₂) hT hKc
        (fun u hu => ?_) _) ?_
      · rw [hu₃, hu₂]
        exact hU₁ u hu
      · exact fun _ s₄ h₄ => h₃.trans h₄

end Within

/-! ### What an answer should do -/

/-- Tell a client that the host does not exist. -/
def hostNotExist (t : Ptr) : TmsM Unit := do
  let _ ← sendTmsMsg t (LoginRsp.bytes { LoginRsp.default with rspCode := RespCode.hostNotExist.toNat })

/-- Answer a question: connect the web server for the user and port that asked, or say that there is
none. -/
def answerAsk (ip : ℕ) (a : Ask) : TmsM Unit :=
  if ip = 0 then hostNotExist a.tunnel
  else do
    match ← connectWebServer a.user a.tunnel ip a.port with
    | some _ => pure ()
    | none => hostNotExist a.tunnel

def answerAsks (ip : ℕ) : List Ask → TmsM Unit
  | [] => pure ()
  | a :: as => do
      answerAsk ip a
      answerAsks ip as

/-- The questions for `host` without answer whose tunnel still exists. -/
def Server.openAsks (s : Server) (host : Host) : List Ask :=
  (asks host s.log).filter fun a => (s.conns a.tunnel).isSome

/-- Answer the open questions for `host` and forget its waiters. -/
def wake (host : Host) (ip : ℕ) : TmsM Unit := do
  let s ← get
  answerAsks ip (s.openAsks host)
  modify (fun s => { s with waitingScb := s.waitingScb.filter (·.host ≠ host) })
  emit (.answer host)

/-- The block a waiter leads to, if it leads to one, is still its own, or has no tunnel and need not
have one. -/
def Server.resolves (s : Server) (ip : ℕ) (x : Waiter) : Bool :=
  (s.userMap x.user).all fun v => (v.scbTree x.scbid).all fun k =>
    match (s.scbs k).tunnelConn with
    | some _ => (s.scbs k).scbid = x.scbid
    | none => ip ≠ 0

namespace Net

variable {w w' : Net} {a : Ask} {k j : ScbPtr} {n : Node}

/-- The stream of question `a` is open, on block `k` and with tunnel `n`. -/
structure Open (w : Net) (a : Ask) (k : ScbPtr) (n : Node) : Prop where
  conn : w.conns a.tunnel = some n
  old : a.tunnel < w.next
  scb : n.scb = some k
  tunnel : (w.blocks k).tunnel = some a.tunnel
  port : (w.blocks k).destPort = a.port
  user : ∀ u, n.user = some u → w.trees u ≠ none

/-- Looking up question `a` finds an open stream with `P` if `live`, and else a block without
tunnel. -/
def Ready (w : Net) (ip : ℕ) (live : Ask → Bool) (P : Ask → ScbPtr → Node → Prop) (a : Ask) : Prop :=
  ∃ tr k, w.trees a.user = some tr ∧ tr a.scbid = some k ∧
    if live a then ∃ n, w.Open a k n ∧ P a k n else (w.blocks k).tunnel = none ∧ ip ≠ 0

theorem Open.attach (h : w.Open a k n) {port : ℕ} (hp : (w.blocks j).destPort = port) (fd : ℕ)
    (u : UserId) (o : Obs) : (w.attach fd u j port o).Open a k n where
  conn := by rw [attach_conns, if_neg h.old.ne, h.conn]
  old := h.old.trans (Nat.lt_succ_self _)
  scb := h.scb
  tunnel := (attach_tunnel ..).trans h.tunnel
  port := by
    rw [attach_blocks]
    split_ifs with hk
    · subst hk
      exact hp.symm.trans h.port
    · exact h.port
  user := h.user

theorem Ready.attach {ip : ℕ} {live : Ask → Bool} {P : Ask → ScbPtr → Node → Prop}
    (h : w.Ready ip live P a) {port : ℕ} (hp : (w.blocks j).destPort = port) (fd : ℕ) (u : UserId)
    (o : Obs) : (w.attach fd u j port o).Ready ip live P a := by
  obtain ⟨tr, k, htr, hk, hl⟩ := h
  refine ⟨tr, k, htr, hk, ?_⟩
  split_ifs at hl ⊢
  · obtain ⟨n, hn, hP⟩ := hl
    exact ⟨n, hn.attach hp fd u o, hP⟩
  · exact ⟨(attach_tunnel ..).trans hl.1, hl.2⟩

end Net

/-! ### One waiter -/

section Waiter

variable {s : Server} {a : Ask} {k : ScbPtr} {n : Node} {ip : ℕ} {live : Ask → Bool}
  {P : Ask → ScbPtr → Node → Prop}

/-- What an answer leaves of the view: the same, or the same with an agent on an open stream. -/
def Answered (k : ScbPtr) (a : Ask) (w w' : Net) : Prop :=
  w' = w ∨ ∃ fd u o, w' = w.attach fd u k a.port o

theorem Net.Open.answered {w w' : Net} {b : Ask} {j : ScbPtr} {m : Node} (h : w.Open a k n)
    (hb : w.Open b j m) (ha : Answered k a w w') : w'.Open b j m := by
  rcases ha with rfl | ⟨fd, u, o, rfl⟩
  · exact hb
  · exact hb.attach h.port fd u o

theorem Net.Ready.answered {w w' : Net} {b : Ask} (h : w.Open a k n) (hb : w.Ready ip live P b)
    (ha : Answered k a w w') : w'.Ready ip live P b := by
  rcases ha with rfl | ⟨fd, u, o, rfl⟩
  · exact hb
  · exact hb.attach h.port fd u o

theorem connectWebServer_answered (h : s.net.Open a k n) :
    wlp (connectWebServer a.user a.tunnel ip a.port) (fun _ s' => Answered k a s.net s'.net) s := by
  obtain ⟨c, hc, rfl⟩ := conns_of_net h.conn
  refine wlp_mono (connectWebServer_spec a.user ip a.port hc h.old.ne') ?_
  rintro _ s' (hs | ⟨fd, -, hs⟩)
  · exact .inl hs
  · exact .inr ⟨fd, a.user, _, hs.trans (Net.connectAgent_some h.scb ..)⟩

/-- The block of an open stream names its tunnel and port. -/
theorem Net.Open.fields (h : s.net.Open a k n) :
    (s.scbs k).tunnelConn = some a.tunnel ∧ (s.scbs k).destPort = a.port :=
  ⟨h.tunnel, h.port⟩

theorem sendDnsFail_eq (h : s.net.Open a k n) : sendDnsFail k s = hostNotExist a.tunnel s := by
  have hstep : sendDnsFail k s = (nonNull (s.scbs k).tunnelConn >>= hostNotExist) s := rfl
  rw [hstep, h.fields.1]
  rfl

/-- A waiter whose stream is open is answered as it asked. -/
theorem informConnect_eq (h : s.net.Open a k n) (hip : ip ≠ 0) :
    informConnect a.user k ip s = answerAsk ip a s := by
  obtain ⟨ht, hp⟩ := h.fields
  have hleft : informConnect a.user k ip s = (do
      match ← connectWebServer a.user a.tunnel ip a.port with
      | some _ => pure ()
      | none => sendDnsFail k : TmsM Unit) s := by
    rw [informConnect, run_getScb_bind]
    rewrite [ht, hp]
    rfl
  rw [hleft, answerAsk, if_neg hip]
  refine run_bind_congr (wlp_mono (connectWebServer_answered h) ?_)
  intro r s₁ h₁
  cases r with
  | some j => rfl
  | none => exact sendDnsFail_eq (h.answered h h₁)

/-- What `InformClients` does for a waiter. -/
theorem informWaiter_eq (host : Host) (h : s.net.Ready ip live P a) :
    informWaiter ip (a.waiter host) s = (if live a then answerAsk ip a else pure ()) s := by
  obtain ⟨tr, k, htr, hk, hl⟩ := h
  obtain ⟨v, hv, rfl⟩ := Option.map_eq_some_iff.mp htr
  have hlook : informWaiter ip (a.waiter host) s =
      (if ip ≠ 0 then informConnect a.user k ip else sendDnsFail k) s := by
    rw [informWaiter, run_get_bind]
    simp only [show (a.waiter host).user = a.user from rfl, show (a.waiter host).scbid = a.scbid from rfl, hv, hk]
  rw [hlook]
  by_cases hlive : live a = true
  · rw [if_pos hlive] at hl ⊢
    obtain ⟨n, hn, -⟩ := hl
    split_ifs with hip
    · exact informConnect_eq hn hip
    · rw [answerAsk, if_pos (not_not.mp hip)]
      exact sendDnsFail_eq hn
  · rw [if_neg hlive] at hl ⊢
    have hnone : (s.scbs k).tunnelConn = none := hl.1
    rw [if_pos hl.2]
    rw [informConnect, run_getScb_bind]
    rewrite [hnone]
    rfl

/-- The stream of a question lies within the given sets. -/
def Allowed (T : Ptr → Prop) (K : ScbPtr → Prop) (U : UserId → Prop) (a : Ask) (k : ScbPtr)
    (n : Node) : Prop :=
  T a.tunnel ∧ K k ∧ ∀ u, n.user = some u → U u

variable {T : Ptr → Prop} {K : ScbPtr → Prop} {U : UserId → Prop}

theorem hostNotExist_within (h : s.net.Open a k n) (hP : Allowed T K U a k n) :
    wp (hostNotExist a.tunnel) (fun _ s' => Within T K U s s' ∧ s'.net = s.net) s := by
  obtain ⟨c, hc, rfl⟩ := conns_of_net h.conn
  have hscb : c.scb = some k := h.scb
  simp only [hostNotExist, wpe_bind]
  refine wp_and_wlp (sendTmsMsg_within hc hP.1 (fun j hj => ?_) (fun u hu => ⟨hP.2.2 u hu, ?_⟩) _)
    (sendTmsMsg_does (R := Same) _ _ s)
  · exact Option.mem_unique hscb hj ▸ hP.2.1
  · intro hnone
    exact h.user u hu (by simp [Server.net, hnone])

/-- An answer returns; it touches the stream it is for and starts at most one agent there. -/
theorem answerAsk_within (h : s.net.Open a k n) (hP : Allowed T K U a k n)
    (hnew : ∀ p, s.nextConn ≤ p → T p) (ip : ℕ) :
    wp (answerAsk ip a) (fun _ s' => Within T K U s s' ∧ Answered k a s.net s'.net) s := by
  rw [answerAsk, wp, wpe_ite]
  refine ⟨fun _ => wp_mono (hostNotExist_within h hP) fun _ s' hs => ⟨hs.1, .inl hs.2⟩, fun _ => ?_⟩
  obtain ⟨c, hc, rfl⟩ := conns_of_net h.conn
  rw [wpe_bind]
  have huser : ∀ u, c.user = some u → U u ∧ s.userMap u ≠ none := by
    intro u hu
    refine ⟨hP.2.2 u hu, fun hnone => ?_⟩
    exact h.user u hu (by simp [Server.net, hnone])
  refine wp_mono (wp_and_wlp (connectWebServer_within hc h.scb h.old hP.1 (hnew _ le_rfl) hP.2.1 huser
    a.user ip a.port) (connectWebServer_answered h)) ?_
  rintro r s₁ ⟨h₁, ha₁⟩
  cases r with
  | some j => exact ⟨h₁, ha₁⟩
  | none =>
      refine wp_mono (hostNotExist_within (h.answered h ha₁) hP) ?_
      rintro _ s₂ ⟨h₂, hnet⟩
      exact ⟨h₁.trans h₂, hnet ▸ ha₁⟩

end Waiter

/-! ### All waiters -/

section Waiters

variable {s : Server} {ip : ℕ} {live : Ask → Bool} {T : Ptr → Prop} {K : ScbPtr → Prop}
  {U : UserId → Prop}

theorem Answered.next_le {k : ScbPtr} {a : Ask} {w w' : Net} (h : Answered k a w w') :
    w.next ≤ w'.next ∧ w'.waiting = w.waiting := by
  rcases h with rfl | ⟨fd, u, o, rfl⟩
  · exact ⟨le_rfl, rfl⟩
  · exact ⟨Nat.le_succ _, rfl⟩

/-- Going through the waiters answers the open questions, one after the other. -/
theorem informWaiters_eq (host : Host) {as : List Ask}
    (h : ∀ a ∈ as, s.net.Ready ip live (Allowed T K U) a) (hnew : ∀ p, s.nextConn ≤ p → T p) :
    informWaiters ip (as.map (Ask.waiter host)) s = answerAsks ip (as.filter live) s ∧
      wp (answerAsks ip (as.filter live)) (fun _ s' => Within T K U s s' ∧
        s'.waitingScb = s.waitingScb) s := by
  induction as generalizing s with
  | nil => exact ⟨rfl, .of_eq rfl rfl rfl, rfl⟩
  | cons a as ih =>
      obtain ⟨ha, has⟩ := List.forall_mem_cons.mp h
      have hstep : informWaiters ip ((a :: as).map (Ask.waiter host)) s =
          (informWaiter ip (a.waiter host) >>= fun _ => informWaiters ip (as.map (Ask.waiter host))) s :=
        rfl
      rw [hstep, run_bind, informWaiter_eq host ha]
      by_cases hlive : live a = true
      · obtain ⟨tr, k, htr, hk, hl⟩ := ha
        rw [if_pos hlive] at hl ⊢
        obtain ⟨n, hn, hP⟩ := hl
        rw [List.filter_cons_of_pos hlive, answerAsks, ← run_bind]
        have hone := answerAsk_within hn hP hnew ip
        -- the other questions are as before after the first answer
        have hrest : ∀ s₁ : Server, Answered k a s.net s₁.net →
            (∀ b ∈ as, s₁.net.Ready ip live (Allowed T K U) b) ∧ ∀ p, s₁.nextConn ≤ p → T p := by
          intro s₁ h₁
          refine ⟨fun b hb => (has b hb).answered hn h₁, fun p hp => hnew p ?_⟩
          exact h₁.next_le.1.trans hp
        constructor
        · refine run_bind_congr ((wlp_iff _ _ _).mpr fun _ s₁ hs₁ => ?_)
          obtain ⟨_, s₂, hs₂, -, h₂⟩ := (wp_iff _ _ _).mp hone
          obtain rfl : s₂ = s₁ := by simpa using hs₂.symm.trans hs₁
          exact (ih (hrest _ h₂).1 (hrest _ h₂).2).1
        · rw [wp, wpe_bind]
          refine wp_mono hone ?_
          rintro _ s₁ ⟨h₁, ha₁⟩
          refine wp_mono (ih (hrest _ ha₁).1 (hrest _ ha₁).2).2 ?_
          rintro _ s₂ ⟨h₂, hw₂⟩
          exact ⟨h₁.trans h₂, hw₂.trans ha₁.next_le.2⟩
      · rw [if_neg hlive, List.filter_cons_of_neg hlive]
        exact ih has hnew

end Waiters

/-! ### The result -/

/-- The states in which `DnsRecvEvent` calls `InformClients`: the loop handles an event, the response
is stored, the cache is updated, and the earlier replies of the response have been dealt with. -/
inductive Resolving (s₀ : Server) : Server → Prop
  | event {s : Server} {pending : List Event} (h : Reachable s₀ s pending) (e : Event) :
      Resolving s₀ (s.load e)
  | stored {s s' : Server} (h : Resolving s₀ s) (p : Ptr) (bs : List UInt8)
      (hs : modConn p (fun c => { c with dec := { c.dec with buff := c.dec.buff.store 0 bs } }) s =
        .ok ((), s')) : Resolving s₀ s'
  | updated {s s' : Server} (h : Resolving s₀ s) (reps : List Rep)
      (hs : dnsUpdate reps s = .ok ((), s')) : Resolving s₀ s'
  | informed {s s' : Server} (h : Resolving s₀ s) (host : Host) (ip : ℕ)
      (hs : informClients host ip s = .ok ((), s')) : Resolving s₀ s'

theorem dnsUpdate_same (reps : List Rep) : Does Same (dnsUpdate reps) := .modify fun _ => rfl

theorem Resolving.runs {s₀ s : Server} (h : Resolving s₀ s) : Runs s₀ s := by
  induction h with
  | event h e => exact trans_of Runs h.runs (Same.moves (load_same _ e)).runs
  | stored h p bs hs ih =>
      have hsame : Does Same (modConn p fun c =>
          { c with dec := { c.dec with buff := c.dec.buff.store 0 bs } }) := modConn_same fun _ => rfl
      exact trans_of Runs ih (hsame.run hs).moves.runs
  | updated h reps hs ih => exact trans_of Runs ih ((dnsUpdate_same reps).run hs).moves.runs
  | informed h host ip hs ih =>
      exact trans_of Runs ih ((informClients_moves host ip).run hs).runs

section Invariant

variable {s : Server} {host : Host} {ip : ℕ}

/-- The waiters of a host are its questions. -/
theorem Net.WakeInv.waiters (hI : s.net.WakeInv) (host : Host) :
    s.waitingScb.filter (·.host = host) = (asks host s.log).map (Ask.waiter host) := by
  rw [← asks_filter host s.log]
  exact hI.waiting host

theorem Net.WakeInv.asked_log (hI : s.net.WakeInv) {a : Ask} (ha : a ∈ asks host s.log) :
    s.net.Asked a := by
  rw [← asks_filter host s.log] at ha
  exact hI.asked ha

/-- A live question has an open stream. -/
theorem Net.Asked.open {w : Net} {a : Ask} {k : ScbPtr} {n : Node} (h : w.Asked a)
    (hI : w.WakeInv) (hw : w.Wf) (hh : w.Holds a k) (hn : w.conns a.tunnel = some n) :
    w.Open a k n where
  conn := hn
  old := h.old
  scb := (hh.scb hw hn).2
  tunnel := (hh.live (hn ▸ Option.some_ne_none n)).1
  port := (hh.live (hn ▸ Option.some_ne_none n)).2.2
  user _ hu := hI.user hn (hh.scb hw hn).1 hu

theorem Net.WakeInv.ready (hI : s.net.WakeInv) (hw : s.net.Wf)
    (hres : ∀ x ∈ s.waitingScb, x.host = host → s.resolves ip x = true) {a : Ask}
    (ha : a ∈ asks host s.log) :
    s.net.Ready ip (fun a => (s.conns a.tunnel).isSome) (fun a k n => s.net.Open a k n) a := by
  have hA := hI.asked_log ha
  obtain ⟨tr, k, htr, hk, hh⟩ := hA.entry
  refine ⟨tr, k, htr, hk, ?_⟩
  cases hc : s.conns a.tunnel with
  | some c =>
      have ho := hA.open hI hw hh (net_conns_of hc)
      rw [if_pos (by simp [hc])]
      exact ⟨c.node, ho, ho⟩
  | none =>
      rw [if_neg (by simp [hc])]
      have hx : a.waiter host ∈ s.waitingScb := by
        refine (List.mem_filter.mp (?_ : _ ∈ s.waitingScb.filter (·.host = host))).1
        rw [hI.waiters]
        exact List.mem_map_of_mem ha
      obtain ⟨v, hv, rfl⟩ := Option.map_eq_some_iff.mp htr
      have hr := hres _ hx rfl
      have huser : s.userMap (a.waiter host).user = some v := hv
      have htree : v.scbTree (a.waiter host).scbid = some k := hk
      rw [Server.resolves, huser, Option.all_some, htree, Option.all_some] at hr
      have hgone : s.net.conns a.tunnel = none := by simp [Server.net, hc]
      split at hr
      · next t ht =>
          have hnone := hh.dead hgone (of_decide_eq_true hr)
          cases ht.symm.trans hnone
      · next ht => exact ⟨ht, of_decide_eq_true hr⟩

/-- Each stream asks once. -/
theorem Net.WakeInv.openAsks_nodup (hI : s.net.WakeInv) (hw : s.net.Wf) (host : Host) :
    ((s.openAsks host).map (·.tunnel)).Nodup := by
  have hsorted : (asks host s.log).Pairwise fun a b => a.scbid < b.scbid := by
    rw [← asks_filter host s.log]
    exact hI.sorted host
  have hopen : (s.openAsks host).Pairwise fun a b => a.scbid < b.scbid := hsorted.filter _
  rw [List.Nodup, List.pairwise_map]
  refine hopen.imp_of_mem ?_
  intro a b ha hb hlt he
  obtain ⟨ha, hlive⟩ := List.mem_filter.mp ha
  obtain ⟨c, hc⟩ := Option.isSome_iff_exists.mp hlive
  obtain ⟨_, k, -, -, hk⟩ := (hI.asked_log ha).entry
  obtain ⟨_, j, -, -, hj⟩ := (hI.asked_log (List.mem_filter.mp hb).1).entry
  have hna := net_conns_of hc
  have hnb : s.net.conns b.tunnel = some c.node := he ▸ hna
  have hkj : k = j :=
    Option.some.inj ((hk.scb hw hna).2.symm.trans (hj.scb hw hnb).2)
  have hka := (hk.live (hna ▸ Option.some_ne_none _)).2.1
  have hjb := (hj.live (hnb ▸ Option.some_ne_none _)).2.1
  rw [hkj] at hka
  exact absurd (hka.symm.trans hjb) hlt.ne

end Invariant

/-- **An answer wakes the streams that asked**, in a run in which logins come on tunnels, a tunnel
asks once and agents are connected for streams that have none, in a state in which the waiters of
the host lead to blocks that are still theirs.  `InformClients` returns, and does what answering the
open questions one after the other does; the open questions are of different tunnels; the waiters of
the host and no others are removed; and only the connections, blocks and users of those streams and
new connections are touched. -/
theorem wake_exact {accurate : Bool} {errno err : ℕ} {mem : Buff} {s : Server}
    (h : Resolving (Server.init accurate errno err mem) s) (hok : ∀ o ∈ s.log, o.AsksOnce)
    (host : Host) (ip : ℕ) (hres : ∀ x ∈ s.waitingScb, x.host = host → s.resolves ip x = true) :
    ∃ s', informClients host ip s = .ok ((), s') ∧ wake host ip s = .ok ((), s') ∧
      ((s.openAsks host).map (·.tunnel)).Nodup ∧
      s'.waitingScb = s.waitingScb.filter (·.host ≠ host) ∧
      Within (fun p => (∃ a ∈ s.openAsks host, p = a.tunnel) ∨ s.nextConn ≤ p)
        (fun k => ∃ a ∈ s.openAsks host, ∃ c, s.conns a.tunnel = some c ∧ c.scb = some k)
        (fun u => ∃ a ∈ s.openAsks host, ∃ c, s.conns a.tunnel = some c ∧ c.user = some u) s s' := by
  obtain ⟨hw, hL, hI⟩ : s.net.Wf ∧ s.net.Links ∧ s.net.WakeInv :=
    h.runs.invariant (I := fun w => w.Wf ∧ w.Links ∧ w.WakeInv) hok
      ⟨init_wf .., Net.init_links .., Net.init_wakeInv ..⟩ fun _ _ hb hw hok hI =>
        ⟨hb.wf hw, hI.2.1.step hw hb fun o ho => (hok o ho).linkable, hI.2.2.step hI.2.1 hw hb hok⟩
  have hready : ∀ a ∈ asks host s.log, s.net.Ready ip (fun a => (s.conns a.tunnel).isSome) (Allowed
      (fun p => (∃ a ∈ s.openAsks host, p = a.tunnel) ∨ s.nextConn ≤ p)
      (fun k => ∃ a ∈ s.openAsks host, ∃ c, s.conns a.tunnel = some c ∧ c.scb = some k)
      (fun u => ∃ a ∈ s.openAsks host, ∃ c, s.conns a.tunnel = some c ∧ c.user = some u)) a := by
    intro a ha
    obtain ⟨tr, k, htr, hk, hl⟩ := hI.ready hw hres ha
    refine ⟨tr, k, htr, hk, ?_⟩
    split_ifs at hl ⊢ with hlive
    · obtain ⟨n, hn, -⟩ := hl
      have hmem : a ∈ s.openAsks host := List.mem_filter.mpr ⟨ha, hlive⟩
      obtain ⟨c, hc, rfl⟩ := conns_of_net hn.conn
      exact ⟨c.node, hn, .inl ⟨a, hmem, rfl⟩, ⟨a, hmem, c, hc, hn.scb⟩, fun u hu => ⟨a, hmem, c, hc, hu⟩⟩
    · exact hl
  obtain ⟨heq, hwp⟩ := informWaiters_eq host hready fun p hp => .inr hp
  obtain ⟨_, s₁, hs₁, hwithin, hwait⟩ := (wp_iff _ _ _).mp hwp
  have hinf : informWaiters ip (s.waitingScb.filter (·.host = host)) s = .ok ((), s₁) := by
    rw [hI.waiters, heq, hs₁]
  refine ⟨{ s₁ with waitingScb := s₁.waitingScb.filter (·.host ≠ host) }.emit (.answer host), ?_, ?_,
    hI.openAsks_nodup hw host, ?_, ?_⟩
  · exact run_bind_eq_ok.mpr ⟨s, s, rfl, run_bind_eq_ok.mpr ⟨(), s₁, hinf, rfl⟩⟩
  · exact run_bind_eq_ok.mpr ⟨s, s, rfl, run_bind_eq_ok.mpr ⟨(), s₁, hs₁, rfl⟩⟩
  · exact congrArg (List.filter _) hwait
  · exact ⟨hwithin.conns, hwithin.scbs, hwithin.users⟩

/-! ### Runs -/

/-- A login of a user of application 1 to a host. -/
def loginTo (mobile : ℕ) (host : Host) : List UInt8 :=
  frame (LoginReq.bytes ⟨1, mobile, 65 :: List.replicate 31 0, 80, host.length⟩ host)

/-- Hosts whose address is not in the cache. -/
def unknownHost : Host := "a.com".toUTF8.toList

def otherHost : Host := "b.com".toUTF8.toList

/-- User 2 asks for a host and closes the tunnel. -/
def closedWaiterRun : List (List Event) :=
  [[.connects 10], [.arrives 10 (loginTo 2 unknownHost)], [.arrives 10 []]]

/-- User 3 asks for another host, and is given the same block. -/
def reusedBlockRun : List (List Event) :=
  closedWaiterRun ++ [[.connects 11], [.arrives 11 (loginTo 3 otherHost)]]

/-- An event that finds descriptors for two sockets. -/
def twoSockets : Event := { fd := 5, inn := true, socks := [.opened 20 true, .opened 21 true] }

/-- The agents started: address, port, user and tunnel. -/
def connectsOf (l : List Obs) : List (ℕ × ℕ × UserId × Ptr) :=
  l.filterMap fun
    | .connect _ ip port u t _ => some (ip, port, u, t)
    | _ => none

/-- **An answer finds the wrong streams.**  After the waiting tunnel has been closed, an answer
without address follows a null pointer, and an answer with an address connects a web server for user
2 on the tunnel of user 3, who asked for another host. -/
theorem stale_waiters :
    (∃ s, Reachable (Server.init false 0 0 fun _ => 0) s [] ∧ (∀ o ∈ s.log, o.AsksOnce) ∧
      informClients unknownHost 0 s = .error .nullDeref) ∧
    ∃ s s', Reachable (Server.init false 0 0 fun _ => 0) s [] ∧ (∀ o ∈ s.log, o.AsksOnce) ∧
      s.openAsks unknownHost = [] ∧
      informClients unknownHost 5 (s.load twoSockets) = .ok ((), s') ∧
      connectsOf s'.log = [(5, 80, ⟨2, 1⟩, 4)] ∧ (s'.conns 4).bind (·.user) = some ⟨3, 1⟩ := by
  constructor
  · have hrun : (mainLoop closedWaiterRun (Server.init false 0 0 fun _ => 0)).map (fun s =>
        (decide (∀ o ∈ s.log, o.AsksOnce), faultOf (informClients unknownHost 0 s))) =
          some (true, some .nullDeref) := by
      decide +kernel
    obtain ⟨s, hs, he⟩ := Option.map_eq_some_iff.mp hrun
    obtain ⟨hok, hfault⟩ := Prod.mk.inj he
    exact ⟨s, mainLoop_reachable .start hs, of_decide_eq_true hok, eq_error_of_faultOf hfault⟩
  · have hrun : (mainLoop reusedBlockRun (Server.init false 0 0 fun _ => 0)).map (fun s =>
        (decide (∀ o ∈ s.log, o.AsksOnce), decide (s.openAsks unknownHost = []),
          (informClients unknownHost 5 (s.load twoSockets)).toOption.map fun r =>
            decide (connectsOf r.2.log = [(5, 80, ⟨2, 1⟩, 4)] ∧ (r.2.conns 4).bind (·.user) = some ⟨3, 1⟩))) =
          some (true, true, some true) := by
      decide +kernel
    obtain ⟨s, hs, he⟩ := Option.map_eq_some_iff.mp hrun
    simp only [Prod.mk.injEq, decide_eq_true_eq] at he
    obtain ⟨hok, hopen, hcall⟩ := he
    obtain ⟨⟨⟨⟩, s'⟩, hs', hcall⟩ := Option.map_eq_some_iff.mp hcall
    exact ⟨s, s', mainLoop_reachable .start hs, hok, hopen, eq_ok_of_toOption hs', of_decide_eq_true hcall⟩

/-- Two users ask for the same host and one for another; the first of them closes its tunnel. -/
def twoWaitersRun : List (List Event) :=
  [[.connects 10], [.arrives 10 (loginTo 2 unknownHost)], [.connects 11],
    [.arrives 11 (loginTo 3 unknownHost)], [.connects 12], [.arrives 12 (loginTo 4 otherHost)],
    [.arrives 10 []]]

/-- The waiter that is left is woken. -/
theorem wake_exact_twoWaitersRun : ∃ s s', Reachable (Server.init false 0 0 fun _ => 0) s [] ∧
    (∀ o ∈ s.log, o.AsksOnce) ∧ ((s.load twoSockets).openAsks unknownHost).map (·.tunnel) = [4] ∧
    informClients unknownHost 5 (s.load twoSockets) = .ok ((), s') ∧
    wake unknownHost 5 (s.load twoSockets) = .ok ((), s') ∧
    s'.waitingScb = s.waitingScb.filter (·.host ≠ unknownHost) := by
  have hrun : (mainLoop twoWaitersRun (Server.init false 0 0 fun _ => 0)).map (fun s =>
      (decide (∀ o ∈ s.log, o.AsksOnce), ((s.load twoSockets).openAsks unknownHost).map (·.tunnel),
        decide (∀ x ∈ s.waitingScb, x.host = unknownHost → (s.load twoSockets).resolves 5 x = true))) =
      some (true, [4], true) := by
    decide +kernel
  obtain ⟨s, hs, he⟩ := Option.map_eq_some_iff.mp hrun
  simp only [Prod.mk.injEq, decide_eq_true_eq] at he
  obtain ⟨hok, hopen, hres⟩ := he
  have hreach := mainLoop_reachable .start hs
  obtain ⟨s', hinf, hwake, -, hwait, -⟩ :=
    wake_exact (.event hreach twoSockets) hok unknownHost 5 hres
  exact ⟨s, s', hreach, hok, hopen, hinf, hwake, hwait⟩

end HttpsTunnel.Tms

import HttpsTunnel.Sdk.Acts

/-! # The events of the SDK as sequences of acts

The read loops (`StreamRecvEvent`, `ProxyRecvEvent`) and the two event handlers, said as `Acts`.  The
lengths of the reads on a tunnel are those of the metered loop (`readLengths`). -/

namespace HttpsTunnel.Sdk

open HttpsTunnel.Lib HttpsTunnel.Wire

/-! ### The loop of a tunnel -/

section Stream

variable {U : Prop} {p : Ptr} {s : State} {c : Connect}

theorem hangUp_acts (hp : s.conns p = some c) (wrote length : ℕ) :
    wp (hangUp p wrote length) (fun _ s' => Steps p false s s') s := by
  simp only [hangUp, wp, wpe_bind, wpe_modConn, wpe_deref, hp, State.setConn_self, found_iff, wpe_ite, wpe_pure]
  generalize hc' : ({ c with rDataLen := _, status := _, dec := _ } : Connect) = c'
  have hk : c'.key = c.key := by
    rw [← hc']
    rfl
  have h₁ : Act p false s (s.setConn p c') := .of_emits (.setConn hp hk)
  have h₂ : Act p false (s.setConn p c') ((s.setConn p c').unregistered c.sockFd) :=
    .of_emits (State.unregistered_emits _ _)
  refine wpe_mono (wpe_removeEvent.mpr ((Relation.ReflTransGen.single h₁).tail h₂)) ?_ fun _ => id
  exact fun _ s' h' => ⟨fun _ => h', fun _ => h'⟩

theorem wpe_sendRaw_peer {q : Ptr} {src : Option Ptr} {bs : List UInt8} (hs : s.Linked U) (hp : s.conns p = some c)
    (hpeer : c.peer = some q) : wpe (sendRaw q src bs) (fun r s' => ∃ d, s.conns q = some d ∧
      (d.type = .proxy ↔ c.type ≠ .proxy) ∧ match r with
        | some n => s.Takes bs.length n ∧ Emits s s' [.raw q src (bs.take n)] none
        | none => s.Fails ∧ Emits s s' [] none) (Fault.Within U) s := by
  cases hq : s.conns q with
  | none =>
      simp only [sendRaw, wpe_bind]
      exact hs.deref hp hpeer fun d hd _ => absurd (hq.symm.trans hd) (by simp)
  | some d => exact wpe_mono (wp_sendRaw hq) (fun r s' h => ⟨d, rfl, hs.kinds hp hpeer hq, h⟩) fun _ => False.elim

theorem onForward_acts (hs : s.Linked U) (hp : s.Tunnel p c) (length : ℕ) :
    wpe (onForward p length) (fun _ s' => Steps p false s s') (Fault.Within U) s := by
  simp only [onForward, wpe_bind, wpe_deref, hp.1, wpe_emit, found_iff]
  generalize c.dec.buff.slice 0 length = bs
  have h₁ : Act p false s (s.emit (.recv p bs)) := .say (o := .recv p bs) trivial s
  have hs₁ := h₁.linked hs
  cases hpeer : c.peer with
  | none => exact (Relation.ReflTransGen.single h₁).tail (.say (o := .http p bs) trivial _)
  | some q =>
      have hp₁ : (s.emit (.recv p bs)).Tunnel p c := hp
      generalize s.emit (.recv p bs) = s₁ at h₁ hs₁ hp₁ ⊢
      simp only [wpe_bind]
      refine wpe_mono (wpe_sendRaw_peer hs₁ hp₁.1 hpeer) ?_ fun _ => id
      rintro (_ | n) s₂ ⟨d, hd, hdt, h₂⟩
      · obtain ⟨c₂, hc₂, -⟩ := h₂.2.key hp₁.1
        refine wpe_mono (hangUp_acts hc₂ 0 length) ?_ fun _ => False.elim
        exact fun _ s₃ h₃ => ((Relation.ReflTransGen.single h₁).tail (.of_emits h₂.2)).trans h₃
      · have hact : Act p false s₁ s₂ :=
          .quiet h₂.2 fun o ho => .inr ⟨q, d, some p, bs.take n, List.mem_singleton.mp ho, ⟨hd, hdt.mpr hp.2⟩,
            by simpa [State.Passes] using ⟨c, hp₁, hpeer⟩⟩
        have hsteps : Steps p false s s₂ := (Relation.ReflTransGen.single h₁).tail hact
        obtain ⟨c₂, hc₂, -⟩ := h₂.2.key hp₁.1
        simp only [wpe_ite, wpe_pure]
        refine ⟨fun _ => wpe_mono (hangUp_acts hc₂ n length) ?_ fun _ => False.elim, fun _ => hsteps⟩
        exact fun _ s₃ h₃ => hsteps.trans h₃

/-- What a read does before its bytes are looked at. -/
theorem onRead_emits {dec : Decoder} (hp : s.Tunnel p c) (n : ℕ)
    (hdec : dec.cstate = .forward ↔ c.dec.cstate = .forward) :
    let s' := (endpoint p).put dec ((endpoint p).onRead n s)
    Emits s s' [] (some (p, trafficEst s.accurate n)) ∧ ∃ c', s'.Tunnel p c' ∧ c'.dec = dec := by
  intro s'
  have heq : s' = _ := put_onRead hp.1 n dec
  have hk : (c.stored (trafficEst s.accurate n) dec).key = c.key.counted (some (p, trafficEst s.accurate n)) p := by
    simp [Connect.key, Connect.stored, Key.counted, hdec]
  rw [heq]
  exact ⟨.counts hp.1 hk, _, ⟨State.setConn_self s p _, hp.2⟩, rfl⟩

/-- The metered loop of a tunnel. -/
theorem recvLoop_acts (hs : s.Linked U) (hp : s.Tunnel p c) (reads : List ReadRes) :
    wpe (recvLoop (endpoint p).metered reads) (fun _ w => Acts p w.2 s w.1)
      (fun e => (Fault.ofLoop e).Within U) (s, []) := by
  have htun : ∀ {ns s'}, Acts p ns s s' → ∃ c', s'.Tunnel p c' := fun h => h.tunnel hs hp
  have hview : ∀ {w : State × List ℕ} {c' dec}, w.1.Tunnel p c' → (endpoint p).metered.view w = some dec →
      c'.dec = dec := by
    intro w c' dec hc' hv
    have hv' : (w.1.conns p).map Connect.dec = some dec := hv
    rw [hc'.1, Option.map_some, Option.some.injEq] at hv'
    exact hv'
  refine recvLoop_rule (I := fun _ _ _ w => Acts p w.2 s w.1) ?_ (.refl s)
  constructor
  case freed =>
    intro _ _ _ w h hv
    obtain ⟨c', hc', -⟩ := htun h
    have hv' : (w.1.conns p).map Connect.dec = none := hv
    rw [hc'] at hv'
    cases hv'
  case fails =>
    intro _ _ _ w _ h _ _ e
    have henv : Emits w.1 { w.1 with errno := e } [] none :=
      .env rfl rfl rfl rfl List.suffix_rfl List.suffix_rfl rfl rfl
    exact h.act (.of_emits henv)
  case empty => exact fun h _ _ => h
  case eof => exact fun h _ => h
  case overflow => exact fun _ _ _ => Fault.noConfusion
  case read =>
    intro calls got bs rs w d h hv _ _ _
    obtain ⟨c', hc'⟩ := htun h
    obtain rfl := hview hc' hv
    generalize bs.take c'.dec.stillneedtoread = chunk
    have hmode := Decoder.recv_cstate_forward hdrFormat c'.dec chunk
    obtain ⟨hemits, c₁, hc₁, hdec₁⟩ := onRead_emits hc' chunk.length hmode
    have hread := h.read hc' hemits
    have hlinked := hread.linked hs
    simp only [Received]
    have hfmt : (endpoint p).metered.fmt = hdrFormat := rfl
    rw [hfmt]
    have hput : (endpoint p).metered.put (c'.dec.recv hdrFormat chunk).1
        ((endpoint p).metered.onRead chunk.length w) = ((endpoint p).put (c'.dec.recv hdrFormat chunk).1
          ((endpoint p).onRead chunk.length w.1), w.2 ++ [chunk.length]) := rfl
    rw [hput]
    generalize (endpoint p).put _ _ = s₁ at hread hlinked hc₁ ⊢
    clear hput
    have hhandled : ∀ {calls r s'}, Acts p (w.2 ++ [chunk.length]) s s' →
        Handled (fun _ _ _ w => Acts p w.2 s w.1) (fun _ w => Acts p w.2 s w.1) calls (got ++ chunk)
          (unread bs chunk.length rs) r (s', w.2 ++ [chunk.length]) := by
      intro calls r s' h'
      cases r <;> exact h'
    cases hr : (c'.dec.recv hdrFormat chunk).2 with
    | short | reject | header | ignored => exact hread
    | message =>
        have hmode : c₁.dec.cstate ≠ .forward := by
          rw [hdec₁, Decoder.recv_message _ _ _ hr]
          exact Mode.noConfusion
        refine wpe_aside.mpr ?_
        simp only [endpoint, wpe_bind, wpe_deref, hc₁.1, wpe_pure, found_iff]
        refine wpe_mono (handleRecvMsg_acts hlinked hc₁ hmode _) ?_ fun _ => id
        exact fun _ s' h' => hhandled (hread.message hc₁ hmode h')
    | forward =>
        refine wpe_aside.mpr (wpe_mono (onForward_acts hlinked hc₁ _) ?_ fun _ => id)
        exact fun _ s' h' => hhandled (hread.steps h')

/-- The lengths of the reads of the loop of a tunnel. -/
def readLengths (p : Ptr) (reads : List ReadRes) (s : State) : List ℕ :=
  match recvLoop (endpoint p).metered reads (s, []) with
  | .ok (_, w) => w.2
  | .error _ => []

theorem streamRecvEvent_acts (hs : s.Linked U) (hp : s.Tunnel p c) (reads : List ReadRes) :
    wpe (streamRecvEvent p reads) (fun _ s' => Acts p (readLengths p reads s) s s') (Fault.Within U) s := by
  have hm := recvLoop_acts hs hp reads
  have he := recvLoop_metered (E := endpoint p) reads (s, [])
  simp only [streamRecvEvent, wpe_bind, wpe_mapFault, wpe_pure]
  unfold readLengths
  simp only [wpe] at hm ⊢
  rw [he]
  cases hrun : recvLoop (endpoint p).metered reads (s, []) with
  | error e =>
      rw [hrun] at hm
      exact hm
  | ok r =>
      rw [hrun] at hm
      exact hm

end Stream

/-! ### The loop of a browser -/

section Proxy

variable {U : Prop} {p t : Ptr} {s : State} {c d : Connect}

theorem login_acts (hp : s.Browser p c) (ht : s.Tunnel t d) (hv : d.verified = false) (length : ℕ) :
    wpe (login p t length) (fun _ s' => Steps p false s s') (Fault.Within U) s := by
  have hne : t ≠ p := by
    rintro rfl
    obtain rfl : c = d := Option.mem_unique hp.1 ht.1
    exact ht.2 hp.2
  simp only [login, wpe_bind, wpe_modConn, wpe_deref, hp.1, wpe_get, wpe_ite, wpe_throw, State.setConn_self, found_iff]
  refine ⟨fun _ => Fault.noConfusion, fun _ => ?_⟩
  generalize hc₁ : ({ c with rDataLen := _ } : Connect) = c₁
  have hk₁ : c₁.key = c.key := by
    rw [← hc₁]
    rfl
  have h₁ : Act p false s (s.setConn p c₁) := .of_emits (.setConn hp.1 hk₁)
  have hp₁ : (s.setConn p c₁).Browser p c₁ :=
    ⟨State.setConn_self _ _ _, (congrArg Key.type hk₁).trans hp.2⟩
  have ht₁ : (s.setConn p c₁).conns t = some d := (State.setConn_ne _ _ hne).trans ht.1
  generalize s.setConn p c₁ = s₁ at h₁ hp₁ ht₁ ⊢
  simp only [ht₁, found_iff]
  generalize hd₂ : ({ d with auth := _, uid := _, mobile := _, host := _, webPort := _ } : Connect) = d₂
  have hk₂ : d₂.key = d.key := by
    rw [← hd₂]
    rfl
  have h₂ : Act p false s₁ (s₁.setConn t d₂) := .of_emits (.setConn ht₁ hk₂)
  have ht₂ : (s₁.setConn t d₂).Tunnel t d₂ :=
    ⟨State.setConn_self _ _ _, fun h => ht.2 ((congrArg Key.type hk₂).symm.trans h)⟩
  have hp₂ : (s₁.setConn t d₂).Browser p c₁ := ⟨(State.setConn_ne _ _ hne.symm).trans hp₁.1, hp₁.2⟩
  have hsteps : Steps p false s (s₁.setConn t d₂) := (Relation.ReflTransGen.single h₁).tail h₂
  generalize s₁.setConn t d₂ = s₂ at h₂ hp₂ ht₂ hsteps ⊢
  refine ⟨fun _ => Fault.noConfusion, fun _ => wpe_mono (wpe_sendTmsMsg_acts ht₂.1) ?_ fun _ => id⟩
  intro _ s₃ h₃
  refine wpe_mono (wp_addEvent _ _ _) ?_ fun _ => False.elim
  exact fun _ s₄ h₄ => (hsteps.tail (.login hp₂ ht₂ ((congrArg Key.verified hk₂).trans hv) h₃)).tail (.of_emits h₄)

theorem passUp_acts (hs : s.Linked U) (hp : s.Browser p c) (length : ℕ) :
    wpe (passUp p length) (fun _ s' => Steps p false s s') (Fault.Within U) s := by
  simp only [passUp, wpe_bind, wpe_deref, hp.1, found_iff]
  cases hpeer : c.peer with
  | none => exact .refl
  | some t =>
      simp only [wpe_bind]
      refine hs.deref hp.1 hpeer fun d hd hdt => ?_
      have ht : s.Tunnel t d := ⟨hd, fun h => hdt.mp h hp.2⟩
      simp only [wpe_bind, wpe_ite, wpe_pure]
      refine ⟨fun _ => .refl, fun _ => ⟨fun hv => ?_, fun hv => login_acts hp ht (by simpa using hv) length⟩⟩
      refine wpe_mono (wp_sendRaw hd) ?_ fun _ => False.elim
      rintro (_ | n) s₁ h₁
      · exact .single (.of_emits h₁.2)
      · exact .single (.upload hp hpeer ht hv h₁.2)

/-- The state behind `createConn`. -/
def State.dialled (s : State) (fd : ℕ) (rest : List DialRes) : State :=
  { s with
    conns := Function.update s.conns s.nextConn (some (tunnelConnect fd))
    nextConn := s.nextConn + 1
    connMap := Function.update s.connMap fd (some (some s.nextConn))
    dials := rest }

theorem wp_createConn (s : State) : wp createConn (fun r s' =>
    match r with
    | none => Emits s s' [] none
    | some t => t = s.nextConn ∧ ∃ fd rest, s.dials = .opened fd :: rest ∧ fd ≠ 0 ∧ s' = s.dialled fd rest) s := by
  have hdials : ∀ {r rest} e, s.dials = r :: rest → Emits s { s with dials := rest, errno := e } [] none :=
    fun e hd => .env rfl rfl rfl rfl List.suffix_rfl (hd ▸ List.suffix_cons _ _) rfl rfl
  simp only [createConn, sockOpen, setErrno, wp, wpe_bind, wpe_get]
  rcases hd : s.dials with _ | ⟨fd | e, rest⟩
  · exact .env rfl rfl rfl rfl List.suffix_rfl List.suffix_rfl rfl rfl
  · by_cases hfd : fd = 0
    · simp only [wpe_bind, wpe_set, wpe_pure, hfd, ↓reduceIte]
      exact hdials s.errno hd
    · simp only [wpe_bind, wpe_set, wpe_pure, wpe_get, hfd, ↓reduceIte]
      exact ⟨trivial, fd, rest, rfl, hfd, rfl⟩
  · exact hdials e hd

/-- The tunnel that is opened. -/
theorem openTunnel_acts (hs : s.Linked U) (hp : s.Browser p c) (hnone : c.peer = none) :
    wpe (openTunnel p) (fun _ s' => Steps p false s s') (Fault.Within U) s := by
  have hne : p ≠ s.nextConn := by
    rintro rfl
    cases (hs.unused _ le_rfl).symm.trans hp.1
  simp only [openTunnel, wpe_bind, wpe_deref, hp.1, wpe_ite, wpe_pure, found_iff]
  refine ⟨fun _ => .refl, fun _ => wpe_mono (wp_createConn s) ?_ fun _ => False.elim⟩
  rintro (_ | t) s₁ h₁
  · exact .single (.of_emits h₁)
  · obtain ⟨rfl, fd, rest, hd, hfd, rfl⟩ := h₁
    have hp₁ : (s.dialled fd rest).conns p = some c := (Function.update_of_ne hne _ _).trans hp.1
    have ht₁ : (s.dialled fd rest).conns s.nextConn = some (tunnelConnect fd) := Function.update_self _ _ _
    have ho₁ : ∀ q, q ≠ s.nextConn → (s.dialled fd rest).conns q = s.conns q := fun q hq =>
      Function.update_of_ne hq _ _
    simp only [wpe_bind, wpe_modConn, wpe_pure, hp₁, State.setConn_ne _ _ hne.symm, ht₁, found_iff]
    refine .single (.opens (?_ : Opens p fd s _))
    constructor
    case browser => exact ⟨c, hp, hnone, _, (State.setConn_ne _ _ hne).trans (State.setConn_self _ _ _), rfl⟩
    case tunnel => exact ⟨_, State.setConn_self _ _ _, rfl⟩
    case others =>
      exact fun q hqp hqn => (State.setConn_ne _ _ hqn).trans ((State.setConn_ne _ _ hqp).trans (ho₁ q hqn))
    case dials => exact hd
    case fd_ne => exact hfd
    all_goals rfl

theorem findRequest_within {m : CString.Mem} {n : ℕ} {e : Fault} (h : findRequest m n = .error e) : e.Within U := by
  rintro rfl
  unfold findRequest connectTarget at h
  grind

theorem handleProxyProtocol_acts (hs : s.Linked U) (hp : s.Browser p c) (hnone : c.peer = none) (n : ℕ) :
    wpe (handleProxyProtocol p n) (fun _ s' => Steps p false s s') (Fault.Within U) s := by
  simp only [handleProxyProtocol, wpe_bind, wpe_deref, hp.1, found_iff]
  have hopen : ∀ {c' : Connect}, Act p false s (s.setConn p c') → c'.type = c.type → c'.peer = c.peer →
      wpe (openTunnel p) (fun _ s' => Steps p false s s') (Fault.Within U) (s.setConn p c') := by
    intro c' h hty hpeer
    refine wpe_mono (openTunnel_acts (h.linked hs) ⟨State.setConn_self _ _ _, hty.trans hp.2⟩ (hpeer.trans hnone)) ?_
      fun _ => id
    exact fun _ s' h' => (Relation.ReflTransGen.single h).trans h'
  cases hr : findRequest (c.dec.buff.slice 0 buffSize) n with
  | error e => exact findRequest_within hr
  | ok r =>
      cases r with
      | tooLong =>
          simp only [wpe_bind, wpe_modConn, hp.1, wpe_pure, found_iff]
          exact .single (.connect hp hnone rfl)
      | connect host port =>
          simp only [wpe_bind, wpe_modConn, hp.1, found_iff]
          exact hopen (.connect hp hnone rfl) rfl rfl
      | plain host =>
          simp only [wpe_bind, wpe_modConn, hp.1, found_iff]
          exact hopen (.of_emits (.setConn hp.1 rfl)) rfl rfl

theorem Steps.browser {s' : State} (h : Steps p false s s') (hs : s.Linked U) (hp : s.Browser p c) :
    ∃ c', s'.Browser p c' :=
  ((Acts.refl s).steps h).browser hs hp

theorem onChunk_acts (hs : s.Linked U) (hp : s.Browser p c) (length : ℕ) :
    wpe (onChunk p length) (fun _ s' => Steps p false s s') (Fault.Within U) s := by
  simp only [onChunk, wpe_bind, wpe_deref, hp.1, wpe_emit, found_iff]
  generalize c.dec.buff.slice c.dec.offset length = bs
  have h₁ : Act p false s (s.emit (.recv p bs)) := .say (o := .recv p bs) trivial s
  have hs₁ := h₁.linked hs
  have hp₁ : (s.emit (.recv p bs)).Browser p c := hp
  generalize s.emit (.recv p bs) = s₁ at h₁ hs₁ hp₁ ⊢
  cases hpeer : c.peer with
  | some t =>
      refine wpe_mono (passUp_acts hs₁ hp₁ length) ?_ fun _ => id
      exact fun _ s' h' => (Relation.ReflTransGen.single h₁).trans h'
  | none =>
      simp only [wpe_bind]
      refine wpe_mono (handleProxyProtocol_acts hs₁ hp₁ hpeer _) ?_ fun _ => id
      intro ret s₂ h₂
      have hsteps : Steps p false s s₂ := (Relation.ReflTransGen.single h₁).trans h₂
      have hs₂ := h₂.linked hs₁
      obtain ⟨c₂, hp₂⟩ := h₂.browser hs₁ hp₁
      simp only [wpe_ite, wpe_bind, wpe_pure]
      refine ⟨fun _ => ?_, fun _ => ⟨fun _ => hsteps, fun _ => ?_⟩⟩
      · exact wpe_mono (ackUserFail_acts (b := false) hs₂ hp₂.1 _) (fun _ s' h' => hsteps.tail h') fun _ => id
      · exact wpe_mono (passUp_acts hs₂ hp₂ length) (fun _ s' h' => hsteps.trans h') fun _ => id

theorem proxyRecvEvent_acts (hs : s.Linked U) (hp : s.Browser p c) (reads : List ReadRes) :
    wpe (proxyRecvEvent p reads) (fun _ s' => Steps p false s s') (Fault.Within U) s := by
  have hconn : ∀ {s'}, Steps p false s s' → ∃ c', s'.Browser p c' := fun h => h.browser hs hp
  simp only [proxyRecvEvent, wpe_bind, wpe_mapFault, wpe_pure]
  refine recvLoop_rule (I := fun _ _ _ s' => Steps p false s s') ?_ .refl
  constructor
  case freed =>
    intro _ _ _ s' h hv
    obtain ⟨c', hc', -⟩ := hconn h
    simp only [proxyEndpoint, hc', Option.map_some, reduceCtorEq] at hv
  case fails =>
    intro _ _ _ s' _ h _ _ e
    have henv : Emits s' { s' with errno := e } [] none :=
      .env rfl rfl rfl rfl List.suffix_rfl List.suffix_rfl rfl rfl
    exact h.tail (.of_emits henv)
  case empty => exact fun h _ _ => h
  case eof => exact fun h _ => h
  case overflow => exact fun _ _ _ => Fault.noConfusion
  case read =>
    intro calls got bs rs s₀ d h hv _ _ _
    obtain ⟨c', hc'⟩ := hconn h
    have hd : { c'.dec with cstate := Mode.forward } = d := by
      simpa only [proxyEndpoint, hc'.1, Option.map_some, Option.some.injEq] using hv
    subst hd
    generalize bs.take _ = chunk
    -- the browser's loop reads in forward mode, whatever its `cstate` is
    have hrecv : ∀ F : Format, Decoder.recv F { c'.dec with cstate := .forward } chunk =
        ({ c'.dec with cstate := .forward, buff := c'.dec.buff.store c'.dec.offset chunk }, .forward) := by
      intro F
      simp [Decoder.recv]
    simp only [Received, hrecv, proxyEndpoint, hc'.1]
    generalize hc₁ : ({ c' with dec := _ } : Connect) = c₁
    have hk : c₁.key = c'.key := by
      rw [← hc₁]
      rfl
    have hset : Act p false s₀ (s₀.setConn p c₁) := .of_emits (.setConn hc'.1 hk)
    have hc₁' : (s₀.setConn p c₁).Browser p c₁ := ⟨State.setConn_self _ _ _, (congrArg Key.type hk).trans hc'.2⟩
    refine wpe_mono (onChunk_acts (hset.linked (h.linked hs)) hc₁' chunk.length) ?_ fun _ => id
    intro r s₂ h₂
    cases r <;> exact (h.tail hset).trans h₂

end Proxy

/-! ### Event handlers -/

section Handlers

variable {U : Prop} {p : Ptr} {fd : ℕ} {s : State} {c : Connect}

/-- The reads on a tunnel that is readable. -/
def tunnelReads (fd : ℕ) (reads : List ReadRes) (s : State) : List ℕ :=
  match s.connMap fd with
  | some (some p) =>
      match s.conns p with
      | some c => if c.type = .proxy then [] else readLengths p reads (s.setConn p { c with host := [] })
      | none => []
  | _ => []

theorem handleRecvEvent_acts (hs : s.Linked U) (hfd : s.connMap fd = some (some p)) (hp : s.conns p = some c)
    (reads : List ReadRes) :
    wpe (handleRecvEvent fd reads) (fun _ s' => Acts p (tunnelReads fd reads s) s s') (Fault.Within U) s := by
  simp only [handleRecvEvent, tunnelReads, wpe_bind, wpe_get, hfd, wpe_deref, wpe_ite, wpe_modConn, hp, found_iff]
  refine ⟨fun hty => ?_, fun hty => ?_⟩
  · rw [if_pos hty]
    exact wpe_mono (proxyRecvEvent_acts hs ⟨hp, hty⟩ reads) (fun _ s' h' => (Acts.refl s).steps h') fun _ => id
  · rw [if_neg hty]
    have h₁ : Act p false s (s.setConn p { c with host := [] }) := .of_emits (.setConn hp rfl)
    have hp₁ : (s.setConn p { c with host := [] }).Tunnel p { c with host := [] } := ⟨State.setConn_self _ _ _, hty⟩
    refine wpe_mono (streamRecvEvent_acts (h₁.linked hs) hp₁ reads) ?_ fun _ => id
    exact fun _ s' h' => ((Acts.refl s).act h₁).append h'

theorem flushed_acts {t : Ptr} {d : Connect} (hp : s.conns p = some c) (ht : s.conns t = some d) (wrote : Option ℕ) :
    wp (flushed p t wrote) (fun _ s' => Emits s s' [] none) s := by
  simp only [flushed, wp, wpe_bind, wpe_deref, hp, ht, found_iff]
  cases wrote with
  | none =>
      simp only [wpe_bind, wpe_pure]
      exact wp_addEvent _ _ _
  | some n =>
      simp only [wpe_ite, wpe_bind, wpe_modConn, ht, wpe_pure, found_iff]
      refine ⟨fun _ => ?_, fun _ => ⟨fun _ => .setConn ht rfl, fun _ => wp_addEvent _ _ _⟩⟩
      generalize hd' : ({ d with status := _, dec := _ } : Connect) = d'
      have hset : Emits s (s.setConn t d') [] none := by
        refine .setConn ht ?_
        rw [← hd']
        rfl
      refine wpe_mono (wp_addEvent _ _ _) ?_ fun _ => id
      exact fun _ s' h' => hset.trans h'

/-- Nothing happens but that the browser `p` is given bytes of a tunnel. -/
def Serves (p : Ptr) (s s' : State) : Prop :=
  ∃ l, Emits s s' l none ∧ ∀ o ∈ l, o.Quiet ∨
    o.ToBrowser s fun t q => q = p ∧ ∃ d, s.Tunnel t d ∧ s.peerOf p = some d ∧ d.status = .hangup

theorem Serves.of_emits {s' : State} (h : Emits s s' [] none) : Serves p s s' := ⟨[], h, by simp⟩

theorem flush_serves {t : Ptr} {d : Connect} (hp : s.Browser p c) (ht : s.Tunnel t d) (hpeer : c.peer = some t)
    (hup : d.status = .hangup) :
    wpe (flush p t) (fun _ s' => Serves p s s') (Fault.Within U) s := by
  simp only [flush, wpe_bind, wpe_deref, ht.1, wpe_ite, wpe_pure, wpe_throw, found_iff]
  refine ⟨fun _ => .of_emits (.refl s), fun _ => ⟨fun _ => Fault.noConfusion, fun _ => ?_⟩⟩
  refine wpe_mono (wp_sendRaw hp.1) ?_ fun _ => False.elim
  rintro (_ | n) s₁ h₁
  · obtain ⟨c₁, hc₁, -⟩ := h₁.2.key hp.1
    obtain ⟨d₁, hd₁, -⟩ := h₁.2.key ht.1
    refine wpe_mono (flushed_acts hc₁ hd₁ none) ?_ fun _ => False.elim
    exact fun _ s' h' => .of_emits (h₁.2.trans h')
  · obtain ⟨c₁, hc₁, -⟩ := h₁.2.key hp.1
    obtain ⟨d₁, hd₁, -⟩ := h₁.2.key ht.1
    refine wpe_mono (flushed_acts hc₁ hd₁ (some n)) ?_ fun _ => False.elim
    intro _ s' h'
    refine ⟨_, h₁.2.quiet h', ?_⟩
    rw [List.append_nil]
    exact fun o ho => .inr ⟨p, c, some t, _, List.mem_singleton.mp ho, hp, by
      simpa using ⟨d, ht, State.peerOf_eq_some.mpr ⟨c, t, hp.1, hpeer, ht.1⟩, hup⟩⟩

/-- A tunnel or browser that is writable. -/
theorem handleEPOEvent_serves (hs : s.Linked U) (hfd : s.connMap fd = some (some p)) (hp : s.conns p = some c) :
    wpe (handleEPOEvent fd) (fun _ s' => Serves p s s') (Fault.Within U) s := by
  simp only [handleEPOEvent, wpe_bind, wpe_get, hfd, wpe_deref, hp, found_iff]
  cases hpeer : c.peer with
  | none => exact .of_emits (.refl s)
  | some t =>
      simp only [wpe_bind]
      refine hs.deref hp hpeer fun d hd hdt => ?_
      simp only [wpe_bind, wpe_ite, wpe_pure]
      exact ⟨fun h => flush_serves ⟨hp, h.2⟩ ⟨hd, fun hty => hdt.mp hty h.2⟩ hpeer h.1, fun _ => .of_emits (.refl s)⟩

end Handlers

end HttpsTunnel.Sdk

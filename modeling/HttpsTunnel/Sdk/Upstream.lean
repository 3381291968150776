import HttpsTunnel.Sdk.Events

/-! # What the SDK writes on a tunnel

Two handlers write on a tunnel: `ProxyRecvEvent` on the browser's connection and `HandleRecvMsg` on
the tunnel itself.  They agree by `verified` and `cstate`.  `Upward` is the order in which the TMS
expects the pieces: login requests, one `BEGIN_TRANSMIT`, and from then on the browser's bytes.

`Orderly` is the invariant that carries it: the acts of an event (`Acts.lean`) keep it, unless a
`CONNECT_HOST_RSP` with `SUCC` is among the messages handled: on that one the SDK starts to transmit
on a tunnel that is not verified. -/

namespace HttpsTunnel.Sdk

open HttpsTunnel.Lib HttpsTunnel.Wire

/-! ### Pieces -/

/-- A piece written on a tunnel: a frame of `SendTmsMsg`, or other bytes. -/
inductive Piece where
  | frame (bs : List UInt8)
  | raw (bs : List UInt8)
deriving DecidableEq, Repr

/-- A whole login request. -/
def Piece.IsLogin (w : Piece) : Prop := ∃ r host, w = .frame (Wire.frame (LoginReq.bytes r host))

/-- What is written on `t`. -/
def Obs.pieceOn (t : Ptr) : Obs → Option Piece
  | frame p body n => if p = t then some (.frame ((Wire.frame body).take n)) else none
  | raw p _ bs => if p = t then some (.raw bs) else none
  | _ => none

/-- A `ConnectHostRsp` has one of the codes the TMS sends. -/
def Obs.HostOk : Obs → Prop
  | msg _ b len => 4 ≤ len → MsgId.ofNat? (msgId b) = some .connectHostRsp →
      (ConnectHostRsp.read b).rspCode = RespCode.prog.toNat ∨
        (ConnectHostRsp.read b).rspCode = RespCode.fail.toNat
  | _ => True

instance : DecidablePred Obs.HostOk
  | .msg _ _ _ => inferInstanceAs (Decidable (_ → _ → _ ∨ _))
  | .recv _ _ | .frame _ _ _ | .raw _ _ _ | .shut _ | .http _ _ | .wakeup _ => .isTrue trivial

theorem Obs.HostOk.not_hostSucc {o : Obs} (h : o.HostOk) : ¬ o.HostSucc := by
  intro hsucc
  cases o with
  | msg p b len =>
      obtain ⟨hlen, hid, hcode⟩ := hsucc
      rcases h hlen hid with hr | hr <;> rw [hcode] at hr <;> cases hr
  | recv | frame | raw | shut | http | wakeup => exact hsucc

/-- The pieces written on `t` so far. -/
def State.written (s : State) (t : Ptr) : List Piece := s.log.filterMap (Obs.pieceOn t)

@[simp] theorem State.written_emit (s : State) (o : Obs) (t : Ptr) :
    (s.emit o).written t = s.written t ++ (o.pieceOn t).toList := by
  cases h : o.pieceOn t <;> simp [written, emit, h]

@[simp] theorem State.written_setConn (s : State) (p : Ptr) (c : Connect) (t : Ptr) :
    (s.setConn p c).written t = s.written t := rfl

/-- Login requests; once verified, one `BEGIN_TRANSMIT` with the forward id of a `READY` response,
and then raw bytes only. -/
inductive Upward (ids : List ℕ) : Bool → List Piece → Prop
  | logins {ws : List Piece} (h : ∀ w ∈ ws, w.IsLogin) : Upward ids false ws
  | begun {ws : List Piece} {id : ℕ} (h : ∀ w ∈ ws, w.IsLogin) (hid : id ∈ ids) (raws : List (List UInt8)) :
      Upward ids true
        (ws ++ .frame (Wire.frame (BeginTransmit.bytes ⟨id % 2 ^ 32⟩)) :: raws.map .raw)

namespace Upward

variable {ids ids' : List ℕ} {v : Bool} {ws : List Piece}

theorem mono (h : Upward ids v ws) (hsub : ids ⊆ ids') : Upward ids' v ws := by
  cases h with
  | logins h => exact .logins h
  | begun h hid raws => exact .begun h (hsub hid) raws

theorem login {w : Piece} (h : Upward ids false ws) (hw : w.IsLogin) : Upward ids false (ws ++ [w]) := by
  cases h with
  | logins h => exact .logins (by simpa [or_imp, forall_and] using ⟨h, hw⟩)

theorem begin {id : ℕ} (h : Upward ids false ws) (hid : id ∈ ids) :
    Upward ids true (ws ++ [.frame (Wire.frame (BeginTransmit.bytes ⟨id % 2 ^ 32⟩))]) := by
  cases h with
  | logins h => exact .begun h hid []

theorem raw (h : Upward ids true ws) (bs : List UInt8) : Upward ids true (ws ++ [.raw bs]) := by
  cases h with
  | @begun ws id h hid raws =>
      have hr := Upward.begun h hid (raws ++ [bs])
      simpa using hr

end Upward

/-! ### The invariant -/

/-- Writes are accepted in full, and pointers not handed out yet lead nowhere. -/
structure State.Sane (s : State) : Prop where
  full : s.writes = []
  unused : ∀ p, s.nextConn ≤ p → s.conns p = none

theorem State.Sane.setConn {s : State} {p : Ptr} {c : Connect} (h : s.Sane) (hp : s.conns p = some c)
    (c' : Connect) : (s.setConn p c').Sane := by
  refine ⟨h.full, fun q hq => ?_⟩
  have hne : q ≠ p := by
    rintro rfl
    rw [h.unused q hq] at hp
    cases hp
  exact (s.setConn_ne c' hne).trans (h.unused q hq)

/-- What holds of a tunnel: it is in forward mode once it is verified. -/
structure State.Speaks (s : State) (t : Ptr) (c : Connect) : Prop where
  mode : c.verified = decide (c.dec.cstate = .forward)
  upward : Upward (s.readyIds t) c.verified (s.written t)

structure State.Orderly (s : State) : Prop where
  linked : s.Linked False
  full : s.writes = []
  silent : ∀ p, s.nextConn ≤ p → s.written p = []
  tunnel : ∀ {t c}, s.Tunnel t c → s.Speaks t c

section Acts

variable {s s₁ s' : State} {p q t : Ptr} {c d : Connect} {l : List Obs} {z : Option (Ptr × ℤ)} {b : Bool}

theorem State.Linked.lt_next {U : Prop} (hs : s.Linked U) (hp : s.conns p = some c) : p < s.nextConn := by
  by_contra hle
  cases (hs.unused p (Nat.le_of_not_lt hle)).symm.trans hp

theorem State.written_append (hl : s'.log = s.log ++ l) (t : Ptr) :
    s'.written t = s.written t ++ l.filterMap (Obs.pieceOn t) := by
  rw [State.written, hl, List.filterMap_append, State.written]

theorem State.readyIds_subset (hl : s'.log = s.log ++ l) (t : Ptr) : s.readyIds t ⊆ s'.readyIds t := by
  rw [State.readyIds, State.readyIds, hl, List.filterMap_append]
  exact List.subset_append_left _ _

theorem pieces_eq_nil (hl : ∀ o ∈ l, o.pieceOn t = none) : l.filterMap (Obs.pieceOn t) = [] :=
  List.filterMap_eq_nil_iff.mpr hl

/-- What the entries say on the tunnels has to be in order, and nothing is said on a new one. -/
theorem Emits.orderly (h : Emits s s' l z) (ho : s.Orderly)
    (hnew : ∀ t, s.nextConn ≤ t → ∀ o ∈ l, o.pieceOn t = none)
    (hsay : ∀ t c, s.Tunnel t c → Upward (s.readyIds t) c.verified (s.written t) →
      Upward (s.readyIds t) c.verified (s.written t ++ l.filterMap (Obs.pieceOn t))) : s'.Orderly where
  linked := (SameIdents.of_emits h).linked ho.linked
  full := List.suffix_nil.mp (ho.full ▸ h.writes)
  silent t ht := by
    rw [h.nextConn] at ht
    rw [State.written_append h.log, ho.silent t ht, pieces_eq_nil (hnew t ht), List.append_nil]
  tunnel {t c'} ht := by
    obtain ⟨c, hc, hk⟩ := h.key_of ht.1
    have htn : s.Tunnel t c := ⟨hc, fun hty => ht.2 ((congrArg Key.type hk).trans hty)⟩
    obtain ⟨mode, up⟩ := ho.tunnel htn
    have hv : c'.verified = c.verified := congrArg Key.verified hk
    have hm : decide (c'.dec.cstate = .forward) = decide (c.dec.cstate = .forward) := congrArg Key.forward hk
    refine ⟨hv.trans (mode.trans hm.symm), ?_⟩
    rw [hv, State.written_append h.log]
    exact (hsay t c htn up).mono (State.readyIds_subset h.log t)

/-- Nothing is said on a tunnel. -/
theorem Emits.orderly_quiet {R : Ptr → Ptr → Prop} (h : Emits s s' l z) (ho : s.Orderly)
    (hl : ∀ o ∈ l, o.Quiet ∨ o.ToBrowser s R) : s'.Orderly := by
  have hnone : ∀ t, (∀ d, s.conns t = some d → d.type ≠ .proxy) → ∀ o ∈ l, o.pieceOn t = none := by
    intro t ht o hmem
    rcases hl o hmem with hq | ⟨q, d, src, bs, rfl, ⟨hd, hty⟩, -⟩
    · cases o with
      | raw | frame => exact hq.elim
      | _ => rfl
    · refine if_neg fun he => ?_
      subst he
      exact ht d hd hty
  refine h.orderly ho (fun t ht => hnone t fun d hd => ?_) fun t c htn up => ?_
  · cases (ho.linked.unused t ht).symm.trans hd
  · rw [pieces_eq_nil (hnone t fun d hd => Option.mem_unique htn.1 hd ▸ htn.2), List.append_nil]
    exact up

/-- One piece on the tunnel `t`. -/
theorem Emits.orderly_say {o : Obs} (h : Emits s s' [o] z) (ho : s.Orderly) (ht : s.Tunnel t d)
    (hothers : ∀ q, t ≠ q → o.pieceOn q = none)
    (hsay : Upward (s.readyIds t) d.verified (s.written t) →
      Upward (s.readyIds t) d.verified (s.written t ++ (o.pieceOn t).toList)) : s'.Orderly := by
  have hpiece : ∀ q, [o].filterMap (Obs.pieceOn q) = (o.pieceOn q).toList := fun q => by
    cases ho : o.pieceOn q <;> simp [ho]
  refine h.orderly ho (fun q hq x hx => ?_) fun q c hqn up => ?_
  · rw [List.mem_singleton.mp hx]
    exact hothers q ((ho.linked.lt_next ht.1).trans_le hq).ne
  · rw [hpiece]
    by_cases hqt : t = q
    · subst hqt
      obtain rfl : d = c := Option.mem_unique ht.1 hqn.1
      exact hsay up
    · rw [hothers q hqt, Option.toList_none, List.append_nil]
      exact up

/-- Raw bytes on a tunnel that is verified. -/
theorem Emits.orderly_raw {src : Option Ptr} {bs : List UInt8} (h : Emits s s' [.raw t src bs] z) (ho : s.Orderly)
    (ht : s.Tunnel t d) (hv : d.verified = true) : s'.Orderly :=
  h.orderly_say ho ht (fun _ hq => if_neg hq) fun up => by
    rw [hv] at up ⊢
    simpa [Obs.pieceOn] using up.raw bs

theorem State.Orderly.not_fails (ho : s.Orderly) : ¬ s.Fails := fun ⟨_, he⟩ => by simp [ho.full] at he

theorem Sends.orderly {src : Option Ptr} {msg : List UInt8} (h : Sends t src msg s s') (ho : s.Orderly)
    (ht : s.conns t = some d) (hd : d.type = .proxy ∨ d.verified = true) : s'.Orderly := by
  cases h with
  | fails hf _ => exact absurd hf ho.not_fails
  | sent n hn h =>
      by_cases hty : d.type = .proxy
      · refine h.orderly_quiet (R := fun _ _ => True) ho fun o hmem => .inr ?_
        exact ⟨t, d, src, _, List.mem_singleton.mp hmem, ⟨ht, hty⟩, fun _ _ => trivial⟩
      · exact h.orderly_raw ho ⟨ht, hty⟩ (hd.resolve_left hty)

theorem Admits.orderly (h : Admits p s s') (ho : s.Orderly) : s'.Orderly := by
  cases h with
  | wakes h => exact h.orderly_quiet (R := fun _ _ => False) ho (by simp [Obs.Quiet])
  | answer hp hv _ _ _ h => exact h.orderly ho hp.1 (.inr hv)
  | established _ _ hq _ h => exact h.orderly ho hq.1 (.inl hq.2)

/-- The tunnel becomes verified and `BEGIN_TRANSMIT` is sent. -/
theorem Act.begins_orderly {c' : Connect} {n id k : ℕ} (ho : s.Orderly) (hp : s.Tunnel p c)
    (hm : c.dec.cstate ≠ .forward) (hk : c'.key = { c.key with verified := true, forward := true, counter := n })
    (hid : id ∈ s.readyIds p) (hn : k = (frame (BeginTransmit.bytes ⟨id % 2 ^ 32⟩)).length)
    (h : Emits (s.setConn p c') s' [.frame p (BeginTransmit.bytes ⟨id % 2 ^ 32⟩) k] z) : s'.Orderly where
  linked := by
    have hident : c'.ident = c.ident :=
      Prod.ext (congrArg Key.type hk) (Prod.ext (congrArg Key.peer hk) (congrArg Key.sockFd hk))
    exact ((SameIdents.setConn hp.1 hident).trans (.of_emits h)).linked ho.linked
  full := List.suffix_nil.mp (ho.full ▸ h.writes)
  silent t ht := by
    rw [h.nextConn] at ht
    have hne : p ≠ t := ((ho.linked.lt_next hp.1).trans_le ht).ne
    rw [State.written_append (s := s) h.log, ho.silent t ht]
    exact pieces_eq_nil (by simp [Obs.pieceOn, hne])
  tunnel {t c₂} ht := by
    obtain ⟨c₁, hc₁, hk₁⟩ := h.key_of ht.1
    have hv : c₂.verified = c₁.verified := congrArg Key.verified hk₁
    have hf : decide (c₂.dec.cstate = .forward) = decide (c₁.dec.cstate = .forward) := congrArg Key.forward hk₁
    by_cases htp : t = p
    · subst htp
      obtain rfl : c' = c₁ := Option.mem_unique (State.setConn_self _ _ _) hc₁
      obtain ⟨mode, up⟩ := ho.tunnel hp
      have hv' : c'.verified = true := congrArg Key.verified hk
      have hf' : decide (c'.dec.cstate = .forward) = true := congrArg Key.forward hk
      refine ⟨by rw [hv, hf, hv', hf'], ?_⟩
      rw [mode, decide_eq_false hm] at up
      rw [hv, hv', State.written_append (s := s) h.log]
      have hbegin := (up.begin hid).mono (State.readyIds_subset (s := s) h.log t)
      simpa [Obs.pieceOn, hn] using hbegin
    · rw [State.setConn_ne _ _ htp] at hc₁
      have htn : s.Tunnel t c₁ := ⟨hc₁, fun hty => ht.2 ((congrArg Key.type hk₁).trans hty)⟩
      obtain ⟨mode, up⟩ := ho.tunnel htn
      refine ⟨by rw [hv, hf, mode], ?_⟩
      rw [hv, State.written_append (s := s) h.log, pieces_eq_nil (by simp [Obs.pieceOn, Ne.symm htp]), List.append_nil]
      exact up.mono (State.readyIds_subset (s := s) h.log t)

/-- The browser `p` is given a new tunnel. -/
theorem Opens.orderly {fd : ℕ} (h : Opens p fd s s') (ho : s.Orderly) : s'.Orderly where
  linked := h.linked ho.linked
  full := h.writes.trans ho.full
  silent t ht := by
    rw [h.nextConn] at ht
    rw [State.written, h.log]
    exact ho.silent t (Nat.le_of_succ_le ht)
  tunnel {t c'} ht := by
    have hlog : s'.written t = s.written t ∧ s'.readyIds t = s.readyIds t := by
      rw [State.written, State.readyIds, h.log]
      exact ⟨rfl, rfl⟩
    by_cases htn : t = s.nextConn
    · subst htn
      obtain ⟨d, hd, hk⟩ := h.tunnel
      obtain rfl : d = c' := Option.mem_unique hd ht.1
      have hv : d.verified = false := congrArg Key.verified hk
      have hm : decide (d.dec.cstate = .forward) = false := congrArg Key.forward hk
      refine ⟨hv.trans hm.symm, ?_⟩
      rw [hv, hlog.1, ho.silent _ le_rfl]
      exact .logins (by simp)
    · have htp : t ≠ p := by
        rintro rfl
        obtain ⟨c, hc, -, d, hd, hk⟩ := h.browser
        obtain rfl : d = c' := Option.mem_unique hd ht.1
        exact ht.2 ((congrArg Key.type hk).trans hc.2)
      obtain ⟨mode, up⟩ := ho.tunnel ⟨(h.others t htp htn).symm.trans ht.1, ht.2⟩
      exact ⟨mode, by rwa [hlog.1, hlog.2]⟩

/-- **Every act** keeps the order, unless it follows a host response with `SUCC`. -/
theorem Act.orderly (h : Act p b s s') (hn : ∀ o ∈ s.log, ¬ o.HostSucc) (ho : s.Orderly) : s'.Orderly := by
  have hlinked := h.linked ho.linked
  cases h with
  | quiet h hl => exact h.orderly_quiet ho hl
  | upload _ _ ht hv h => exact h.orderly_raw ho ht hv
  | login _ ht hv h =>
      cases h with
      | fails hf _ => exact absurd hf ho.not_fails
      | sent n hn h =>
          refine h.orderly_say ho ht (fun _ hq => if_neg hq) fun up => ?_
          rw [hv] at up ⊢
          simpa [Obs.pieceOn, hn.2 ho.full] using up.login ⟨_, _, rfl⟩
  | begins hp hm hk hwhy h hr =>
      obtain ⟨rfl, id, hid, rfl⟩ | ⟨o, hmem, hsucc⟩ := hwhy
      · cases h with
        | fails hf _ => exact absurd hf ho.not_fails
        | sent n hn h => exact hr.orderly (Act.begins_orderly ho hp hm hk hid (hn.2 ho.full) h)
      · exact absurd hsucc (hn o hmem)
  | @connect _ c c' hp hpeer hk =>
      refine ⟨hlinked, ho.full, ho.silent, fun {t d} ht => ?_⟩
      have htp : t ≠ p := by
        rintro rfl
        obtain rfl : c' = d := Option.mem_unique (State.setConn_self _ _ _) ht.1
        exact ht.2 ((congrArg Key.type hk).trans hp.2)
      obtain ⟨mode, up⟩ := ho.tunnel ⟨(State.setConn_ne _ _ htp).symm.trans ht.1, ht.2⟩
      exact ⟨mode, up⟩
  | opens h => exact h.orderly ho

/-- From `s` to `s'` the log grows and the order is kept. -/
structure Moves (s s' : State) : Prop where
  linked : s.Linked False → s'.Linked False
  grows : s.log <+: s'.log
  keeps : (∀ o ∈ s'.log, ¬ o.HostSucc) → s.Orderly → s'.Orderly

instance : Std.Refl Moves := ⟨fun _ => ⟨id, List.prefix_rfl, fun _ => id⟩⟩

instance : IsTrans State Moves := ⟨fun _ _ _ h h' => ⟨fun hs => h'.linked (h.linked hs), h.grows.trans h'.grows,
  fun hn ho => h'.keeps hn (h.keeps (fun o hm => hn o (h'.grows.subset hm)) ho)⟩⟩

theorem Act.moves (h : Act p b s s') : Moves s s' :=
  ⟨h.linked, h.log, fun hn ho => h.orderly (fun o hm => hn o (h.log.subset hm)) ho⟩

theorem Steps.moves (h : Steps p b s s') : Moves s s' := by
  induction h with
  | refl => exact refl_of Moves _
  | tail _ h ih => exact trans_of Moves ih h.moves

theorem Acts.moves {ns : List ℕ} (h : Acts p ns s s') : Moves s s' := by
  induction h with
  | refl => exact refl_of Moves _
  | act _ h ih => exact trans_of Moves ih h.moves
  | read _ _ h ih =>
      refine trans_of Moves ih ⟨(SameIdents.of_emits h).linked, ⟨_, h.log.symm⟩, fun _ ho => ?_⟩
      exact h.orderly_quiet (R := fun _ _ => True) ho (by simp)
  | message _ _ _ h ih => exact trans_of Moves ih (Steps.moves h)

theorem Event.run_moves (hs : s.Linked False) (e : Event) : wlp e.run (fun _ s' => Moves s s') s := by
  cases e with
  | readable fd rs =>
      simp only [Event.run, wlp, wpe_bind, wpe_pure]
      rcases hfd : s.connMap fd with _ | _ | p
      · simp only [handleRecvEvent, wpe_bind, wpe_get, hfd]
        exact refl_of Moves s
      · simp only [handleRecvEvent, wpe_bind, wpe_get, hfd]
        exact refl_of Moves s
      · cases hp : s.conns p with
        | none => simp [handleRecvEvent, hfd, hp]
        | some c => exact wpe_mono (handleRecvEvent_acts hs hfd hp rs) (fun _ _ h => h.moves) fun _ _ => trivial
  | writable fd =>
      simp only [Event.run, wlp, wpe_bind, wpe_pure]
      rcases hfd : s.connMap fd with _ | _ | p
      · simp only [handleEPOEvent, wpe_bind, wpe_get, hfd]
        exact ⟨fun h => ⟨h.alive, h.kinds, h.known, h.unused⟩, List.prefix_rfl, fun _ h =>
          ⟨⟨h.linked.alive, h.linked.kinds, h.linked.known, h.linked.unused⟩, h.full, h.silent, fun ht =>
            ⟨(h.tunnel ht).mode, (h.tunnel ht).upward⟩⟩⟩
      · simp only [handleEPOEvent, wpe_bind, wpe_get, hfd]
        exact refl_of Moves s
      · cases hp : s.conns p with
        | none => simp [handleEPOEvent, hfd, hp]
        | some c =>
            refine wpe_mono (handleEPOEvent_serves hs hfd hp) ?_ fun _ _ => trivial
            rintro _ s' ⟨l, h, hl⟩
            exact ⟨(SameIdents.of_emits h).linked, ⟨l, h.log.symm⟩, fun _ ho => h.orderly_quiet ho hl⟩

end Acts

/-! ### Whole runs -/

theorem runAll_moves {s s' : State} (hs : s.Linked False) (es : List Event) (h : runAll Event.run es s = .ok ((), s')) :
    Moves s s' := by
  induction es generalizing s with
  | nil =>
      cases h
      exact refl_of Moves _
  | cons e es ih =>
      obtain ⟨⟨⟩, s₁, he, hrest⟩ := run_bind_eq_ok.mp h
      have h₁ : Moves s s₁ := (wlp_iff _ _ _).mp (Event.run_moves hs e) _ _ he
      exact trans_of Moves h₁ (ih (h₁.linked hs) hrest)

/-- Browsers have connected, and nothing has been read yet. -/
structure State.Fresh (s : State) : Prop where
  sane : s.Sane
  browser : ∀ p c, s.conns p = some c → c.type = .proxy ∧ c.peer = none
  log : s.log = []

theorem State.Fresh.orderly {s : State} (h : s.Fresh) : s.Orderly := by
  have hpeer : ∀ {p c q}, s.conns p = some c → c.peer = some q → False := by
    intro p c q hc hq
    cases (h.browser p c hc).2.symm.trans hq
  refine ⟨⟨fun hc hq _ => hpeer hc hq, fun hc hq => (hpeer hc hq).elim, fun hc hq => (hpeer hc hq).elim, h.sane.unused⟩,
    h.sane.full, fun p _ => by simp [State.written, h.log], fun ht => ?_⟩
  exact absurd (h.browser _ _ ht.1).1 ht.2

/-- **What is written on a tunnel.**  After any events, with every write accepted in full, and unless
the TMS answers with a `ConnectHostRsp` other than `PROG` or `FAIL`: login requests, then at most one
`BEGIN_TRANSMIT` with the forward id of the `READY` response, then raw bytes. -/
theorem tunnel_written_upward (es : List Event) (s s' : State) (h : s.Fresh)
    (hrun : runAll Event.run es s = .ok ((), s')) (hhost : ∀ o ∈ s'.log, o.HostOk)
    (t : Ptr) (c : Connect) (hc : s'.conns t = some c) (hty : c.type = .tunnel) :
    Upward (s'.readyIds t) c.verified (s'.written t) := by
  have hno : ∀ o ∈ s'.log, ¬ o.HostSucc := fun o ho => (hhost o ho).not_hostSucc
  have hord := (runAll_moves h.orderly.linked es hrun).keeps hno h.orderly
  refine (hord.tunnel ⟨hc, ?_⟩).upward
  rw [hty]
  exact ConnType.noConfusion

/-- The connection of a browser that has been accepted. -/
def proxyConnect (fd : ℕ) : Connect where
  sockFd := fd
  type := .proxy
  dec := ⟨.header, 0, buffSize, 0, fun _ => 0⟩

/-- The SDK with one browser; a tunnel can be opened. -/
def browserState : State where
  accurate := false
  config := ⟨[65], 1, 2⟩
  conns p := if p = 0 then some (proxyConnect 10) else none
  nextConn := 1
  connMap fd := if fd = 10 then some (some 0) else none
  avalTraffic := 0
  rptTraffCost := 0
  epoll fd := if fd = 10 then some ⟨true, true, true⟩ else none
  errno := 0
  mem _ := 0
  writes := []
  dials := [.opened 11]
  log := []

/-- A request in two parts, the answers of the TMS, and more from the browser. -/
def sampleRun : List Event :=
  [.readable 10 [.data (CString.lit "GET / HTTP/1.1\r\nHost: a\r\n")],
    .readable 11 [.data (frame (ConnectHostRsp.bytes ⟨RespCode.prog.toNat, 0⟩))],
    .readable 10 [.data (CString.lit "\r\n")],
    .readable 11 [.data (frame (LoginRsp.bytes ⟨0, 5000, 2 ^ 32 + 7⟩))],
    .writable 10,
    .readable 10 [.data [1, 2, 3]]]

theorem browserState_fresh : browserState.Fresh := by
  refine ⟨⟨rfl, fun p hp => if_neg (Nat.ne_of_gt hp)⟩, fun p c hc => ?_, rfl⟩
  obtain ⟨-, hc⟩ := Option.ite_none_right_eq_some.mp hc
  cases hc
  exact ⟨rfl, rfl⟩

/-- Both parts are announced by a login request of their own; the forward id is cut to 32 bits. -/
theorem tunnel_written_upward_sampleRun : ∃ s' c, runAll Event.run sampleRun browserState = .ok ((), s') ∧
    s'.conns 1 = some c ∧ c.verified = true ∧ Upward (s'.readyIds 1) c.verified (s'.written 1) := by
  have hrun : (runAll Event.run sampleRun browserState).toOption.map (fun r =>
      (decide (∀ o ∈ r.2.log, o.HostOk), (r.2.conns 1).map fun c => (c.type, c.verified))) =
        some (true, some (.tunnel, true)) := by
    decide +kernel
  obtain ⟨⟨⟨⟩, s'⟩, hs', he⟩ := Option.map_eq_some_iff.mp hrun
  simp only [Prod.mk.injEq, decide_eq_true_eq, Option.map_eq_some_iff] at he
  obtain ⟨hhost, c, hc, hty, hv⟩ := he
  have hok : runAll Event.run sampleRun browserState = .ok ((), s') := eq_ok_of_toOption hs'
  exact ⟨s', c, hok, hc, hv, tunnel_written_upward sampleRun browserState s' browserState_fresh hok hhost 1 c hc hty⟩

end HttpsTunnel.Sdk

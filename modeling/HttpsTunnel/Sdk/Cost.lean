import HttpsTunnel.Sdk.Sweep
import HttpsTunnel.Sdk.Table

/-! # The cost counter of the SDK

`g_rpt_traff_cost` counts what the tunnels carry, and `YMERptTraffCost` takes it away.  `Spends s s' n` says
that the counter grew by `n` and by `Traffic_Est` of what was written to tunnels from `s` to `s'`; it holds
of the events (`Acts`) except where

* a write fails, since its -1 is added to the counter,
* bytes of a browser go to a verified tunnel, since `ProxyRecvEvent` does not count them,
* a browser is told that its `CONNECT` succeeded, since `SendMsg` counts that as well,
* `SendMsg` is used with `ACCURATE_TRAFFIC`, since it does not estimate.

`Account` is the SDK with the values returned so far and with what the tunnels have carried. -/

namespace HttpsTunnel.Sdk

open HttpsTunnel.Lib HttpsTunnel.Wire

/-! ### What the tunnels carry -/

/-- `Traffic_Est` of so many bytes. -/
def estimate (accurate : Bool) (n : ℕ) : ℕ := (trafficEst accurate n).toNat

theorem estimate_cast (accurate : Bool) (n : ℕ) : (estimate accurate n : ℤ) = trafficEst accurate n := by
  refine Int.toNat_of_nonneg ?_
  unfold trafficEst tcpAckLen
  split_ifs <;> omega

theorem estimate_plain {accurate : Bool} {n : ℕ} (h : accurate = false ∨ n < 5) : estimate accurate n = n := by
  unfold estimate trafficEst
  have hn : ¬ (accurate = true ∧ (5 : ℤ) ≤ n) := by
    rintro ⟨ha, hn⟩
    rcases h with h | h
    · simp [h] at ha
    · omega
  rw [if_neg hn, Int.toNat_natCast]

/-- The connection is one of a browser. -/
def State.isBrowser (s : State) (p : Ptr) : Bool := (s.conns p).any fun c => c.type = .proxy

/-- `Traffic_Est` of a write to a tunnel. -/
def Obs.estimate (s : State) : Obs → ℕ
  | raw p _ bs => if s.isBrowser p then 0 else Sdk.estimate s.accurate bs.length
  | frame p _ n => if s.isBrowser p then 0 else Sdk.estimate s.accurate n
  | _ => 0

/-- `Traffic_Est` over the writes to tunnels. -/
def written (s : State) (l : List Obs) : ℕ := (l.map (Obs.estimate s)).sum

theorem written_append (s : State) (l l' : List Obs) : written s (l ++ l') = written s l + written s l' := by
  simp [written]

theorem written_eq_zero {s : State} {l : List Obs} (h : ∀ o ∈ l, o.estimate s = 0) : written s l = 0 := by
  refine List.sum_eq_zero fun n hn => ?_
  obtain ⟨o, ho, rfl⟩ := List.mem_map.mp hn
  exact h o ho

theorem Obs.Quiet.estimate {s : State} {o : Obs} (h : o.Quiet) : o.estimate s = 0 := by
  cases o with
  | raw | frame => exact h.elim
  | _ => rfl

/-- A write is to a connection that exists. -/
def Obs.Known (s : State) : Obs → Prop
  | raw p _ _ | frame p _ _ => ∃ c, s.conns p = some c
  | _ => True

/-- From `s` to `s'` the counter grows by `n` and by what is written to tunnels, as long as it has room. -/
structure Spends (s s' : State) (n : ℕ) : Prop where
  accurate : s'.accurate = s.accurate
  conn : ∀ {q c}, s.conns q = some c → ∃ c', s'.conns q = some c' ∧ c'.type = c.type
  log : ∃ l, s'.log = s.log ++ l ∧ (∀ o ∈ l, o.Known s') ∧
    (s.rptTraffCost + (n + written s' l) < 2 ^ 64 → s'.rptTraffCost = s.rptTraffCost + (n + written s' l))

namespace Spends

variable {s s₁ s' : State} {m n : ℕ} {l : List Obs} {p q : Ptr} {c : Connect} {z : Option ℤ}

theorem refl (s : State) : Spends s s 0 where
  accurate := rfl
  conn hq := ⟨_, hq, rfl⟩
  log := ⟨[], (List.append_nil _).symm, by simp, by simp [written]⟩

theorem isBrowser (h : Spends s s' n) (hq : s.conns q = some c) : s'.isBrowser q = s.isBrowser q := by
  obtain ⟨c', hc', hty⟩ := h.conn hq
  simp [State.isBrowser, hq, hc', hty]

theorem estimate (h : Spends s s' n) {o : Obs} (ho : o.Known s) : o.estimate s' = o.estimate s := by
  cases o with
  | raw p src bs =>
      obtain ⟨c, hc⟩ := ho
      simp [Obs.estimate, h.isBrowser hc, h.accurate]
  | frame p msg k =>
      obtain ⟨c, hc⟩ := ho
      simp [Obs.estimate, h.isBrowser hc, h.accurate]
  | _ => rfl

theorem known (h : Spends s s' n) {o : Obs} (ho : o.Known s) : o.Known s' := by
  cases o with
  | raw p src bs =>
      obtain ⟨c, hc⟩ := ho
      obtain ⟨c', hc', -⟩ := h.conn hc
      exact ⟨c', hc'⟩
  | frame p msg k =>
      obtain ⟨c, hc⟩ := ho
      obtain ⟨c', hc', -⟩ := h.conn hc
      exact ⟨c', hc'⟩
  | _ => trivial

theorem trans (h : Spends s s₁ m) (h' : Spends s₁ s' n) : Spends s s' (m + n) where
  accurate := h'.accurate.trans h.accurate
  conn hq := by
    obtain ⟨c₁, hc₁, hty₁⟩ := h.conn hq
    obtain ⟨c', hc', hty'⟩ := h'.conn hc₁
    exact ⟨c', hc', hty'.trans hty₁⟩
  log := by
    obtain ⟨l₁, hl₁, hk₁, hc₁⟩ := h.log
    obtain ⟨l₂, hl₂, hk₂, hc₂⟩ := h'.log
    have hsame : written s' l₁ = written s₁ l₁ := by
      unfold written
      rw [List.map_congr_left fun o ho => h'.estimate (hk₁ o ho)]
    refine ⟨l₁ ++ l₂, by rw [hl₂, hl₁, List.append_assoc], fun o ho => ?_, fun hlt => ?_⟩
    · exact (List.mem_append.mp ho).elim (fun ho => h'.known (hk₁ o ho)) (hk₂ o)
    · rw [written_append, hsame] at hlt ⊢
      have h₁ := hc₁ (by omega)
      have h₂ := hc₂ (by omega)
      omega

/-- Writes to browsers are not counted. -/
theorem of_quiet {R : Ptr → Ptr → Prop} (h : Emits s s' l none) (hl : ∀ o ∈ l, o.Quiet ∨ o.ToBrowser s R) :
    Spends s s' 0 := by
  have hconn : ∀ {q c}, s.conns q = some c → ∃ c', s'.conns q = some c' ∧ c'.type = c.type := by
    intro q c hq
    obtain ⟨c', hc', hk⟩ := h.key hq
    exact ⟨c', hc', congrArg Key.type hk⟩
  have hzero : written s' l = 0 := by
    refine written_eq_zero fun o ho => ?_
    rcases hl o ho with hq | ⟨q, d, src, bs, rfl, ⟨hd, hty⟩, -⟩
    · exact hq.estimate
    · obtain ⟨d', hd', hty'⟩ := hconn hd
      simp [Obs.estimate, State.isBrowser, hd', hty', hty]
  refine ⟨h.accurate, hconn, l, h.log, fun o ho => ?_, fun _ => by simp [hzero, h.cost, addedTo]⟩
  rcases hl o ho with hq | ⟨q, d, src, bs, rfl, ⟨hd, -⟩, -⟩
  · cases o with
    | raw | frame => exact hq.elim
    | _ => trivial
  · obtain ⟨d', hd', -⟩ := hconn hd
    exact ⟨d', hd'⟩

theorem of_emits (h : Emits s s' [] none) : Spends s s' 0 := .of_quiet (R := fun _ _ => True) h (by simp)

/-- What is counted is what is read and written. -/
theorem of_counted {k : ℕ} (h : Emits s s' l (some (p, k))) (hl : ∀ o ∈ l, o.Known s') (hk : k = n + written s' l) :
    Spends s s' n where
  accurate := h.accurate
  conn hq := by
    obtain ⟨c', hc', hkey⟩ := h.key hq
    exact ⟨c', hc', congrArg Key.type hkey⟩
  log := by
    refine ⟨l, h.log, hl, fun hlt => ?_⟩
    rw [← hk] at hlt ⊢
    have hz : ((toU64 (s.rptTraffCost + k) : ℕ) : ℤ) = s.rptTraffCost + k := toU64_of_mem (by omega) (by omega)
    have hcost : s'.rptTraffCost = toU64 (s.rptTraffCost + k) := h.cost
    omega

/-- A frame to a tunnel. -/
theorem of_sendsFrame {t : Ptr} {d : Connect} (ht : s.Tunnel t d) {msg : List UInt8} (hf : ¬ s.Fails)
    (h : SendsFrame t msg s s') : Spends s s' 0 := by
  cases h with
  | fails hf' _ => exact absurd hf' hf
  | sent k hk h =>
      obtain ⟨d', hd', hkey⟩ := h.key ht.1
      have hty : d'.type ≠ .proxy := fun hty => ht.2 ((congrArg Key.type hkey).symm.trans hty)
      rw [← estimate_cast] at h
      refine of_counted h (by simp [Obs.Known, hd']) ?_
      simp [written, Obs.estimate, State.isBrowser, hd', hty, h.accurate]

/-- Bytes to a tunnel. -/
theorem of_sends {t : Ptr} {d : Connect} {src : Option Ptr} {msg : List UInt8} (ht : s.Tunnel t d) (hf : ¬ s.Fails)
    (ha : s.accurate = false) (h : Sends t src msg s s') : Spends s s' 0 := by
  cases h with
  | fails hf' _ => exact absurd hf' hf
  | sent k hk h =>
      obtain ⟨d', hd', hkey⟩ := h.key ht.1
      have hty : d'.type ≠ .proxy := fun hty => ht.2 ((congrArg Key.type hkey).symm.trans hty)
      refine of_counted h (by simp [Obs.Known, hd']) ?_
      simp [written, Obs.estimate, State.isBrowser, hd', hty, h.accurate, ha, estimate_plain, hk.1]

theorem of_setConn {c' : Connect} (hp : s.conns p = some c) (hty : c'.type = c.type) :
    Spends s (s.setConn p c') 0 where
  accurate := rfl
  conn {q d} hq := by
    by_cases hqp : q = p
    · subst hqp
      obtain rfl : c = d := Option.mem_unique hp hq
      exact ⟨c', State.setConn_self _ _ _, hty⟩
    · exact ⟨d, (State.setConn_ne _ _ hqp).trans hq, rfl⟩
  log := ⟨[], (List.append_nil _).symm, by simp, by simp [written, State.setConn]⟩

/-- The table is not counted. -/
theorem of_connMap (s : State) (m : ℕ → Option (Option Ptr)) : Spends s { s with connMap := m } 0 where
  accurate := rfl
  conn hq := ⟨_, hq, rfl⟩
  log := ⟨[], (List.append_nil _).symm, by simp, by simp [written]⟩

theorem of_opens {U : Prop} {fd : ℕ} (hs : s.Linked U) (h : Opens p fd s s') : Spends s s' 0 where
  accurate := h.accurate
  conn hq := by
    obtain ⟨c', hc', hb⟩ := h.conn hs hq
    exact ⟨c', hc', hb.type⟩
  log := ⟨[], by rw [h.log, List.append_nil], by simp, by simp [written, h.cost]⟩

end Spends

/-! ### Events -/

section Events

variable {U : Prop} {s s₁ s' : State} {p : Ptr} {c : Connect} {ns : List ℕ} {l : List Obs}
  {z : Option (Ptr × ℤ)}

theorem not_fails_of_suffix (hf : ¬ s.Fails) (h : s'.writes <:+ s.writes) : ¬ s'.Fails :=
  fun ⟨e, he⟩ => hf ⟨e, h.subset he⟩

theorem State.peerOf_of_emits (he : Emits s s' l z) {d' : Connect} (hd' : s'.peerOf p = some d') :
    ∃ d, s.peerOf p = some d ∧ ∃ q, d'.key = d.key.counted z q := by
  obtain ⟨c', q, hc', hq, hd'⟩ := State.peerOf_eq_some.mp hd'
  obtain ⟨c, hc, hk⟩ := he.key_of hc'
  obtain ⟨d, hd, hkd⟩ := he.key_of hd'
  exact ⟨d, State.peerOf_eq_some.mpr ⟨c, q, hc, (congrArg Key.peer hk).symm.trans hq, hd⟩, q, hkd⟩

/-- The tunnel of the browser `p` is not verified. -/
def State.Unverified (s : State) (p : Ptr) : Prop := ∀ d ∈ s.peerOf p, d.verified = false

theorem State.Unverified.of_emits (h : s.Unverified p) (he : Emits s s' l z) : s'.Unverified p := by
  intro d' hd'
  obtain ⟨d, hd, _, hk⟩ := State.peerOf_of_emits he hd'
  exact (congrArg Key.verified hk).trans (h d hd)

/-- An act on a browser does not verify its tunnel. -/
theorem Act.unverified (h : Act p false s s') (hv : s.Unverified p) : s'.Unverified p := by
  cases h with
  | quiet h _ => exact hv.of_emits h
  | upload _ _ _ _ h => exact hv.of_emits h
  | login _ _ _ h =>
      obtain ⟨l, z, he⟩ := h.emits
      exact hv.of_emits he
  | @connect _ c₀ c' hp' hpeer hk =>
      intro d hd
      obtain ⟨c'', t, hc'', ht, -⟩ := State.peerOf_eq_some.mp hd
      obtain rfl : c' = c'' := Option.mem_unique (State.setConn_self _ _ _) hc''
      cases (hpeer.symm.trans (congrArg Key.peer hk).symm).trans ht
  | opens h =>
      intro d hd
      obtain ⟨c', t, hc', ht, hd⟩ := State.peerOf_eq_some.mp hd
      obtain ⟨c₀, -, -, c₁, hc₁, hk₁⟩ := h.browser
      obtain ⟨t₁, ht₁, hkt⟩ := h.tunnel
      obtain rfl : c₁ = c' := Option.mem_unique hc₁ hc'
      obtain rfl : s.nextConn = t := Option.mem_unique (congrArg Key.peer hk₁) ht
      obtain rfl : t₁ = d := Option.mem_unique ht₁ hd
      exact congrArg Key.verified hkt

/-- An act on a browser whose tunnel is not verified. -/
theorem Act.spends_browser (h : Act p false s s') (hs : s.Linked U) (hf : ¬ s.Fails)
    (hv : s.Unverified p) : Spends s s' 0 ∧ ¬ s'.Fails := by
  cases h with
  | quiet h hl => exact ⟨.of_quiet h hl, not_fails_of_suffix hf h.writes⟩
  | upload hp' hpeer ht hd _ =>
      cases hd.symm.trans (hv _ (State.peerOf_eq_some.mpr ⟨_, _, hp'.1, hpeer, ht.1⟩))
  | login _ ht _ h =>
      obtain ⟨l, z, he⟩ := h.emits
      exact ⟨.of_sendsFrame ht hf h, not_fails_of_suffix hf he.writes⟩
  | connect hp' _ hk => exact ⟨.of_setConn hp'.1 (congrArg Key.type hk), hf⟩
  | opens h => exact ⟨.of_opens hs h, not_fails_of_suffix hf (h.writes ▸ List.suffix_rfl)⟩

/-- An event on a browser whose tunnel is not verified. -/
theorem Acts.spends_browser (h : Acts p ns s s') (hs : s.Linked U) (hp : s.Browser p c) (hf : ¬ s.Fails)
    (hv : s.Unverified p) : Spends s s' (ns.map (estimate s.accurate)).sum := by
  have hall : Spends s s' (ns.map (estimate s.accurate)).sum ∧ ¬ s'.Fails ∧ s'.Unverified p := by
    induction h with
    | refl s => exact ⟨.refl s, hf, hv⟩
    | act h h' ih =>
        obtain ⟨h₁, hf₁, hv₁⟩ := ih hs hp hf hv
        obtain ⟨h₂, hf₂⟩ := h'.spends_browser (h.linked hs) hf₁ hv₁
        exact ⟨h₁.trans h₂, hf₂, h'.unverified hv₁⟩
    | read h ht _ =>
        obtain ⟨c₁, hc₁⟩ := h.browser hs hp
        exact absurd ht hc₁.not_tunnel
    | message h ht =>
        obtain ⟨c₁, hc₁⟩ := h.browser hs hp
        exact absurd ht hc₁.not_tunnel
  exact hall.1

/-- What the browser of the tunnel `p` sent before the login was answered is counted. -/
def State.Countable (s : State) (p : Ptr) : Prop :=
  ∀ d ∈ s.peerOf p, d.httpVersion = .http ∧ s.accurate = false

theorem State.Countable.of_emits (h : s.Countable p) (he : Emits s s' l z) : s'.Countable p := by
  intro d' hd'
  obtain ⟨d, hd, _, hk⟩ := State.peerOf_of_emits he hd'
  exact ⟨(congrArg Key.version hk).trans (h d hd).1, he.accurate.trans (h d hd).2⟩

theorem State.Countable.of_setConn {c' : Connect} (hs : s.Linked U) (h : s.Countable p) (hp : s.conns p = some c)
    (hpeer : c'.peer = c.peer) : (s.setConn p c').Countable p := by
  intro d hd
  obtain ⟨c'', q, hc'', hq, hd⟩ := State.peerOf_eq_some.mp hd
  obtain rfl : c' = c'' := Option.mem_unique (State.setConn_self _ _ _) hc''
  have hpq : q ≠ p := by
    rintro rfl
    have hkind := hs.kinds hp (hpeer.symm.trans hq) hp
    by_cases hproxy : c.type = .proxy
    · exact hkind.mp hproxy hproxy
    · exact hproxy (hkind.mpr hproxy)
  exact h d (State.peerOf_eq_some.mpr ⟨c, q, hp, hpeer.symm.trans hq, (State.setConn_ne _ _ hpq).symm.trans hd⟩)

theorem Admits.spends (h : Admits p s s') (hf : ¬ s.Fails) (hc : s.Countable p) : Spends s s' 0 := by
  cases h with
  | wakes h => exact .of_quiet (R := fun _ _ => False) h (by simp [Obs.Quiet])
  | answer hp _ hpeer hq _ h =>
      exact .of_sends hp hf (hc _ (State.peerOf_eq_some.mpr ⟨_, _, hp.1, hpeer, hq.1⟩)).2 h
  | established hp hpeer hq hd _ =>
      cases hd.symm.trans (hc _ (State.peerOf_eq_some.mpr ⟨_, _, hp.1, hpeer, hq.1⟩)).1

/-- An act in the handling of a message. -/
theorem Act.spends_message (h : Act p true s s') (hs : s.Linked U) (hf : ¬ s.Fails) (hc : s.Countable p) :
    Spends s s' 0 ∧ ¬ s'.Fails ∧ s'.Countable p := by
  cases h with
  | quiet h hl => exact ⟨.of_quiet h hl, not_fails_of_suffix hf h.writes, hc.of_emits h⟩
  | @begins _ s₁ _ c c' _ _ _ hp _ hk _ h hr =>
      obtain ⟨l, z, he⟩ := h.emits
      obtain ⟨l', z', he'⟩ := hr.emits
      have hc₁ := (hc.of_setConn hs hp.1 (congrArg Key.peer hk)).of_emits he
      have hf₁ : ¬ s₁.Fails := not_fails_of_suffix (s := s.setConn p c') hf he.writes
      have hp' : (s.setConn p c').Tunnel p c' :=
        ⟨State.setConn_self _ _ _, fun hty => hp.2 ((congrArg Key.type hk).symm.trans hty)⟩
      refine ⟨((Spends.of_setConn hp.1 (congrArg Key.type hk)).trans (.of_sendsFrame hp' hf h)).trans
        (hr.spends hf₁ hc₁), not_fails_of_suffix hf₁ he'.writes, hc₁.of_emits he'⟩

theorem Steps.spends_message (h : Steps p true s s') (hs : s.Linked U) (hf : ¬ s.Fails) (hc : s.Countable p) :
    Spends s s' 0 ∧ ¬ s'.Fails ∧ s'.Countable p := by
  induction h with
  | refl => exact ⟨.refl s, hf, hc⟩
  | tail h h' ih =>
      obtain ⟨h₁, hf₁, hc₁⟩ := ih
      obtain ⟨h₂, hf₂, hc₂⟩ := h'.spends_message (Steps.linked h hs) hf₁ hc₁
      exact ⟨h₁.trans h₂, hf₂, hc₂⟩

/-- The tunnel `p` is in forward mode, or what the handling of a message writes is counted. -/
def State.Ready (s : State) (p : Ptr) : Prop :=
  (∃ c, s.Tunnel p c ∧ c.dec.cstate = .forward) ∨ ¬ s.Fails ∧ s.Countable p

/-- Forward mode is not left. -/
theorem State.Ready.of_emits (h : s.Ready p) (he : Emits s s' l z) : s'.Ready p := by
  rcases h with ⟨c, hc, hfw⟩ | ⟨hf, hc⟩
  · obtain ⟨c', hc', hk⟩ := he.key hc.1
    refine .inl ⟨c', ⟨hc', fun hty => hc.2 ((congrArg Key.type hk).symm.trans hty)⟩, ?_⟩
    have hfk : decide (c'.dec.cstate = .forward) = decide (c.dec.cstate = .forward) := congrArg Key.forward hk
    simpa [hfw] using hfk
  · exact .inr ⟨not_fails_of_suffix hf he.writes, hc.of_emits he⟩

/-- An event on a tunnel. -/
theorem Acts.spends_tunnel (h : Acts p ns s s') (hs : s.Linked U) (hp : s.Tunnel p c) (hok : s.Ready p) :
    Spends s s' (ns.map (estimate s.accurate)).sum := by
  have hall : Spends s s' (ns.map (estimate s.accurate)).sum ∧ s'.Ready p := by
    induction h with
    | refl s => exact ⟨.refl s, hok⟩
    | act h h' ih =>
        obtain ⟨ih, hok₁⟩ := ih hs hp hok
        obtain ⟨c₁, hc₁⟩ := h.tunnel hs hp
        cases h' with
        | quiet he hl => exact ⟨ih.trans (.of_quiet he hl), hok₁.of_emits he⟩
        | upload hb => exact absurd hc₁ hb.not_tunnel
        | login hb => exact absurd hc₁ hb.not_tunnel
        | connect hb => exact absurd hc₁ hb.not_tunnel
        | opens ho =>
            obtain ⟨c₂, hb, -⟩ := ho.browser
            exact absurd hc₁ hb.not_tunnel
    | @read _ s₀ _ _ _ n h ht he ih =>
        obtain ⟨ih, hok₁⟩ := ih hs hp hok
        refine ⟨?_, hok₁.of_emits he⟩
        rw [← estimate_cast, ih.accurate] at he
        have hread := Spends.of_counted (n := estimate s₀.accurate n) he (by simp) (by simp [written])
        rw [List.map_append, List.sum_append]
        simpa using ih.trans hread
    | @message _ _ _ _ c₁ h ht hmode hm ih =>
        obtain ⟨ih, hok₁⟩ := ih hs hp hok
        obtain ⟨hf, hc⟩ := hok₁.resolve_left (by
          rintro ⟨c', hc', hfw⟩
          obtain rfl : c₁ = c' := Option.mem_unique ht.1 hc'.1
          exact hmode hfw)
        obtain ⟨h₂, hf₂, hc₂⟩ := hm.spends_message (h.linked hs) hf hc
        exact ⟨ih.trans h₂, .inr ⟨hf₂, hc₂⟩⟩
  exact hall.1

end Events

/-! ### What is not counted -/

/-- From `s` to `s'` nothing is written and the counter stays. -/
structure Uncounted (s s' : State) : Prop where
  cost : s'.rptTraffCost = s.rptTraffCost
  log : ∃ l, s'.log = s.log ++ l ∧ ∀ o ∈ l, o.Quiet
  linked : s.Linked True → s'.Linked True

namespace Uncounted

variable {s s₁ s' : State} {l : List Obs}

theorem of_emits (h : Emits s s' l none) (hl : ∀ o ∈ l, o.Quiet) : Uncounted s s' :=
  ⟨h.cost, ⟨l, h.log, hl⟩, (SameIdents.of_emits h).linked⟩

theorem trans (h : Uncounted s s₁) (h' : Uncounted s₁ s') : Uncounted s s' where
  cost := h'.cost.trans h.cost
  log := by
    obtain ⟨l₁, hl₁, hq₁⟩ := h.log
    obtain ⟨l₂, hl₂, hq₂⟩ := h'.log
    exact ⟨l₁ ++ l₂, by rw [hl₂, hl₁, List.append_assoc], fun o ho => (List.mem_append.mp ho).elim (hq₁ o) (hq₂ o)⟩
  linked hs := h'.linked (h.linked hs)

/-- A connection is deleted. -/
theorem of_deleted (s : State) (p : Ptr) : Uncounted s { s with conns := Function.update s.conns p none } := by
  have hlive : ∀ {q c}, Function.update s.conns p none q = some c → s.conns q = some c := by
    intro q c hq
    by_cases hqp : q = p
    · simp [hqp] at hq
    · simpa [hqp] using hq
  refine ⟨rfl, ⟨[], (List.append_nil _).symm, by simp⟩, fun hs => ⟨fun _ _ _ => trivial, ?_, ?_, fun q hq => ?_⟩⟩
  · exact fun hp hq hd => hs.kinds (hlive hp) hq (hlive hd)
  · exact fun hp hq => hs.known (hlive hp) hq
  · by_cases hqp : q = p
    · simp [hqp]
    · simpa [hqp] using hs.unused q hq

/-- A browser is accepted. -/
theorem of_admitted (s : State) (fd : ℕ) : Uncounted s (s.admitted fd) :=
  ⟨rfl, ⟨[], (List.append_nil _).symm, by simp⟩, fun hs => hs.added (c := browserConnect fd) rfl rfl rfl⟩

end Uncounted

instance : Removing Uncounted where
  refl s := .of_emits (.refl s) (by simp)
  trans _ _ _ := Uncounted.trans
  unregister fd _ := wpe_removeEvent.mpr (.of_emits (State.unregistered_emits _ fd) (by simp))
  shut s p := .of_emits (.emit s _) (by simp [Obs.Quiet])
  erase _ _ := ⟨rfl, ⟨[], (List.append_nil _).symm, by simp⟩, fun hs => ⟨hs.alive, hs.kinds, hs.known, hs.unused⟩⟩
  delete := Uncounted.of_deleted
  down _ _ := wpe_modConn.mpr ⟨fun _ => trivial, fun _ hc => .of_emits (.setConn hc rfl) (by simp)⟩
  wakeup s p := .of_emits (.emit s _) (by simp [Obs.Quiet])

/-- The same for the SDK with its recycler. -/
abbrev Uncharged : World → World → Prop := Inside Uncounted

/-- A browser that is accepted, with a descriptor that is not in the table. -/
theorem handleAcceptEvent_uncharged {w : World} {newfd : ℤ} (hfd : 0 < newfd → w.sdk.connMap newfd.toNat = none) :
    wlp (handleAcceptEvent newfd) (fun _ w' => Uncharged w w') w := by
  have hwindow : wlp inWindow (fun _ w₁ => w₁.sdk = w.sdk) w := by
    simp only [inWindow, wlp, wpe_bind, wpe_get, wpe_ite, wpe_gettimeofday, wpe_pure, wpe_modify]
    exact ⟨fun _ => ⟨fun _ => trivial, fun _ => trivial⟩, fun _ => trivial⟩
  simp only [handleAcceptEvent, wlp, wpe_ite, wpe_pure, wpe_bind]
  refine ⟨fun _ => refl_of _ w, fun hpos => wlp_mono hwindow ?_⟩
  intro _ w₁ hw₁
  refine ⟨fun _ => ?_, fun _ => .of_sdk hw₁⟩
  have hfd₁ : w₁.sdk.connMap newfd.toNat = none := by
    rw [hw₁]
    exact hfd (not_le.mp hpos)
  simp only [acceptConnection, wpe_bind, wpe_onSdk, wpe_admit hfd₁, wpe_modify]
  have hadmit : Uncharged w { w₁ with sdk := w₁.sdk.admitted newfd.toNat } := by
    have h := Uncounted.of_admitted w₁.sdk newfd.toNat
    rw [hw₁] at h
    unfold Uncharged Inside
    rwa [hw₁]
  exact wlp_mono (watch_inside newfd.toNat w₁.sdk.nextConn _) fun _ w₂ h₂ => trans_of Uncharged hadmit h₂

/-! ### The account -/

/-- `YMERptTraffCost`. -/
def yMERptTraffCost : SdkM ℕ := do
  let rpt := (← get).rptTraffCost
  modify (fun s => { s with rptTraffCost := 0 })
  pure rpt

/-- `YMESend` up to the wait. -/
def yMESend (fd : ℕ) (msg : List UInt8) : SdkM Unit := do
  let s ← get
  match s.connMap fd with
  | none => set { s with connMap := Function.update s.connMap fd (some none) }
  | some none => pure ()
  | some (some p) =>
      let c ← deref p
      if c.status = .online then sendMsg p none msg

/-- `YMESend` after the wait, where the other side has gone. -/
def yMESendEnd (p : Ptr) : SdkM Unit := modConn p Connect.down

/-- The SDK, the sum of the values `YMERptTraffCost` has returned, and `Traffic_Est` over what was read from
tunnels and written to them. -/
structure Account where
  world : World
  returned : ℕ := 0
  traffic : ℕ := 0

abbrev AccountM := Prog Account Crash

/-- `Traffic_Est` over the writes to tunnels from `w` to `w'`. -/
def World.sent (w w' : World) : ℕ := written w'.sdk (w'.sdk.log.drop w.sdk.log.length)

/-- A part of the SDK, and what the tunnels carry in it: `received` is what is read. -/
def onAccount {α : Type} (received : World → ℕ) (x : WorldM α) : AccountM α := fun a =>
  match x a.world with
  | .ok (r, w) => .ok (r, { a with world := w, traffic := a.traffic + (received a.world + a.world.sent w) })
  | .error e => .error e

theorem wpe_onAccount {α : Type} {received : World → ℕ} {x : WorldM α} {Q : α → Account → Prop} {F : Crash → Prop}
    {a : Account} : wpe (onAccount received x) Q F a ↔ wpe x (fun r w =>
      Q r { a with world := w, traffic := a.traffic + (received a.world + a.world.sent w) }) F a.world := by
  simp only [wpe, onAccount]
  cases x a.world <;> rfl

/-- The state in which a call is made. -/
def State.answered (s : State) (k : Answers) : State := { s with writes := k.writes, dials := [k.dial] }

/-- `Traffic_Est` over the reads of a call on tunnels. -/
def Call.received (c : Call) (w : World) : ℕ :=
  match c with
  | recv fd k => ((tunnelReads fd k.reads (w.sdk.answered k)).map (estimate w.sdk.accurate)).sum
  | _ => 0

/-- A call of the main loop. -/
def Account.call (c : Call) : AccountM (ℤ × ℕ) := onAccount c.received c.run

/-- An entry of a run. -/
inductive CostOp where
  | loop (op : LoopOp)
  /-- `YMERptTraffCost`. -/
  | cost
  /-- `YMESend` up to the wait, and after it. -/
  | send (fd : ℕ) (msg : List UInt8) (k : Answers)
  | sendEnd (p : Ptr)

def CostOp.run : CostOp → AccountM Unit
  | loop op => op.plan.run Account.call
  | cost => do
      let n ← onAccount (fun _ => 0) (onSdk yMERptTraffCost)
      modify (fun a => { a with returned := a.returned + n })
  | send fd msg k => onAccount (fun _ => 0) (do
      Call.answering k
      onSdk (yMESend fd msg))
  | sendEnd p => onAccount (fun _ => 0) (onSdk (yMESendEnd p))

/-! ### What is counted -/

def WriteRes.failed : WriteRes → Bool
  | fail _ => true
  | wrote _ => false

/-- No write of the call fails. -/
def Answers.Clean (k : Answers) : Prop := ∀ r ∈ k.writes, r.failed = false

/-- The circumstances in which a call counts what the tunnels carry. -/
def Call.Counted (w : World) : Call → Prop
  | accept newfd _ => 0 < newfd → w.sdk.connMap newfd.toNat = none
  | recv fd k =>
      match w.sdk.connMap fd with
      | some (some p) => ∀ c ∈ w.sdk.conns p,
          if c.type = .proxy then k.Clean ∧ w.sdk.Unverified p
          else c.dec.cstate = .forward ∨ k.Clean ∧ w.sdk.Countable p
      | _ => True
  | login _ k => k.Clean
  | register _ | writable _ _ | remove _ | scan _ | loginEnd _ => True

/-- The same for an entry of a run. -/
def CostOp.Counted (a : Account) : CostOp → Prop
  | loop op => op.plan.Guard Account.call (fun a c => c.Counted a.world) a
  | cost | sendEnd _ => True
  | send fd _ k => ∀ c ∈ a.world.sdk.connAt fd, c.type ≠ .proxy ∧ k.Clean ∧ a.world.sdk.accurate = false

/-- From `w` to `w'` the counter grows by `n` and by what is written. -/
structure Charged (w w' : World) (n : ℕ) : Prop where
  linked : w'.sdk.Linked True
  cost : w.sdk.rptTraffCost + (n + w.sent w') < 2 ^ 64 →
    w'.sdk.rptTraffCost = w.sdk.rptTraffCost + (n + w.sent w')

section Charged

variable {w w' : World} {n : ℕ}

theorem Charged.of_spends {s : State} (h : Spends s w'.sdk n) (hs : w'.sdk.Linked True)
    (hlog : s.log = w.sdk.log) (hcost : s.rptTraffCost = w.sdk.rptTraffCost) : Charged w w' n := by
  obtain ⟨l, hl, -, hc⟩ := h.log
  have hsent : w.sent w' = written w'.sdk l := by
    rw [World.sent, hl, hlog, List.drop_left]
  exact ⟨hs, by rwa [hsent, ← hcost]⟩

theorem Charged.of_uncharged (h : Uncharged w w') (hs : w.sdk.Linked True) : Charged w w' 0 := by
  obtain ⟨l, hl, hq⟩ := h.log
  have hsent : w.sent w' = 0 := by
    rw [World.sent, hl, List.drop_left]
    exact written_eq_zero fun o ho => (hq o ho).estimate
  exact ⟨h.linked hs, fun _ => by rw [hsent]; exact h.cost⟩

/-- The answers of the kernel are not counted. -/
theorem answered_charged {k : Answers} (h : Spends (w.sdk.answered k) w'.sdk n) (hs : w'.sdk.Linked True) :
    Charged w w' n :=
  .of_spends h hs rfl rfl

theorem State.Linked.answered {U : Prop} {s : State} (hs : s.Linked U) (k : Answers) : (s.answered k).Linked U :=
  ⟨hs.alive, hs.kinds, hs.known, hs.unused⟩

theorem Answers.Clean.not_fails {k : Answers} (hk : k.Clean) (s : State) : ¬ (s.answered k).Fails := by
  rintro ⟨e, he⟩
  cases hk _ he

/-- `HandleRecvEvent`. -/
theorem wlp_recv_charged {fd : ℕ} {k : Answers} (hs : w.sdk.Linked True) (hc : (Call.recv fd k).Counted w) :
    wlp (Call.recv fd k).exec (fun _ w' => Charged w w' ((Call.recv fd k).received w)) w := by
  simp only [Call.exec, Call.answering, wlp, wpe_bind, wpe_modify, wpe_onSdk]
  change wpe _ _ _ (w.sdk.answered k)
  have hs₁ := hs.answered k
  have hidle : (∀ p, w.sdk.connMap fd ≠ some (some p)) → (Call.recv fd k).received w = 0 := by
    intro hne
    simp only [Call.received, tunnelReads, State.answered]
    rfl
  rcases hfd : w.sdk.connMap fd with _ | _ | p
  · rw [hidle (by simp [hfd])]
    simp only [handleRecvEvent, wpe_bind, wpe_get, State.answered, hfd, wpe_pure]
    exact answered_charged (k := k) (.refl _) hs₁
  · rw [hidle (by simp [hfd])]
    simp only [handleRecvEvent, wpe_bind, wpe_get, State.answered, hfd, wpe_pure]
    exact answered_charged (k := k) (.refl _) hs₁
  · cases hp : w.sdk.conns p with
    | none =>
        simp only [handleRecvEvent, wpe_bind, wpe_get, State.answered, hfd, wpe_deref, hp]
        simp
    | some c =>
        simp only [Call.Counted, hfd, hp, Option.mem_def, Option.some.injEq, forall_eq'] at hc
        refine wpe_mono (handleRecvEvent_acts (s := w.sdk.answered k) hs₁ hfd hp k.reads) ?_ fun _ _ => trivial
        intro _ s' ha
        refine answered_charged (k := k) ?_ (ha.linked hs₁)
        by_cases hty : c.type = .proxy
        · rw [if_pos hty] at hc
          exact ha.spends_browser hs₁ ⟨hp, hty⟩ (hc.1.not_fails _) hc.2
        · rw [if_neg hty] at hc
          refine ha.spends_tunnel hs₁ ⟨hp, hty⟩ ?_
          rcases hc with hfw | ⟨hk, hcount⟩
          · exact .inl ⟨c, ⟨hp, hty⟩, hfw⟩
          · exact .inr ⟨hk.not_fails _, hcount⟩

/-- `HandleEPOEvent`. -/
theorem wlp_writable_charged (hs : w.sdk.Linked True) (fd : ℕ) (k : Answers) :
    wlp (Call.writable fd k).exec (fun _ w' => Charged w w' 0) w := by
  simp only [Call.exec, Call.answering, wlp, wpe_bind, wpe_modify, wpe_onSdk]
  change wpe _ _ _ (w.sdk.answered k)
  have hs₁ := hs.answered k
  rcases hfd : w.sdk.connMap fd with _ | _ | p
  · simp only [handleEPOEvent, wpe_bind, wpe_get, State.answered, hfd, wpe_set, wpe_pure]
    exact answered_charged (k := k) (.of_connMap _ _) ⟨hs₁.alive, hs₁.kinds, hs₁.known, hs₁.unused⟩
  · simp only [handleEPOEvent, wpe_bind, wpe_get, State.answered, hfd, wpe_pure]
    exact answered_charged (k := k) (.refl _) hs₁
  · cases hp : w.sdk.conns p with
    | none =>
        simp only [handleEPOEvent, wpe_bind, wpe_get, State.answered, hfd, wpe_deref, hp]
        simp
    | some c =>
        refine wpe_mono (handleEPOEvent_serves (s := w.sdk.answered k) hs₁ hfd hp) ?_ fun _ _ => trivial
        rintro - s' ⟨l, he, hl⟩
        exact answered_charged (k := k) (.of_quiet he hl) ((SameIdents.of_emits he).linked hs₁)

/-- Nothing is counted for a new tunnel. -/
theorem Spends.of_dialled {s : State} {fd : ℕ} {rest : List DialRes} (hs : s.Linked True) :
    Spends s (s.dialled fd rest) 0 where
  accurate := rfl
  conn {q c} hq := by
    refine ⟨c, (Function.update_of_ne ?_ _ _).trans hq, rfl⟩
    rintro rfl
    cases (hs.unused _ le_rfl).symm.trans hq
  log := ⟨[], (List.append_nil _).symm, by simp, by simp [written, State.dialled]⟩

/-- `YMELoginTms`. -/
theorem wlp_login_charged {a : LoginArgs} {k : Answers} (hs : w.sdk.Linked True) (hk : k.Clean) :
    wlp (Call.login a k).exec (fun _ w' => Charged w w' 0) w := by
  simp only [Call.exec, Call.answering, wlp, wpe_bind, wpe_modify, wpe_onSdk]
  change wpe _ _ _ (w.sdk.answered k)
  have hs₁ := hs.answered k
  refine wpe_mono (yMELoginTms_spec (U := True) a) ?_ fun _ _ => trivial
  rintro (_ | p) s' hs'
  · exact answered_charged (k := k) (.of_emits hs') ((SameIdents.of_emits hs').linked hs₁)
  · obtain ⟨rfl, fd, rest, s₁, -, he₁, msg, hsend⟩ := hs'
    have hs₂ : ((w.sdk.answered k).dialled fd rest).Linked True :=
      hs₁.added (c := tunnelConnect fd) rfl rfl rfl
    obtain ⟨d, hd, hkey⟩ := he₁.key (Function.update_self _ _ _)
    have hty : d.type ≠ .proxy := fun hty => by
      cases (congrArg Key.type hkey).symm.trans hty
    obtain ⟨l, z, he₂⟩ := hsend.emits
    have hf : ¬ s₁.Fails := not_fails_of_suffix (hk.not_fails w.sdk) he₁.writes
    have hspends := ((Spends.of_dialled hs₁).trans (.of_emits he₁)).trans (.of_sendsFrame ⟨hd, hty⟩ hf hsend)
    exact answered_charged (k := k) hspends
      ((SameIdents.of_emits he₂).linked ((SameIdents.of_emits he₁).linked hs₂))

/-- `YMESend`. -/
theorem wlp_send_charged {fd : ℕ} {msg : List UInt8} {k : Answers} (hs : w.sdk.Linked True)
    (hc : ∀ c ∈ w.sdk.connAt fd, c.type ≠ .proxy ∧ k.Clean ∧ w.sdk.accurate = false) :
    wlp (do Call.answering k; onSdk (yMESend fd msg)) (fun _ w' => Charged w w' 0) w := by
  simp only [Call.answering, wlp, wpe_bind, wpe_modify, wpe_onSdk]
  change wpe _ _ _ (w.sdk.answered k)
  have hs₁ := hs.answered k
  rcases hfd : w.sdk.connMap fd with _ | _ | p
  · simp only [yMESend, wpe_bind, wpe_get, State.answered, hfd, wpe_set]
    exact answered_charged (k := k) (.of_connMap _ _) ⟨hs₁.alive, hs₁.kinds, hs₁.known, hs₁.unused⟩
  · simp only [yMESend, wpe_bind, wpe_get, State.answered, hfd, wpe_pure]
    exact answered_charged (k := k) (.refl _) hs₁
  · cases hp : w.sdk.conns p with
    | none =>
        simp only [yMESend, wpe_bind, wpe_get, State.answered, hfd, wpe_deref, hp]
        simp
    | some c =>
        obtain ⟨hty, hk, ha⟩ := hc c (by simp [State.connAt, hfd, hp])
        have hp₁ : (w.sdk.answered k).conns p = some c := hp
        have hfd₁ : (w.sdk.answered k).connMap fd = some (some p) := hfd
        simp only [yMESend, wpe_bind, wpe_get, hfd₁, wpe_deref, wpe_ite, wpe_pure, hp₁, found_iff]
        refine ⟨fun _ => wpe_mono (wp_sendMsg hp₁) ?_ fun _ => False.elim, fun _ => ?_⟩
        · intro _ s' hsend
          obtain ⟨l, z, he⟩ := hsend.emits
          exact answered_charged (k := k) (.of_sends ⟨hp₁, hty⟩ (hk.not_fails _) ha hsend)
            ((SameIdents.of_emits he).linked hs₁)
        · exact answered_charged (k := k) (.refl _) hs₁

/-- What is not counted writes nothing. -/
theorem Does.charged {α : Type} {x : WorldM α} (h : Does Uncharged x) (hs : w.sdk.Linked True) :
    wlp x (fun _ w' => Charged w w' 0) w :=
  wlp_mono (h w) fun _ _ h' => .of_uncharged h' hs

/-- **A call** of the main loop counts what the tunnels carry. -/
theorem Call.run_charged (c : Call) (hc : c.Counted w) (hs : w.sdk.Linked True) :
    wlp c.run (fun _ w' => Charged w w' (c.received w)) w := by
  have htiming : ∀ ts, Uncharged w { w with times := ts } := fun _ => .of_sdk rfl
  simp only [Call.run, wlp, wpe_bind, wpe_get, wpe_pure]
  cases c with
  | accept newfd ts =>
      simp only [Call.exec, Call.timing, wpe_bind, wpe_modify]
      refine wlp_mono (handleAcceptEvent_uncharged hc) fun _ w' h => ?_
      exact .of_uncharged (trans_of Uncharged (htiming ts) h) hs
  | register fd =>
      simp only [Call.exec, wpe_onSdk]
      refine wpe_mono (wp_addEvent _ _ _) ?_ fun _ => False.elim
      exact fun _ s' he => .of_uncharged (Uncounted.of_emits he (by simp)) hs
  | recv fd k => exact wlp_recv_charged hs hc
  | writable fd k => exact wlp_writable_charged hs fd k
  | remove fd => exact Does.charged (removeConnect_inside fd) hs
  | scan ts =>
      simp only [Call.exec, Call.timing, wpe_bind, wpe_modify, wpe_pure]
      refine wlp_mono (crbScan_inside (R := Uncounted) _) fun _ w' h => ?_
      exact .of_uncharged (trans_of Uncharged (htiming ts) h) hs
  | login a k => exact wlp_login_charged hs hc
  | loginEnd p => exact Does.charged (loginEnd_inside p) hs

end Charged

/-! ### Runs -/

/-- The values returned and the counter are what the tunnels have carried. -/
structure Account.Balanced (a : Account) : Prop where
  linked : a.world.sdk.Linked True
  cost : a.traffic < 2 ^ 64 → a.returned + a.world.sdk.rptTraffCost = a.traffic

theorem Account.Balanced.charged {a : Account} {w' : World} {n : ℕ} (h : a.Balanced) (hw : Charged a.world w' n) :
    Account.Balanced { a with world := w', traffic := a.traffic + (n + a.world.sent w') } := by
  refine ⟨hw.linked, fun hlt => ?_⟩
  have hlt : a.traffic + (n + a.world.sent w') < 2 ^ 64 := hlt
  have hcost := h.cost (by omega)
  have hnew := hw.cost (by omega)
  change a.returned + w'.sdk.rptTraffCost = a.traffic + (n + a.world.sent w')
  omega

/-- A part of the SDK that counts what the tunnels carry. -/
theorem onAccount_balanced {α : Type} {received : World → ℕ} {x : WorldM α} {a : Account} (h : a.Balanced)
    (hx : wlp x (fun _ w' => Charged a.world w' (received a.world)) a.world) :
    wlp (onAccount received x) (fun _ a' => a'.Balanced) a :=
  wpe_onAccount.mpr (wlp_mono hx fun _ _ hw => h.charged hw)

theorem CostOp.run_balanced {a : Account} (op : CostOp) (hop : op.Counted a) (h : a.Balanced) :
    wlp op.run (fun _ a' => a'.Balanced) a := by
  cases op with
  | loop op =>
      refine Plan.invariant (fun a c hc h => ?_) hop h
      exact onAccount_balanced h (c.run_charged hc h.linked)
  | cost =>
      simp only [CostOp.run, yMERptTraffCost, wlp, wpe_bind, wpe_onAccount, wpe_onSdk, wpe_get, wpe_modify, wpe_pure]
      refine ⟨⟨h.linked.alive, h.linked.kinds, h.linked.known, h.linked.unused⟩, fun hlt => ?_⟩
      simp only [World.sent, List.drop_length, written, List.map_nil, List.sum_nil, Nat.add_zero] at hlt ⊢
      exact h.cost hlt
  | send fd msg k =>
      rw [CostOp.run]
      exact onAccount_balanced h (wlp_send_charged h.linked hop)
  | sendEnd p =>
      rw [CostOp.run]
      exact onAccount_balanced h (Does.charged (onSdk_inside (Removing.down p)) h.linked)

instance instDecidableClean (k : Answers) : Decidable k.Clean := inferInstanceAs (Decidable (∀ r ∈ k.writes, _))

instance instDecidableUnverified (s : State) (p : Ptr) : Decidable (s.Unverified p) :=
  inferInstanceAs (Decidable (∀ d ∈ s.peerOf p, d.verified = false))

instance instDecidableCountable (s : State) (p : Ptr) : Decidable (s.Countable p) :=
  inferInstanceAs (Decidable (∀ d ∈ s.peerOf p, d.httpVersion = .http ∧ s.accurate = false))

instance instDecidableCallCounted (w : World) : ∀ c : Call, Decidable (c.Counted w)
  | .accept newfd _ => inferInstanceAs (Decidable (0 < newfd → w.sdk.connMap newfd.toNat = none))
  | .recv fd k =>
      match h : w.sdk.connMap fd with
      | some (some p) =>
          decidable_of_iff (∀ c ∈ w.sdk.conns p, if c.type = .proxy then k.Clean ∧ w.sdk.Unverified p
            else c.dec.cstate = .forward ∨ k.Clean ∧ w.sdk.Countable p) (by simp only [Call.Counted, h])
      | some none => .isTrue (by simp only [Call.Counted, h])
      | none => .isTrue (by simp only [Call.Counted, h])
  | .login _ k => inferInstanceAs (Decidable k.Clean)
  | .register _ | .writable _ _ | .remove _ | .scan _ | .loginEnd _ => .isTrue trivial

instance instDecidableCostCounted (a : Account) : ∀ op : CostOp, Decidable (op.Counted a)
  | .loop op => inferInstanceAs (Decidable (op.plan.Guard Account.call (fun a c => c.Counted a.world) a))
  | .cost | .sendEnd _ => .isTrue trivial
  | .send fd _ k => inferInstanceAs (Decidable
      (∀ c ∈ a.world.sdk.connAt fd, c.type ≠ .proxy ∧ k.Clean ∧ a.world.sdk.accurate = false))

/-- **The cost counter.**  In every run from the start whose calls count what they carry, the values returned
and the counter add up to what the tunnels have carried. -/
theorem costCounter_exact {w : World} (hw : w.Fresh) (hcost : w.sdk.rptTraffCost = 0) (ops : List CostOp)
    (h : Along CostOp.run (fun a op => op.Counted a) ops ⟨w, 0, 0⟩) (a : Account)
    (hrun : runAll CostOp.run ops ⟨w, 0, 0⟩ = .ok ((), a)) (hlt : a.traffic < 2 ^ 64) :
    a.returned + a.world.sdk.rptTraffCost = a.traffic := by
  have hlinks := hw.sound.linked
  have hstart : Account.Balanced ⟨w, 0, 0⟩ :=
    ⟨⟨fun _ _ _ => trivial, hlinks.kinds, hlinks.known, hlinks.unused⟩, fun _ => by simp [hcost]⟩
  have hinv : wlp (runAll CostOp.run ops) (fun _ a' => a'.Balanced) ⟨w, 0, 0⟩ :=
    h.invariant (fun _ op hop => op.run_balanced hop) hstart
  rw [wlp, wpe_of_ok hrun] at hinv
  exact hinv.cost hlt

/-- The application logs in, and the write of the login request fails. -/
def failedLogin : List CostOp :=
  [.loop (.login ⟨1, 2, [3], [97]⟩ { dial := .opened 6, writes := [.fail EAGAIN] })]

/-- The tunnel has carried nothing, and the counter is as high as it can be. -/
theorem costCounter_wraps : ∃ a, runAll CostOp.run failedLogin ⟨freshWorld, 0, 0⟩ = .ok ((), a) ∧
    a.traffic = 0 ∧ a.returned = 0 ∧ a.world.sdk.rptTraffCost = 2 ^ 64 - 1 := by
  have hrun : (runAll CostOp.run failedLogin ⟨freshWorld, 0, 0⟩).toOption.map (fun r =>
      (r.2.traffic, r.2.returned, r.2.world.sdk.rptTraffCost)) = some (0, 0, 2 ^ 64 - 1) := by
    decide +kernel
  obtain ⟨⟨⟨⟩, a⟩, ha, he⟩ := Option.map_eq_some_iff.mp hrun
  simp only [Prod.mk.injEq] at he
  exact ⟨a, eq_ok_of_toOption ha, he⟩

/-- A page is fetched through a tunnel, and the counter is taken away in between. -/
def pageFetched : List CostOp :=
  browserRequests.map .loop ++
    [.loop (.event (.conn 6 true false { reads := [.data (frame (LoginRsp.bytes ⟨RespCode.ready.toNat, 5000, 7⟩))] }
      [] 0 {})), .cost, .loop (.event (.conn 6 true false { reads := [.data [1, 2, 3]] } [] 0 {}))]

theorem costCounter_exact_pageFetched : ∃ a, runAll CostOp.run pageFetched ⟨freshWorld, 0, 0⟩ = .ok ((), a) ∧
    a.world.sdk.rptTraffCost = 3 ∧ a.returned + a.world.sdk.rptTraffCost = a.traffic := by
  have hfair : Along CostOp.run (fun a op => op.Counted a) pageFetched ⟨freshWorld, 0, 0⟩ := by
    decide +kernel
  have hrun : (runAll CostOp.run pageFetched ⟨freshWorld, 0, 0⟩).toOption.map (fun r =>
      (decide (r.2.traffic < 2 ^ 64), r.2.world.sdk.rptTraffCost)) = some (true, 3) := by
    decide +kernel
  obtain ⟨⟨⟨⟩, a⟩, ha, he⟩ := Option.map_eq_some_iff.mp hrun
  simp only [Prod.mk.injEq, decide_eq_true_eq] at he
  exact ⟨a, eq_ok_of_toOption ha, he.2,
    costCounter_exact freshWorld_fresh rfl pageFetched hfair a (eq_ok_of_toOption ha) he.1⟩

end HttpsTunnel.Sdk

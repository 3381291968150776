import HttpsTunnel.Sdk.Cost
import HttpsTunnel.Sdk.Room

/-! # What is relayed and counted for a browser

An event on a browser relays bytes for this browser only, and counts nothing for it; nor does the flush of its
tunnel.  An event on a tunnel relays bytes for its browser, and counts for it the answer to a `CONNECT`, at most once:
when the tunnel begins to forward (`Tells`). -/

namespace HttpsTunnel.Sdk

open HttpsTunnel.Lib HttpsTunnel.Wire

/-- Bytes were relayed between `p` and its peer. -/
def Obs.Relays (p : Ptr) : Obs → Prop
  | raw q (some r) bs => (q = p ∨ r = p) ∧ bs ≠ []
  | _ => False

instance (p : Ptr) : ∀ o : Obs, Decidable (o.Relays p)
  | .raw q (some r) bs => inferInstanceAs (Decidable ((q = p ∨ r = p) ∧ bs ≠ []))
  | .raw _ none _ | .msg _ _ _ | .recv _ _ | .frame _ _ _ | .shut _ | .http _ _ | .wakeup _ => .isFalse id

/-- `http_transmit_len` of a connection. -/
def State.transmitLen (s : State) (p : Ptr) : Option ℕ := (s.conns p).map Connect.httpTransmitLen

/-- Nothing is relayed for `b`. -/
def Silent (b : Ptr) (s s' : State) : Prop := ∃ l, s'.log = s.log ++ l ∧ ∀ o ∈ l, ¬ o.Relays b

/-- The counter of `b` stays. -/
def Stays (b : Ptr) (s s' : State) : Prop := ∀ n, s'.transmitLen b = some n → s.transmitLen b = some n

section Browsers

variable {U : Prop} {s s₁ s' : State} {p b : Ptr} {c d : Connect} {l : List Obs} {z : Option (Ptr × ℤ)}

theorem Obs.Quiet.not_relays {o : Obs} (h : o.Quiet) : ¬ o.Relays b := by
  cases o with
  | raw | frame => exact h.elim
  | _ => exact id

theorem Silent.refl (b : Ptr) (s : State) : Silent b s s := ⟨[], (List.append_nil _).symm, by simp⟩

theorem Silent.trans (h : Silent b s s₁) (h' : Silent b s₁ s') : Silent b s s' := by
  obtain ⟨l, hl, hno⟩ := h
  obtain ⟨l', hl', hno'⟩ := h'
  exact ⟨l ++ l', by rw [hl', hl, List.append_assoc], fun o ho => (List.mem_append.mp ho).elim (hno o) (hno' o)⟩

theorem State.transmitLen_eq (s : State) (b : Ptr) :
    s.transmitLen b = ((s.conns b).map Connect.key).map Key.counter := by
  rw [Option.map_map]
  rfl

theorem Stays.of_keys (h : (s'.conns b).map Connect.key = (s.conns b).map Connect.key) : Stays b s s' := by
  intro n hn
  rwa [State.transmitLen_eq, ← h, ← State.transmitLen_eq]

/-- Something may be counted for another connection. -/
theorem Emits.keys_ne (h : Emits s s' l z) (hz : ∀ n, z ≠ some (b, n)) :
    (s'.conns b).map Connect.key = (s.conns b).map Connect.key := by
  have hid : Key.counted z b = id := by
    funext k
    rcases z with _ | ⟨q, n⟩
    · rfl
    · have hbq : b ≠ q := fun hbq => hz n (by rw [hbq])
      simp [Key.counted, hbq]
  rw [h.keys, hid, Option.map_id_fun, id]

theorem SendsFrame.counts {q : Ptr} {msg : List UInt8} (h : SendsFrame q msg s s') :
    ∃ l n, Emits s s' l (some (q, n)) ∧ ∀ o ∈ l, ∀ b, ¬ o.Relays b := by
  cases h with
  | sent n _ h => exact ⟨_, _, h, by simp [Obs.Relays]⟩
  | fails _ h => exact ⟨_, _, h, by simp⟩

/-- An act on the browser `p`. -/
theorem Act.rests (h : Act p false s s') (hp : s.Browser p c) (hs : s.Linked U) (hb : s.Browser b d) :
    Stays b s s' ∧ (b ≠ p ∨ s.Unverified p → Silent b s s') := by
  have hne : ∀ {t e}, s.Tunnel t e → b ≠ t := by
    rintro t e ht rfl
    exact hb.not_tunnel ht
  cases h with
  | quiet h hl =>
      refine ⟨.of_keys (h.keys_none b), fun _ => ⟨_, h.log, fun o ho => ?_⟩⟩
      rcases hl o ho with hq | ⟨q, e, _ | t, bs, rfl, -, hvia⟩
      · exact hq.not_relays
      · exact id
      · obtain ⟨-, -, _, ht, -⟩ := hvia t rfl
        exact absurd ht hp.not_tunnel
  | upload hp' hpeer ht hv h =>
      refine ⟨.of_keys (h.keys_none b), fun hor => ⟨_, h.log, fun o ho => ?_⟩⟩
      rw [List.mem_singleton.mp ho]
      rintro ⟨rfl | rfl, -⟩
      · exact hne ht rfl
      · have hun := hor.resolve_left (by simp)
        cases hv.symm.trans (hun _ (State.peerOf_eq_some.mpr ⟨_, _, hp'.1, hpeer, ht.1⟩))
  | login _ ht _ h =>
      obtain ⟨l, n, h, hno⟩ := h.counts
      exact ⟨.of_keys (h.keys_ne (by simp [(hne ht).symm])), fun _ => ⟨l, h.log, fun o ho => hno o ho b⟩⟩
  | @connect _ c₀ c' hp' _ hk =>
      refine ⟨fun n hn => ?_, fun _ => .refl b s⟩
      by_cases hbp : b = p
      · subst hbp
        rw [State.transmitLen, State.setConn_self] at hn
        rw [State.transmitLen, hp'.1, ← hn]
        exact congrArg some (congrArg Key.counter hk).symm
      · rwa [State.transmitLen, State.setConn_ne _ _ hbp] at hn
  | opens h =>
      refine ⟨fun n hn => ?_, fun _ => ⟨[], h.log.trans (List.append_nil _).symm, by simp⟩⟩
      by_cases hbp : b = p
      · subst hbp
        obtain ⟨c₀, hc₀, -, c', hc', hk⟩ := h.browser
        rw [State.transmitLen, hc'] at hn
        rw [State.transmitLen, hc₀.1, ← hn]
        exact congrArg some (congrArg Key.counter hk).symm
      · have hbn : b ≠ s.nextConn := by
          rintro rfl
          cases (hs.unused _ le_rfl).symm.trans hb.1
        rwa [State.transmitLen, h.others b hbp hbn] at hn

/-- An event on the browser `p`. -/
theorem Steps.rests (h : Steps p false s s') (hp : s.Browser p c) (hs : s.Linked U) (hb : s.Browser b d) :
    Stays b s s' ∧ (b ≠ p ∨ s.Unverified p → Silent b s s') := by
  have hall : Stays b s s' ∧ (b ≠ p ∨ s.Unverified p → Silent b s s') ∧ (s.Unverified p → s'.Unverified p) := by
    induction h with
    | refl => exact ⟨fun _ => id, fun _ => .refl b s, id⟩
    | tail h h' ih =>
        obtain ⟨hst, hsi, hun⟩ := ih
        have hacts := (Acts.refl s).steps h
        obtain ⟨c₁, hp₁⟩ := hacts.browser hs hp
        obtain ⟨d₁, hd₁, hbec⟩ := hacts.conn hs hb.1
        obtain ⟨hst', hsi'⟩ := h'.rests hp₁ (Steps.linked h hs) ⟨hd₁, hbec.type.trans hb.2⟩
        exact ⟨fun n hn => hst n (hst' n hn), fun hor => (hsi hor).trans (hsi' (hor.imp_right hun)),
          fun hv => h'.unverified (hun hv)⟩
  exact ⟨hall.1, hall.2.1⟩

/-- The browser `p` is writable. -/
theorem Serves.rests (h : Serves p s s') (hb : s.Browser b d) :
    Stays b s s' ∧ (b ≠ p ∨ (∀ e ∈ s.peerOf p, e.status ≠ .hangup) → Silent b s s') := by
  obtain ⟨l, h, hl⟩ := h
  refine ⟨.of_keys (h.keys_none b), fun hor => ⟨l, h.log, fun o ho => ?_⟩⟩
  rcases hl o ho with hq | ⟨q, e, _ | t, bs, rfl, -, hvia⟩
  · exact hq.not_relays
  · exact id
  · obtain ⟨rfl, e, ht, hpeer, hup⟩ := hvia t rfl
    rintro ⟨rfl | rfl, -⟩
    · exact hor.elim (fun hne => hne rfl) fun hno => hno e hpeer hup
    · exact hb.not_tunnel ht

/-- Connections may go. -/
structure Leaves (s s' : State) : Prop where
  stays : ∀ b, Stays b s s'
  silent : ∀ b, Silent b s s'

theorem Leaves.of_emits (h : Emits s s' l none) (hl : ∀ o ∈ l, o.Quiet) : Leaves s s' :=
  ⟨fun b => .of_keys (h.keys_none b), fun _ => ⟨l, h.log, fun o ho => (hl o ho).not_relays⟩⟩

instance : Removing Leaves where
  refl s := .of_emits (.refl s) (by simp)
  trans _ _ _ h h' := ⟨fun b n hn => h.stays b n (h'.stays b n hn), fun b => (h.silent b).trans (h'.silent b)⟩
  unregister fd _ := wpe_removeEvent.mpr (.of_emits (State.unregistered_emits _ fd) (by simp))
  shut s p := .of_emits (.emit s _) (by simp [Obs.Quiet])
  erase s _ := ⟨fun _ _ => id, fun b => .refl b s⟩
  delete s p := by
    refine ⟨fun b n hn => ?_, fun b => .refl b s⟩
    by_cases hbp : b = p
    · simp [State.transmitLen, hbp] at hn
    · simpa [State.transmitLen, hbp] using hn
  down _ _ := wpe_modConn.mpr ⟨fun _ => trivial, fun _ hc => .of_emits (.setConn hc rfl) (by simp)⟩
  wakeup s p := .of_emits (.emit s _) (by simp [Obs.Quiet])

end Browsers

/-! ### Events on a tunnel -/

def State.Peers (s : State) (p q : Ptr) : Prop := ∃ c, s.conns p = some c ∧ c.peer = some q

def State.InForward (s : State) (p : Ptr) : Prop := ∃ c, s.conns p = some c ∧ c.dec.cstate = .forward

/-- `b` is a browser that waits for the answer to its `CONNECT`, and `p` its tunnel. -/
def State.Told (s : State) (p b : Ptr) (d : Connect) : Prop := ¬ s.InForward p ∧ s.Peers p b ∧ d.httpVersion = .https

/-- From `s` to `s'` on the tunnel `p`: bytes are relayed for its browser only if `B` holds, and the counter of a
browser changes, by the number `n` of bytes of the reply, only if it is told that its `CONNECT` succeeded, when `p`
begins to forward. -/
structure Tells (p : Ptr) (B : Prop) (s s' : State) : Prop where
  same : SameIdents s s'
  writes : s'.writes <:+ s.writes
  forward : s.InForward p → s'.InForward p
  log : ∃ l, s'.log = s.log ++ l ∧ ∀ o ∈ l, ∀ b, o.Relays b → b = p ∨ B ∧ s.Peers p b
  browser : ∀ {b d}, s.Browser b d → ∃ d', s'.conns b = some d' ∧ d'.httpVersion = d.httpVersion ∧
    (d'.httpTransmitLen = d.httpTransmitLen ∨ s'.InForward p ∧ s.Told p b d ∧
      ∃ n : ℤ, (s.writes = [] → n = connectReplyOK.length) ∧ d'.httpTransmitLen = toU64 (d.httpTransmitLen + n))

section Tunnels

variable {U B : Prop} {s s₁ s₂ s₃ : State} {p q : Ptr} {c c' d : Connect} {l : List Obs} {z : Option (Ptr × ℤ)}

theorem Emits.inForward (h : Emits s s₁ l z) : s.InForward p → s₁.InForward p := by
  rintro ⟨c, hc, hm⟩
  obtain ⟨c₁, hc₁, hk⟩ := h.key hc
  exact ⟨c₁, hc₁, (decide_eq_decide.mp (congrArg Key.forward hk)).mpr hm⟩

theorem SameIdents.peers (h : SameIdents s s₁) : s₁.Peers p q → s.Peers p q := by
  rintro ⟨c₁, hc₁, hq⟩
  obtain ⟨c, hc, hid⟩ := h.conn_of hc₁
  exact ⟨c, hc, (Connect.ident_eq hid).2.1.trans hq⟩

theorem Tells.ne {b : Ptr} (h : Tells p B s s₁) (hp : s₁.Tunnel p c) (hb : s.Browser b d) : b ≠ p := by
  rintro rfl
  obtain ⟨d₀, hd₀, hid⟩ := h.same.conn_of hp.1
  exact hp.2 ((Connect.ident_eq hid).1.symm.trans (Option.mem_unique hd₀ hb.1 ▸ hb.2))

/-- Something is counted for the tunnel, or for the browser that is told. -/
theorem Tells.emits (h : Tells p B s s₁) (he : Emits s₁ s₂ l z) (hp : s₁.Tunnel p c)
    (hz : ∀ b n, z = some (b, n) → b = p ∨ s₁.InForward p ∧ (s.writes = [] → n = connectReplyOK.length) ∧
      ∀ d d₁, s.Browser b d → s₁.conns b = some d₁ → s.Told p b d ∧ d₁.httpTransmitLen = d.httpTransmitLen)
    (hl : ∀ o ∈ l, ∀ b, o.Relays b → b = p ∨ B ∧ s₁.Peers p b) : Tells p B s s₂ where
  same := h.same.trans (.of_emits he)
  writes := he.writes.trans h.writes
  forward hf := he.inForward (h.forward hf)
  log := by
    obtain ⟨l₁, hl₁, hno⟩ := h.log
    refine ⟨l₁ ++ l, by rw [he.log, hl₁, List.append_assoc], fun o ho b hrel => ?_⟩
    rcases List.mem_append.mp ho with ho | ho
    · exact hno o ho b hrel
    · exact (hl o ho b hrel).imp_right fun hB => ⟨hB.1, h.same.peers hB.2⟩
  browser {b d} hb := by
    obtain ⟨d₁, hd₁, hver, hor⟩ := h.browser hb
    obtain ⟨d₂, hd₂, hk⟩ := he.key hd₁
    refine ⟨d₂, hd₂, (congrArg Key.version hk).trans hver, ?_⟩
    have hcount : d₂.httpTransmitLen = (d₁.key.counted z b).counter := congrArg Key.counter hk
    by_cases htold : ∃ n, z = some (b, n)
    · obtain ⟨n, rfl⟩ := htold
      obtain ⟨hf, hn, heq⟩ := (hz b n rfl).resolve_left (h.ne hp hb)
      refine .inr ⟨he.inForward hf, (heq d d₁ hb hd₁).1, n, hn, hcount.trans ?_⟩
      simp [Key.counted, Connect.key, (heq d d₁ hb hd₁).2]
    · have hsame : d₂.httpTransmitLen = d₁.httpTransmitLen := by
        rcases z with _ | ⟨r, n⟩
        · exact hcount
        · have hbr : b ≠ r := fun hbr => htold ⟨n, by rw [hbr]⟩
          simpa [Key.counted, hbr, Connect.key] using hcount
      rw [hsame]
      exact hor.imp_right fun hor => ⟨he.inForward hor.1, hor.2⟩

/-- The tunnel begins to forward. -/
theorem Tells.begins {v : Bool} {n : ℕ} {msg : List UInt8} (h : Tells p B s s₁) (hp : s₁.Tunnel p c)
    (hm : c.dec.cstate ≠ .forward) (hk : c'.key = { c.key with verified := v, forward := true, counter := n })
    (hsent : SendsFrame p msg (s₁.setConn p c') s₂) (hr : Admits p s₂ s₃)
    (hB : ∀ q d, s.Peers p q → s.Browser q d → d.httpVersion = .http → B) : Tells p B s s₃ := by
  have hnf : ¬ s₁.InForward p := fun ⟨c₁, hc₁, hf⟩ => hm (Option.mem_unique hc₁ hp.1 ▸ hf)
  have hident : c'.ident = c.ident :=
    Prod.ext (congrArg Key.type hk) (Prod.ext (congrArg Key.peer hk) (congrArg Key.sockFd hk))
  have hf' : (s₁.setConn p c').InForward p := ⟨c', State.setConn_self _ _ _,
    of_decide_eq_true (congrArg Key.forward hk)⟩
  have hp' : (s₁.setConn p c').Tunnel p c' :=
    ⟨State.setConn_self _ _ _, fun hty => hp.2 ((congrArg Key.type hk).symm.trans hty)⟩
  have hset : Tells p B s (s₁.setConn p c') := by
    refine ⟨h.same.trans (.setConn hp.1 hident), h.writes, fun _ => hf', h.log, fun hb => ?_⟩
    obtain ⟨d₁, hd₁, hver, hor⟩ := h.browser hb
    exact ⟨d₁, (State.setConn_ne _ _ (h.ne hp hb)).trans hd₁, hver, .inl (hor.resolve_right fun hor => hnf hor.1)⟩
  obtain ⟨l₂, n₂, he₂, hno₂⟩ := hsent.counts
  have h₂ : Tells p B s s₂ := hset.emits he₂ hp' (by simp [eq_comm]) fun o ho b hrel => absurd hrel (hno₂ o ho b)
  obtain ⟨c₂, hc₂, hid₂⟩ := (SameIdents.of_emits he₂).conn hp'.1
  have hp₂ : s₂.Tunnel p c₂ := ⟨hc₂, fun hty => hp'.2 ((Connect.ident_eq hid₂).1.symm.trans hty)⟩
  cases hr with
  | wakes he => exact h₂.emits he hp₂ (by simp) (by simp [Obs.Relays])
  | @answer _ d₂ q bs hp₃ _ hpeer hq hd hs =>
      have hpq : s₂.Peers p q := ⟨_, hp₃.1, hpeer⟩
      obtain ⟨d₀, hd₀, hid⟩ := h₂.same.conn_of hq.1
      have hb₀ : s.Browser q d₀ := ⟨hd₀, (Connect.ident_eq hid).1.trans hq.2⟩
      obtain ⟨d₃, hd₃, hver, -⟩ := h₂.browser hb₀
      have hb : B := hB q d₀ (h₂.same.peers hpq) hb₀ (hver.symm.trans (Option.mem_unique hd₃ hq.1 ▸ hd))
      cases hs with
      | sent k _ he =>
          refine h₂.emits he hp₂ (by simp [eq_comm]) fun o ho b hrel => ?_
          rw [List.mem_singleton.mp ho] at hrel
          obtain ⟨rfl | rfl, -⟩ := hrel
          · exact .inl rfl
          · exact .inr ⟨hb, hpq⟩
      | fails _ he => exact h₂.emits he hp₂ (by simp [eq_comm]) (by simp)
  | @established _ d₂ q hp₃ hpeer hq hd hs =>
      have hnil : s.writes = [] → s₂.writes = [] := fun hw => List.suffix_nil.mp (hw ▸ h₂.writes)
      -- until now nothing has been counted for a browser
      have htold : ∀ d d₁, s.Browser q d → s₂.conns q = some d₁ →
          s.Told p q d ∧ d₁.httpTransmitLen = d.httpTransmitLen := by
        intro d d₁ hb hd₁
        obtain ⟨d₀, hd₀, hk₀⟩ := he₂.key_of hd₁
        rw [State.setConn_ne _ _ (h.ne hp hb)] at hd₀
        obtain ⟨d', hd', hver, hor⟩ := h.browser hb
        obtain rfl : d' = d₀ := Option.mem_unique hd' hd₀
        obtain rfl : d₂ = d₁ := Option.mem_unique hq.1 hd₁
        refine ⟨⟨fun hf => hnf (h.forward hf), h₂.same.peers ⟨_, hp₃.1, hpeer⟩, ?_⟩, ?_⟩
        · exact hver.symm.trans ((congrArg Key.version hk₀).symm.trans hd)
        · refine Eq.trans ?_ (hor.resolve_right fun hor => hnf hor.1)
          simpa [Key.counted, h.ne hp hb, Connect.key] using congrArg Key.counter hk₀
      cases hs with
      | sent k hn he =>
          refine h₂.emits he hp₂ ?_ (by simp [Obs.Relays])
          rintro _ _ ⟨⟩
          exact .inr ⟨he₂.inForward hf', fun hw => congrArg Nat.cast (hn.2 (hnil hw)), htold⟩
      | fails hf he =>
          refine h₂.emits he hp₂ ?_ (by simp)
          rintro _ _ ⟨⟩
          obtain ⟨e, hmem⟩ := hf
          exact .inr ⟨he₂.inForward hf', fun hw => by simp [hnil hw] at hmem, htold⟩

/-- An act in an event on the tunnel `p`. -/
theorem Act.tells {b : Bool} (h : Act p b s₁ s₂) (ht : Tells p B s s₁) (hp : s₁.Tunnel p c) (hb : b = false → B)
    (hB : b = true → ∀ q d, s.Peers p q → s.Browser q d → d.httpVersion = .http → B) : Tells p B s s₂ := by
  cases h with
  | quiet h hl =>
      refine ht.emits h hp (by simp) fun o ho b hrel => ?_
      rcases hl o ho with hq | ⟨q, e, _ | t, bs, rfl, -, hvia⟩
      · exact absurd hrel hq.not_relays
      · exact hrel.elim
      · obtain ⟨hf, rfl, c₁, hc₁, hpeer⟩ := hvia t rfl
        obtain ⟨rfl | rfl, -⟩ := hrel
        · exact .inr ⟨hb hf, c₁, hc₁.1, hpeer⟩
        · exact .inl rfl
  | begins hp' hm hk _ hsent hr => exact ht.begins hp' hm hk hsent hr (hB rfl)
  | upload hp' | login hp' | connect hp' => exact absurd hp hp'.not_tunnel
  | opens ho =>
      obtain ⟨c₁, hp', -⟩ := ho.browser
      exact absurd hp hp'.not_tunnel

theorem Steps.tells {b : Bool} (h : Steps p b s₁ s₂) (ht : Tells p B s s₁) (hp : s₁.Tunnel p c) (hs : s₁.Linked U)
    (hb : b = false → B)
    (hB : b = true → ∀ q d, s.Peers p q → s.Browser q d → d.httpVersion = .http → B) :
    Tells p B s s₂ ∧ s₂.Linked U ∧ ∃ c', s₂.Tunnel p c' := by
  induction h with
  | refl => exact ⟨ht, hs, c, hp⟩
  | tail _ h ih =>
      obtain ⟨ht₁, hs₁, c₁, hp₁⟩ := ih
      obtain ⟨c₂, hc₂, hbec⟩ := h.conn hs₁ hp₁.1
      exact ⟨h.tells ht₁ hp₁ hb hB, h.linked hs₁, c₂, hc₂, hbec.type ▸ hp₁.2⟩

/-- After the read bytes are passed on: in forward mode, or, for a browser that sent no `CONNECT`, with a message. -/
def Hands (v : HttpVersion) (r : Reading) : Prop :=
  r.chunk ≠ [] ∧ ((r.dec.recv hdrFormat r.chunk).2 = .forward ∨ (r.dec.recv hdrFormat r.chunk).2 = .message ∧ v = .http)

instance (v : HttpVersion) (r : Reading) : Decidable (Hands v r) := inferInstanceAs (Decidable (_ ∧ _))

/-- **An event on a tunnel.** -/
theorem streamRecvEvent_tells (ht : Tells p B s s₁) (hp : s₁.Tunnel p c) (hs : s₁.Linked U) (reads : List ReadRes)
    (hB : ∀ r ∈ (endpoint p).readings reads s₁, (Hands .https r → B) ∧
      ∀ q d, s.Peers p q → s.Browser q d → Hands d.httpVersion r → B) :
    wlp (streamRecvEvent p reads) (fun _ s' => Tells p B s s') s₁ := by
  simp only [streamRecvEvent, wlp, wpe_bind, wpe_mapFault, wpe_pure]
  refine recvLoop_rule (I := fun _ _ rs s' => (Tells p B s s' ∧ s'.Linked U ∧ ∃ c', s'.Tunnel p c') ∧
    Heeds (endpoint p) (fun r => (Hands .https r → B) ∧ ∀ q d, s.Peers p q → s.Browser q d → Hands d.httpVersion r → B)
      rs s') (Q := fun _ s' => Tells p B s s') ?_ ⟨⟨ht, hs, c, hp⟩, heeds_of_readings hB⟩
  constructor
  case freed => exact fun _ _ => trivial
  case fails =>
    rintro _ _ _ s' d ⟨⟨ht, -, c', hc'⟩, -⟩ _ _ e
    exact ht.emits (.env rfl rfl rfl rfl List.suffix_rfl List.suffix_rfl rfl rfl) hc' (by simp) (by simp)
  case empty => exact fun h _ _ => h.1.1
  case eof => exact fun h _ => h.1.1
  case overflow => exact fun _ _ _ => trivial
  case read =>
    rintro calls got bs rs s' d ⟨⟨ht, hs, c', hc'⟩, hh⟩ hv hbs h0 hsize
    obtain ⟨hP, hrest⟩ := hh.read hv hbs h0 hsize
    refine Received.heeds ?_ hrest
    obtain rfl : c'.dec = d := Option.some.inj ((congrArg (Option.map Connect.dec) hc'.1).symm.trans hv)
    have hne : bs.take c'.dec.stillneedtoread ≠ [] := by simp [hbs, h0]
    generalize bs.take c'.dec.stillneedtoread = chunk at hP hne ⊢
    obtain ⟨he, c₁, hc₁, hdec₁⟩ := onRead_emits hc' chunk.length (Decoder.recv_cstate_forward hdrFormat c'.dec chunk)
    have ht₁ := ht.emits he hc' (by simp [eq_comm]) (by simp)
    have hs₁ := (SameIdents.of_emits he).linked hs
    simp only [Received, show (endpoint p).fmt = hdrFormat from rfl]
    generalize (endpoint p).put _ _ = s₂ at he hc₁ ht₁ hs₁ ⊢
    have hhandled : ∀ {b calls r s'}, Steps p b s₂ s' → (b = false → B) →
        (b = true → ∀ q d, s.Peers p q → s.Browser q d → d.httpVersion = .http → B) →
        Handled (fun _ _ _ s' => Tells p B s s' ∧ s'.Linked U ∧ ∃ c', s'.Tunnel p c') (fun _ s' => Tells p B s s')
          calls (got ++ chunk) (unread bs chunk.length rs) r s' := by
      intro b calls r s' h hb hB
      obtain h := Steps.tells h ht₁ hc₁ hs₁ hb hB
      cases r with
      | none => exact h
      | some _ => exact h.1
    cases hr : (c'.dec.recv hdrFormat chunk).2 with
    | short | reject => exact ht₁
    | header | ignored => exact ⟨ht₁, hs₁, c₁, hc₁⟩
    | message =>
        have hmode : c₁.dec.cstate ≠ .forward := by
          rw [hdec₁, Decoder.recv_message _ _ _ hr]
          exact Mode.noConfusion
        simp only [endpoint, wpe_bind, wpe_deref, hc₁.1, wpe_pure, found_iff]
        refine wpe_mono (handleRecvMsg_acts hs₁ hc₁ hmode _) ?_ fun _ _ => trivial
        exact fun _ s' h => hhandled h (by simp) fun _ q d hq hd hver => hP.2 q d hq hd ⟨hne, .inr ⟨hr, hver⟩⟩
    | forward =>
        refine wpe_mono (onForward_acts hs₁ hc₁ _) ?_ fun _ _ => trivial
        exact fun _ s' h => hhandled h (fun _ => hP.1 ⟨hne, .inl hr⟩) (by simp)

theorem handleRecvEvent_tells {fd : ℕ} (hp : s.Tunnel p c) (hs : s.Linked U) (hfd : s.connMap fd = some (some p))
    (reads : List ReadRes)
    (hB : ∀ r ∈ s.readings fd reads, (Hands .https r → B) ∧
      ∀ q d, s.Peers p q → s.Browser q d → Hands d.httpVersion r → B) :
    wlp (handleRecvEvent fd reads) (fun _ s' => Tells p B s s') s := by
  have hrefl : Tells p B s s := ⟨.of_emits (.refl s), List.suffix_rfl, id, ⟨[], (List.append_nil _).symm, by simp⟩,
    fun hb => ⟨_, hb.1, rfl, .inl rfl⟩⟩
  simp only [State.readings, hfd, Option.join_some, hp.1, if_neg hp.2] at hB
  simp only [handleRecvEvent, wlp, wpe_bind, wpe_get, hfd, wpe_deref, hp.1, found_iff, if_neg hp.2, wpe_modConn]
  have he : Emits s (s.setConn p { c with host := [] }) [] none := .setConn hp.1 rfl
  exact streamRecvEvent_tells (hrefl.emits he hp (by simp) (by simp)) ⟨State.setConn_self _ _ _, hp.2⟩
    ((SameIdents.of_emits he).linked hs) reads hB

end Tunnels

end HttpsTunnel.Sdk

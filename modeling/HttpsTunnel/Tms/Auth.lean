import HttpsTunnel.Tms.Steps

/-! # Forwarding and authentication

Does the tunnel server forward only for authenticated clients?  Three things can go wrong:
BEGIN_TRANSMIT switches a tunnel to forward mode whether or not its client was verified, an
agent is in forward mode from the start, and READ_TOKEN_RSP is believed on any connection.
`Obs.Trusted` rules out exactly these uses; under it every byte relayed is preceded by a
positive reply of the center for its tunnel (`relay_after_auth`).  Without it a client that
never authenticated has its bytes forwarded (`unauthenticated_relay`). -/

namespace HttpsTunnel.Tms

open HttpsTunnel.Lib HttpsTunnel.Wire Relation

/-- Token replies are handled on a connection to the center only, BEGIN_TRANSMIT on a tunnel only
if its client is verified, and bytes are read from a web server only if the client of the stream
is verified. -/
def Obs.Trusted : Obs → Prop
  | .msg _ c len =>
      (c.Gets len .readTokenRsp → c.type = .center) ∧
        (c.Gets len .beginTransmit → c.type = .tunnel → c.sdkVerified = true)
  | .fwd _ c _ tn _ _ => c.type = .agent → tn.all (·.sdkVerified) = true
  | _ => True

instance : DecidablePred Obs.Trusted
  | .msg _ _ _ => inferInstanceAs (Decidable ((_ → _) ∧ (_ → _ → _)))
  | .fwd _ _ _ _ _ _ => inferInstanceAs (Decidable (_ → _))
  | .relay .. | .ctl .. | .sent .. | .tokenReq .. | .auth .. | .cutoff .. | .newfd ..
  | .connect .. | .wait .. | .answer .. | .agentDown .. | .report .. => isTrue trivial

/-- The entry is a positive reply of the center for the client on tunnel `t`. -/
def Obs.Grants (t : Ptr) (o : Obs) : Prop := ∃ p r u, o = .auth p .center t r u ∧ r.rspCode = 0

namespace Net

variable {w w' : Net}

/-- Verified clients have a positive reply, tunnels in forward mode have verified clients, and
relayed bytes come after a reply. -/
structure AuthInv (w : Net) : Prop where
  verified : ∀ {q m}, w.conns q = some m → m.verified = true → ∃ o ∈ w.log, o.Grants q
  mode : ∀ {q m}, w.conns q = some m → m.type = .tunnel → m.cstate = .forward → m.verified = true
  relays : ∀ t, Guarded (fun o _ => o.Grants t) (Obs.Relays t) w.log

/-- A node step to a verified client: it was one, or the reply is in the log. -/
theorem NodeStep.verified {log : List Obs} {q : Ptr} {m : Node} (h : NodeStep w log q m)
    (hok : ∀ o ∈ log, o.Trusted) (hv : m.verified = true) :
    (∃ n, w.conns q = some n ∧ n.verified = true) ∨ ∃ o ∈ log, o.Grants q := by
  cases h with
  | same h => exact .inl ⟨m, h, hv⟩
  | moved mode still offset connecting h hm => exact .inl ⟨_, h, hv⟩
  | linked k h hs hm => exact .inl ⟨_, h, hv⟩
  | lost h hty => exact .inl ⟨_, h, hv⟩
  | login len r h hid hr ht hlog => exact .inl ⟨_, h, hv⟩
  | switch len h hid hlog => exact .inl ⟨_, h, hv⟩
  | @verify p c m u len r h hc hid hr hq hcode htok hu hlog =>
      have hcenter : c.type = .center := (hok (.msg p c len) (by simp [hlog])).1 hid
      exact .inr ⟨.auth p c.type q r u, by simp [hlog], p, r, u, by rw [hcenter], hcode⟩
  | accepted fd mem now hq hfd => cases hv
  | agent fd u k hq hfd => cases hv

theorem NodeStep.forward {log : List Obs} {q : Ptr} {m : Node} (h : NodeStep w log q m)
    (hok : ∀ o ∈ log, o.Trusted) (hty : m.type = .tunnel) (hm : m.cstate = .forward)
    (hI : w.AuthInv) : m.verified = true := by
  cases h with
  | same h => exact hI.mode h hty hm
  | moved mode still offset connecting h hiff =>
      have hold := hI.mode h hty (hiff.mp hm)
      exact hold
  | linked k h hs hheader => cases hheader.symm.trans hm
  | lost h hag => cases hag.symm.trans hty
  | login len r h hid hr ht hlog =>
      have hold := hI.mode h hty hm
      exact hold
  | @switch c len h hid hlog => exact (hok (.msg q c len) (by simp [hlog])).2 hid hty
  | verify len r h hc hid hr hq hcode htok hu hlog => rfl
  | accepted fd mem now hq hfd => cases hm
  | agent fd u k hq hfd => cases hty

/-- The tunnel of relayed bytes has a verified client. -/
theorem Logs.relay_verified {l : List Obs} {t : Ptr} {o : Obs} (h : Logs w w' l)
    (hok : ∀ o ∈ l, o.Trusted) (hI : w.AuthInv) (ho : o ∈ l) (hr : o.Relays t) :
    ∃ m, w.conns t = some m ∧ m.verified = true := by
  obtain ⟨dir, a, bs, rfl⟩ := hr
  cases h with
  | upload a tn bs bs' hx hc hm hty =>
      simp only [List.mem_cons, reduceCtorEq, Obs.relay.injEq, List.not_mem_nil, or_false,
        false_or] at ho
      obtain ⟨-, rfl, -⟩ := ho
      exact ⟨_, hc, hI.mode hc hty hm⟩
  | @download p t' c tn k shut x bs bs' hty hk ht hfd =>
      have hv : tn.sdkVerified = true := hok (.fwd p c shut (some tn) x bs) (by simp) hty
      simp only [List.mem_cons, reduceCtorEq, Obs.relay.injEq, List.not_mem_nil, or_false,
        false_or] at ho
      obtain ⟨-, rfl, -⟩ := ho
      exact ⟨_, ht, hv⟩
  | flush bs hf =>
      simp only [List.mem_cons, Obs.relay.injEq, List.not_mem_nil, or_false] at ho
      obtain ⟨-, rfl, -⟩ := ho
      exact ⟨_, hf.conn, hI.mode hf.conn hf.type hf.mode⟩
  | cutFlush bs hf =>
      simp only [List.mem_cons, reduceCtorEq, Obs.relay.injEq, List.not_mem_nil, or_false] at ho
      obtain ⟨-, rfl, -⟩ := ho
      exact ⟨_, hf.conn, hI.mode hf.conn hf.type hf.mode⟩
  | _ => simp at ho

theorem AuthInv.step (hI : w.AuthInv) (h : Big w w') (hok : ∀ o ∈ w'.log, o.Trusted) :
    w'.AuthInv := by
  obtain ⟨l, hlog, hl⟩ := h.logs
  have hold : ∀ {t}, (∃ o ∈ w.log, o.Grants t) → ∃ o ∈ w'.log, o.Grants t := by
    rintro t ⟨o, ho, hg⟩
    exact ⟨o, by simp [hlog, ho], hg⟩
  refine ⟨?_, ?_, ?_⟩
  · intro q m hq hv
    rcases (h.node hq).verified hok hv with ⟨n, hn, hnv⟩ | hg
    · exact hold (hI.verified hn hnv)
    · exact hg
  · intro q m hq hty hm
    exact (h.node hq).forward hok hty hm hI
  · intro t
    rw [hlog]
    refine (hI.relays t).append fun o ho hr => ?_
    obtain ⟨m, hm, hv⟩ := hl.relay_verified (fun o ho => hok o (by simp [hlog, ho])) hI ho hr
    exact hI.verified hm hv

theorem init_authInv (accurate : Bool) (errno err : ℕ) (mem : Buff) :
    (Server.init accurate errno err mem).net.AuthInv where
  verified h hv := by simp [(init_conns h).notVerified] at hv
  mode h hty := absurd hty (init_conns h).notTunnel
  relays _ := Guarded.nil

end Net

/-- **Only authenticated traffic is forwarded**, in a run in which token replies come on the center
connection, BEGIN_TRANSMIT comes from verified clients and web servers are read for verified
clients only: bytes are relayed on a stream only after the center has answered with code 0 for
the client on its tunnel. -/
theorem relay_after_auth {accurate : Bool} {errno err : ℕ} {mem : Buff} {s : Server}
    {pending : List Event} (h : Reachable (Server.init accurate errno err mem) s pending)
    (hok : ∀ o ∈ s.log, o.Trusted) {l₁ l₂ : List Obs} {dir : Dir} {t a : Ptr} {bs : List UInt8}
    (hlog : s.log = l₁ ++ .relay dir t a bs :: l₂) :
    ∃ p r u, .auth p .center t r u ∈ l₁ ∧ r.rspCode = 0 := by
  have hI : s.net.AuthInv := h.runs.invariant hok (Net.init_authInv accurate errno err mem)
    fun _ _ hb _ hok hI => hI.step hb hok
  have hg : Guarded (fun o _ => Obs.Grants t o) (Obs.Relays t) s.log :=
    (hI.relays t).of_filter Obs.isKey (by rintro o ⟨dir, a, bs, rfl⟩; rfl)
  obtain ⟨o, ho, p, r, u, rfl, hcode⟩ := hg hlog ⟨dir, a, bs, rfl⟩
  exact ⟨p, r, u, ho, hcode⟩

/-! ### Runs -/

/-- The clients for which a positive reply was processed. -/
def authsOf (l : List Obs) : List Ptr :=
  l.filterMap fun
    | .auth _ _ q _ _ => some q
    | _ => none

theorem mem_authsOf {l : List Obs} {p q : Ptr} {ty : ConnType} {r : ReadTokenRsp} {u : UserId}
    (h : .auth p ty q r u ∈ l) : q ∈ authsOf l :=
  List.mem_filterMap.mpr ⟨_, h, rfl⟩

/-- A client logs in, its agent is connected, and with the forward id it is sent the client starts
to transmit; the center has not answered. -/
def unauthenticatedRun : List (List Event) :=
  [[.connects 10], [{ Event.arrives 10 sampleLogin with socks := [.opened 11 true] }], [.writable 11],
    [.arrives 10 (frame (BeginTransmit.bytes ⟨1⟩) ++ [1, 2, 3])]]

/-- **Bytes of a client that was never authenticated are forwarded.** -/
theorem unauthenticated_relay : ∃ s l₁ l₂ t a bs,
    Reachable (Server.init false 0 0 fun _ => 0) s [] ∧ s.log = l₁ ++ .relay .up t a bs :: l₂ ∧
      ∀ p ty r u, .auth p ty t r u ∉ s.log := by
  have hrun : (mainLoop unauthenticatedRun (Server.init false 0 0 fun _ => 0)).map
      (fun s => (relaysOf s.log, authsOf s.log)) = some ([(.up, 3, [1, 2, 3])], []) := by
    decide +kernel
  obtain ⟨s, hs, he⟩ := Option.map_eq_some_iff.mp hrun
  obtain ⟨hrelays, hauths⟩ := Prod.mk.inj he
  have hmem : ((.up, 3, [1, 2, 3]) : Dir × Ptr × List UInt8) ∈ relaysOf s.log := by simp [hrelays]
  obtain ⟨a, ha⟩ := exists_of_mem_relaysOf hmem
  obtain ⟨l₁, l₂, hlog⟩ := List.append_of_mem ha
  refine ⟨s, l₁, l₂, 3, a, [1, 2, 3], mainLoop_reachable .start hs, hlog, fun p ty r u h => ?_⟩
  have hmem := mem_authsOf h
  rw [hauths] at hmem
  cases hmem

/-- The same client, with the reply of the center before it starts to transmit. -/
def authenticatedRun : List (List Event) :=
  [[.connects 10], [{ Event.arrives 10 sampleLogin with socks := [.opened 11 true] }], [.writable 11],
    [.arrives 6 (frame (ReadTokenRsp.bytes ⟨0, 10, 1, 2, 1000000, 65 :: List.replicate 31 0⟩))],
    [.arrives 10 (frame (BeginTransmit.bytes ⟨1⟩) ++ [1, 2, 3])], [.arrives 11 [4, 5]]]

/-- The property holds of a run with traffic in both directions. -/
theorem relay_after_auth_authenticatedRun : ∃ s l₁ l₂ a,
    Reachable (Server.init false 0 0 fun _ => 0) s [] ∧ (∀ o ∈ s.log, o.Trusted) ∧
      s.log = l₁ ++ .relay .down 3 a [4, 5] :: l₂ ∧
      ∃ p r u, .auth p .center 3 r u ∈ l₁ ∧ r.rspCode = 0 := by
  have hrun : (mainLoop authenticatedRun (Server.init false 0 0 fun _ => 0)).map
      (fun s => (relaysOf s.log, decide (∀ o ∈ s.log, o.Trusted))) =
        some ([(.up, 3, [1, 2, 3]), (.down, 3, [4, 5])], true) := by
    decide +kernel
  obtain ⟨s, hs, he⟩ := Option.map_eq_some_iff.mp hrun
  obtain ⟨hrelays, hok⟩ := Prod.mk.inj he
  have hreach := mainLoop_reachable .start hs
  have hok : ∀ o ∈ s.log, o.Trusted := of_decide_eq_true hok
  have hmem : ((.down, 3, [4, 5]) : Dir × Ptr × List UInt8) ∈ relaysOf s.log := by simp [hrelays]
  obtain ⟨a, ha⟩ := exists_of_mem_relaysOf hmem
  obtain ⟨l₁, l₂, hlog⟩ := List.append_of_mem ha
  exact ⟨s, l₁, l₂, a, hreach, hok, hlog, relay_after_auth hreach hok hlog⟩

end HttpsTunnel.Tms

import HttpsTunnel.Tms.Steps

/-! # Verification and identity

A token request carries the descriptor of the client, and the center echoes it; the reply is
looked up by that descriptor and compared with the client by token only.  Is a verified client
the one that was checked?

* `outstanding` are the requests the center has not answered yet, each with the connection it
  was made for.
* `Obs.FromCenter` is what is known of the peer of the center connection (`NetRead` of the
  traffic recorder): every reply answers an outstanding request and echoes its fields.
* `Obs.Unmixed` are the conditions under which replies cannot be mixed up: they come on the
  center connection, nobody logs in again while verified or while a request for the same
  descriptor is outstanding, and such a descriptor is not given to a new connection.

Under both, every verified tunnel has passed a request with its current fields
(`verified_identity`).  A client can also verify itself (`self_verified`). -/

namespace HttpsTunnel.Wire

open HttpsTunnel.Lib

/-- The reply is one to the request: `NetRead` copies `cid`, `app` and `mobile`, and answers with
code 0 only if the stored token is the one of the request, which it sends back. -/
def ReadTokenRsp.Answers (r : ReadTokenRsp) (q : ReadTokenReq) : Prop :=
  r.cid = q.cid ∧ r.app = q.app ∧ r.mobile = q.mobile ∧ (r.rspCode = 0 → cstr r.token = cstr q.token)

instance (r : ReadTokenRsp) (q : ReadTokenReq) : Decidable (r.Answers q) :=
  inferInstanceAs (Decidable (_ ∧ _ ∧ _ ∧ (_ → _)))

end HttpsTunnel.Wire

namespace HttpsTunnel.Tms

open HttpsTunnel.Lib HttpsTunnel.Wire Relation

/-! ### Requests and replies -/

/-- The requests outstanding after an entry of the log. -/
def requests (out : List (Ptr × ReadTokenReq)) : Obs → List (Ptr × ReadTokenReq)
  | .tokenReq p q => out ++ [(p, q)]
  | .msg _ c len =>
      if c.type = .center ∧ c.Gets len .readTokenRsp then
        out.eraseP fun x => (ReadTokenRsp.read c.dec.buff).Answers x.2
      else out
  | _ => out

/-- The token requests that have not been answered, with the connections that made them. -/
def outstanding (l : List Obs) : List (Ptr × ReadTokenReq) := l.foldl requests []

theorem outstanding_append (l m : List Obs) :
    outstanding (l ++ m) = m.foldl requests (outstanding l) := List.foldl_append

/-- The server's own messages and reports do not count. -/
theorem outstanding_filter (l : List Obs) : outstanding (l.filter Obs.isKey) = outstanding l := by
  induction l using List.reverseRecOn with
  | nil => rfl
  | append_singleton l o ih =>
      rw [List.filter_append, outstanding_append, outstanding_append, ih]
      cases o <;> rfl

theorem mem_requests {out : List (Ptr × ReadTokenReq)} {o : Obs} {x : Ptr × ReadTokenReq}
    (hx : x ∈ requests out o) : x ∈ out ∨ o = .tokenReq x.1 x.2 := by
  unfold requests at hx
  split at hx
  · rcases List.mem_append.mp hx with hx | hx
    · exact .inl hx
    · rw [List.mem_singleton.mp hx]
      exact .inr rfl
  · split_ifs at hx
    · exact .inl (List.mem_of_mem_eraseP hx)
    · exact .inl hx
  · exact .inl hx

theorem mem_foldl_requests {l : List Obs} {out : List (Ptr × ReadTokenReq)} {x : Ptr × ReadTokenReq}
    (hx : x ∈ l.foldl requests out) : x ∈ out ∨ .tokenReq x.1 x.2 ∈ l := by
  induction l generalizing out with
  | nil => exact .inl hx
  | cons o l ih =>
      rcases ih hx with hx | hx
      · rcases mem_requests hx with hx | rfl
        · exact .inl hx
        · exact .inr List.mem_cons_self
      · exact .inr (List.mem_cons_of_mem _ hx)

/-- A token reply on the center connection answers an outstanding request. -/
def Obs.FromCenter (past : List Obs) : Obs → Prop
  | .msg _ c len => c.type = .center → c.Gets len .readTokenRsp →
      ∃ x ∈ outstanding past, (ReadTokenRsp.read c.dec.buff).Answers x.2
  | _ => True

/-- Token replies are handled on a center connection only; a login comes on a connection that is
not verified and has no request outstanding for its descriptor; and a new connection gets a
descriptor that has none. -/
def Obs.Unmixed (past : List Obs) : Obs → Prop
  | .msg _ c len =>
      (c.Gets len .readTokenRsp → c.type = .center) ∧
        (c.Gets len .loginReq →
          c.sdkVerified = false ∧ ∀ x ∈ outstanding past, x.2.cid ≠ c.sockFd)
  | .newfd fd _ => ∀ x ∈ outstanding past, x.2.cid ≠ fd
  | _ => True

instance (past : List Obs) : DecidablePred (Obs.FromCenter past)
  | .msg _ _ _ => inferInstanceAs (Decidable (_ → _ → _))
  | .fwd .. | .relay .. | .ctl .. | .sent .. | .tokenReq .. | .auth .. | .cutoff ..
  | .newfd .. | .connect .. | .wait .. | .answer .. | .agentDown .. | .report .. => isTrue trivial

instance (past : List Obs) : DecidablePred (Obs.Unmixed past)
  | .msg _ _ _ => inferInstanceAs (Decidable ((_ → _) ∧ (_ → _ ∧ _)))
  | .newfd _ _ => inferInstanceAs (Decidable (∀ x ∈ outstanding past, _))
  | .fwd .. | .relay .. | .ctl .. | .sent .. | .tokenReq .. | .auth .. | .cutoff ..
  | .connect .. | .wait .. | .answer .. | .agentDown .. | .report .. => isTrue trivial

theorem fromCenter_filter (l : List Obs) (o : Obs) :
    o.FromCenter (l.filter Obs.isKey) ↔ o.FromCenter l := by
  cases o <;> simp only [Obs.FromCenter, outstanding_filter]

theorem unmixed_filter (l : List Obs) (o : Obs) :
    o.Unmixed (l.filter Obs.isKey) ↔ o.Unmixed l := by
  cases o <;> simp only [Obs.Unmixed, outstanding_filter]

/-! ### The invariant -/

/-- The fields of a connection are those of the request. -/
def Node.Sent (n : Node) (q : ReadTokenReq) : Prop :=
  n.fd = q.cid ∧ n.app = q.app ∧ n.mobile = q.mobile ∧ cstr n.token = cstr q.token

/-- The center has answered a request made for connection `q`, with the fields of `n`, with code 0,
and the balance of its user was set. -/
def Confirmed (l : List Obs) (q : Ptr) (n : Node) : Prop :=
  ∃ l₁ l₂ p c len req, l = l₁ ++ .msg p c len :: l₂ ∧ c.type = .center ∧
    (q, req) ∈ outstanding l₁ ∧ (ReadTokenRsp.read c.dec.buff).Answers req ∧
    (ReadTokenRsp.read c.dec.buff).rspCode = 0 ∧ n.Sent req ∧
    .auth p .center q (ReadTokenRsp.read c.dec.buff) ⟨req.mobile, req.app⟩ ∈ l₂

theorem Confirmed.mono {l l' : List Obs} {q : Ptr} {n : Node} (h : Confirmed l q n) (hp : l <+: l') :
    Confirmed l' q n := by
  obtain ⟨l₁, l₂, p, c, len, req, rfl, hc, hreq, ha, hcode, hn, hauth⟩ := h
  obtain ⟨m, rfl⟩ := hp
  exact ⟨l₁, l₂ ++ m, p, c, len, req, by simp, hc, hreq, ha, hcode, hn, List.mem_append_left m hauth⟩

theorem tokenCid_of_lt {r : ReadTokenRsp} (h : r.cid < 2 ^ 31) : Net.tokenCid r = r.cid := by
  rw [Net.tokenCid, Nat.mod_eq_of_lt (by omega), if_pos h]

namespace Net

variable {w w' : Net}

structure IdentityInv (w : Net) : Prop where
  old : ∀ {x}, x ∈ outstanding w.log → x.1 < w.next ∧ x.2.cid < 2 ^ 31
  owner : ∀ {x q}, x ∈ outstanding w.log → w.table x.2.cid = some q → x.1 = q
  fields : ∀ {x n}, x ∈ outstanding w.log → w.conns x.1 = some n → n.Sent x.2
  user : ∀ {q n u}, w.conns q = some n → n.type ≠ .agent → n.user = some u → u = ⟨n.mobile, n.app⟩
  verified : ∀ {q n}, w.conns q = some n → n.type = .tunnel → n.verified = true →
    Confirmed w.log q n

/-- A request outstanding after a step was outstanding before, or it was made by a login. -/
theorem Big.requests (h : Big w w') {x : Ptr × ReadTokenReq} (hx : x ∈ outstanding w'.log) :
    x ∈ outstanding w.log ∨ ∃ c len r, w.conns x.1 = some c.node ∧ c.dec.cstate = .header ∧
      c.Gets len .loginReq ∧ 0 ∈ r.token ∧ w'.conns x.1 = some (loggedIn c.node r) ∧
      x.2 = ⟨c.sockFd, r.app, r.mobile, r.token⟩ ∧
      w'.log = w.log ++ [.msg x.1 c len, .tokenReq x.1 x.2] := by
  obtain ⟨l, hlog, hl⟩ := h.logs
  rw [hlog, outstanding_append] at hx
  rcases mem_foldl_requests hx with hx | hx
  · exact .inl hx
  · right
    cases hl with
    | login len r hc hm hid hr ht hp hu =>
        simp only [List.mem_cons, reduceCtorEq, Obs.tokenReq.injEq, List.not_mem_nil, or_false,
          false_or] at hx
        obtain ⟨rfl, hreq⟩ := hx
        exact ⟨_, len, r, hc, hm, hid, ht, hp, hreq, hreq ▸ hlog⟩
    | _ => simp at hx

/-- The conditions on a run. -/
def Verifies (l : List Obs) : Prop :=
  Complies (fun past o => o.FromCenter past) l ∧ Complies (fun past o => o.Unmixed past) l

section Step

variable {q : Ptr} {n : Node} {x : Ptr × ReadTokenReq}

theorem IdentityInv.old_step (hI : w.IdentityInv) (hw : w.Wf) (h : Big w w')
    (hx : x ∈ outstanding w'.log) : x.1 < w'.next ∧ x.2.cid < 2 ^ 31 := by
  rcases h.requests hx with hx | ⟨c, len, r, hc, -, -, -, -, hreq, -⟩
  · exact ⟨(hI.old hx).1.trans_le h.next_le, (hI.old hx).2⟩
  · rw [hreq]
    exact ⟨(hw.fresh hc).trans_le h.next_le, (hw.range hc).2⟩

theorem IdentityInv.owner_step (hI : w.IdentityInv) (hw : w.Wf) (h : Big w w')
    (hok : Verifies w'.log) (hx : x ∈ outstanding w'.log) (hq : w'.table x.2.cid = some q) :
    x.1 = q := by
  rcases h.requests hx with hx | ⟨c, len, r, hc, hm, -, -, -, hreq, hlog⟩
  · rcases h.table_cases hq with hq | ⟨-, -, l, hlog⟩
    · exact hI.owner hx hq
    · exact absurd rfl (hok.2 hlog x hx)
  · rcases h.table_cases hq with hq | ⟨-, -, l, hlog'⟩
    · -- the connection that logs in is the one under its descriptor
      rw [hreq] at hq
      obtain ⟨n, hn, hfd, hl⟩ := hw.table hq
      have hag : c.node.type ≠ .agent := fun hty => by
        cases (hw.mode hc hty).symm.trans hm
      exact hw.inj hc hn (not_lost_of_type hag) hl hfd.symm
    · cases List.append_cancel_left (hlog.symm.trans hlog')

theorem IdentityInv.fields_step (hI : w.IdentityInv) (h : Big w w') (hok : Verifies w'.log)
    (hx : x ∈ outstanding w'.log) (hn : w'.conns x.1 = some n) : n.Sent x.2 := by
  rcases h.requests hx with hx | ⟨c, len, r, -, -, -, ht, hp, hreq, -⟩
  · cases h.node hn with
    | same h => exact hI.fields hx h
    | moved mode still offset connecting h hm => exact (hI.fields hx h :)
    | linked k h hs hm => exact (hI.fields hx h :)
    | lost h hty => exact (hI.fields hx h :)
    | @login c len r h hid hr ht hlog =>
        -- no request for this descriptor is outstanding at a login
        have hne := (@hok.2 _ _ [.tokenReq x.1 _] hlog).2 hid
        exact absurd (hI.fields hx h).1.symm (hne.2 x hx)
    | switch len h hid hlog => exact (hI.fields hx h :)
    | verify len r h hc hid hr hq hcode htok hu hlog => exact (hI.fields hx h :)
    | accepted fd mem now hq hfd => exact absurd hq (hI.old hx).1.ne
    | agent fd u k hq hfd => exact absurd hq (hI.old hx).1.ne
  · cases hp.symm.trans hn
    rw [hreq]
    exact ⟨rfl, rfl, rfl, cstr_copyToken _ ht⟩

theorem IdentityInv.user_step (hI : w.IdentityInv) (h : Big w w') {u : UserId}
    (hn : w'.conns q = some n) (hty : n.type ≠ .agent) (hu : n.user = some u) :
    u = ⟨n.mobile, n.app⟩ := by
  cases h.node hn with
  | same h => exact hI.user h hty hu
  | moved mode still offset connecting h hm => exact (hI.user h hty hu :)
  | linked k h hs hm => exact (hI.user h hty hu :)
  | lost h hag => exact absurd hag hty
  | login len r h hid hr ht hlog => exact (Option.some.inj hu).symm
  | switch len h hid hlog => exact (hI.user h hty hu :)
  | verify len r h hc hid hr hq hcode htok hu' hlog => exact (hI.user h hty hu :)
  | accepted fd mem now hq hfd => cases hu
  | agent fd u k hq hfd => exact absurd rfl hty

/-- A reply of the center verifies the connection that made the request. -/
theorem IdentityInv.confirmed (hI : w.IdentityInv) (hok : Verifies w'.log) {p : Ptr} {c : Connect}
    {m : Node} {u : UserId} {len : ℕ} (hn : w.conns q = some m) (hty : m.type = .tunnel)
    (hid : c.Gets len .readTokenRsp)
    (hq : w.table (tokenCid (ReadTokenRsp.read c.dec.buff)) = some q)
    (hcode : (ReadTokenRsp.read c.dec.buff).rspCode = 0) (hu : m.user = some u)
    (hlog : w'.log = w.log ++ [.msg p c len, .auth p c.type q (ReadTokenRsp.read c.dec.buff) u]) :
    Confirmed w'.log q { m with verified := true } := by
  have hcenter : c.type = .center := (hok.2 hlog).1 hid
  obtain ⟨⟨p', req⟩, hreq, hans⟩ := hok.1 hlog hcenter hid
  have hcid : (ReadTokenRsp.read c.dec.buff).cid < 2 ^ 31 := hans.1 ▸ (hI.old hreq).2
  rw [tokenCid_of_lt hcid, hans.1] at hq
  obtain rfl : p' = q := hI.owner hreq hq
  have hsent := hI.fields hreq hn
  have huser : u = ⟨req.mobile, req.app⟩ := by
    rw [hI.user hn (by rw [hty]; decide) hu, hsent.2.1, hsent.2.2.1]
  refine ⟨w.log, _, p, c, len, req, hlog, hcenter, hreq, hans, hcode, hsent, ?_⟩
  rw [hcenter, huser]
  exact List.mem_cons_self

theorem IdentityInv.verified_step (hI : w.IdentityInv) (h : Big w w') (hok : Verifies w'.log)
    (hn : w'.conns q = some n) (hty : n.type = .tunnel) (hv : n.verified = true) :
    Confirmed w'.log q n := by
  have hp : w.log <+: w'.log := big_grows h
  cases h.node hn with
  | same h => exact (hI.verified h hty hv).mono hp
  | moved mode still offset connecting h hm => exact ((hI.verified h hty hv).mono hp :)
  | linked k h hs hm => exact ((hI.verified h hty hv).mono hp :)
  | lost h hag => exact ((hI.verified h hty hv).mono hp :)
  | @login c len r h hid hr ht hlog =>
      cases ((hok.2 hlog).2 hid).1.symm.trans hv
  | switch len h hid hlog => exact ((hI.verified h hty hv).mono hp :)
  | verify len r h hc hid hr hq hcode htok hu hlog =>
      subst hr
      exact hI.confirmed hok h hty hid hq hcode hu hlog
  | accepted fd mem now hq hfd => cases hv
  | agent fd u k hq hfd => cases hv

theorem IdentityInv.step (hI : w.IdentityInv) (hw : w.Wf) (h : Big w w') (hok : Verifies w'.log) :
    w'.IdentityInv where
  old := hI.old_step hw h
  owner := hI.owner_step hw h hok
  fields := hI.fields_step h hok
  user := hI.user_step h
  verified := hI.verified_step h hok

end Step

theorem init_identityInv (accurate : Bool) (errno err : ℕ) (mem : Buff) :
    (Server.init accurate errno err mem).net.IdentityInv where
  old hx := absurd hx List.not_mem_nil
  owner hx := absurd hx List.not_mem_nil
  fields hx := absurd hx List.not_mem_nil
  user h hty hu := by simp [(init_conns h).user] at hu
  verified h hty := absurd hty (init_conns h).notTunnel

end Net

/-- **A verified tunnel is the one that was checked**, in a run in which the replies are those of
the recorder and cannot be mixed up: the center has answered with code 0 a request made for this
connection with its current `app`, `mobile` and `token`, and the balance that was set is that of
the user of the request. -/
theorem verified_identity {accurate : Bool} {errno err : ℕ} {mem : Buff} {s : Server}
    {pending : List Event} (h : Reachable (Server.init accurate errno err mem) s pending)
    (hcenter : Complies (fun past o => o.FromCenter past) s.log)
    (hok : Complies (fun past o => o.Unmixed past) s.log) {q : Ptr} {cl : Connect}
    (hq : s.conns q = some cl) (hty : cl.type = .tunnel) (hv : cl.sdkVerified = true) :
    ∃ l₁ l₂ p c len req, s.log = l₁ ++ .msg p c len :: l₂ ∧ c.type = .center ∧
      (q, req) ∈ outstanding l₁ ∧ (ReadTokenRsp.read c.dec.buff).Answers req ∧
      (ReadTokenRsp.read c.dec.buff).rspCode = 0 ∧
      req.app = cl.app ∧ req.mobile = cl.mobile ∧ cstr req.token = cstr cl.token ∧
      .auth p .center q (ReadTokenRsp.read c.dec.buff) ⟨req.mobile, req.app⟩ ∈ l₂ := by
  have hlog : Net.Verifies s.net.log := by
    refine ⟨hcenter.filter Obs.isKey ?_, hok.filter Obs.isKey ?_⟩
    · exact fun l o _ ho => (fromCenter_filter l o).mpr ho
    · exact fun l o _ ho => (unmixed_filter l o).mpr ho
  have hI : s.net.IdentityInv := h.runs.invariant_of_log hlog
    (fun _ _ hp hl => ⟨hl.1.of_isPrefix hp, hl.2.of_isPrefix hp⟩)
    (Net.init_identityInv accurate errno err mem) fun _ _ hb hw hlog hI => hI.step hw hb hlog
  have hn : s.net.conns q = some cl.node := by simp [Server.net, hq]
  obtain ⟨l₁, l₂, p, c, len, req, hl, hc, hreq, hans, hcode, hsent, hauth⟩ :=
    hI.verified hn hty hv
  obtain ⟨m₁, m₂, hs, rfl, rfl, -⟩ := split_of_filter hl
  rw [outstanding_filter] at hreq
  exact ⟨m₁, m₂, p, c, len, req, hs, hc, hreq, hans, hcode, hsent.2.1.symm, hsent.2.2.1.symm,
    hsent.2.2.2.symm, (List.mem_filter.mp hauth).1⟩

/-! ### Runs -/

/-- A client logs in and sends itself the reply of the center. -/
def selfVerifiedRun : List (List Event) :=
  [[.connects 10], [{ Event.arrives 10 sampleLogin with socks := [.opened 11 true] }],
    [.arrives 10 (frame (ReadTokenRsp.bytes ⟨0, 10, 1, 2, 1000000, 65 :: List.replicate 31 0⟩))]]

/-- The connection is a verified tunnel. -/
def Server.passes (s : Server) (q : Ptr) : Bool :=
  (s.conns q).any fun c => c.type = .tunnel ∧ c.sdkVerified = true

theorem Server.exists_of_passes {s : Server} {q : Ptr} (h : s.passes q = true) :
    ∃ cl, s.conns q = some cl ∧ cl.type = .tunnel ∧ cl.sdkVerified = true := by
  unfold passes at h
  cases hq : s.conns q with
  | none => simp [hq] at h
  | some cl => exact ⟨cl, rfl, by simpa [hq] using h⟩

/-- **A client that sends READ_TOKEN_RSP itself is verified without the center.** -/
theorem self_verified : ∃ s q cl, Reachable (Server.init false 0 0 fun _ => 0) s [] ∧
    s.conns q = some cl ∧ cl.type = .tunnel ∧ cl.sdkVerified = true ∧
      ∀ p c len, .msg p c len ∈ s.log → c.type ≠ .center := by
  have hrun : (mainLoop selfVerifiedRun (Server.init false 0 0 fun _ => 0)).map
      (fun s => (s.passes 3, s.log.all fun | .msg _ c _ => c.type ≠ .center | _ => true)) =
        some (true, true) := by
    decide +kernel
  obtain ⟨s, hs, he⟩ := Option.map_eq_some_iff.mp hrun
  obtain ⟨hpass, hall⟩ := Prod.mk.inj he
  obtain ⟨cl, hq, hty, hv⟩ := Server.exists_of_passes hpass
  refine ⟨s, 3, cl, mainLoop_reachable .start hs, hq, hty, hv, fun p c len hm => ?_⟩
  exact of_decide_eq_true (List.all_eq_true.mp hall _ hm)

/-- The same client, with the reply of the center. -/
def verifiedRun : List (List Event) :=
  [[.connects 10], [{ Event.arrives 10 sampleLogin with socks := [.opened 11 true] }],
    [.arrives 6 (frame (ReadTokenRsp.bytes ⟨0, 10, 1, 2, 1000000, 65 :: List.replicate 31 0⟩))]]

/-- The property holds of a run in which the center answers. -/
theorem verified_identity_verifiedRun : ∃ s cl, Reachable (Server.init false 0 0 fun _ => 0) s [] ∧
    Complies (fun past o => o.FromCenter past) s.log ∧ Complies (fun past o => o.Unmixed past) s.log ∧
      s.conns 3 = some cl ∧ cl.type = .tunnel ∧ cl.sdkVerified = true ∧
      ∃ l₁ l₂ p c len req, s.log = l₁ ++ .msg p c len :: l₂ ∧ c.type = .center ∧
        (3, req) ∈ outstanding l₁ ∧ (ReadTokenRsp.read c.dec.buff).Answers req ∧
        (ReadTokenRsp.read c.dec.buff).rspCode = 0 ∧
        req.app = cl.app ∧ req.mobile = cl.mobile ∧ cstr req.token = cstr cl.token ∧
        .auth p .center 3 (ReadTokenRsp.read c.dec.buff) ⟨req.mobile, req.app⟩ ∈ l₂ := by
  have hrun : (mainLoop verifiedRun (Server.init false 0 0 fun _ => 0)).map
      (fun s => (s.passes 3, decide (Complies (fun past o => o.FromCenter past) s.log),
        decide (Complies (fun past o => o.Unmixed past) s.log))) = some (true, true, true) := by
    decide +kernel
  obtain ⟨s, hs, he⟩ := Option.map_eq_some_iff.mp hrun
  simp only [Prod.mk.injEq, decide_eq_true_eq] at he
  obtain ⟨hpass, hcenter, hok⟩ := he
  obtain ⟨cl, hq, hty, hv⟩ := Server.exists_of_passes hpass
  have hreach := mainLoop_reachable .start hs
  exact ⟨s, cl, hreach, hcenter, hok, hq, hty, hv, verified_identity hreach hcenter hok hq hty hv⟩

end HttpsTunnel.Tms

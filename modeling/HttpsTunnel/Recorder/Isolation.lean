import HttpsTunnel.Recorder.Report
import HttpsTunnel.Recorder.Token

/-! # The accounts in redis are kept apart

A handler of the recorder runs commands on the keys of its own account only, and keys of different
accounts are different texts; so whatever the handlers of other users do, the token, the balance and
the details of a user stay as they are (`State.run_data`).  And the text that SET leaves under `bal` is
what every later GET of the account finds until the next SET (`State.run_kept`), and `atoll` reads it
as the number that was printed. -/

namespace HttpsTunnel.Recorder

open HttpsTunnel.Lib HttpsTunnel.Wire

/-- The key a command is about. -/
def Cmd.key : Cmd → List Char
  | get k | set k _ | rpush k _ | expire k _ => k

/-- The command writes its key. -/
def Cmd.writes : Cmd → Bool
  | set _ _ | rpush _ _ => true
  | get _ | expire _ _ => false

section Command

variable {r : Redis} {c : Cmd} {k : List Char}

namespace Redis

theorem exec_data (h : c.writes = true → k ≠ c.key) : (r.exec c).1.data k = r.data k := by
  cases c with
  | get k' =>
      rw [Redis.exec]
      split <;> rfl
  | set k' v => exact put_data_of_ne (h rfl) _
  | rpush k' v =>
      rw [Redis.exec]
      split
      · exact put_data_of_ne (h rfl) _
      · exact put_data_of_ne (h rfl) _
      · rfl
  | expire k' t => rfl

end Redis

/-- Executed or not, a command leaves every other key alone, and its own unless it writes. -/
theorem execCommand_data (o : Outcome) (h : c.writes = true → k ≠ c.key) :
    (execCommand r c o).1.data k = r.data k := by
  rcases o with _ | ⟨_ | _, _⟩
  · exact Redis.exec_data h
  · rfl
  · exact Redis.exec_data h

end Command

/-! ### Handlers -/

namespace Handler

/-- A handler is about to write the balance of an account. -/
def Sets (h : Handler) (u : ℕ × ℕ) : Prop := h.user = u ∧ h.stage.isSet = true

instance (h : Handler) (u : ℕ × ℕ) : Decidable (h.Sets u) := inferInstanceAs (Decidable (_ ∧ _))

/-- The commands of a handler are about the keys of its account. -/
theorem exists_cmd_key {h : Handler} {c : Cmd} (hc : h.cmd = some c) :
    ∃ kind, c.key = key kind h.req.mobile h.req.app := by
  obtain ⟨req, stage⟩ := h
  cases stage with
  | get | set =>
      cases hc
      exact ⟨.bal, rfl⟩
  | rpush =>
      cases hc
      exact ⟨.dtl, rfl⟩
  | expire =>
      cases hc
      exact ⟨.auth, rfl⟩
  | done => cases hc

/-- The commands of a handler write the balance only to set it. -/
theorem cmd_key_ne_bal {h : Handler} {c : Cmd} (hc : h.cmd = some c) (hs : h.stage.isSet = false)
    (hw : c.writes = true) : c.key = key .dtl h.req.mobile h.req.app := by
  obtain ⟨req, stage⟩ := h
  cases stage with
  | get =>
      cases hc
      cases hw
  | set => cases hs
  | rpush =>
      cases hc
      rfl
  | expire =>
      cases hc
      cases hw
  | done => cases hc

theorem run_data {h : Handler} {r : Redis} {k : List Char} (o : Outcome)
    (hk : ∀ c, h.cmd = some c → c.writes = true → k ≠ c.key) : (h.run r o).1.data k = r.data k := by
  rw [run]
  cases hc : h.cmd with
  | none => rfl
  | some c => exact execCommand_data o (hk c hc)

theorem run_data_of_user_ne {h : Handler} {u : ℕ × ℕ} (hu : h.user ≠ u) (r : Redis) (o : Outcome)
    (kind : Kind) : (h.run r o).1.data (key kind u.1 u.2) = r.data (key kind u.1 u.2) := by
  refine run_data o fun c hc _ hk => hu ?_
  obtain ⟨kind', hkey⟩ := exists_cmd_key hc
  obtain ⟨-, hm, ha⟩ := key_inj.mp (hk.trans hkey)
  exact Prod.ext hm.symm ha.symm

theorem run_data_of_not_sets {h : Handler} {u : ℕ × ℕ} (hs : ¬ h.Sets u) (r : Redis) (o : Outcome) :
    (h.run r o).1.data (key .bal u.1 u.2) = r.data (key .bal u.1 u.2) := by
  by_cases hu : h.user = u
  · refine run_data o fun c hc hw hk => ?_
    have hset : h.stage.isSet = false := Bool.eq_false_iff.mpr fun ht => hs ⟨hu, ht⟩
    exact key_dtl_ne _ _ _ _ ((hk.trans (cmd_key_ne_bal hc hset hw)).symm)
  · exact run_data_of_user_ne hu r o .bal

@[simp] theorem run_user (h : Handler) (r : Redis) (o : Outcome) : (h.run r o).2.user = h.user := by
  rw [run]
  cases h.cmd <;> rfl

end Handler

/-! ### Runs -/

/-- An event for another account than `u`: the request received is not of `u`. -/
def Event.Spares (u : ℕ × ℕ) : Event → Prop
  | receive req => (req.mobile, req.app) ≠ u
  | exec _ _ => True

/-- The handler that an event runs is not about to write the balance of `u`. -/
def Unset (u : ℕ × ℕ) (s : State) : Event → Prop
  | .receive _ => True
  | .exec i _ => ∀ h ∈ s.handlers[i]?, ¬ h.Sets u

instance (u : ℕ × ℕ) : ∀ e : Event, Decidable (e.Spares u)
  | .receive req => inferInstanceAs (Decidable ((req.mobile, req.app) ≠ u))
  | .exec _ _ => .isTrue trivial

instance (u : ℕ × ℕ) (s : State) : ∀ e, Decidable (Unset u s e)
  | .receive _ => .isTrue trivial
  | .exec i _ => inferInstanceAs (Decidable (∀ h ∈ s.handlers[i]?, ¬ h.Sets u))

namespace State

variable {s : State} {u : ℕ × ℕ}

/-- The content of the server after handler `i` has run a command. -/
theorem exec_redis (s : State) (i : ℕ) (o : Outcome) :
    (s.exec i o).redis = s.redis ∨
      ∃ h, s.handlers[i]? = some h ∧ (s.exec i o).redis = (h.run s.redis o).1 := by
  rw [exec]
  cases hi : s.handlers[i]? with
  | none => exact .inl rfl
  | some h => exact .inr ⟨h, rfl, rfl⟩

theorem forall_handlers_exec {P : Handler → Prop} (hP : ∀ h r o, P h → P (h.run r o).2)
    (h : ∀ h ∈ s.handlers, P h) (i : ℕ) (o : Outcome) : ∀ h ∈ (s.exec i o).handlers, P h := by
  rw [exec]
  cases hi : s.handlers[i]? with
  | none => exact h
  | some g =>
      intro x hx
      rcases List.mem_or_eq_of_mem_set hx with hx | rfl
      · exact h x hx
      · exact hP g _ _ (h g (List.mem_of_getElem? hi))

/-- No handler of another user touches a key of `u`. -/
theorem step_data {e : Event} (he : e.Spares u) (hs : ∀ h ∈ s.handlers, h.user ≠ u) :
    (∀ h ∈ (s.step e).handlers, h.user ≠ u) ∧
      ∀ kind, (s.step e).redis.data (key kind u.1 u.2) = s.redis.data (key kind u.1 u.2) := by
  cases e with
  | receive req =>
      refine ⟨?_, fun _ => rfl⟩
      intro h hh
      rcases List.mem_append.mp hh with hh | hh
      · exact hs h hh
      · rw [List.mem_singleton.mp hh]
        exact he
  | exec i o =>
      refine ⟨forall_handlers_exec (P := fun h => h.user ≠ u) (fun h r o hu => by simpa using hu) hs i o,
        fun kind => ?_⟩
      rcases exec_redis s i o with hr | ⟨h, hi, hr⟩
      · rw [step, hr]
      · rw [step, hr]
        exact Handler.run_data_of_user_ne (hs h (List.mem_of_getElem? hi)) _ _ _

/-- In a run without handlers of `u` the keys of `u` stay as they are. -/
theorem run_data {events : List Event} (he : ∀ e ∈ events, e.Spares u)
    (hs : ∀ h ∈ s.handlers, h.user ≠ u) (kind : Kind) :
    (events.foldl step s).redis.data (key kind u.1 u.2) = s.redis.data (key kind u.1 u.2) := by
  induction events generalizing s with
  | nil => rfl
  | cons e events ih =>
      obtain ⟨he, hes⟩ := List.forall_mem_cons.mp he
      obtain ⟨hs', hd⟩ := step_data he hs
      rw [List.foldl_cons, ih hes hs', hd]

/-- In a run in which the balance of `u` is not set it stays as it is. -/
theorem run_kept {events : List Event} (he : Throughout step (Unset u) events s) :
    (events.foldl step s).redis.data (key .bal u.1 u.2) = s.redis.data (key .bal u.1 u.2) := by
  refine Throughout.invariant
    (I := fun s' => s'.redis.data (key .bal u.1 u.2) = s.redis.data (key .bal u.1 u.2)) ?_ he rfl
  rintro s₁ e h₁ hI
  cases e with
  | receive req => exact hI
  | exec i o =>
      rcases exec_redis s₁ i o with hr | ⟨h, hi, hr⟩
      · rw [step, hr]
        exact hI
      · rw [step, hr, Handler.run_data_of_not_sets (h₁ h hi)]
        exact hI

end State

/-! ### The balance -/

/-- The answer to a login with the balance `z`. -/
def loginBalance (rsp : ReadTokenRsp) (z : ℤ) : ReadTokenRsp :=
  { rsp with balance := z, rspCode := if z < minBalance then RespCode.noBalance.toNat else 0 }

/-- The next report and the next login of an account read `z` as its balance. -/
structure ReadsBack (r : Redis) (mobile app : ℕ) (z : ℤ) : Prop where
  report : ∀ h : Handler, h.user = (mobile, app) → h.stage = .get → (h.run r .ok).2.stage = .set z
  login : ∀ rsp sent, answerBalance rsp (execCommand r (.get (key .bal mobile app)) .ok).2 sent =
    .ok ((), sent ++ [loginBalance rsp z])

theorem readsBack {r : Redis} {mobile app : ℕ} {z : ℤ} (hz : -2 ^ 63 ≤ z) (hz' : z < 2 ^ 63)
    (hr : r.data (key .bal mobile app) = some (.str (decimalInt z))) : ReadsBack r mobile app z := by
  have hget : (execCommand r (.get (key .bal mobile app)) .ok).2 = some (.string (decimalInt z)) :=
    exec_get (o := some (decimalInt z)) hr
  refine ⟨?_, ?_⟩
  · rintro ⟨req, stage⟩ hu rfl
    obtain ⟨rfl, rfl⟩ : req.mobile = mobile ∧ req.app = app := Prod.mk.inj hu
    show Handler.next ⟨req, .get⟩ (execCommand r (.get (key .bal req.mobile req.app)) .ok).2 = .set z
    rw [hget]
    exact congrArg Stage.set (atoll_decimalInt hz hz')
  · intro rsp sent
    rw [hget]
    show Except.ok ((), sent ++ [loginBalance rsp (atoll (decimalInt z))]) = _
    rw [atoll_decimalInt hz hz']

/-- **The accounts are isolated.**  Keys of different kinds or accounts differ; in a run without reports of
a user the keys of the user stay as they are; and whatever a handler sets as the balance, until the next
SET of the account every report and every login reads it as the number that was set. -/
theorem accounts_isolated :
    (∀ kind kind' mobile mobile' app app',
      (kind, mobile, app) ≠ (kind', mobile', app') → key kind mobile app ≠ key kind' mobile' app') ∧
    (∀ (s : State) (events : List Event) (u : ℕ × ℕ), (∀ h ∈ s.handlers, h.user ≠ u) →
      (∀ e ∈ events, e.Spares u) → ∀ kind,
        (events.foldl State.step s).redis.data (key kind u.1 u.2) = s.redis.data (key kind u.1 u.2)) ∧
    ∀ (s : State) (i : ℕ) (h : Handler) (b remain : ℤ) (events : List Event),
      s.handlers[i]? = some h → h.stage = .set b → h.remain b = remain →
      Throughout State.step (Unset h.user) events (s.exec i .ok) →
        ReadsBack (events.foldl State.step (s.exec i .ok)).redis h.req.mobile h.req.app remain := by
  refine ⟨?_, ?_, ?_⟩
  · intro kind kind' mobile mobile' app app' hne heq
    obtain ⟨rfl, rfl, rfl⟩ := key_inj.mp heq
    exact hne rfl
  · intro s events u hs he kind
    exact State.run_data he hs kind
  · rintro s i h b remain events hi hst rfl hev
    obtain ⟨hz, hz'⟩ := wrapI64_mem (b - h.req.traffic)
    refine readsBack hz hz' ((State.run_kept hev).trans ?_)
    have hcmd : h.cmd = some (.set (key .bal h.req.mobile h.req.app) (decimalInt (h.remain b))) := by
      simp only [Handler.cmd, hst]
    have hrun : (h.run s.redis .ok).1 =
        s.redis.put (key .bal h.req.mobile h.req.app) (.str (decimalInt (h.remain b))) := by
      simp only [Handler.run, hcmd, execCommand, Redis.exec]
    show (s.exec i .ok).redis.data (key .bal h.req.mobile h.req.app) = _
    rw [State.exec, hi]
    show (h.run s.redis .ok).1.data _ = _
    rw [hrun, Redis.put_data_self]

/-- A report of 1200 bytes of user 1, whose handler has read the balance 1000. -/
def overdrawn : Handler := { req := reportOf 1200, stage := .set 1000 }

/-- The largest numbers are told apart; a report of user 1 leaves user 3 alone; and the balance it sets
is negative and is read back after the handler has finished. -/
theorem accounts_isolated_overdrawn :
    key .auth (2 ^ 64 - 1) 1 ≠ key .auth 1 (2 ^ 64 - 1) ∧
      ([.exec 0 .ok, .exec 0 .ok, .exec 0 .ok].foldl State.step ⟨oneAccount, [overdrawn]⟩).redis.data
          (key .bal 3 2) = oneAccount.data (key .bal 3 2) ∧
      ReadsBack ([.exec 0 .ok, .exec 0 .ok].foldl State.step (State.exec ⟨oneAccount, [overdrawn]⟩ 0 .ok)).redis
        1 2 (-200) :=
  ⟨accounts_isolated.1 _ _ _ _ _ _ (by decide),
    accounts_isolated.2.1 ⟨oneAccount, [overdrawn]⟩ [.exec 0 .ok, .exec 0 .ok, .exec 0 .ok] (3, 2) (by decide)
      (by decide) .bal,
    accounts_isolated.2.2 ⟨oneAccount, [overdrawn]⟩ 0 overdrawn 1000 (-200) [.exec 0 .ok, .exec 0 .ok] rfl rfl
      (by decide) (by decide +kernel)⟩

end HttpsTunnel.Recorder

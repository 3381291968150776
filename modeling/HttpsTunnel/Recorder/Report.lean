import HttpsTunnel.Lib.Trace
import HttpsTunnel.Recorder.Redis

/-! # Traffic reports at the recorder

`NetRead` starts a coroutine for every `TRAFFIC_REPORT`.  A coroutine reads the balance, writes
back what remains, appends the detail and renews the token; it gives way to others at each of
these commands.  `Handler` is such a coroutine between two commands and `State.exec` lets one of
them run its next command.

The balance is read by one command and written by another, so two reports of one account can both
start from the same balance (`lost_deduction`).  If a handler reads a balance only when no other
handler of the account is about to write it, every report is deducted once
(`balance_eq_sub_reports`). -/

namespace HttpsTunnel.Recorder

open HttpsTunnel.Lib HttpsTunnel.Wire

/-! ### The coroutine -/

/-- The command a handler runs next; after the last one `done`, with the code of its answer. -/
inductive Stage where
  | get
  | set (balance : ℤ)
  | rpush
  | expire
  | done (rspCode : ℕ)
deriving DecidableEq, Repr

structure Handler where
  req : TrafficReport
  stage : Stage := .get
deriving DecidableEq, Repr

namespace Handler

/-- `balance - req->traffic`, computed unsigned and converted back. -/
def remain (h : Handler) (balance : ℤ) : ℤ := wrapI64 (balance - h.req.traffic)

/-- The seconds (as `%u` prints them) and milliseconds of a `timeval`. -/
def timeText (t : ℕ × ℕ) : List Char := decimal 1 (t.1 % 2 ^ 32) ++ decimal 3 (t.2 / 1000)

/-- `"%s,%lu,%u%0.3d,%u%0.3d"`. -/
def detail (h : Handler) : List Char :=
  h.req.host.map (fun b => Char.ofNat b.toNat) ++ ',' :: (decimal 1 h.req.traffic ++
    ',' :: (timeText h.req.btime ++ ',' :: timeText h.req.etime))

def cmd (h : Handler) : Option Cmd :=
  match h.stage with
  | .get => some (.get (key .bal h.req.mobile h.req.app))
  | .set b => some (.set (key .bal h.req.mobile h.req.app) (decimalInt (h.remain b)))
  | .rpush => some (.rpush (key .dtl h.req.mobile h.req.app) h.detail)
  | .expire => some (.expire (key .auth h.req.mobile h.req.app) 360000000)
  | .done _ => none

/-- What the handler does with the reply to its command. -/
def next (h : Handler) (reply : Option Reply) : Stage :=
  match h.stage, reply with
  | .get, some (.string s) => .set (atoll s)
  | .get, _ => .done 0xff
  | .set _, some (.status ('O' :: 'K' :: _)) => .rpush
  | .set _, _ => .done 0xff
  | .rpush, some (.integer n) => if n < 1 then .done 0xff else .expire
  | .rpush, _ => .done 0xff
  | .expire, _ => .done 0
  | .done c, _ => .done c

/-- One command of the handler. -/
def run (h : Handler) (r : Redis) (o : Outcome) : Redis × Handler :=
  match h.cmd with
  | none => (r, h)
  | some c =>
      let (r', reply) := execCommand r c o
      (r', { h with stage := h.next reply })

/-- The answer of a handler that is done. -/
def rsp (h : Handler) (code : ℕ) : TrafficReportRsp where
  app := h.req.app
  mobile := h.req.mobile
  traffic := h.req.traffic
  ip := h.req.ip
  rspCode := code

end Handler

/-! ### The recorder -/

structure State where
  redis : Redis
  handlers : List Handler := []

namespace State

/-- A `TRAFFIC_REPORT` is dispatched. -/
def receive (s : State) (req : TrafficReport) : State :=
  { s with handlers := s.handlers ++ [{ req }] }

/-- Handler `i` runs its next command. -/
def exec (s : State) (i : ℕ) (o : Outcome) : State :=
  match s.handlers[i]? with
  | none => s
  | some h => ⟨(h.run s.redis o).1, s.handlers.set i (h.run s.redis o).2⟩

/-- The answer sent when the command is the handler's last. -/
def answer (s : State) (i : ℕ) (o : Outcome) : Option TrafficReportRsp :=
  match s.handlers[i]? with
  | none => none
  | some h =>
      match h.stage, (h.run s.redis o).2.stage with
      | .done _, _ => none
      | _, .done c => some (h.rsp c)
      | _, _ => none

end State

inductive Event where
  | receive (req : TrafficReport)
  | exec (i : ℕ) (o : Outcome)
deriving DecidableEq, Repr

def State.step (s : State) : Event → State
  | .receive req => s.receive req
  | .exec i o => s.exec i o

/-! ### What a command does to the balances -/

/-- The balance has been written. -/
def Stage.settled : Stage → Bool
  | get | set _ => false
  | rpush | expire | done _ => true

def Stage.isSet : Stage → Bool
  | set _ => true
  | _ => false

def Stage.isDone : Stage → Bool
  | done _ => true
  | _ => false

namespace Handler

/-- The account of a handler, as mobile number and application. -/
def user (h : Handler) : ℕ × ℕ := (h.req.mobile, h.req.app)

/-- Reading and writing the balance succeed. -/
def Succeeds (h : Handler) (r : Redis) (o : Outcome) : Prop :=
  h.stage.settled = false → o = .ok ∧ (h.run r o).2.stage ≠ .done 0xff

instance (h : Handler) (r : Redis) (o : Outcome) : Decidable (h.Succeeds r o) :=
  inferInstanceAs (Decidable (_ → _))

end Handler

/-- What a command of a handler can do, if reading and writing the balance succeed. -/
inductive HandlerStep (r : Redis) (h : Handler) : Redis → Handler → Prop
  | get (b : ℤ) (hs : h.stage = .get) (hb : r.balance h.req.mobile h.req.app = some b) :
      HandlerStep r h r { h with stage := .set b }
  | set (b : ℤ) (hs : h.stage = .set b) :
      HandlerStep r h (r.put (key .bal h.req.mobile h.req.app) (.str (decimalInt (h.remain b))))
        { h with stage := .rpush }
  | rest (r' : Redis) (st : Stage) (hs : h.stage.settled = true) (hst : st.settled = true)
      (hr : ∀ mobile app, r'.balance mobile app = r.balance mobile app) :
      HandlerStep r h r' { h with stage := st }

theorem key_dtl_ne (mobile app mobile' app' : ℕ) : key .dtl mobile app ≠ key .bal mobile' app' := by
  rw [Ne, key_inj]
  exact fun h => Kind.noConfusion h.1

/-- A command on the details or on the token leaves every balance as it is. -/
theorem balance_execCommand {r : Redis} {c : Cmd} {o : Outcome} {mobile app : ℕ}
    (hc : (∃ m a v, c = .rpush (key .dtl m a) v) ∨ ∃ k t, c = .expire k t) :
    (execCommand r c o).1.balance mobile app = r.balance mobile app := by
  have he : (r.exec c).1.balance mobile app = r.balance mobile app := by
    rcases hc with ⟨m, a, v, rfl⟩ | ⟨k, t, rfl⟩
    · rw [Redis.exec]
      split
      · exact balance_put_of_ne (key_dtl_ne _ _ _ _)
      · exact balance_put_of_ne (key_dtl_ne _ _ _ _)
      · rfl
    · rfl
  match o with
  | .ok => exact he
  | .failed true _ => exact he
  | .failed false _ => rfl

theorem Handler.next_rpush_settled (req : TrafficReport) (reply : Option Reply) :
    (next ⟨req, .rpush⟩ reply).settled = true := by
  match reply with
  | some (.integer n) =>
      simp only [next]
      split_ifs <;> rfl
  | none | some .nil | some (.string _) | some (.status _) | some .error => rfl

theorem Handler.run_step {h : Handler} {r : Redis} {o : Outcome} (hs : h.Succeeds r o) :
    HandlerStep r h (h.run r o).1 (h.run r o).2 := by
  obtain ⟨req, stage⟩ := h
  cases stage with
  | get =>
      obtain ⟨rfl, hp⟩ := hs rfl
      have hd : ∃ s, r.data (key .bal req.mobile req.app) = some (.str s) := by
        match hd : r.data (key .bal req.mobile req.app) with
        | some (.str s) => exact ⟨s, rfl⟩
        | some (.list l) => exact absurd (by simp [run, cmd, execCommand, Redis.exec, hd, next]) hp
        | none => exact absurd (by simp [run, cmd, execCommand, Redis.exec, hd, next]) hp
      obtain ⟨s, hd⟩ := hd
      have hrun : run ⟨req, .get⟩ r .ok = (r, ⟨req, .set (atoll s)⟩) := by
        simp [run, cmd, execCommand, Redis.exec, hd, next]
      rw [hrun]
      exact .get (atoll s) rfl (by simp [Redis.balance, hd])
  | set b =>
      obtain ⟨rfl, -⟩ := hs rfl
      exact .set b rfl
  | rpush =>
      exact .rest _ _ rfl (next_rpush_settled ..)
        (fun m a => balance_execCommand (.inl ⟨_, _, _, rfl⟩))
  | expire => exact .rest _ _ rfl rfl (fun m a => balance_execCommand (.inr ⟨_, _, rfl⟩))
  | done c => exact .rest _ _ rfl rfl (fun m a => rfl)

/-! ### Deductions -/

/-- The traffic of the reports for an account. -/
def trafficFor (u : ℕ × ℕ) (reqs : List TrafficReport) : ℕ :=
  ((reqs.filter (fun r => (r.mobile, r.app) = u)).map TrafficReport.traffic).sum

section Deductions

variable (u : ℕ × ℕ) (l : List Handler)

/-- The traffic of the reports received for an account. -/
def received : ℕ := trafficFor u (l.map Handler.req)

/-- The traffic of those that have not been deducted. -/
def owing : ℕ :=
  ((l.filter (fun h => h.user = u ∧ h.stage.settled = false)).map (fun h => h.req.traffic)).sum

/-- The number of handlers about to write the balance of an account. -/
def setting : ℕ := l.countP (fun h => h.user = u ∧ h.stage.isSet = true)

end Deductions

/-- A handler reads the balance of its account only when no other is about to write it. -/
def Handler.Alone (h : Handler) (l : List Handler) : Prop := h.stage = .get → setting h.user l = 0

instance (h : Handler) (l : List Handler) : Decidable (h.Alone l) :=
  inferInstanceAs (Decidable (_ → _))

/-- The balance of an account is what it was before less the reports that are not owing, and a handler
about to write it has read it. -/
structure Deducted (u : ℕ × ℕ) (b₀ : ℤ) (s : State) : Prop where
  balance : s.redis.balance u.1 u.2 =
    some (wrapI64 (b₀ - (received u s.handlers - owing u s.handlers)))
  reads : ∀ h ∈ s.handlers, h.user = u → ∀ b, h.stage = .set b → s.redis.balance u.1 u.2 = some b
  alone : setting u s.handlers ≤ 1

theorem State.exec_eq {s : State} {i : ℕ} {h : Handler} (hi : s.handlers[i]? = some h) (o : Outcome) :
    ∃ l₁ l₂, s.handlers = l₁ ++ h :: l₂ ∧
      s.exec i o = ⟨(h.run s.redis o).1, l₁ ++ (h.run s.redis o).2 :: l₂⟩ := by
  obtain ⟨hlt, rfl⟩ := List.getElem?_eq_some_iff.mp hi
  refine ⟨s.handlers.take i, s.handlers.drop (i + 1), by simp, ?_⟩
  rw [exec, hi]
  simp only [List.set_eq_take_append_cons_drop, if_pos hlt]

section Append

variable {u : ℕ × ℕ} {l₁ l₂ : List Handler} {h : Handler}

theorem received_append : received u (l₁ ++ h :: l₂) =
    received u (l₁ ++ l₂) + if h.user = u then h.req.traffic else 0 := by
  by_cases hu : (h.req.mobile, h.req.app) = u <;> simp [received, trafficFor, Handler.user, hu]
  omega

theorem owing_append : owing u (l₁ ++ h :: l₂) =
    owing u (l₁ ++ l₂) + if h.user = u ∧ h.stage.settled = false then h.req.traffic else 0 := by
  by_cases hu : h.user = u ∧ h.stage.settled = false <;> simp [owing, hu]
  omega

theorem setting_append : setting u (l₁ ++ h :: l₂) =
    setting u (l₁ ++ l₂) + if h.user = u ∧ h.stage.isSet = true then 1 else 0 := by
  by_cases hu : h.user = u ∧ h.stage.isSet = true <;> simp [setting, hu]
  omega

theorem forall_mem_append {P : Handler → Prop} :
    (∀ x ∈ l₁ ++ h :: l₂, P x) ↔ P h ∧ ∀ x ∈ l₁ ++ l₂, P x := by
  simp only [List.forall_mem_append, List.forall_mem_cons]
  tauto

end Append

namespace Deducted

variable {u : ℕ × ℕ} {b₀ : ℤ}

theorem receive {s : State} (hd : Deducted u b₀ s) (req : TrafficReport) :
    Deducted u b₀ (s.receive req) := by
  obtain ⟨hb, hr, ha⟩ := hd
  refine ⟨?_, ?_, ?_⟩ <;> simp only [State.receive]
  · rw [hb, received_append, owing_append, List.append_nil]
    simp only [Stage.settled, and_true]
    congr 2
    push_cast
    omega
  · intro h hh hu b hst
    rcases List.mem_append.mp hh with hh | hh
    · exact hr h hh hu b hst
    · rw [List.mem_singleton.mp hh] at hst
      cases hst
  · rw [setting_append, List.append_nil]
    simpa [Stage.isSet] using ha

/-- The handlers about to write, without the one that runs. -/
theorem not_set_of_setting {l : List Handler} (h0 : setting u l = 0) {h : Handler} (hh : h ∈ l)
    (hu : h.user = u) (b : ℤ) : h.stage ≠ .set b := by
  intro hst
  have := List.countP_eq_zero.mp h0 h hh
  simp [hu, hst, Stage.isSet] at this

section Run

variable {r r' : Redis} {h h' : Handler} {l₁ l₂ : List Handler}

theorem get {b : ℤ} (hs : h.stage = .get) (hb : r.balance h.req.mobile h.req.app = some b)
    (hal : h.Alone (l₁ ++ h :: l₂)) (hd : Deducted u b₀ ⟨r, l₁ ++ h :: l₂⟩) :
    Deducted u b₀ ⟨r, l₁ ++ { h with stage := .set b } :: l₂⟩ := by
  obtain ⟨hbal, hr, ha⟩ := hd
  have hu' : ({ h with stage := .set b } : Handler).user = h.user := rfl
  simp only [received_append, owing_append, setting_append, forall_mem_append] at hbal hr ha
  refine ⟨?_, ?_, ?_⟩ <;>
    simp only [received_append, owing_append, setting_append, forall_mem_append, hu']
  · simpa only [hs, Stage.settled] using hbal
  · refine ⟨?_, hr.2⟩
    rintro rfl b' ⟨⟩
    exact hb
  · have h0 := hal hs
    rw [setting_append] at h0
    split_ifs with hc
    · rw [hc.1] at h0
      omega
    · omega

/-- The handler that writes is the only one of its account that has read the balance it replaces. -/
theorem set {b : ℤ} (hs : h.stage = .set b) (hd : Deducted u b₀ ⟨r, l₁ ++ h :: l₂⟩) :
    Deducted u b₀ ⟨r.put (key .bal h.req.mobile h.req.app) (.str (decimalInt (h.remain b))),
      l₁ ++ { h with stage := .rpush } :: l₂⟩ := by
  obtain ⟨hbal, hr, ha⟩ := hd
  have hu' : ({ h with stage := .rpush } : Handler).user = h.user := rfl
  simp only [received_append, owing_append, setting_append, forall_mem_append] at hbal hr ha
  by_cases hu : h.user = u
  · have h0 : setting u (l₁ ++ l₂) = 0 := by
      rw [if_pos ⟨hu, by rw [hs]; rfl⟩] at ha
      omega
    have hread := hr.1 hu b hs
    subst hu
    refine ⟨?_, ?_, ?_⟩ <;>
      simp only [received_append, owing_append, setting_append, forall_mem_append, hu']
    · rw [hread, if_pos rfl, if_pos ⟨rfl, by rw [hs]; rfl⟩] at hbal
      have hw := wrapI64_mem (b - h.req.traffic)
      rw [Handler.user, balance_put_self, Handler.remain, atoll_decimalInt hw.1 hw.2,
        Option.some.inj hbal, wrapI64_wrapI64_sub]
      simp only [Handler.user, if_true, Stage.settled, and_false, if_false, Bool.true_eq_false]
      congr 2
      push_cast
      omega
    · refine ⟨fun _ b' hst => Stage.noConfusion hst, fun x hx hxu b' hst => ?_⟩
      exact absurd hst (not_set_of_setting h0 hx hxu b')
    · simp [h0, Stage.isSet]
  · have hk : key .bal h.req.mobile h.req.app ≠ key .bal u.1 u.2 := by
      rw [Ne, key_inj]
      exact fun hk => hu (Prod.ext hk.2.1 hk.2.2)
    refine ⟨?_, ?_, ?_⟩ <;>
      simp only [received_append, owing_append, setting_append, forall_mem_append, hu',
        balance_put_of_ne hk]
    · simpa [hu] using hbal
    · exact ⟨fun hu'' => absurd hu'' hu, hr.2⟩
    · simpa [hu] using ha

theorem rest {st : Stage} (hs : h.stage.settled = true) (hst : st.settled = true)
    (hb : ∀ mobile app, r'.balance mobile app = r.balance mobile app)
    (hd : Deducted u b₀ ⟨r, l₁ ++ h :: l₂⟩) :
    Deducted u b₀ ⟨r', l₁ ++ { h with stage := st } :: l₂⟩ := by
  obtain ⟨hbal, hr, ha⟩ := hd
  have hu' : ({ h with stage := st } : Handler).user = h.user := rfl
  have hset : st.isSet = false := by
    cases st with
    | get | set b => cases hst
    | rpush | expire | done c => rfl
  simp only [received_append, owing_append, setting_append, forall_mem_append] at hbal hr ha
  refine ⟨?_, ?_, ?_⟩ <;>
    simp only [received_append, owing_append, setting_append, forall_mem_append, hu', hb]
  · simpa only [hs, hst] using hbal
  · refine ⟨?_, hr.2⟩
    rintro - b' rfl
    cases hst
  · have h1 : setting u (l₁ ++ l₂) ≤ 1 := by omega
    simpa [hset] using h1

theorem run (hs : HandlerStep r h r' h') (hal : h.Alone (l₁ ++ h :: l₂))
    (hd : Deducted u b₀ ⟨r, l₁ ++ h :: l₂⟩) : Deducted u b₀ ⟨r', l₁ ++ h' :: l₂⟩ := by
  cases hs with
  | get b hst hb => exact hd.get hst hb hal
  | set b hst => exact hd.set hst
  | rest _ st hst hst' hb => exact hd.rest hst hst' hb

end Run

end Deducted

/-- What is asked of an event: reading and writing the balance succeed, and a balance is read only when
no other handler of the account is about to write it. -/
def Serial (s : State) : Event → Prop
  | .receive _ => True
  | .exec i o => ∀ h ∈ s.handlers[i]?, h.Succeeds s.redis o ∧ h.Alone s.handlers

instance (s : State) : ∀ e, Decidable (Serial s e)
  | .receive _ => .isTrue trivial
  | .exec i _ => inferInstanceAs (Decidable (∀ h ∈ s.handlers[i]?, _))

theorem Deducted.step {u : ℕ × ℕ} {b₀ : ℤ} {s : State} {e : Event} (hs : Serial s e)
    (hd : Deducted u b₀ s) : Deducted u b₀ (s.step e) := by
  cases e with
  | receive req => exact hd.receive req
  | exec i o =>
      rw [State.step]
      cases hi : s.handlers[i]? with
      | none => rwa [State.exec, hi]
      | some h =>
          obtain ⟨hok, hal⟩ := hs h hi
          obtain ⟨l₁, l₂, hl, he⟩ := State.exec_eq hi o
          obtain ⟨r, handlers⟩ := s
          obtain rfl : handlers = _ := hl
          rw [he]
          exact hd.run (Handler.run_step hok) hal

/-- Every redis command succeeds: it is executed, and its reply lets the handler go on. -/
def AllSucceed (s : State) : Event → Prop
  | .receive _ => True
  | .exec i o => o = .ok ∧ ∀ h ∈ s.handlers[i]?, (h.run s.redis o).2.stage ≠ .done 0xff

instance (s : State) : ∀ e, Decidable (AllSucceed s e)
  | .receive _ => .isTrue trivial
  | .exec i o => inferInstanceAs (Decidable (o = .ok ∧ ∀ h ∈ s.handlers[i]?, _))

/-- A handler of the account reads the balance only when no other is about to write it. -/
def Exclusive (s : State) : Event → Prop
  | .receive _ => True
  | .exec i _ => ∀ h ∈ s.handlers[i]?, h.Alone s.handlers

instance (s : State) : ∀ e, Decidable (Exclusive s e)
  | .receive _ => .isTrue trivial
  | .exec i _ => inferInstanceAs (Decidable (∀ h ∈ s.handlers[i]?, _))

/-- The reports received in a run. -/
def Event.req : Event → Option TrafficReport
  | receive req => some req
  | exec _ _ => none

theorem State.step_reqs (s : State) (e : Event) :
    (s.step e).handlers.map Handler.req = s.handlers.map Handler.req ++ e.req.toList := by
  cases e with
  | receive req => simp [step, receive, Event.req]
  | exec i o =>
      rw [step]
      cases hi : s.handlers[i]? with
      | none => simp [exec, hi, Event.req]
      | some h =>
          obtain ⟨l₁, l₂, hl, he⟩ := exec_eq hi o
          have hreq : (h.run s.redis o).2.req = h.req := by
            unfold Handler.run
            split <;> rfl
          rw [he, hl]
          simp [hreq, Event.req]

theorem State.run_reqs (s : State) (events : List Event) :
    (events.foldl step s).handlers.map Handler.req =
      s.handlers.map Handler.req ++ events.filterMap Event.req := by
  induction events generalizing s with
  | nil => simp
  | cons e es ih =>
      rw [List.foldl_cons, ih, step_reqs]
      cases h : e.req <;> simp [h]

theorem Stage.settled_of_isDone {st : Stage} (h : st.isDone = true) : st.settled = true := by
  cases st with
  | get | set b => cases h
  | rpush | expire | done c => rfl

theorem owing_eq_zero {u : ℕ × ℕ} {l : List Handler} (h : ∀ x ∈ l, x.stage.settled = true) :
    owing u l = 0 := by
  rw [owing, List.filter_eq_nil_iff.mpr]
  · rfl
  · intro x hx
    simp [h x hx]

theorem deducted_init {r : Redis} {u : ℕ × ℕ} {b₀ : ℤ} (h : r.balance u.1 u.2 = some b₀) :
    Deducted u b₀ ⟨r, []⟩ := by
  refine ⟨?_, by simp, by simp [setting]⟩
  have hw : wrapI64 b₀ = b₀ := by
    rw [Redis.balance] at h
    split at h
    · obtain rfl := Option.some.inj h
      exact wrapI64_of_mem (atoll_mem _).1 (atoll_mem _).2
    · cases h
  simp [h, received, trafficFor, owing, hw]

/-- **No deduction is lost** as long as the reports of an account take turns: whatever reports arrive
and however their commands interleave, if the commands succeed then after all handlers have finished
the balance of every account is what it was less the traffic of its reports (in 64-bit arithmetic). -/
theorem balance_eq_sub_reports (r : Redis) (events : List Event) (mobile app : ℕ) (b₀ : ℤ)
    (hb : r.balance mobile app = some b₀)
    (hok : Throughout State.step (fun s e => AllSucceed s e ∧ Exclusive s e) events ⟨r, []⟩)
    (hdone : ∀ h ∈ (events.foldl State.step ⟨r, []⟩).handlers, h.stage.isDone = true) :
    (events.foldl State.step ⟨r, []⟩).redis.balance mobile app =
      some (wrapI64 (b₀ - trafficFor (mobile, app) (events.filterMap Event.req))) := by
  have hI := hok.invariant (I := Deducted (mobile, app) b₀) ?_ (deducted_init hb)
  · have ho : owing (mobile, app) (events.foldl State.step ⟨r, []⟩).handlers = 0 :=
      owing_eq_zero fun h hh => Stage.settled_of_isDone (hdone h hh)
    have hr := State.run_reqs ⟨r, []⟩ events
    rw [List.map_nil, List.nil_append] at hr
    simpa [ho, received, hr] using hI.balance
  · rintro s e ⟨hs, hx⟩ hd
    refine hd.step ?_
    cases e with
    | receive req => trivial
    | exec i o => exact fun h hh => ⟨fun _ => ⟨hs.1, hs.2 h hh⟩, hx h hh⟩

/-- User (1, 2) has a balance of 1000. -/
def oneAccount : Redis := ⟨fun k => if k = key .bal 1 2 then some (.str (decimalInt 1000)) else none⟩

/-- A report of `n` bytes for user (1, 2). -/
def reportOf (n : ℕ) : TrafficReport := ⟨2, 1, n, (0, 0), (0, 0), 7, 1, [0x2d]⟩

/-- Two reports; both handlers read the balance before one of them writes it. -/
def overlappingRun : List Event :=
  [.receive (reportOf 300), .receive (reportOf 500), .exec 0 .ok, .exec 1 .ok, .exec 0 .ok,
    .exec 1 .ok, .exec 0 .ok, .exec 1 .ok, .exec 0 .ok, .exec 1 .ok]

/-- Every command succeeds and both handlers finish, and only the second report is deducted. -/
theorem lost_deduction :
    Throughout State.step AllSucceed overlappingRun ⟨oneAccount, []⟩ ∧
      (overlappingRun.foldl State.step ⟨oneAccount, []⟩).handlers.map Handler.stage =
        [.done 0, .done 0] ∧
      trafficFor (1, 2) (overlappingRun.filterMap Event.req) = 800 ∧
      oneAccount.balance 1 2 = some 1000 ∧
      (overlappingRun.foldl State.step ⟨oneAccount, []⟩).redis.balance 1 2 = some 500 := by
  decide +kernel

/-- The same reports one after the other. -/
theorem balance_eq_sub_reports_turns :
    ([.receive (reportOf 300), .receive (reportOf 500), .exec 0 .ok, .exec 0 .ok, .exec 1 .ok,
      .exec 0 .ok, .exec 1 .ok, .exec 0 .ok, .exec 1 .ok, .exec 1 .ok].foldl State.step
        ⟨oneAccount, []⟩).redis.balance 1 2 = some (wrapI64 (1000 - 800)) :=
  balance_eq_sub_reports oneAccount _ 1 2 1000 (by decide +kernel) (by decide +kernel)
    (by decide +kernel)

end HttpsTunnel.Recorder

import HttpsTunnel.Lib.Prog
import HttpsTunnel.Lib.Chan

/-! # The pool of redis connections

`RedisConnPool`: the connections that are free are on a stack, and a channel holds one item for each
of them.  `get_connection` receives from the channel before it pops the stack, and
`push_back_connection` sends before it pushes.

All coroutines run on one thread, and one that runs goes on until it has to wait: in `co_wait`, in
`co_ready`, or for the answer of the server while it uses its connection.  `turn co` is the next
stretch of the coroutine `co`, which gets a connection, uses it and gives it back, again and again;
a schedule is a list of coroutines. -/

namespace HttpsTunnel.Recorder

open HttpsTunnel.Lib

abbrev Co := ℕ
/-- A `RedisConnect*`. -/
abbrev RedisConn := ℕ

structure Pool where
  hostIp : List Char
  port : ℕ
  poolSize : ℤ
  readyChan : Option (Chan Co) := none
  redisConnStack : List RedisConn := []
  nextConn : RedisConn := 0
  /-- The coroutines that were handed an item and have not run since. -/
  woken : List Co := []
  held : List (Co × RedisConn) := []
  /-- Those that wait in `co_ready`, with the connection they are to push. -/
  stuck : List (Co × RedisConn) := []

inductive PoolFault where
  | nullDeref
  /-- `top` of an empty stack. -/
  | emptyStack
  /-- `init_redis_pool` waits in `co_ready`. -/
  | initBlocks
deriving DecidableEq, Repr

abbrev PoolM := Prog Pool PoolFault

/-! ### The functions of the pool -/

/-- `RedisConnPool::co_wait` in the coroutine `co`: whether it goes on at once. -/
def coWait (co : Co) : PoolM Bool := do
  let s ← get
  match s.readyChan with
  | none => throw .nullDeref
  | some ch =>
      set { s with readyChan := some (ch.recv co).2 }
      pure (ch.recv co).1

/-- `RedisConnPool::co_ready`: whether it goes on at once. -/
def coReady : PoolM Bool := do
  let s ← get
  match s.readyChan with
  | none => throw .nullDeref
  | some ch =>
      set { s with readyChan := some ch.send.2 }
      match ch.send.1 with
      | .handed k =>
          modify (fun s => { s with woken := s.woken ++ [k] })
          pure true
      | .buffered => pure true
      | .blocks => pure false

/-- `get_connection` after `co_wait`. -/
def popConnection (co : Co) : PoolM Unit := do
  let s ← get
  match s.redisConnStack with
  | [] => throw .emptyStack
  | c :: cs => set { s with redisConnStack := cs, held := (co, c) :: s.held }

/-- `RedisConnPool::get_connection`, up to the point where it has to wait. -/
def getConnection (co : Co) : PoolM Unit := do
  if ← coWait co then popConnection co

/-- `RedisConnPool::push_back_connection`. -/
def pushBackConnection (co : Co) (c : RedisConn) : PoolM Unit := do
  if ← coReady then modify (fun s => { s with redisConnStack := c :: s.redisConnStack })
  else modify (fun s => { s with stuck := (co, c) :: s.stuck })

/-- The loop of `init_redis_pool`. -/
def fillPool : ℕ → PoolM Unit
  | 0 => pure ()
  | n + 1 => do
      modify (fun s => { s with
        redisConnStack := s.nextConn :: s.redisConnStack
        nextConn := s.nextConn + 1 })
      if ← coReady then fillPool n else throw .initBlocks

/-- `RedisConnPool::init_redis_pool`. -/
def initRedisPool : PoolM ℤ := do
  let s ← get
  if s.readyChan.isSome then pure 0
  else if s.poolSize ≤ 0 then pure (-1)
  else if s.hostIp = [] then pure (-1)
  else
    set { s with
      port := if s.port = 0 then 6379 else s.port
      readyChan := some ⟨s.poolSize.toNat, 0, []⟩ }
    fillPool s.poolSize.toNat
    pure 0

/-! ### Coroutines -/

/-- The next stretch of `co`.  One that waits does not run. -/
def turn (co : Co) : PoolM Unit := do
  let s ← get
  if co ∈ s.woken then
    set { s with woken := s.woken.erase co }
    popConnection co
  else
    match s.held.find? (fun h => h.1 = co) with
    | some h =>
        set { s with held := s.held.erase h }
        pushBackConnection co h.2
    | none =>
        if s.readyChan.any (fun ch => co ∈ ch.waiters) ∨ co ∈ s.stuck.map Prod.fst then pure ()
        else getConnection co

/-! ### The invariant -/

/-- There is a free connection for each item of the channel and for each coroutine that was handed
one, and a coroutine waits only if the channel is empty. -/
structure Pool.Sound (s : Pool) (n : ℕ) (ch : Chan Co) : Prop where
  size : s.poolSize = n
  chan : s.readyChan = some ch
  cap : ch.cap = n
  free : s.redisConnStack.length = ch.size + s.woken.length
  all : s.redisConnStack.length + s.held.length = n
  distinct : (s.redisConnStack ++ s.held.map Prod.snd).Nodup
  waits : ch.waiters ≠ [] → ch.size = 0
  stuck : s.stuck = []

section Steps

variable {s : Pool} {n : ℕ} {ch : Chan Co}

/-- Taking a free connection that was paid for. -/
theorem popConnection_sound (co : Co) (hsize : s.poolSize = n) (hch : s.readyChan = some ch) (hcap : ch.cap = n)
    (hfree : s.redisConnStack.length = ch.size + s.woken.length + 1)
    (hall : s.redisConnStack.length + s.held.length = n)
    (hdist : (s.redisConnStack ++ s.held.map Prod.snd).Nodup) (hwaits : ch.waiters ≠ [] → ch.size = 0)
    (hstuck : s.stuck = []) : wp (popConnection co) (fun _ s' => ∃ ch', s'.Sound n ch') s := by
  simp only [popConnection, wp, wpe_bind, wpe_get]
  cases hst : s.redisConnStack with
  | nil =>
      rw [hst] at hfree
      simp at hfree
  | cons c cs =>
      rw [hst] at hfree hall hdist
      simp only [List.length_cons] at hfree hall
      refine ⟨ch, hsize, hch, hcap, by simp only; omega, by simp only [List.length_cons]; omega, ?_, hwaits, hstuck⟩
      exact (List.perm_middle.nodup_iff).mpr hdist

theorem getConnection_sound (co : Co) (h : s.Sound n ch) :
    wp (getConnection co) (fun _ s' => ∃ ch', s'.Sound n ch') s := by
  simp only [getConnection, coWait, wp, wpe_bind, wpe_get, h.chan, wpe_set, wpe_pure, Chan.recv]
  by_cases hsize : 0 < ch.size
  · have hfree := h.free
    simp only [hsize, if_true]
    refine popConnection_sound co h.size rfl h.cap ?_ h.all h.distinct (fun hw => ?_) h.stuck
    · simp only
      omega
    · have := h.waits hw
      omega
  · simp only [hsize, if_false, Bool.false_eq_true, wpe_pure]
    have hzero : ch.size = 0 := by omega
    exact ⟨_, h.size, rfl, h.cap, h.free, h.all, h.distinct, fun _ => hzero, h.stuck⟩

/-- Giving a connection back: the item is sent at once, since the channel has room for it. -/
theorem pushBackConnection_sound {held : List (Co × RedisConn)} {co : Co} {c : RedisConn} (h : s.Sound n ch)
    (hp : s.held.Perm ((co, c) :: held)) :
    wp (pushBackConnection co c) (fun _ s' => ∃ ch', s'.Sound n ch') { s with held := held } := by
  have hlen := hp.length_eq
  have hdist : (c :: s.redisConnStack ++ held.map Prod.snd).Nodup := by
    have hp' : (s.redisConnStack ++ s.held.map Prod.snd).Perm (s.redisConnStack ++ c :: held.map Prod.snd) :=
      (hp.map Prod.snd).append_left _
    exact List.perm_middle.nodup_iff.mp (hp'.nodup_iff.mp h.distinct)
  have hfree := h.free
  have hall := h.all
  simp only [List.length_cons] at hlen
  simp only [pushBackConnection, coReady, wp, wpe_bind, wpe_get, h.chan, wpe_set, Chan.send]
  cases hw : ch.waiters with
  | cons k ks =>
      simp only [wpe_bind, wpe_modify, wpe_pure, if_true]
      have hsize : ch.size = 0 := h.waits (by simp [hw])
      exact ⟨_, h.size, rfl, h.cap, by simp; omega, by simp; omega, hdist, fun _ => hsize, h.stuck⟩
  | nil =>
      have hroom : ch.size < ch.cap := by
        rw [h.cap]
        omega
      simp only [hroom, if_true, wpe_pure, wpe_modify]
      exact ⟨_, h.size, rfl, h.cap, by simp; omega, by simp; omega, hdist, fun hne => absurd rfl hne, h.stuck⟩

/-- Every stretch of every coroutine keeps the invariant. -/
theorem turn_sound (co : Co) (h : s.Sound n ch) : wp (turn co) (fun _ s' => ∃ ch', s'.Sound n ch') s := by
  simp only [turn, wp, wpe_bind, wpe_get, wpe_ite, wpe_set]
  refine ⟨fun hmem => ?_, fun _ => ?_⟩
  · have hfree := h.free
    have hlen : (s.woken.erase co).length + 1 = s.woken.length := by
      rw [List.length_erase_of_mem hmem]
      have := List.length_pos_of_mem hmem
      omega
    exact popConnection_sound co h.size h.chan h.cap (by simp only; omega) h.all h.distinct h.waits h.stuck
  · cases hf : s.held.find? (fun e => e.1 = co) with
    | some e =>
        have hco : e.1 = co := by simpa using List.find?_some hf
        have hp : s.held.Perm ((co, e.2) :: s.held.erase e) := by
          rw [← hco]
          exact List.perm_cons_erase (List.mem_of_find?_eq_some hf)
        simp only [wpe_bind, wpe_set]
        exact pushBackConnection_sound h hp
    | none =>
        rw [wpe_ite]
        exact ⟨fun _ => ⟨ch, h⟩, fun _ => getConnection_sound co h⟩

end Steps

/-! ### Filling the pool -/

/-- `init_redis_pool` after `m` of `n` connections. -/
structure Pool.Filled (s : Pool) (n m : ℕ) : Prop where
  size : s.poolSize = n
  chan : s.readyChan = some ⟨n, m, []⟩
  length : s.redisConnStack.length = m
  fresh : ∀ c ∈ s.redisConnStack, c < s.nextConn
  nodup : s.redisConnStack.Nodup
  woken : s.woken = []
  held : s.held = []
  stuck : s.stuck = []

theorem Pool.Filled.sound {s : Pool} {n : ℕ} (h : s.Filled n n) : s.Sound n ⟨n, n, []⟩ := by
  obtain ⟨hsize, hch, hlen, -, hnd, hw, hh, hst⟩ := h
  refine ⟨hsize, hch, rfl, ?_, ?_, ?_, fun hne => absurd rfl hne, hst⟩
  · simp [hlen, hw]
  · simp [hlen, hh]
  · simpa [hh] using hnd

theorem fillPool_filled {s : Pool} {n m : ℕ} (k : ℕ) (h : s.Filled n m) (hk : m + k = n) :
    wp (fillPool k) (fun _ s' => s'.Filled n n) s := by
  induction k generalizing s m with
  | zero =>
      obtain rfl : m = n := by omega
      exact h
  | succ k ih =>
      obtain ⟨hsize, hch, hlen, hfresh, hnd, hw, hh, hst⟩ := h
      have hroom : m < n := by omega
      simp only [fillPool, coReady, wp, wpe_bind, wpe_modify, wpe_get, hch, wpe_set, Chan.send, hroom, if_true,
        wpe_pure]
      refine ih ⟨hsize, rfl, by simp [hlen], ?_, ?_, hw, hh, hst⟩ (by omega)
      · intro c hc
        rcases List.mem_cons.mp hc with rfl | hc
        · exact Nat.lt_succ_self _
        · exact (hfresh c hc).trans (Nat.lt_succ_self _)
      · exact List.nodup_cons.mpr ⟨fun hmem => absurd (hfresh _ hmem) (Nat.lt_irrefl _), hnd⟩

/-- A pool as its constructor leaves it. -/
structure Pool.New (s : Pool) : Prop where
  chan : s.readyChan = none
  stack : s.redisConnStack = []
  woken : s.woken = []
  held : s.held = []
  stuck : s.stuck = []

/-- A successful initialisation fills the pool. -/
theorem initRedisPool_filled {s : Pool} (h : s.New) :
    wp initRedisPool (fun ret s' => ret = 0 → s'.Filled s.poolSize.toNat s.poolSize.toNat) s := by
  simp only [initRedisPool, wp, wpe_bind, wpe_get, wpe_ite, h.chan, Option.isSome_none, Bool.false_eq_true, wpe_pure,
    wpe_set, false_implies, true_and, not_false_eq_true, true_implies]
  refine ⟨fun _ hret => absurd hret (by decide), fun hsize => ⟨fun _ hret => absurd hret (by decide), fun _ => ?_⟩⟩
  have hpos : (s.poolSize.toNat : ℤ) = s.poolSize := Int.toNat_of_nonneg (by omega)
  have hf : Pool.Filled { s with
      port := if s.port = 0 then 6379 else s.port
      readyChan := some ⟨s.poolSize.toNat, 0, []⟩ } s.poolSize.toNat 0 :=
    ⟨hpos.symm, rfl, by simp [h.stack], by simp [h.stack], by simp [h.stack], h.woken, h.held, h.stuck⟩
  exact fillPool_filled _ hf (Nat.zero_add _)

/-! ### Every schedule -/

/-- What the coroutines may rely on. -/
structure Pool.Safe (s : Pool) : Prop where
  /-- No connection is held twice. -/
  exclusive : ∀ co co' c, (co, c) ∈ s.held → (co', c) ∈ s.held → co = co'
  notFree : ∀ co c, (co, c) ∈ s.held → c ∉ s.redisConnStack
  count : (s.redisConnStack.length + s.held.length : ℤ) = s.poolSize
  /-- Nobody waits in `push_back_connection`. -/
  unblocked : s.stuck = []

theorem Pool.Sound.safe {s : Pool} {n : ℕ} {ch : Chan Co} (h : s.Sound n ch) : s.Safe := by
  have hdist := List.nodup_append.mp h.distinct
  refine ⟨fun co co' c hc hc' => ?_, fun co c hc hfree => ?_, ?_, h.stuck⟩
  · exact congrArg Prod.fst (List.inj_on_of_nodup_map hdist.2.1 hc hc' rfl)
  · exact hdist.2.2 c hfree c (List.mem_map_of_mem (f := Prod.snd) hc) rfl
  · rw [h.size]
    exact_mod_cast h.all

/-- **The pool is safe.**  After a successful initialisation, however the coroutines are scheduled,
`get_connection` never pops an empty stack, and in every state a connection is held by one coroutine
only, the free and the held ones are as many as the pool has, and nobody waits in
`push_back_connection`. -/
theorem pool_safe (s s' : Pool) (h : s.New) (hinit : initRedisPool s = .ok (0, s')) (schedule : List Co) :
    wp (runAll turn schedule) (fun _ s'' => s''.Safe) s' := by
  have hf : s'.Filled s.poolSize.toNat s.poolSize.toNat := (wpe_of_ok hinit).mp (initRedisPool_filled h) rfl
  have hinv : wp (runAll turn schedule) (fun _ s'' => ∃ ch, s''.Sound s'.poolSize.toNat ch) s' :=
    runAll_invariant (fun _ co ⟨_, hs⟩ => turn_sound co hs) schedule ⟨_, by
      rw [hf.size]
      exact hf.sound⟩
  exact wp_mono hinv fun _ _ ⟨_, hs⟩ => hs.safe

/-- A pool of two connections for `10.0.0.1`. -/
def twoConnPool : Pool where
  hostIp := ['1', '0', '.', '0', '.', '0', '.', '1']
  port := 0
  poolSize := 2

theorem twoConnPool_new : twoConnPool.New := ⟨rfl, rfl, rfl, rfl, rfl⟩

/-- Three coroutines share the two connections; the third waits, is handed the item of the first
and runs after the second has come back as well. -/
theorem pool_safe_twoConnPool : ∃ s', initRedisPool twoConnPool = .ok (0, s') ∧
    wp (runAll turn [1, 2, 3, 1, 2, 3, 1, 3]) (fun _ s'' => s''.Safe) s' := by
  have hinit : (initRedisPool twoConnPool).toOption.map Prod.fst = some 0 := by decide +kernel
  obtain ⟨⟨ret, s'⟩, hs', rfl : ret = 0⟩ := Option.map_eq_some_iff.mp hinit
  exact ⟨s', eq_ok_of_toOption hs', pool_safe twoConnPool s' twoConnPool_new (eq_ok_of_toOption hs') _⟩

end HttpsTunnel.Recorder

import HttpsTunnel.Dpi.Account

/-! # What the cache of the DPI drops

A call for an address that is not in the cache inserts an entry, and when the cache is full the
entry of another address is dropped.  The `deleter` the cache is given only prints: the traffic of
the dropped entry is not reported, and the reply to a report in flight finds a new entry.

An entry is `Settled` if nothing is lost with it.  Which entries are dropped follows from the
addresses of the calls alone, so the entries that are dropped are settled exactly if each entry that
is not is used again in time (`eviction_settled_iff`). -/

namespace HttpsTunnel.Dpi

open HttpsTunnel.Lib

/-- No traffic is unreported, and no report waits for its reply. -/
def IpUserTraffic.Settled (e : IpUserTraffic) : Prop := e.traffic ≤ 0 ∧ e.reporting = false

instance (e : IpUserTraffic) : Decidable e.Settled := inferInstanceAs (Decidable (_ ∧ _))

namespace Monitor

variable {m : Monitor} {c : Call}

/-- The addresses of the calls so far. -/
def uses (m : Monitor) : List ℕ := m.log.map fun v => v.call.ip

/-- The call drops only settled entries. -/
def DropsSettled (m : Monitor) (c : Call) : Prop := ∀ e ∈ m.mgr.cache.evicted c.ip, e.2.Settled

/-- With the call, fewer addresses of its shard than the shard has room for have been used since the last use of
an entry that is not settled. -/
def InTime (m : Monitor) (c : Call) : Prop :=
  ∀ e ∈ m.mgr.cache.entries, ¬ e.2.Settled →
    (Lru.usedSince ((m.uses ++ [c.ip]).filter (shardOf · = shardOf e.1)) e.1).card < perShard

/-- The cache is that of the calls made so far. -/
structure Cached (m : Monitor) : Prop where
  capacity : ∀ i, (m.mgr.cache.part i).capacity = perShard
  follows : m.mgr.cache.Follows m.uses

theorem cached_init : Cached ⟨LvldbMgr.init, []⟩ := ⟨fun _ => rfl, Shards.follows_empty _⟩

theorem uses_step (m : Monitor) (c : Call) : (m.step c).uses = m.uses ++ [c.ip] := by simp [uses, step]

theorem step_mgr (m : Monitor) (c : Call) : (m.step c).mgr = m.mgr.put c.ip (c.onEntry (m.mgr.entry c.ip)).1 := by
  rw [Monitor.step, LvldbMgr.call_eq]

theorem Cached.step (h : m.Cached) (c : Call) : (m.step c).Cached := by
  refine ⟨fun i => ?_, ?_⟩
  · rw [step_mgr, LvldbMgr.put]
    by_cases hi : i = shardOf c.ip
    · rw [hi, Shards.put_part_self]
      exact h.capacity _
    · rw [Shards.put_part_ne hi]
      exact h.capacity i
  · rw [step_mgr, uses_step]
    exact h.follows.put _ _

theorem Cached.dropsSettled_iff (h : m.Cached) (c : Call) : m.DropsSettled c ↔ m.InTime c := by
  have hev : ∀ e ∈ m.mgr.cache.entries, (e ∈ m.mgr.cache.evicted c.ip ↔
      perShard ≤ (Lru.usedSince ((m.uses ++ [c.ip]).filter (shardOf · = shardOf e.1)) e.1).card) := by
    intro e he
    rw [h.follows.mem_evicted_iff he c.ip, Shards.own, h.capacity]
  constructor
  · intro hd e he hdirty
    by_contra hlate
    exact hdirty (hd e ((hev e he).mpr (not_lt.mp hlate)))
  · intro ht e hdropped
    have he : e ∈ m.mgr.cache.entries := Shards.mem_of_mem_evicted hdropped
    by_contra hdirty
    exact absurd ((hev e he).mp hdropped) (not_le.mpr (ht e he hdirty))

/-- The two conditions agree over a whole run. -/
theorem Cached.throughout_iff (h : m.Cached) (calls : List Call) :
    Throughout Monitor.step DropsSettled calls m ↔ Throughout Monitor.step InTime calls m := by
  induction calls generalizing m with
  | nil => exact Iff.rfl
  | cons c calls ih => exact and_congr (h.dropsSettled_iff c) (ih (h.step c))

end Monitor

/-- **Nothing is lost with the entries that are dropped** exactly if, whenever a call is made, every entry that
has unreported traffic or a report in flight was used more recently than `perShard` other addresses of its shard. -/
theorem eviction_settled_iff (calls : List Call) :
    Throughout Monitor.step Monitor.DropsSettled calls ⟨LvldbMgr.init, []⟩ ↔
      Throughout Monitor.step Monitor.InTime calls ⟨LvldbMgr.init, []⟩ :=
  Monitor.cached_init.throughout_iff calls

/-! ### A flood of addresses -/

/-- A packet of 100 bytes from each of `k` addresses, from `n` on. -/
def floodRun (n k : ℕ) : List Call := (List.range' n k).map fun ip => .packet ip 100 0 {}

/-- The first `n` addresses have entries with traffic, and nobody else. -/
structure Monitor.Flooded (m : Monitor) (n : ℕ) : Prop where
  cached : m.Cached
  entries : ∀ e ∈ m.mgr.cache.entries, e.1 < n ∧ e.2.traffic = 100
  length : m.mgr.cache.entries.length = n

/-- As long as only settled entries are dropped, none is. -/
theorem Monitor.Flooded.step {m : Monitor} {n : ℕ} (h : m.Flooded n)
    (hdrop : m.DropsSettled (.packet n 100 0 {})) : (m.step (.packet n 100 0 {})).Flooded (n + 1) := by
  have hnew : ∀ e ∈ m.mgr.cache.entries, e.1 ≠ n := fun e he => (h.entries e he).1.ne
  have hnone : m.mgr.cache.evicted n = [] := by
    refine List.eq_nil_iff_forall_not_mem.mpr fun e he => ?_
    have htraffic := (hdrop e he).1
    rw [(h.entries e (Shards.mem_of_mem_evicted he)).2] at htraffic
    exact absurd htraffic (by decide)
  have hmgr : (m.step (.packet n 100 0 {})).mgr = m.mgr.put n { traffic := 100 } := by
    rw [Monitor.step_mgr]
    show m.mgr.put n ((Call.packet n 100 0 {}).onEntry (m.mgr.entry n)).1 = _
    rw [LvldbMgr.entry, Shards.lookup_eq_none hnew]
    rfl
  refine ⟨h.cached.step _, fun e he => ?_, ?_⟩
  · rw [hmgr] at he
    rcases Shards.mem_of_mem_put he with rfl | he
    · exact ⟨Nat.lt_succ_self n, rfl⟩
    · exact ⟨Nat.lt_succ_of_lt (h.entries e he).1, (h.entries e he).2⟩
  · rw [hmgr, LvldbMgr.put, Shards.length_put hnew hnone, h.length]

theorem Monitor.Flooded.run {k : ℕ} {m : Monitor} {n : ℕ} (h : m.Flooded n)
    (hall : Throughout Monitor.step Monitor.DropsSettled (floodRun n k) m) :
    (m.run (floodRun n k)).Flooded (n + k) := by
  induction k generalizing m n with
  | zero => exact h
  | succ k ih =>
      rw [floodRun, List.range'_succ, List.map_cons] at hall ⊢
      have hrest := ih (h.step hall.1) hall.2
      rwa [Nat.add_right_comm] at hrest

/-- **Of 100001 clients one is forgotten** with its traffic. -/
theorem flood_drops_traffic :
    ¬ Throughout Monitor.step Monitor.DropsSettled (floodRun 0 (hashCapacity + 1)) ⟨LvldbMgr.init, []⟩ := by
  intro hall
  have hstart : Monitor.Flooded ⟨LvldbMgr.init, []⟩ 0 :=
    ⟨Monitor.cached_init, fun e he => absurd he List.not_mem_nil, rfl⟩
  have hmany := hstart.run hall
  have hle := Shards.length_entries_le hmany.cached.capacity
  have hroom : numShards * perShard < 0 + (hashCapacity + 1) := by decide
  rw [hmany.length] at hle
  exact absurd hle (not_le.mpr hroom)

end HttpsTunnel.Dpi

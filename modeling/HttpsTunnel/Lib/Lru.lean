import Mathlib.Data.List.Nodup
import Mathlib.Tactic

/-! # A cache that drops its least recently used entry

`Lru κ α` keeps its entries in the order of their last use, the most recent first, under
distinct keys and never more than its capacity.  `put` is a use of a key that leaves a value
under it: the entry moves to the front, and what no longer fits falls off the end.  The entry
just used is never the one that falls off.  `Follows` ties the order of the entries to the history
of uses, so that what falls off can be told from the history (`Follows.mem_evicted_iff`).

`Shards` is a cache in parts, each of them an `Lru`: a key has its place in one part, and only the keys of
that part can push it out. -/

namespace HttpsTunnel.Lib

structure Lru (κ α : Type) where
  capacity : ℕ
  entries : List (κ × α)
  capacity_pos : 0 < capacity
  nodup : (entries.map Prod.fst).Nodup
  length_le : entries.length ≤ capacity

namespace Lru

variable {κ α : Type}

def empty (n : ℕ) (h : 0 < n) : Lru κ α := ⟨n, [], h, by simp, by simp⟩

variable [DecidableEq κ] {c : Lru κ α} {k k' : κ} {a b : α}

def lookup (c : Lru κ α) (k : κ) : Option α :=
  (c.entries.find? (fun e => e.1 = k)).map Prod.snd

/-- The entries under the other keys. -/
def others (c : Lru κ α) (k : κ) : List (κ × α) := c.entries.filter (fun e => e.1 ≠ k)

theorem nodup_cons_others (c : Lru κ α) (k : κ) (a : α) :
    (((k, a) :: c.others k).map Prod.fst).Nodup := by
  rw [List.map_cons, List.nodup_cons]
  refine ⟨?_, c.nodup.sublist (List.filter_sublist.map _)⟩
  simp [others]

/-- A use of `k` that leaves `a` under it. -/
def put (c : Lru κ α) (k : κ) (a : α) : Lru κ α where
  capacity := c.capacity
  entries := ((k, a) :: c.others k).take c.capacity
  capacity_pos := c.capacity_pos
  nodup := (c.nodup_cons_others k a).sublist ((List.take_sublist ..).map _)
  length_le := List.length_take_le ..

@[simp] theorem lookup_empty (n : ℕ) (h : 0 < n) : (empty n h : Lru κ α).lookup k = none := rfl

@[simp] theorem lookup_put_self : (c.put k a).lookup k = some a := by
  obtain ⟨n, hn⟩ := Nat.exists_eq_add_of_lt c.capacity_pos
  simp [lookup, put, hn]

theorem find?_others (h : k' ≠ k) :
    (c.others k).find? (fun e => e.1 = k') = c.entries.find? (fun e => e.1 = k') := by
  rw [others, List.find?_filter]
  congr 1
  funext e
  by_cases he : e.1 = k' <;> simp [he, h]

/-- What the cache still has under another key is what it had there. -/
theorem lookup_of_put_ne (h : k' ≠ k) (hb : (c.put k a).lookup k' = some b) :
    c.lookup k' = some b := by
  obtain ⟨e, he, rfl⟩ := Option.map_eq_some_iff.mp hb
  have hf : ((k, a) :: c.others k).find? (fun e => e.1 = k') = some e :=
    (List.take_prefix ..).find?_eq_some he
  rw [List.find?_cons_of_neg (by simpa using h.symm), find?_others h] at hf
  simp [lookup, hf]

/-! ### Sums over the entries -/

theorem mem_of_lookup (h : c.lookup k = some a) : (k, a) ∈ c.entries := by
  obtain ⟨e, he, rfl⟩ := Option.map_eq_some_iff.mp h
  have hk : e.1 = k := by simpa using List.find?_some he
  exact hk ▸ List.mem_of_find?_eq_some he

theorem lookup_eq_none (h : ∀ e ∈ c.entries, e.1 ≠ k) : c.lookup k = none :=
  Option.map_eq_none_iff.mpr (List.find?_eq_none.mpr fun e he => by simpa using h e he)

/-- What a use of `k` pushes out. -/
def evicted (c : Lru κ α) (k : κ) : List (κ × α) := (c.others k).drop (c.capacity - 1)

theorem put_entries (c : Lru κ α) (k : κ) (a : α) :
    (c.put k a).entries = (k, a) :: (c.others k).take (c.capacity - 1) := by
  obtain ⟨n, hn⟩ := Nat.exists_eq_add_of_lt c.capacity_pos
  simp [put, hn]

theorem mem_of_mem_put {e : κ × α} (h : e ∈ (c.put k a).entries) : e = (k, a) ∨ e ∈ c.entries := by
  rw [put_entries, List.mem_cons] at h
  exact h.imp_right fun h => List.mem_of_mem_filter (List.mem_of_mem_take h)

theorem mem_of_mem_evicted {e : κ × α} (h : e ∈ c.evicted k) : e ∈ c.entries :=
  List.mem_of_mem_filter (List.mem_of_mem_drop h)

theorem sum_put (f : κ × α → ℤ) : ((c.put k a).entries.map f).sum + ((c.evicted k).map f).sum =
    f (k, a) + ((c.others k).map f).sum := by
  have h := congrArg (fun l => (l.map f).sum) (List.take_append_drop (c.capacity - 1) (c.others k))
  simp only [List.map_append, List.sum_append] at h
  rw [put_entries, List.map_cons, List.sum_cons, evicted]
  omega

theorem sum_eq_find?_add_filter {l : List (κ × α)} (hl : (l.map Prod.fst).Nodup) (f : κ × α → ℤ) :
    (l.map f).sum = ((l.find? (fun e => e.1 = k)).map f).getD 0 +
      ((l.filter (fun e => e.1 ≠ k)).map f).sum := by
  induction l with
  | nil => rfl
  | cons e l ih =>
      rw [List.map_cons, List.nodup_cons] at hl
      by_cases he : e.1 = k
      · -- the key occurs nowhere else
        have hf : l.filter (fun e => e.1 ≠ k) = l := by
          refine List.filter_eq_self.mpr fun x hx => ?_
          have hne : x.1 ≠ k := fun hxk => hl.1 (he ▸ hxk ▸ List.mem_map_of_mem hx)
          simpa using hne
        rw [List.find?_cons_of_pos (by simpa using he), List.filter_cons_of_neg (by simpa using he), hf]
        simp
      · rw [List.find?_cons_of_neg (by simpa using he), List.filter_cons_of_pos (by simpa using he),
          List.map_cons, List.sum_cons, List.map_cons, List.sum_cons, ih hl.2]
        omega

theorem sum_entries (f : κ × α → ℤ) : (c.entries.map f).sum =
    ((c.lookup k).map (fun b => f (k, b))).getD 0 + ((c.others k).map f).sum := by
  rw [sum_eq_find?_add_filter c.nodup f, lookup, others]
  congr 1
  cases h : c.entries.find? (fun e => e.1 = k) with
  | none => rfl
  | some e =>
      have he : e.1 = k := by simpa using List.find?_some h
      simp [← he]

/-! ### The order of use -/

section Follows

variable {h : List κ}

/-- The keys used after the last use of `k`. -/
def usedSince (h : List κ) (k : κ) : Finset κ := (h.reverse.takeWhile (· ≠ k)).toFinset

theorem usedSince_concat_self (h : List κ) (k : κ) : usedSince (h ++ [k]) k = ∅ := by
  simp [usedSince]

theorem usedSince_concat_of_ne (h : List κ) (hk : k ≠ k') : usedSince (h ++ [k]) k' = insert k (usedSince h k') := by
  simp [usedSince, hk]

/-- The entries stand in the order of the uses: before each of them are the keys used since. -/
def Follows (c : Lru κ α) (h : List κ) : Prop :=
  ∀ ⦃l₁ e l₂⦄, c.entries = l₁ ++ e :: l₂ → (l₁.map Prod.fst).toFinset = usedSince h e.1

theorem follows_empty (n : ℕ) (hn : 0 < n) : (empty n hn : Lru κ α).Follows [] := by
  intro l₁ e l₂ he
  exact absurd he (by simp [empty])

/-- The entries under other keys, split at one of them. -/
theorem split_of_others {l₁ l₂ : List (κ × α)} {e : κ × α} (ho : c.others k = l₁ ++ e :: l₂) :
    ∃ m₁ m₂, c.entries = m₁ ++ e :: m₂ ∧ l₁ = m₁.filter (fun e => e.1 ≠ k) ∧ k ≠ e.1 := by
  obtain ⟨m₁, m₂, hm, rfl, hm₂⟩ := List.filter_eq_append_iff.mp ho
  obtain ⟨m₃, m₄, rfl, hm₃, he, -⟩ := List.filter_eq_cons_iff.mp hm₂
  have hne : k ≠ e.1 := fun hk => by simp [hk] at he
  refine ⟨m₁ ++ m₃, m₄, by rw [hm, List.append_assoc], ?_, hne⟩
  rw [List.filter_append, List.filter_eq_nil_iff.mpr hm₃, List.append_nil]

theorem insert_filter_keys (l : List (κ × α)) (k : κ) :
    insert k ((l.filter (fun e => e.1 ≠ k)).map Prod.fst).toFinset = insert k (l.map Prod.fst).toFinset := by
  ext x
  by_cases hx : x = k
  · simp [hx]
  · simp only [Finset.mem_insert, hx, false_or, List.mem_toFinset, List.mem_map, List.mem_filter]
    constructor
    · rintro ⟨e, ⟨he, -⟩, rfl⟩
      exact ⟨e, he, rfl⟩
    · rintro ⟨e, he, rfl⟩
      exact ⟨e, ⟨he, by simpa using hx⟩, rfl⟩

theorem Follows.put (hf : c.Follows h) (k : κ) (a : α) : (c.put k a).Follows (h ++ [k]) := by
  intro l₁ e l₂ he
  rw [put_entries] at he
  cases l₁ with
  | nil =>
      obtain ⟨rfl, -⟩ := List.cons.inj he
      exact (usedSince_concat_self h k).symm
  | cons x l₁ =>
      rw [List.cons_append, List.cons.injEq] at he
      obtain ⟨rfl, htake⟩ := he
      have ho : c.others k = l₁ ++ e :: (l₂ ++ (c.others k).drop (c.capacity - 1)) := by
        rw [← List.cons_append, ← List.append_assoc, ← htake, List.take_append_drop]
      obtain ⟨m₁, m₂, hm, rfl, hne⟩ := split_of_others ho
      rw [usedSince_concat_of_ne h hne, ← hf hm, ← insert_filter_keys, List.map_cons, List.toFinset_cons]

/-- Fewer keys than the cache has room for have been used since the last use of an entry that is still there. -/
theorem Follows.card_usedSince_lt (hf : c.Follows h) {e : κ × α} (he : e ∈ c.entries) :
    (usedSince h e.1).card < c.capacity := by
  obtain ⟨l₁, l₂, hl⟩ := List.append_of_mem he
  have hlen := c.length_le
  rw [hl, List.length_append, List.length_cons] at hlen
  calc (usedSince h e.1).card = (l₁.map Prod.fst).toFinset.card := by rw [hf hl]
    _ ≤ l₁.length := by simpa using List.toFinset_card_le (l₁.map Prod.fst)
    _ < c.capacity := by omega

/-- **What a use pushes out**: the entries since whose last use as many keys have been used as the cache
has room for. -/
theorem Follows.mem_evicted_iff (hf : c.Follows h) {e : κ × α} (he : e ∈ c.entries) (k : κ) :
    e ∈ c.evicted k ↔ c.capacity ≤ (usedSince (h ++ [k]) e.1).card := by
  have hpos := c.capacity_pos
  by_cases hk : k = e.1
  · refine iff_of_false (fun hev => ?_) ?_
    · have hother := (List.mem_filter.mp (List.mem_of_mem_drop hev)).2
      simp [hk] at hother
    · rw [hk, usedSince_concat_self, Finset.card_empty]
      omega
  · have ho : e ∈ c.others k := List.mem_filter.mpr ⟨he, by simpa using Ne.symm hk⟩
    obtain ⟨l₁, l₂, hl⟩ := List.append_of_mem ho
    obtain ⟨m₁, m₂, hm, hl₁, -⟩ := split_of_others hl
    have hnodup := c.nodup_cons_others k e.2
    rw [hl, List.map_cons, List.map_append, List.nodup_cons, List.nodup_append, List.map_cons] at hnodup
    have hkeys : ((k :: l₁.map Prod.fst)).Nodup :=
      List.nodup_cons.mpr ⟨fun hmem => hnodup.1 (List.mem_append_left _ hmem), hnodup.2.1⟩
    have hcard : (usedSince (h ++ [k]) e.1).card = l₁.length + 1 := by
      rw [usedSince_concat_of_ne h hk, ← hf hm, ← insert_filter_keys, ← hl₁, ← List.toFinset_cons,
        List.toFinset_card_of_nodup hkeys, List.length_cons, List.length_map]
    have hlate : e ∉ l₂ := fun hmem => (List.nodup_cons.mp hnodup.2.2.1).1 (List.mem_map_of_mem hmem)
    rw [evicted, hl, hcard]
    constructor
    · intro hev
      by_contra hlt
      rw [List.drop_append, List.drop_eq_nil_of_le (by omega), List.nil_append] at hev
      have hcut : c.capacity - 1 - l₁.length = c.capacity - 1 - l₁.length - 1 + 1 := by omega
      rw [hcut, List.drop_succ_cons] at hev
      exact hlate (List.mem_of_mem_drop hev)
    · intro hle
      rw [List.drop_append_of_le_length (by omega)]
      exact List.mem_append_right _ List.mem_cons_self

end Follows

end Lru

/-! ### Shards -/

/-- A cache in parts; `shard` says in which part a key has its place. -/
structure Shards {n : ℕ} {κ : Type} (shard : κ → Fin n) (α : Type) where
  part : Fin n → Lru κ α
  placed : ∀ i, ∀ e ∈ (part i).entries, shard e.1 = i

namespace Shards

variable {n : ℕ} {κ α : Type} {shard : κ → Fin n}

/-- Every part has the same capacity. -/
def empty (shard : κ → Fin n) (capacity : ℕ) (h : 0 < capacity) : Shards shard α :=
  ⟨fun _ => .empty capacity h, fun _ _ he => absurd he (List.not_mem_nil)⟩

/-- The part of a key. -/
def own (c : Shards shard α) (k : κ) : Lru κ α := c.part (shard k)

def entries (c : Shards shard α) : List (κ × α) := (List.finRange n).flatMap fun i => (c.part i).entries

@[simp] theorem entries_empty {m : ℕ} (h : 0 < m) : (empty shard m h : Shards shard α).entries = [] :=
  List.flatMap_eq_nil_iff.mpr fun _ _ => rfl

theorem mem_entries {c : Shards shard α} {e : κ × α} : e ∈ c.entries ↔ e ∈ (c.own e.1).entries := by
  rw [entries, List.mem_flatMap]
  constructor
  · rintro ⟨i, -, he⟩
    rwa [own, c.placed i e he]
  · exact fun he => ⟨_, List.mem_finRange _, he⟩

theorem sum_entries (c : Shards shard α) (f : κ × α → ℤ) :
    (c.entries.map f).sum = ∑ i, ((c.part i).entries.map f).sum := by
  rw [entries, List.map_flatMap, List.flatMap_def, List.sum_flatten, List.map_map, Fin.sum_univ_def]
  rfl

theorem length_entries_le {c : Shards shard α} {m : ℕ} (h : ∀ i, (c.part i).capacity = m) :
    c.entries.length ≤ n * m := by
  have hone : ∀ i ∈ Finset.univ, (c.part i).entries.length ≤ m := fun i _ => h i ▸ (c.part i).length_le
  rw [entries, List.length_flatMap, ← Fin.sum_univ_def]
  simpa using Finset.sum_le_card_nsmul _ _ m hone

variable [DecidableEq κ] {c : Shards shard α} {k k' : κ} {a b : α} {e : κ × α}

def lookup (c : Shards shard α) (k : κ) : Option α := (c.own k).lookup k

/-- What a use of `k` pushes out. -/
def evicted (c : Shards shard α) (k : κ) : List (κ × α) := (c.own k).evicted k

def put (c : Shards shard α) (k : κ) (a : α) : Shards shard α where
  part := Function.update c.part (shard k) ((c.own k).put k a)
  placed i e he := by
    by_cases hi : i = shard k
    · subst hi
      rw [Function.update_self] at he
      rcases Lru.mem_of_mem_put he with rfl | he
      · rfl
      · exact c.placed _ e he
    · rw [Function.update_of_ne hi] at he
      exact c.placed i e he

theorem put_part_self (c : Shards shard α) (k : κ) (a : α) : (c.put k a).part (shard k) = (c.own k).put k a :=
  Function.update_self ..

theorem put_part_ne {i : Fin n} (h : i ≠ shard k) : (c.put k a).part i = c.part i := Function.update_of_ne h ..

theorem own_put (h : shard k' = shard k) : (c.put k a).own k' = (c.own k).put k a := by
  rw [own, h, put_part_self]

@[simp] theorem lookup_empty {m : ℕ} (h : 0 < m) : (empty shard m h : Shards shard α).lookup k = none := rfl

@[simp] theorem lookup_put_self : (c.put k a).lookup k = some a := by
  rw [lookup, own_put rfl, Lru.lookup_put_self]

theorem lookup_of_put_ne (h : k' ≠ k) (hb : (c.put k a).lookup k' = some b) : c.lookup k' = some b := by
  by_cases hs : shard k' = shard k
  · rw [lookup, own_put hs] at hb
    rw [lookup, own, hs]
    exact Lru.lookup_of_put_ne h hb
  · rwa [lookup, own, put_part_ne hs] at hb

theorem mem_of_lookup (h : c.lookup k = some a) : (k, a) ∈ c.entries := mem_entries.mpr (Lru.mem_of_lookup h)

theorem lookup_eq_none (h : ∀ e ∈ c.entries, e.1 ≠ k) : c.lookup k = none :=
  Lru.lookup_eq_none fun e he => h e (List.mem_flatMap.mpr ⟨shard k, List.mem_finRange _, he⟩)

theorem mem_of_mem_put (h : e ∈ (c.put k a).entries) : e = (k, a) ∨ e ∈ c.entries := by
  rw [mem_entries] at h
  by_cases hs : shard e.1 = shard k
  · rw [own_put hs] at h
    refine (Lru.mem_of_mem_put h).imp_right fun h => mem_entries.mpr ?_
    rwa [own, hs]
  · rw [own, put_part_ne hs] at h
    exact .inr (mem_entries.mpr h)

theorem mem_of_mem_evicted (h : e ∈ c.evicted k) : e ∈ c.entries :=
  List.mem_flatMap.mpr ⟨_, List.mem_finRange _, Lru.mem_of_mem_evicted h⟩

/-- A use of `k` replaces its value and pushes out entries of its part. -/
theorem sum_put (f : κ × α → ℤ) :
    ((c.put k a).entries.map f).sum + ((c.evicted k).map f).sum + ((c.lookup k).map fun b => f (k, b)).getD 0 =
      f (k, a) + (c.entries.map f).sum := by
  have hrest : ∑ i ∈ Finset.univ.erase (shard k), (((c.put k a).part i).entries.map f).sum =
      ∑ i ∈ Finset.univ.erase (shard k), ((c.part i).entries.map f).sum :=
    Finset.sum_congr rfl fun i hi => by rw [put_part_ne (Finset.ne_of_mem_erase hi)]
  have hput := (c.own k).sum_put (k := k) (a := a) f
  have hown := (c.own k).sum_entries (k := k) f
  rw [sum_entries, sum_entries, ← Finset.add_sum_erase _ _ (Finset.mem_univ (shard k)),
    ← Finset.add_sum_erase _ _ (Finset.mem_univ (shard k)), hrest, put_part_self]
  change _ = f (k, a) + (((c.own k).entries.map f).sum + _)
  rw [hown, evicted, lookup]
  omega

/-- As long as nothing is pushed out, a new key is an entry more. -/
theorem length_put (hnew : ∀ e ∈ c.entries, e.1 ≠ k) (hnone : c.evicted k = []) :
    (c.put k a).entries.length = c.entries.length + 1 := by
  have h := c.sum_put (k := k) (a := a) fun _ => 1
  simp only [hnone, lookup_eq_none hnew, List.map_const', List.sum_replicate, List.length_nil, Option.map_none,
    Option.getD_none, nsmul_eq_mul, mul_one] at h
  push_cast at h
  omega

/-- Every part stands in the order in which its own keys were used. -/
def Follows (c : Shards shard α) (h : List κ) : Prop := ∀ i, (c.part i).Follows (h.filter (shard · = i))

theorem follows_empty {m : ℕ} (hm : 0 < m) : (empty shard m hm : Shards shard α).Follows [] :=
  fun _ => Lru.follows_empty m hm

theorem Follows.put {h : List κ} (hf : c.Follows h) (k : κ) (a : α) : (c.put k a).Follows (h ++ [k]) := by
  intro i
  rw [List.filter_append]
  by_cases hi : i = shard k
  · subst hi
    rw [put_part_self, List.filter_cons_of_pos (by simp), List.filter_nil]
    exact (hf (shard k)).put k a
  · rw [put_part_ne hi, List.filter_cons_of_neg (by simpa using Ne.symm hi), List.filter_nil, List.append_nil]
    exact hf i

/-- **What a use pushes out of a cache in parts**: the entries since whose last use as many keys of their part
have been used as the part has room for. -/
theorem Follows.mem_evicted_iff {h : List κ} (hf : c.Follows h) (he : e ∈ c.entries) (k : κ) :
    e ∈ c.evicted k ↔
      (c.own e.1).capacity ≤ (Lru.usedSince ((h ++ [k]).filter (shard · = shard e.1)) e.1).card := by
  have he := mem_entries.mp he
  rw [List.filter_append]
  by_cases hs : shard k = shard e.1
  · rw [List.filter_cons_of_pos (by simpa using hs), List.filter_nil, evicted, own, hs]
    exact (hf _).mem_evicted_iff he k
  · -- a use of another part leaves the entry where it is
    rw [List.filter_cons_of_neg (by simpa using hs), List.filter_nil, List.append_nil]
    refine iff_of_false (fun hev => ?_) (not_le.mpr ((hf _).card_usedSince_lt he))
    exact hs (c.placed _ e (Lru.mem_of_mem_evicted hev)).symm

end Shards

end HttpsTunnel.Lib

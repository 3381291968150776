import Mathlib.Tactic

/-! # Who owns what passes through a counter

A counter adds up what comes in and is emptied into what goes out, possibly ahead of what is
still to come.  It does not keep the items apart, so they are matched by their order: the `i`-th
item out stands for the `i`-th item in.  `Queue` says that matched items have the same owner, and
what is needed for this to go on; the owner may change when the counter is at 0. -/

namespace HttpsTunnel.Lib

variable {α : Type} {bound : α → Prop} {u : α} {ins outs : List α} {k : ℕ}

/-- The `i`-th item in is the `i`-th item out, and has the same owner if it has one.  Those not out
yet, and those sent out ahead, are of the present owner `u`. -/
structure Queue (bound : α → Prop) (u : α) (ins outs : List α) : Prop where
  fair : ∀ (i : ℕ) (x y : α), ins[i]? = some x → outs[i]? = some y → bound x → y = x
  pending : ∀ (i : ℕ) (x : α), outs.length ≤ i → ins[i]? = some x → bound x → x = u
  ahead : ∀ (i : ℕ) (y : α), ins.length ≤ i → outs[i]? = some y → y = u

theorem getElem?_append_replicate {l : List α} {i : ℕ} {x : α}
    (h : (l ++ List.replicate k u)[i]? = some x) : l[i]? = some x ∨ l.length ≤ i ∧ x = u := by
  rw [List.getElem?_append] at h
  split_ifs at h with hi
  · exact .inl h
  · rw [List.getElem?_replicate] at h
    split_ifs at h
    exact .inr ⟨by omega, (Option.some.inj h).symm⟩

theorem Queue.enter (h : Queue bound u ins outs) :
    Queue bound u (ins ++ List.replicate k u) outs := by
  refine ⟨?_, ?_, ?_⟩
  · intro i x y hx hy hb
    rcases getElem?_append_replicate hx with hx | ⟨hi, rfl⟩
    · exact h.fair i x y hx hy hb
    · exact h.ahead i y hi hy
  · intro i x hi hx hb
    rcases getElem?_append_replicate hx with hx | ⟨-, rfl⟩
    · exact h.pending i x hi hx hb
    · rfl
  · intro i y hi hy
    exact h.ahead i y (by simp at hi; omega) hy

theorem Queue.leave (h : Queue bound u ins outs) :
    Queue bound u ins (outs ++ List.replicate k u) := by
  refine ⟨?_, ?_, ?_⟩
  · intro i x y hx hy hb
    rcases getElem?_append_replicate hy with hy | ⟨hi, rfl⟩
    · exact h.fair i x y hx hy hb
    · exact (h.pending i x hi hx hb).symm
  · intro i x hi hx hb
    exact h.pending i x (by simp at hi; omega) hx hb
  · intro i y hi hy
    rcases getElem?_append_replicate hy with hy | ⟨-, rfl⟩
    · exact h.ahead i y hi hy
    · rfl

/-- The owner changes when nothing is pending and nothing was sent out ahead. -/
theorem Queue.settled {u' : α} (h : Queue bound u ins outs) (hl : outs.length = ins.length) :
    Queue bound u' ins outs := by
  refine ⟨h.fair, ?_, ?_⟩
  · intro i x hi hx
    rw [List.getElem?_eq_none (by omega)] at hx
    cases hx
  · intro i y hi hy
    rw [List.getElem?_eq_none (by omega)] at hy
    cases hy

/-- Somebody takes over from nobody when nothing was sent out ahead. -/
theorem Queue.taken {u' : α} (h : Queue bound u ins outs) (hu : ¬ bound u)
    (hl : outs.length ≤ ins.length) : Queue bound u' ins outs := by
  refine ⟨h.fair, ?_, ?_⟩
  · intro i x hi hx hb
    exact absurd (h.pending i x hi hx hb ▸ hb) hu
  · intro i y hi hy
    rw [List.getElem?_eq_none (by omega)] at hy
    cases hy

end HttpsTunnel.Lib

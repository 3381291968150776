import HttpsTunnel.Lib.Prog

/-! # Programs that make calls

A `Plan` is a loop body seen from outside: which functions it calls, and how it goes on by their results.
What the calls do is given separately (`Plan.run`), and so is what has to hold whenever one is made
(`Plan.Guard`); an invariant of the calls is one of the plan (`Plan.invariant`). -/

namespace HttpsTunnel.Lib

variable {κ ρ σ ε : Type}

/-- Calls `κ` with results `ρ`. -/
inductive Plan (κ ρ : Type) where
  | done
  | call (c : κ) (k : ρ → Plan κ ρ)

namespace Plan

/-- One call. -/
def once (c : κ) : Plan κ ρ := .call c fun _ => .done

/-- Make the calls of a plan. -/
def run (f : κ → Prog σ ε ρ) : Plan κ ρ → Prog σ ε Unit
  | done => pure ()
  | call c k => do
      let r ← f c
      (k r).run f

/-- Every call of the plan meets `P` in the state it is made in. -/
def Guard (f : κ → Prog σ ε ρ) (P : σ → κ → Prop) : Plan κ ρ → σ → Prop
  | done, _ => True
  | call c k, s => P s c ∧
      match f c s with
      | .ok (r, s') => (k r).Guard f P s'
      | .error _ => True

instance instDecidableGuard (f : κ → Prog σ ε ρ) (P : σ → κ → Prop) [∀ s c, Decidable (P s c)] :
    ∀ (p : Plan κ ρ) (s : σ), Decidable (p.Guard f P s)
  | done, _ => .isTrue trivial
  | call c k, s =>
      match h : f c s with
      | .ok (r, s') =>
          have := instDecidableGuard f P (k r) s'
          decidable_of_iff (P s c ∧ (k r).Guard f P s') (by simp [Guard, h])
      | .error _ => decidable_of_iff (P s c) (by simp [Guard, h])

/-- **Induction over a plan.**  If every call that meets `P` keeps the invariant or stops with a fault in
`F`, so does a plan whose calls meet `P`. -/
theorem invariant {f : κ → Prog σ ε ρ} {P : σ → κ → Prop} {I : σ → Prop} {F : ε → Prop}
    (hstep : ∀ s c, P s c → I s → wpe (f c) (fun _ s' => I s') F s) {p : Plan κ ρ} {s : σ} (h : p.Guard f P s)
    (hI : I s) : wpe (p.run f) (fun _ s' => I s') F s := by
  induction p generalizing s with
  | done => exact hI
  | call c k ih =>
      rw [Guard] at h
      obtain ⟨hP, hrest⟩ := h
      have hc := hstep s c hP hI
      rw [run, wpe_bind]
      cases hrun : f c s with
      | error e =>
          rw [wpe, hrun] at hc ⊢
          exact hc
      | ok r =>
          rw [wpe_of_ok hrun] at hc ⊢
          rw [hrun] at hrest
          exact ih r.1 hrest hc

end Plan

/-- The same for a run of plans. -/
theorem Along.plans {ι : Type} {plan : ι → Plan κ ρ} {f : κ → Prog σ ε ρ} {P : σ → κ → Prop} {I : σ → Prop}
    {F : ε → Prop} (hstep : ∀ s c, P s c → I s → wpe (f c) (fun _ s' => I s') F s) {is : List ι} {s : σ}
    (h : Along (fun i => (plan i).run f) (fun s i => (plan i).Guard f P s) is s) (hI : I s) :
    wpe (runAll (fun i => (plan i).run f) is) (fun _ s' => I s') F s :=
  h.invariant (fun _ _ hg => Plan.invariant hstep hg) hI

end HttpsTunnel.Lib

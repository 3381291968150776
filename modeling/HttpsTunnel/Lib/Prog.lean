import Mathlib.Tactic

/-! # Programs over a mutable state that may stop with a fault

`Prog σ ε α` is a program over the state `σ` that either returns a value of type `α` with a
new state or stops with a fault of type `ε` (a null dereference, a use after free, a write
outside a buffer: the points at which the semantics of the program ends).

`wpe x Q F s` says that from `s` the program returns with `Q` or stops with a fault in `F`.
Two cases have names: `wlp`, where any fault will do (*if* `x` returns then `Q` holds), and
`wp`, where none will (`x` *does* return, and `Q` holds).  The rules of this file push `wpe`
through the operations of the monad, so that a `simp only` with them executes a program
symbolically.

`Does R x` says that every returning run of `x` moves the state along the relation `R`.  For
a reflexive and transitive `R` it is closed under sequencing: what each primitive may do to
the state is said once, and what a whole program may do follows. -/

namespace HttpsTunnel.Lib

/-- Programs over a state `σ` that may stop with a fault `ε`. -/
abbrev Prog (σ ε : Type) := StateT σ (Except ε)

variable {σ ε ε' α β : Type}

/-! ### Running the operations of the monad -/

theorem run_bind (x : Prog σ ε α) (f : α → Prog σ ε β) (s : σ) :
    (x >>= f) s = match x s with
      | .ok (a, s') => f a s'
      | .error e => .error e := by
  show Except.bind (x s) (fun p => f p.1 p.2) = _
  cases x s <;> rfl

/-- A sequence returns exactly when both of its parts do. -/
theorem run_get_bind (f : σ → Prog σ ε β) (s : σ) : (get >>= f) s = f s s := rfl

theorem run_bind_eq_ok {x : Prog σ ε α} {f : α → Prog σ ε β} {s s'' : σ} {b : β} :
    (x >>= f) s = .ok (b, s'') ↔ ∃ a s', x s = .ok (a, s') ∧ f a s' = .ok (b, s'') := by
  rw [run_bind]
  cases h : x s with
  | error e => simp
  | ok p =>
      obtain ⟨a, s'⟩ := p
      constructor
      · intro hf
        exact ⟨a, s', rfl, hf⟩
      · rintro ⟨a', s₁, he, hf⟩
        cases he
        exact hf

theorem eq_ok_of_toOption {x : Except ε α} {a : α} (h : x.toOption = some a) : x = .ok a := by
  cases x with
  | error e => cases h
  | ok b =>
      cases h
      rfl

/-- The fault a program stopped with. -/
def faultOf : Except ε α → Option ε
  | .error e => some e
  | .ok _ => none

theorem eq_error_of_faultOf {x : Except ε α} {e : ε} (h : faultOf x = some e) : x = .error e := by
  cases x with
  | error _ => exact congrArg _ (Option.some.inj h)
  | ok _ => cases h

/-- The same program with its faults renamed. -/
def mapFault (f : ε → ε') (x : Prog σ ε α) : Prog σ ε' α := fun s => (x s).mapError f

/-! ### Preconditions -/

/-- From `s`, `x` returns with `Q` or stops with a fault in `F`. -/
def wpe (x : Prog σ ε α) (Q : α → σ → Prop) (F : ε → Prop) (s : σ) : Prop :=
  match x s with
  | .ok (a, s') => Q a s'
  | .error e => F e

/-- Weakest liberal precondition: `Q` holds of every result of `x` from `s`. -/
abbrev wlp (x : Prog σ ε α) (Q : α → σ → Prop) (s : σ) : Prop := wpe x Q (fun _ => True) s

/-- Weakest precondition: `x` returns from `s`, and `Q` holds of the result. -/
abbrev wp (x : Prog σ ε α) (Q : α → σ → Prop) (s : σ) : Prop := wpe x Q (fun _ => False) s

section Rules

variable (Q : α → σ → Prop) (F : ε → Prop) (s : σ)

theorem wpe_of_ok {x : Prog σ ε α} {Q : α → σ → Prop} {F : ε → Prop} {s s' : σ} {a : α}
    (h : x s = .ok (a, s')) : wpe x Q F s ↔ Q a s' := by
  rw [wpe, h]

theorem wlp_iff (x : Prog σ ε α) : wlp x Q s ↔ ∀ a s', x s = .ok (a, s') → Q a s' := by
  rw [wlp, wpe]
  cases h : x s with
  | error e => simp
  | ok p => exact ⟨fun hQ a s' he => by cases he; exact hQ, fun hQ => hQ _ _ rfl⟩

theorem wp_iff (x : Prog σ ε α) : wp x Q s ↔ ∃ a s', x s = .ok (a, s') ∧ Q a s' := by
  rw [wp, wpe]
  cases h : x s with
  | error e => simp
  | ok p => exact ⟨fun hQ => ⟨_, _, rfl, hQ⟩, fun ⟨_, _, he, hQ⟩ => by cases he; exact hQ⟩

@[simp] theorem wpe_pure (a : α) : wpe (pure a : Prog σ ε α) Q F s ↔ Q a s := Iff.rfl

@[simp] theorem wpe_throw (e : ε) : wpe (throw e : Prog σ ε α) Q F s ↔ F e := Iff.rfl

@[simp] theorem wpe_get (Q : σ → σ → Prop) : wpe (get : Prog σ ε σ) Q F s ↔ Q s s := Iff.rfl

@[simp] theorem wpe_set (t : σ) (Q : PUnit → σ → Prop) :
    wpe (set t : Prog σ ε PUnit) Q F s ↔ Q ⟨⟩ t := Iff.rfl

@[simp] theorem wpe_modify (f : σ → σ) (Q : PUnit → σ → Prop) :
    wpe (modify f : Prog σ ε PUnit) Q F s ↔ Q ⟨⟩ (f s) := Iff.rfl

@[simp] theorem wpe_bind (x : Prog σ ε β) (f : β → Prog σ ε α) :
    wpe (x >>= f) Q F s ↔ wpe x (fun a s' => wpe (f a) Q F s') F s := by
  simp only [wpe, run_bind]
  cases x s <;> rfl

@[simp] theorem wpe_mapFault (f : ε → ε') (F : ε' → Prop) (x : Prog σ ε α) :
    wpe (mapFault f x) Q F s ↔ wpe x Q (fun e => F (f e)) s := by
  simp only [wpe, mapFault]
  cases x s <;> rfl

theorem wpe_ite (c : Prop) [Decidable c] (x y : Prog σ ε α) :
    wpe (if c then x else y) Q F s ↔ (c → wpe x Q F s) ∧ (¬ c → wpe y Q F s) := by
  split_ifs with h <;> simp [h]

end Rules

section Tables

variable {ι κ : Type} [DecidableEq ι] {t : ι → Option κ} {i j : ι} {a b : κ}

/-- An entry of a table with a new entry. -/
theorem update_some_eq (h : Function.update t i (some a) j = some b) : j = i ∧ a = b ∨ j ≠ i ∧ t j = some b := by
  by_cases hj : j = i
  · subst hj
    exact .inl ⟨rfl, by simpa using h⟩
  · exact .inr ⟨hj, by simpa [hj] using h⟩

/-- An entry of a table from which one was erased. -/
theorem update_none_eq (h : Function.update t i none j = some b) : j ≠ i ∧ t j = some b := by
  have hj : j ≠ i := by
    rintro rfl
    simp at h
  exact ⟨hj, by simpa [hj] using h⟩

end Tables

/-- What the rules ask of a lookup that finds `a`. -/
theorem found {P : Prop} {Q : α → Prop} {o : Option α} {a : α} (h : o = some a) :
    ((o = none → P) ∧ ∀ b, o = some b → Q b) ↔ Q a := by
  simp [h]

theorem found_iff {P : Prop} {Q : α → Prop} {a : α} : ((some a = none → P) ∧ ∀ b, some a = some b → Q b) ↔ Q a :=
  found rfl

theorem wpe_mono {x : Prog σ ε α} {P Q : α → σ → Prop} {F G : ε → Prop} {s : σ}
    (h : wpe x P F s) (hPQ : ∀ a s', P a s' → Q a s') (hFG : ∀ e, F e → G e) : wpe x Q G s := by
  unfold wpe at *
  split at h
  · exact hPQ _ _ h
  · exact hFG _ h

theorem wlp_mono {x : Prog σ ε α} {P Q : α → σ → Prop} {s : σ} (h : wlp x P s)
    (hPQ : ∀ a s', P a s' → Q a s') : wlp x Q s :=
  wpe_mono h hPQ fun _ => id

/-- What `x` ensures is what the rest of the program needs. -/
theorem wlp_bind {x : Prog σ ε α} {f : α → Prog σ ε β} {P : α → σ → Prop} {Q : β → σ → Prop} {s : σ} (h : wlp x P s)
    (hf : ∀ a s', P a s' → wpe (f a) Q (fun _ => True) s') : wlp (x >>= f) Q s :=
  (wpe_bind ..).mpr (wlp_mono h hf)

theorem wp_mono {x : Prog σ ε α} {P Q : α → σ → Prop} {s : σ} (h : wp x P s)
    (hPQ : ∀ a s', P a s' → Q a s') : wp x Q s :=
  wpe_mono h hPQ fun _ => id

theorem wlp_and {x : Prog σ ε α} {P Q : α → σ → Prop} {s : σ} (h : wlp x P s)
    (h' : wlp x Q s) : wlp x (fun a s' => P a s' ∧ Q a s') s := by
  rw [wlp_iff] at *
  exact fun a s' hx => ⟨h a s' hx, h' a s' hx⟩

/-- A premise of the postcondition may be assumed of the program. -/
theorem wlp_of_imp {x : Prog σ ε α} {P : Prop} {Q : α → σ → Prop} {s : σ} (h : P → wlp x Q s) :
    wlp x (fun a s' => P → Q a s') s := by
  rw [wlp_iff]
  intro a s' hx hP
  exact (wlp_iff _ _ _).mp (h hP) a s' hx

/-- What returns, returns what the liberal precondition says. -/
theorem wpe_and_wlp {x : Prog σ ε α} {P Q : α → σ → Prop} {F : ε → Prop} {s : σ} (h : wpe x P F s)
    (h' : wlp x Q s) : wpe x (fun a s' => P a s' ∧ Q a s') F s := by
  rw [wlp_iff] at h'
  unfold wpe at *
  split at h
  · next a s' hx => exact ⟨h, h' a s' hx⟩
  · exact h

theorem wp_and_wlp {x : Prog σ ε α} {P Q : α → σ → Prop} {s : σ} (h : wp x P s)
    (h' : wlp x Q s) : wp x (fun a s' => P a s' ∧ Q a s') s :=
  wpe_and_wlp h h'

/-- What follows a program may be replaced by what does the same on its results. -/
theorem run_bind_congr {x : Prog σ ε α} {f g : α → Prog σ ε β} {s : σ}
    (h : wlp x (fun a s' => f a s' = g a s') s) : (x >>= f) s = (x >>= g) s := by
  rw [wlp_iff] at h
  rw [run_bind, run_bind]
  cases hx : x s with
  | error e => rfl
  | ok p => exact h p.1 p.2 hx

/-! ### Programs that move the state along a relation -/

/-- Every returning run of `x` moves the state along `R`. -/
def Does (R : σ → σ → Prop) (x : Prog σ ε α) : Prop := ∀ s, wlp x (fun _ s' => R s s') s

namespace Does

variable {R R' : σ → σ → Prop} {x : Prog σ ε α}

theorem mono (h : Does R x) (hR : ∀ s s', R s s' → R' s s') : Does R' x :=
  fun s => wlp_mono (h s) fun _ s' => hR s s'

theorem run (h : Does R x) {s s' : σ} {a : α} (hx : x s = .ok (a, s')) : R s s' :=
  (wlp_iff _ _ _).mp (h s) a s' hx

theorem pure [Std.Refl R] (a : α) : Does R (pure a : Prog σ ε α) := fun s => refl_of R s

theorem throw (e : ε) : Does R (throw e : Prog σ ε α) := fun _ => trivial

theorem bind [IsTrans σ R] {f : α → Prog σ ε β} (hx : Does R x) (hf : ∀ a, Does R (f a)) :
    Does R (x >>= f) := by
  intro s
  simp only [wpe_bind]
  refine wlp_mono (hx s) fun a s₁ h₁ => wlp_mono (hf a s₁) fun _ s₂ h₂ => ?_
  exact trans_of R h₁ h₂

/-- What follows does not ask for the value. -/
theorem seq [IsTrans σ R] {f : α → Prog σ ε β} (hx : Does R x) (hf : ∀ {a}, Does R (f a)) : Does R (x >>= f) :=
  hx.bind fun _ => hf

theorem ret {f : α → β} (hx : Does R x) : Does R (x >>= fun a => Pure.pure (f a)) :=
  fun s => wlp_bind (hx s) fun _ _ h => h

theorem get_bind {f : σ → Prog σ ε α} (hf : ∀ t, Does R (f t)) : Does R (get >>= f) :=
  fun s => (wpe_bind _ _ _ _ _).mpr (hf s s)

theorem modify {f : σ → σ} (h : ∀ s, R s (f s)) : Does R (modify f : Prog σ ε PUnit) :=
  fun s => h s

theorem ite {c : Prop} [Decidable c] {y : Prog σ ε α} (hx : Does R x) (hy : Does R y) :
    Does R (if c then x else y) := by
  split_ifs
  · exact hx
  · exact hy

end Does

/-! ### Postconditions of the last part -/

/-- `Q` holds where `x` ends, wherever it began. -/
def Ensures (x : Prog σ ε α) (Q : α → σ → Prop) : Prop := ∀ s, wlp x Q s

namespace Ensures

variable {x y : Prog σ ε α} {Q : α → σ → Prop}

theorem pure {a : α} (h : ∀ s, Q a s) : Ensures (Pure.pure a : Prog σ ε α) Q := h

theorem throw (e : ε) : Ensures (MonadExcept.throw e : Prog σ ε α) Q := fun _ => trivial

theorem bind {z : Prog σ ε β} {f : β → Prog σ ε α} (h : ∀ b, Ensures (f b) Q) : Ensures (z >>= f) Q :=
  fun _ => wlp_bind ((wlp_iff _ _ _).mpr fun _ _ _ => trivial) fun b s' (_ : True) => h b s'

theorem ite {c : Prop} [Decidable c] (hx : Ensures x Q) (hy : Ensures y Q) : Ensures (if c then x else y) Q := by
  split_ifs
  · exact hx
  · exact hy

end Ensures

/-! ### Runs -/

section Runs

variable {ι : Type} {run : ι → Prog σ ε Unit} {P : σ → ι → Prop}

/-- Run one program after the other. -/
def runAll (run : ι → Prog σ ε Unit) : List ι → Prog σ ε Unit
  | [] => pure ()
  | i :: is => do
      run i
      runAll run is

/-- Every program of a run meets `P` in the state it is started in. -/
def Along (run : ι → Prog σ ε Unit) (P : σ → ι → Prop) : List ι → σ → Prop
  | [], _ => True
  | i :: is, s => P s i ∧
      match run i s with
      | .ok (_, s') => Along run P is s'
      | .error _ => True

instance instDecidableAlong [∀ s i, Decidable (P s i)] : ∀ is s, Decidable (Along run P is s)
  | [], _ => .isTrue trivial
  | i :: is, s =>
      match h : run i s with
      | .ok (_, s') =>
          have := instDecidableAlong is s'
          decidable_of_iff (P s i ∧ Along run P is s') (by simp [Along, h])
      | .error _ => decidable_of_iff (P s i) (by simp [Along, h])

/-- **Induction over a run.**  If every program that meets `P` keeps the invariant or stops with a fault
in `F`, so does a run that meets `P` all along. -/
theorem Along.invariant {I : σ → Prop} {F : ε → Prop}
    (hstep : ∀ s i, P s i → I s → wpe (run i) (fun _ s' => I s') F s) {is : List ι} {s : σ} (h : Along run P is s)
    (hI : I s) : wpe (runAll run is) (fun _ s' => I s') F s := by
  induction is generalizing s with
  | nil => exact hI
  | cons i is ih =>
      obtain ⟨hP, hrest⟩ := h
      have hi := hstep s i hP hI
      rw [runAll, wpe_bind]
      cases hrun : run i s with
      | error e =>
          rw [wpe, hrun] at hi ⊢
          exact hi
      | ok r =>
          rw [wpe_of_ok hrun] at hi ⊢
          rw [hrun] at hrest
          exact ih hrest hi

/-- The same for programs that always return. -/
theorem runAll_invariant {I : σ → Prop} (hstep : ∀ s i, I s → wp (run i) (fun _ s' => I s') s)
    (is : List ι) {s : σ} (hI : I s) : wp (runAll run is) (fun _ s' => I s') s := by
  induction is generalizing s with
  | nil => exact hI
  | cons i is ih =>
      rw [runAll, wp, wpe_bind]
      exact wp_mono (hstep s i hI) fun _ s' h' => ih h'

end Runs

/-! ### Programs that follow a partial function -/

/-- From states that show `u`, `x` returns in a state that shows `f u`, and it stops with a fault
exactly where `f` has no value. -/
def Follows {τ : Type} (R : σ → τ → Prop) (x : Prog σ ε α) (f : τ → Option τ) : Prop :=
  ∀ s u, R s u → wpe x (fun _ s' => ∃ u', f u = some u' ∧ R s' u') (fun _ => f u = none) s

namespace Follows

variable {τ ι : Type} {R : σ → τ → Prop} {x : Prog σ ε α} {f g : τ → Option τ}

theorem bind {y : α → Prog σ ε β} (hx : Follows R x f) (hy : ∀ a, Follows R (y a) g) :
    Follows R (x >>= y) (fun u => (f u).bind g) := by
  intro s u h
  rw [wpe_bind]
  refine wpe_mono (hx s u h) ?_ fun _ hn => by simp [hn]
  rintro a s₁ ⟨u₁, hu₁, h₁⟩
  simp only [hu₁, Option.bind_some]
  exact hy a s₁ u₁ h₁

/-- A run follows the run of the functions. -/
theorem runAll {run : ι → Prog σ ε Unit} {step : ι → τ → Option τ} (h : ∀ i, Follows R (run i) (step i))
    (is : List ι) : Follows R (runAll run is) (fun u => is.foldlM (fun u i => step i u) u) := by
  induction is with
  | nil => exact fun s u hR => ⟨u, rfl, hR⟩
  | cons i is ih => exact (h i).bind fun _ => ih

/-- Runs that return in a state with a property, seen in what they follow. -/
theorem exists_iff {P : σ → Prop} {Q : τ → Prop} {s : σ} {u : τ} (h : Follows R x f) (hR : R s u)
    (hP : ∀ s' u', R s' u' → (P s' ↔ Q u')) :
    (∃ a s', x s = .ok (a, s') ∧ P s') ↔ ∃ u', f u = some u' ∧ Q u' := by
  have hx := h s u hR
  unfold wpe at hx
  cases hr : x s with
  | error e =>
      rw [hr] at hx
      simp [hx]
  | ok r =>
      rw [hr] at hx
      obtain ⟨u', hu', hR'⟩ := hx
      constructor
      · rintro ⟨a, s', he, hs'⟩
        cases he
        exact ⟨u', hu', (hP _ _ hR').mp hs'⟩
      · rintro ⟨u₁, hu₁, hp⟩
        cases hu'.symm.trans hu₁
        exact ⟨r.1, r.2, rfl, (hP _ _ hR').mpr hp⟩

end Follows

end HttpsTunnel.Lib

import Mathlib.Tactic
import Mathlib.Logic.Relation

/-! # Runs and the logs they leave

A system that appends to a log at every step satisfies its safety properties in two forms.
`Guarded` says that certain entries come only after others have granted them.  `Complies` says
that every entry meets a condition, which may depend on the entries before it.  `Grows` is the
shape of the steps: the log only grows.  For such a system a condition on the final log that
holds of every shorter log too is one on every step of the run, and `Grows.invariant` is the
induction over a run under it.  `Throughout` is a condition on every step of a run that is given
by the list of what happens in it. -/

namespace HttpsTunnel.Lib

open Relation

section Guarded

variable {α : Type} {grants : α → α → Prop} {needs : α → Prop} {l m : List α}

/-- Every entry that needs it comes after one that grants it. -/
def Guarded (grants : α → α → Prop) (needs : α → Prop) (l : List α) : Prop :=
  ∀ ⦃l₁ x l₂⦄, l = l₁ ++ x :: l₂ → needs x → ∃ y ∈ l₁, grants y x

theorem Guarded.nil : Guarded grants needs [] := by
  intro l₁ x l₂ h
  simp at h

theorem Guarded.append (h : Guarded grants needs l) (hm : ∀ x ∈ m, needs x → ∃ y ∈ l, grants y x) :
    Guarded grants needs (l ++ m) := by
  intro l₁ x l₂ he hx
  rcases List.append_eq_append_iff.mp he with ⟨a, rfl, rfl⟩ | ⟨a, rfl, ha⟩
  · obtain ⟨y, hy, hg⟩ := hm x (by simp) hx
    exact ⟨y, List.mem_append_left a hy, hg⟩
  · cases a with
    | nil =>
        simp only [List.nil_append] at ha
        obtain ⟨y, hy, hg⟩ := hm x (ha ▸ List.mem_cons_self) hx
        exact ⟨y, by simpa using hy, hg⟩
    | cons z a =>
        simp only [List.cons_append, List.cons.injEq] at ha
        obtain ⟨rfl, rfl⟩ := ha
        exact h rfl hx

/-- The entries left out of a log neither need nor grant anything. -/
theorem Guarded.of_filter (q : α → Bool) (h : Guarded grants needs (l.filter q))
    (hq : ∀ x, needs x → q x = true) : Guarded grants needs l := by
  intro l₁ x l₂ he hx
  have hf : l.filter q = l₁.filter q ++ x :: l₂.filter q := by
    rw [he, List.filter_append, List.filter_cons_of_pos (hq x hx)]
  obtain ⟨y, hy, hg⟩ := h hf hx
  exact ⟨y, (List.mem_filter.mp hy).1, hg⟩

end Guarded

section Complies

variable {α : Type} {ok : List α → α → Prop} {l l' : List α}

/-- Every entry meets the condition in view of the entries before it. -/
def Complies (ok : List α → α → Prop) (l : List α) : Prop :=
  ∀ ⦃l₁ x l₂⦄, l = l₁ ++ x :: l₂ → ok l₁ x

theorem complies_iff : Complies ok l ↔ ∀ i : Fin l.length, ok (l.take i) l[i] := by
  constructor
  · intro h i
    have he : l = l.take i ++ l[i] :: l.drop (i + 1) := by simp
    exact h he
  · rintro h l₁ x l₂ rfl
    have hx := h ⟨l₁.length, by simp⟩
    simpa using hx

instance [∀ l x, Decidable (ok l x)] : Decidable (Complies ok l) := decidable_of_iff _ complies_iff.symm

theorem Complies.of_isPrefix (hp : l <+: l') (h : Complies ok l') : Complies ok l := by
  obtain ⟨m, rfl⟩ := hp
  intro l₁ x l₂ he
  have hm : l ++ m = l₁ ++ x :: (l₂ ++ m) := by rw [he]; simp
  exact h hm

/-- A split of a filtered list is one of the list. -/
theorem split_of_filter {q : α → Bool} {l₁ l₂ : List α} {x : α} (h : l.filter q = l₁ ++ x :: l₂) :
    ∃ m₁ m₂, l = m₁ ++ x :: m₂ ∧ m₁.filter q = l₁ ∧ m₂.filter q = l₂ ∧ q x = true := by
  obtain ⟨m₁, m₂, rfl, rfl, hm⟩ := List.filter_eq_append_iff.mp h
  obtain ⟨m₃, m₄, rfl, hm₃, hx, rfl⟩ := List.filter_eq_cons_iff.mp hm
  refine ⟨m₁ ++ m₃, m₄, by simp, ?_, rfl, hx⟩
  rw [List.filter_append, List.filter_eq_nil_iff.mpr hm₃, List.append_nil]

/-- Entries that do not count for the condition may be left out. -/
theorem Complies.filter (q : α → Bool) (h : Complies ok l)
    (hq : ∀ l x, q x = true → ok l x → ok (l.filter q) x) : Complies ok (l.filter q) := by
  intro l₁ x l₂ he
  obtain ⟨m₁, m₂, rfl, rfl, -, hx⟩ := split_of_filter he
  exact hq _ _ hx (h rfl)

end Complies

section Grows

variable {σ α : Type} {step : σ → σ → Prop} {log : σ → List α} {s s' : σ}

/-- The log of a system only grows. -/
def Grows (step : σ → σ → Prop) (log : σ → List α) : Prop :=
  ∀ ⦃s s'⦄, step s s' → log s <+: log s'

/-- **Induction over a run under a condition on the log.**  An invariant that every step keeps, as
long as the log meets `P`, holds at the end of every run whose log does. -/
theorem Grows.invariant (h : Grows step log) {P : List α → Prop} {I : σ → Prop}
    (hP : ∀ ⦃l l'⦄, l <+: l' → P l' → P l)
    (hstep : ∀ ⦃s s'⦄, step s s' → P (log s') → I s → I s')
    (hr : ReflTransGen step s s') (hlog : P (log s')) (hI : I s) : I s' := by
  induction hr with
  | refl => exact hI
  | tail _ hs ih => exact hstep hs hlog (ih (hP (h hs) hlog))

end Grows

section Throughout

variable {σ α : Type} {step : σ → α → σ} {P : σ → α → Prop} {I : σ → Prop}

/-- Every step of the run of `as` from a state meets `P`. -/
def Throughout (step : σ → α → σ) (P : σ → α → Prop) : List α → σ → Prop
  | [], _ => True
  | a :: as, s => P s a ∧ Throughout step P as (step s a)

instance [∀ s a, Decidable (P s a)] : ∀ as s, Decidable (Throughout step P as s)
  | [], _ => .isTrue trivial
  | _ :: as, _ =>
      have := instDecidableThroughout as
      inferInstanceAs (Decidable (_ ∧ _))

theorem Throughout.invariant (hstep : ∀ ⦃s a⦄, P s a → I s → I (step s a)) {as : List α} {s : σ}
    (h : Throughout step P as s) (hI : I s) : I (as.foldl step s) := by
  induction as generalizing s with
  | nil => exact hI
  | cons a as ih => exact ih h.2 (hstep h.1 hI)

end Throughout

end HttpsTunnel.Lib

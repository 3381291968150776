import HttpsTunnel.Lib.Buffer

/-! # Programs that look at a memory

A `Probe` computes a value from a memory it looks at byte by byte; what it looks at next may depend on what
it has seen.  `run` is its value and `asked` the positions it looked at, in order.  A probe does not depend on
what it did not look at (`Probe.run_congr`), so for a program that is the `run` of a probe, `asked` says what
the program reads.  `Stays n` says of a probe that may fail that it does not, and looks at the first `n` bytes
only. -/

namespace HttpsTunnel.Lib

/-- A computation over a memory. -/
inductive Probe (α : Type) where
  | done (a : α)
  | ask (i : ℕ) (next : UInt8 → Probe α)

namespace Probe

variable {α β : Type}

/-- The value computed from memory `b`. -/
def run (b : Buff) : Probe α → α
  | done a => a
  | ask i next => (next (b i)).run b

/-- The positions looked at. -/
def asked (b : Buff) : Probe α → List ℕ
  | done _ => []
  | ask i next => i :: (next (b i)).asked b

def bind : Probe α → (α → Probe β) → Probe β
  | done a, f => f a
  | ask i next, f => ask i fun c => (next c).bind f

instance : Monad Probe where
  pure := done
  bind := bind

@[simp] theorem run_pure (b : Buff) (a : α) : (pure a : Probe α).run b = a := rfl

@[simp] theorem asked_pure (b : Buff) (a : α) : (pure a : Probe α).asked b = [] := rfl

@[simp] theorem run_bind (b : Buff) (x : Probe α) (f : α → Probe β) :
    (x >>= f).run b = (f (x.run b)).run b := by
  change (x.bind f).run b = _
  induction x with
  | done a => rfl
  | ask i next ih => exact ih (b i)

@[simp] theorem asked_bind (b : Buff) (x : Probe α) (f : α → Probe β) :
    (x >>= f).asked b = x.asked b ++ (f (x.run b)).asked b := by
  change (x.bind f).asked b = _
  induction x with
  | done a => rfl
  | ask i next ih => exact congrArg (i :: ·) (ih (b i))

@[simp] theorem run_ite (b : Buff) (p : Prop) [Decidable p] (x y : Probe α) :
    (if p then x else y).run b = if p then x.run b else y.run b := apply_ite (run b) p x y

/-- Only what is looked at matters. -/
theorem run_congr {b b' : Buff} (x : Probe α) (h : ∀ i ∈ x.asked b, b' i = b i) :
    x.run b' = x.run b ∧ x.asked b' = x.asked b := by
  induction x with
  | done a => exact ⟨rfl, rfl⟩
  | ask i next ih =>
      have hi : b' i = b i := h i (by simp [asked])
      obtain ⟨hrun, hasked⟩ := ih (b i) fun j hj => h j (by simp [asked, hj])
      simp only [run, asked, hi]
      exact ⟨hrun, by rw [hasked]⟩

/-! ### Basic probes -/

/-- The byte at `i`. -/
def byte (i : ℕ) : Probe UInt8 := ask i done

@[simp] theorem run_byte (b : Buff) (i : ℕ) : (byte i).run b = b i := rfl

@[simp] theorem asked_byte (b : Buff) (i : ℕ) : (byte i).asked b = [i] := rfl

/-- The `n` bytes from `off` on. -/
def bytes (off : ℕ) : ℕ → Probe (List UInt8)
  | 0 => pure []
  | n + 1 => do
      let c ← byte off
      return c :: (← bytes (off + 1) n)

@[simp] theorem run_bytes (b : Buff) (off n : ℕ) : (bytes off n).run b = b.slice off n := by
  induction n generalizing off with
  | zero => rfl
  | succ n ih =>
      have hone : b.slice off 1 = [b off] := rfl
      rw [Nat.add_comm n 1, ← Buff.slice_append, hone, Nat.add_comm 1 n]
      simp [bytes, ih]

theorem mem_asked_bytes {b : Buff} {off n i : ℕ} : i ∈ (bytes off n).asked b ↔ off ≤ i ∧ i < off + n := by
  induction n generalizing off with
  | zero =>
      simp only [bytes, asked_pure, List.not_mem_nil, false_iff]
      omega
  | succ n ih =>
      simp only [bytes, asked_bind, asked_byte, asked_pure, List.append_nil, List.mem_append, List.mem_singleton, ih]
      omega

/-! ### Probes that may fail -/

section Gives

variable {ε : Type} {n : ℕ} {b b' : Buff} {a c : α}

/-- Go on with the value, unless there is none. -/
def thenOk (x : Probe (Except ε α)) (f : α → Probe (Except ε β)) : Probe (Except ε β) := do
  match ← x with
  | .error e => pure (.error e)
  | .ok a => f a

@[simp] theorem run_thenOk (b : Buff) (x : Probe (Except ε α)) (f : α → Probe (Except ε β)) :
    (x.thenOk f).run b = (x.run b).bind fun a => (f a).run b := by
  rw [thenOk, run_bind]
  cases x.run b <;> rfl

/-- On this memory the probe gives `a` and looks at no position from `n` on. -/
def Gives (n : ℕ) (x : Probe (Except ε α)) (b : Buff) (a : α) : Prop :=
  x.run b = .ok a ∧ ∀ i ∈ x.asked b, i < n

theorem Gives.congr {x : Probe (Except ε α)} (h : Gives n x b a) (hb : ∀ i < n, b' i = b i) : Gives n x b' a := by
  obtain ⟨hrun, hasked⟩ := x.run_congr fun i hi => hb i (h.2 i hi)
  exact ⟨hrun.trans h.1, hasked ▸ h.2⟩

@[simp] theorem gives_ok : Gives n (pure (.ok a) : Probe (Except ε α)) b c ↔ a = c := by simp [Gives]

@[simp] theorem gives_error (e : ε) : Gives n (pure (.error e) : Probe (Except ε α)) b c ↔ False := by simp [Gives]

theorem gives_bind {x : Probe α} {f : α → Probe (Except ε β)} {c : β} :
    Gives n (x >>= f) b c ↔ (∀ i ∈ x.asked b, i < n) ∧ Gives n (f (x.run b)) b c := by
  simp only [Gives, run_bind, asked_bind, List.mem_append, or_imp, forall_and]
  exact and_left_comm

theorem gives_thenOk {x : Probe (Except ε α)} {f : α → Probe (Except ε β)} {c : β} :
    Gives n (x.thenOk f) b c ↔ ∃ a, Gives n x b a ∧ Gives n (f a) b c := by
  rw [thenOk, gives_bind]
  cases hx : x.run b with
  | error e => simp [Gives, hx]
  | ok a =>
      simp only [Gives, hx, Except.ok.injEq]
      constructor
      · exact fun h => ⟨a, ⟨rfl, h.1⟩, h.2⟩
      · rintro ⟨_, ⟨rfl, hin⟩, h⟩
        exact ⟨hin, h⟩

/-- On this memory the probe does not fail and looks at no position from `n` on. -/
def Stays (n : ℕ) (x : Probe (Except ε α)) (b : Buff) : Prop := ∃ a, Gives n x b a

theorem Stays.congr {x : Probe (Except ε α)} (h : Stays n x b) (hb : ∀ i < n, b' i = b i) : Stays n x b' :=
  h.imp fun _ h => h.congr hb

end Gives

end Probe

end HttpsTunnel.Lib

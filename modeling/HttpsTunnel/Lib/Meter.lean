import HttpsTunnel.Lib.Session

/-! # Metering the reads of a loop

`Endpoint.metered` is an endpoint that also keeps the lengths of its reads.  Its read loop is the read
loop of the endpoint with a list beside the state (`recvLoop_metered`), so that what an invariant of the
metered loop says of the list holds of the reads of the loop itself. -/

namespace HttpsTunnel.Lib

variable {σ γ ε α β : Type}

/-- A program that leaves `γ` alone. -/
def aside (x : Prog σ ε α) : Prog (σ × γ) ε α := fun s =>
  match x s.1 with
  | .ok (a, s') => .ok (a, (s', s.2))
  | .error e => .error e

@[simp] theorem wpe_aside {x : Prog σ ε α} {Q : α → σ × γ → Prop} {F : ε → Prop} {s : σ × γ} :
    wpe (aside x) Q F s ↔ wpe x (fun a s' => Q a (s', s.2)) F s.1 := by
  simp only [wpe, aside]
  cases x s.1 <;> rfl

/-- `x` is `y` with something beside the state. -/
def Erases (x : Prog (σ × γ) ε α) (y : Prog σ ε α) : Prop :=
  ∀ s, y s.1 = (x s).map fun r => (r.1, r.2.1)

namespace Erases

variable {x : Prog (σ × γ) ε α} {y : Prog σ ε α}

theorem of_aside (y : Prog σ ε α) : Erases (γ := γ) (aside y) y := by
  intro s
  unfold aside
  cases h : y s.1 <;> rfl

theorem of_pure (a : α) : Erases (pure a : Prog (σ × γ) ε α) (pure a) := fun _ => rfl

theorem of_throw (e : ε) : Erases (throw e : Prog (σ × γ) ε α) (throw e) := fun _ => rfl

theorem of_modify {f : σ × γ → σ × γ} {g : σ → σ} (h : ∀ s, (f s).1 = g s.1) :
    Erases (modify f : Prog (σ × γ) ε PUnit) (modify g) := by
  intro s
  show Except.ok ((), g s.1) = Except.ok ((), (f s).1)
  rw [h]

/-- What happens only beside the state. -/
theorem modify_bind {f : σ × γ → σ × γ} (h : ∀ s, (f s).1 = s.1) (hx : Erases x y) :
    Erases (modify f >>= fun _ => x) y := by
  intro s
  have hs := hx (f s)
  rwa [h] at hs

theorem of_get {f : σ × γ → Prog (σ × γ) ε α} {g : σ → Prog σ ε α} (h : ∀ s, Erases (f s) (g s.1)) :
    Erases (get >>= f) (get >>= g) := fun s => h s s

theorem mapFault {ε' : Type} (f : ε → ε') (h : Erases x y) : Erases (mapFault f x) (Lib.mapFault f y) := by
  intro s
  simp only [Lib.mapFault, h s]
  cases x s <;> rfl

theorem bind {f : α → Prog (σ × γ) ε β} {g : α → Prog σ ε β} (hx : Erases x y) (hf : ∀ a, Erases (f a) (g a)) :
    Erases (x >>= f) (y >>= g) := by
  intro s
  rw [run_bind, run_bind, hx s]
  cases x s with
  | error e => rfl
  | ok r => exact hf r.1 r.2

/-- What holds of the results of `y` holds of those of `x`. -/
theorem wlp {Q : α → σ → Prop} {s : σ × γ} (h : Erases x y) (hy : Lib.wlp y Q s.1) :
    Lib.wlp x (fun a s' => Q a s'.1) s := by
  rw [wlp_iff] at hy ⊢
  intro a s' hx
  refine hy a s'.1 ?_
  rw [h s, hx]
  rfl

end Erases

/-- The endpoint with the lengths of its reads. -/
def Endpoint.metered (E : Endpoint σ ε) : Endpoint (σ × List ℕ) ε where
  fmt := E.fmt
  size := E.size
  view s := E.view s.1
  put d s := (E.put d s.1, s.2)
  errno e s := (E.errno e s.1, s.2)
  onRead n s := (E.onRead n s.1, s.2 ++ [n])
  onMsg n := aside (E.onMsg n)
  onForward n := aside (E.onForward n)

section Loop

variable {E : Endpoint σ ε}

theorem dispatch_erases {call : Upcall} {chunk : List UInt8} {x : Prog (σ × γ) ε (Option ℤ)}
    {y : Prog σ ε (Option ℤ)} {k : Prog (σ × γ) (LoopFault ε) Ret} {l : Prog σ (LoopFault ε) Ret}
    (hx : Erases x y) (hk : Erases k l) : Erases (dispatch call chunk x k) (dispatch call chunk y l) := by
  refine (hx.mapFault _).bind fun r => ?_
  cases r with
  | some r => exact .of_pure _
  | none => exact hk.bind fun _ => .of_pure _

theorem reading_erases {k : Decoder → Prog (σ × List ℕ) (LoopFault ε) Ret} {l : Decoder → Prog σ (LoopFault ε) Ret}
    (h : ∀ d, Erases (k d) (l d)) : Erases (E.metered.reading k) (E.reading l) := by
  refine .of_get fun s => ?_
  simp only [Endpoint.metered]
  cases E.view s.1 with
  | none => exact .of_throw _
  | some d =>
      simp only
      split_ifs
      · exact .of_pure _
      · exact h d

theorem receive_erases {d : Decoder} {chunk : List UInt8} {k : Prog (σ × List ℕ) (LoopFault ε) Ret}
    {l : Prog σ (LoopFault ε) Ret} (hk : Erases k l) : Erases (E.metered.receive d chunk k) (E.receive d chunk l) := by
  refine Erases.bind (.of_modify fun _ => rfl) fun _ => ?_
  simp only [show E.metered.fmt = E.fmt from rfl]
  cases (d.recv E.fmt chunk).2 with
  | short | reject => exact .of_pure _
  | header | ignored => exact hk.bind fun _ => .of_pure _
  | message | forward => exact dispatch_erases (.of_aside _) hk

theorem recvN_metered (n : ℕ) (rs : List ReadRes) : Erases (recvN E.metered n rs) (recvN E n rs) := by
  have hfail : ∀ e, Erases (E.metered.readFails e) (E.readFails e) := fun e =>
    Erases.bind (.of_modify fun _ => rfl) fun _ => .of_pure _
  induction n generalizing rs with
  | zero => exact reading_erases fun _ => hfail _
  | succ n ih =>
      match rs with
      | [] => exact reading_erases fun _ => hfail _
      | .fail e :: rs => exact reading_erases fun _ => hfail e
      | .data bs :: rs =>
          refine reading_erases fun d => ?_
          simp only [show E.metered.size = E.size from rfl]
          split_ifs
          · exact .of_pure _
          · exact .of_throw _
          · exact receive_erases (ih _)

/-- The metered loop is the loop. -/
theorem recvLoop_metered (rs : List ReadRes) : Erases (recvLoop E.metered rs) (recvLoop E rs) :=
  recvN_metered _ _

end Loop

end HttpsTunnel.Lib

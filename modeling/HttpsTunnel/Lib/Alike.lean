import HttpsTunnel.Lib.Session

/-! # Programs that cannot tell two states apart

`Sim R x y` says that `x` and `y`, started in related states, end the same way: with the same fault, or with the
same value in related states.  Where `x` and `y` are the same program and `R` leaves something of the state open,
this is noninterference: what is left open has no influence on the rest.

`Alike view x y` is the case in which states are related if they have the same view. -/

namespace HttpsTunnel.Lib

variable {σ τ ε ε' α β : Type}

/-! ### Related runs -/

/-- Two runs end the same way. -/
inductive Ends (R : σ → σ → Prop) : Except ε (α × σ) → Except ε (α × σ) → Prop
  | error (e : ε) : Ends R (.error e) (.error e)
  | ok (a : α) {s s' : σ} (h : R s s') : Ends R (.ok (a, s)) (.ok (a, s'))

/-- From related states, `x` and `y` end the same way. -/
def Sim (R : σ → σ → Prop) (x y : Prog σ ε α) : Prop := ∀ s s', R s s' → Ends R (x s) (y s')

theorem Ends.mono {R R' : σ → σ → Prop} (hR : ∀ s s', R s s' → R' s s') {r r' : Except ε (α × σ)}
    (h : Ends R r r') : Ends R' r r' := by
  cases h with
  | error e => exact .error e
  | ok a h => exact .ok a (hR _ _ h)

namespace Sim

variable {R : σ → σ → Prop} {x y : Prog σ ε α}

theorem pure (a : α) : Sim R (pure a : Prog σ ε α) (pure a) := fun _ _ h => .ok a h

theorem throw (e : ε) : Sim R (throw e : Prog σ ε α) (throw e) := fun _ _ _ => .error e

theorem modify {f g : σ → σ} (h : ∀ s s', R s s' → R (f s) (g s')) :
    Sim R (modify f : Prog σ ε PUnit) (modify g) := fun s s' hs => .ok _ (h s s' hs)

theorem set {s s' : σ} (h : R s s') : Sim R (set s : Prog σ ε PUnit) (set s') := fun _ _ _ => .ok _ h

theorem get_bind {f g : σ → Prog σ ε α} (h : ∀ s s', R s s' → Sim R (f s) (g s')) :
    Sim R (get >>= f) (get >>= g) := fun s s' hs => h s s' hs s s' hs

theorem ite_iff {c c' : Prop} [Decidable c] [Decidable c'] {x' y' : Prog σ ε α} (hc : c ↔ c') (hx : Sim R x y)
    (hy : Sim R x' y') : Sim R (if c then x else x') (if c' then y else y') := by
  by_cases h : c
  · rw [if_pos h, if_pos (hc.mp h)]
    exact hx
  · rw [if_neg h, if_neg fun h' => h (hc.mpr h')]
    exact hy

theorem ite {c : Prop} [Decidable c] {x' y' : Prog σ ε α} (hx : Sim R x y) (hy : Sim R x' y') :
    Sim R (if c then x else x') (if c then y else y') := ite_iff Iff.rfl hx hy

/-- What the first program returns may be used for the second. -/
theorem bind_val {f g : α → Prog σ ε β} {P : α → Prop} (hx : Sim R x y)
    (hP : ∀ s s', R s s' → wlp x (fun a _ => P a) s) (hf : ∀ a, P a → Sim R (f a) (g a)) :
    Sim R (x >>= f) (y >>= g) := by
  intro s s' hs
  have h := hx s s' hs
  have hval := (wlp_iff _ _ x).mp (hP s s' hs)
  rw [run_bind, run_bind]
  generalize x s = r at h hval
  generalize y s' = r' at h
  cases h with
  | error e => exact .error e
  | ok a h => exact hf a (hval a _ rfl) _ _ h

theorem bind {f g : α → Prog σ ε β} (hx : Sim R x y) (hf : ∀ a, Sim R (f a) (g a)) :
    Sim R (x >>= f) (y >>= g) :=
  hx.bind_val (P := fun _ => True) (fun _ _ _ => (wlp_iff _ _ x).mpr fun _ _ _ => trivial) fun a _ => hf a

/-- What follows does not ask for the value. -/
theorem seq {f g : α → Prog σ ε β} (hx : Sim R x y) (hf : ∀ {a}, Sim R (f a) (g a)) : Sim R (x >>= f) (y >>= g) :=
  hx.bind fun _ => hf

theorem ret {f : α → β} (hx : Sim R x y) : Sim R (x >>= fun a => Pure.pure (f a)) (y >>= fun a => Pure.pure (f a)) :=
  hx.bind fun _ => pure _

theorem mapFault (g : ε → ε') (hx : Sim R x y) : Sim R (mapFault g x) (mapFault g y) := by
  intro s s' hs
  have h := hx s s' hs
  rw [Lib.mapFault, Lib.mapFault]
  generalize x s = r at h
  generalize y s' = r' at h
  cases h with
  | error e => exact .error (g e)
  | ok a h => exact .ok a h

end Sim

/-! ### States with the same view -/

/-- From states with the same view, `x` and `y` end the same way. -/
abbrev Alike (view : σ → τ) (x y : Prog σ ε α) : Prop := Sim (fun s s' => view s = view s') x y

theorem Alike.map_eq {view : σ → τ} {x y : Prog σ ε α} (h : Alike view x y) {s s' : σ} (hs : view s = view s') :
    (x s).map (Prod.map id view) = (y s').map (Prod.map id view) := by
  have hends := h s s' hs
  generalize x s = r at hends
  generalize y s' = r' at hends
  cases hends with
  | error e => rfl
  | ok a h => exact congrArg (fun t => Except.ok (a, t)) h

/-- A program that can as well be run on the view. -/
theorem Sim.of_view {view : σ → σ} {x : Prog σ ε α} (h : ∀ s, x (view s) = (x s).map (Prod.map id view)) :
    Alike view x x := by
  intro s s' hs
  have heq : (x s).map (Prod.map id view) = (x s').map (Prod.map id view) := by rw [← h, ← h, hs]
  generalize x s = r at heq ⊢
  generalize x s' = r' at heq ⊢
  rcases r with e | ⟨a, t⟩ <;> rcases r' with e' | ⟨a', t'⟩
  · obtain rfl := Except.error.inj heq
    exact .error e
  · cases heq
  · cases heq
  · obtain ⟨hval, hview⟩ := Prod.mk.inj (Except.ok.inj heq)
    obtain rfl : a = a' := hval
    exact .ok a hview

/-! ### The read loop -/

/-- A decoder without its length field, which only counts while a body is read. -/
def Decoder.blank (d : Decoder) : Decoder := { d with h := if d.cstate = .body then d.h else 0 }

/-- A read treats decoders that differ in that the same way; if it completes a message, nothing of the difference is
left. -/
theorem Decoder.recv_blank {d d' : Decoder} (h : d.blank = d'.blank) (F : Format) (chunk : List UInt8) :
    (d.recv F chunk).1.blank = (d'.recv F chunk).1.blank ∧ (d'.recv F chunk).2 = (d.recv F chunk).2 ∧
      ((d.recv F chunk).2 = .message → (d'.recv F chunk).1 = (d.recv F chunk).1) := by
  obtain ⟨m, x, still, off, buff⟩ := d
  obtain ⟨m', x', still', off', buff'⟩ := d'
  simp only [blank, mk.injEq] at h
  obtain ⟨rfl, hx, rfl, rfl, rfl⟩ := h
  cases m <;> by_cases hshort : chunk.length < still <;> grind [recv, blank]

/-- The endpoint treats related states the same way; `D` relates the decoders found in them. -/
structure Endpoint.Blind (E : Endpoint σ ε) (R : σ → σ → Prop) (D : Decoder → Decoder → Prop) : Prop where
  blank : ∀ {d d'}, D d d' → d.blank = d'.blank
  recv : ∀ {d d'} (chunk : List UInt8), D d d' → D (d.recv E.fmt chunk).1 (d'.recv E.fmt chunk).1
  view : ∀ {s s'}, R s s' → E.view s = none ∧ E.view s' = none ∨
    ∃ d d', E.view s = some d ∧ E.view s' = some d' ∧ D d d'
  put : ∀ {s s' d d'} (n : ℕ), R s s' → D d d' → R (E.put d (E.onRead n s)) (E.put d' (E.onRead n s'))
  errno : ∀ {s s'} (e : ℕ), R s s' → R (E.errno e s) (E.errno e s')
  onMsg : ∀ {s s'} (d : Decoder) (n : ℕ), R s s' → 
    Ends R (E.onMsg n (E.put d (E.onRead n s))) (E.onMsg n (E.put d (E.onRead n s')))
  onForward : ∀ n, Sim R (E.onForward n) (E.onForward n)

variable {E : Endpoint σ ε} {R : σ → σ → Prop} {D : Decoder → Decoder → Prop}

theorem Endpoint.Blind.reading (hE : E.Blind R D) {k k' : Decoder → Prog σ (LoopFault ε) Ret}
    (hk : ∀ s s' d d', R s s' → E.view s = some d → D d d' → Ends R (k d s) (k' d' s')) :
    Sim R (E.reading k) (E.reading k') := by
  intro s s' hs
  simp only [Endpoint.reading, run_get_bind]
  rcases hE.view hs with ⟨hv, hv'⟩ | ⟨d, d', hv, hv', hd⟩
  · rw [hv, hv']
    exact .error _
  · have hstill : d'.stillneedtoread = d.stillneedtoread := (congrArg Decoder.stillneedtoread (hE.blank hd).symm :)
    simp only [hv, hv', hstill]
    split_ifs with h0
    · exact .ok _ hs
    · exact hk s s' d d' hs hv hd

theorem Endpoint.Blind.readFails (hE : E.Blind R D) (e : ℕ) : Sim R (E.readFails e) (E.readFails e) :=
  .bind (.modify fun _ _ hs => hE.errno e hs) fun _ => .pure _

theorem Ends.dispatch (call : Upcall) (chunk : List UInt8) {x y : Prog σ ε (Option ℤ)}
    {k : Prog σ (LoopFault ε) Ret} {s s' : σ} (hx : Ends R (x s) (y s')) (hk : Sim R k k) :
    Ends R (dispatch call chunk x k s) (dispatch call chunk y k s') := by
  simp only [Lib.dispatch, run_bind, Lib.mapFault]
  generalize x s = r at hx
  generalize y s' = r' at hx
  cases hx with
  | error e => exact .error _
  | ok a h =>
      cases a with
      | some code => exact .ok _ h
      | none => exact Sim.bind hk (fun _ => .pure _) _ _ h

theorem Endpoint.Blind.receive (hE : E.Blind R D) {d d' : Decoder} (hd : D d d') (chunk : List UInt8)
    {k : Prog σ (LoopFault ε) Ret} (hk : Sim R k k) {s s' : σ} (hs : R s s') :
    Ends R (E.receive d chunk k s) (E.receive d' chunk k s') := by
  obtain ⟨hsame, hout, hmsg⟩ := Decoder.recv_blank (hE.blank hd) E.fmt chunk
  have hput := hE.put chunk.length hs (hE.recv chunk hd)
  simp only [Endpoint.receive, hout]
  cases ho : (d.recv E.fmt chunk).2 with
  | short | reject => exact .ok _ hput
  | header | ignored => exact Sim.bind hk (fun _ => .pure _) _ _ hput
  | message =>
      rw [hmsg ho]
      exact .dispatch _ chunk (hE.onMsg _ _ hs) hk
  | forward =>
      have hb : (d'.recv E.fmt chunk).1.buff = (d.recv E.fmt chunk).1.buff :=
        (congrArg Decoder.buff hsame.symm :)
      rw [hb]
      exact .dispatch _ chunk (hE.onForward _ _ _ hput) hk

/-- **The read loop cannot tell related states apart** if its endpoint cannot. -/
theorem Endpoint.Blind.recvLoop (hE : E.Blind R D) (rs : List ReadRes) : Sim R (recvLoop E rs) (recvLoop E rs) := by
  have hn : ∀ n rs, Sim R (recvN E n rs) (recvN E n rs) := by
    intro n
    induction n with
    | zero => exact fun rs => hE.reading fun s s' _ _ hs _ _ => hE.readFails _ s s' hs
    | succ n ih =>
        rintro (_ | ⟨bs | e, rs⟩)
        · exact hE.reading fun s s' _ _ hs _ _ => hE.readFails _ s s' hs
        · refine hE.reading fun s s' d d' hs _ hd => ?_
          have hstill : d'.stillneedtoread = d.stillneedtoread :=
            (congrArg Decoder.stillneedtoread (hE.blank hd).symm :)
          have hoff : d'.offset = d.offset := (congrArg Decoder.offset (hE.blank hd).symm :)
          simp only [hstill, hoff]
          split_ifs
          · exact .ok _ hs
          · exact .error _
          · exact hE.receive hd _ (ih _) hs
        · exact hE.reading fun s s' _ _ hs _ _ => hE.readFails _ s s' hs
  exact hn _ rs

end HttpsTunnel.Lib

import HttpsTunnel.Lib.Session

/-! # The reads of a read loop

`readings E n rs s` lists the reads the loop makes: the decoder each of them finds and the bytes it
returns.  What is assumed of the peer is a condition on these (`Heeds`), and what holds before every
read is a fact about them (`LoopInv.readings`).

The application is the receive buffer: `Roomy` is what it asks of the handlers of a program, `Roomy.loop`
says that then every read has room if no header announces too much, and `readings_bounded` that it has
room only then. -/

namespace HttpsTunnel.Lib

variable {σ ε : Type}

/-- A read: the decoder it finds and the bytes it returns. -/
structure Reading where
  dec : Decoder
  chunk : List UInt8

/-- The state in which the loop goes on after a read of `chunk`, if it does: its body is run with an end
in the place of the rest of the loop. -/
def Endpoint.next (E : Endpoint σ ε) (d : Decoder) (chunk : List UInt8) (s : σ) : Option σ :=
  match E.receive d chunk (pure ⟨0, .eof, [], []⟩) s with
  | .ok (r, s') => if r.why = .eof then some s' else none
  | .error _ => none

/-- The reads of the loop (`recvN`), with the same bound on their number. -/
def readings (E : Endpoint σ ε) : ℕ → List ReadRes → σ → List Reading
  | 0, _, s | _, [], s | _ + 1, .fail _ :: _, s => (E.view s).toList.map (⟨·, []⟩)
  | n + 1, .data bs :: rs, s =>
      match E.view s with
      | none => []
      | some d =>
          let chunk := bs.take d.stillneedtoread
          ⟨d, chunk⟩ ::
            if chunk = [] ∨ E.size < d.offset + chunk.length then []
            else ((E.next d chunk s).map (readings E n (unread bs chunk.length rs))).getD []

/-- The reads of a call of the loop. -/
def Endpoint.readings (E : Endpoint σ ε) (rs : List ReadRes) (s : σ) : List Reading :=
  Lib.readings E (readBound rs) rs s

/-! ### Going on -/

section Next

variable {E : Endpoint σ ε} {I : List Upcall → List UInt8 → List ReadRes → σ → Prop} {Q : Ret → σ → Prop}
  {G : LoopFault ε → Prop} {calls : List Upcall} {got chunk : List UInt8} {d : Decoder} {rs : List ReadRes}
  {s s' : σ}

theorem next_of_header (h : (d.recv E.fmt chunk).2 = .header ∨ (d.recv E.fmt chunk).2 = .ignored) :
    E.next d chunk s = some (E.put (d.recv E.fmt chunk).1 (E.onRead chunk.length s)) := by
  rcases h with h | h <;> simp only [Endpoint.next, Endpoint.receive, h] <;> rfl

theorem next_of_short (h : (d.recv E.fmt chunk).2 = .short ∨ (d.recv E.fmt chunk).2 = .reject) :
    E.next d chunk s = none := by
  rcases h with h | h <;> simp only [Endpoint.next, Endpoint.receive, h] <;> rfl

/-- Where the read goes to a handler, the loop goes on if the handler returns nothing. -/
theorem next_of_dispatch (call : Upcall) {x : Prog σ ε (Option ℤ)} {s₁ : σ}
    (h : E.receive d chunk (pure ⟨0, .eof, [], []⟩) s = dispatch call chunk x (pure ⟨0, .eof, [], []⟩) s₁) :
    E.next d chunk s = some s' ↔ x s₁ = .ok (none, s') := by
  simp only [Endpoint.next, h, dispatch, run_bind, mapFault]
  rcases x s₁ with e | ⟨_ | code, s''⟩
  · simp [Except.mapError]
  · show (if (_ : Ret).why = .eof then some s'' else none) = some s' ↔ _
    simp [Ret.after]
  · show (if (_ : Ret).why = .eof then some s'' else none) = some s' ↔ _
    simp

theorem next_of_message (h : (d.recv E.fmt chunk).2 = .message) :
    E.next d chunk s = some s' ↔
      E.onMsg chunk.length (E.put (d.recv E.fmt chunk).1 (E.onRead chunk.length s)) = .ok (none, s') := by
  refine next_of_dispatch (.msg ((d.recv E.fmt chunk).1.buff.slice 0 (d.recv E.fmt chunk).1.h)) ?_
  simp only [Endpoint.receive, h]
  rfl

theorem next_of_forward (h : (d.recv E.fmt chunk).2 = .forward) :
    E.next d chunk s = some s' ↔
      E.onForward chunk.length (E.put (d.recv E.fmt chunk).1 (E.onRead chunk.length s)) = .ok (none, s') := by
  refine next_of_dispatch (.forward ((d.recv E.fmt chunk).1.buff.slice 0 chunk.length)) ?_
  simp only [Endpoint.receive, h]
  rfl

/-- Where the loop goes on, the invariant was shown. -/
theorem Received.of_next (h : Received E I Q G calls got d chunk rs s) (hn : E.next d chunk s = some s') :
    ∃ calls', I calls' (got ++ chunk) rs s' := by
  simp only [Received] at h
  cases ho : (d.recv E.fmt chunk).2 with
  | short => simp [next_of_short (.inl ho)] at hn
  | reject => simp [next_of_short (.inr ho)] at hn
  | header =>
      simp only [ho] at h
      cases (next_of_header (.inl ho)).symm.trans hn
      exact ⟨calls, h⟩
  | ignored =>
      simp only [ho] at h
      cases (next_of_header (.inr ho)).symm.trans hn
      exact ⟨calls, h⟩
  | message =>
      simp only [ho] at h
      exact ⟨_, (wpe_of_ok ((next_of_message ho).mp hn)).mp h⟩
  | forward =>
      simp only [ho] at h
      exact ⟨_, (wpe_of_ok ((next_of_forward ho).mp hn)).mp h⟩

theorem handled_and_next {x : Prog σ ε (Option ℤ)} {F : ε → Prop} {s₁ : σ}
    (hn : ∀ {s'}, E.next d chunk s = some s' ↔ x s₁ = .ok (none, s'))
    (h : wpe x (Handled I Q calls got rs) F s₁) :
    wpe x (Handled (fun calls got rs s' => I calls got rs s' ∧ E.next d chunk s = some s') Q calls got rs) F s₁ := by
  refine wpe_mono (wpe_and_wlp h ((wlp_iff _ _ _).mpr fun r s' hr => hr)) ?_ fun _ => id
  rintro (_ | code) s' ⟨hi, hr⟩
  · exact ⟨hi, hn.mpr hr⟩
  · exact hi

/-- What has to be shown of a read may use that the loop goes on in the state reached. -/
theorem Received.and_next (h : Received E I Q G calls got d chunk rs s) :
    Received E (fun calls got rs s' => I calls got rs s' ∧ E.next d chunk s = some s') Q G calls got d chunk
      rs s := by
  simp only [Received] at h ⊢
  cases ho : (d.recv E.fmt chunk).2 with
  | short | reject => simpa only [ho] using h
  | header =>
      simp only [ho] at h ⊢
      exact ⟨h, next_of_header (.inl ho)⟩
  | ignored =>
      simp only [ho] at h ⊢
      exact ⟨h, next_of_header (.inr ho)⟩
  | message =>
      simp only [ho] at h ⊢
      exact handled_and_next (next_of_message ho) h
  | forward =>
      simp only [ho] at h ⊢
      exact handled_and_next (next_of_forward ho) h

/-- What is shown after a read may be weakened. -/
theorem Received.mono {I' : List Upcall → List UInt8 → List ReadRes → σ → Prop}
    (h : Received E I Q G calls got d chunk rs s) (hI : ∀ calls got s, I calls got rs s → I' calls got rs s) :
    Received E I' Q G calls got d chunk rs s := by
  have hh : ∀ calls got r s, Handled I Q calls got rs r s → Handled I' Q calls got rs r s := by
    rintro calls got (_ | code) s h
    · exact hI _ _ _ h
    · exact h
  simp only [Received] at h ⊢
  cases ho : (d.recv E.fmt chunk).2 with
  | short | reject => simpa only [ho] using h
  | header | ignored =>
      simp only [ho] at h ⊢
      exact hI _ _ _ h
  | message | forward =>
      simp only [ho] at h ⊢
      exact wpe_mono h (hh _ _) fun _ => id

end Next

/-! ### Conditions on the reads -/

section Heeds

variable {E : Endpoint σ ε} {P : Reading → Prop} {bs : List UInt8} {rs : List ReadRes} {s : σ} {d : Decoder}

/-- All reads of the loop meet `P`. -/
def Heeds (E : Endpoint σ ε) (P : Reading → Prop) (rs : List ReadRes) (s : σ) : Prop :=
  ∃ n, readBound rs ≤ n ∧ ∀ r ∈ readings E n rs s, P r

theorem heeds_of_readings (h : ∀ r ∈ E.readings rs s, P r) : Heeds E P rs s := ⟨_, le_rfl, h⟩

theorem readings_data {n : ℕ} (hv : E.view s = some d) (hbs : bs ≠ []) (h0 : d.stillneedtoread ≠ 0)
    (hsize : d.offset + (bs.take d.stillneedtoread).length ≤ E.size) :
    readings E (n + 1) (.data bs :: rs) s = ⟨d, bs.take d.stillneedtoread⟩ ::
      ((E.next d (bs.take d.stillneedtoread) s).map
        (readings E n (unread bs (bs.take d.stillneedtoread).length rs))).getD [] := by
  have hne : bs.take d.stillneedtoread ≠ [] := by simp [hbs, h0]
  simp only [readings, hv]
  rw [if_neg (by simp only [hne, false_or]; omega)]

/-- The condition on a read that goes on, and on the reads behind it. -/
theorem Heeds.read (h : Heeds E P (.data bs :: rs) s) (hv : E.view s = some d) (hbs : bs ≠ [])
    (h0 : d.stillneedtoread ≠ 0) (hsize : d.offset + (bs.take d.stillneedtoread).length ≤ E.size) :
    P ⟨d, bs.take d.stillneedtoread⟩ ∧ ∀ s', E.next d (bs.take d.stillneedtoread) s = some s' →
      Heeds E P (unread bs (bs.take d.stillneedtoread).length rs) s' := by
  obtain ⟨n, hn, hP⟩ := h
  have hb := readBound_unread hbs h0 rs
  cases n with
  | zero => omega
  | succ n =>
      rw [readings_data hv hbs h0 hsize] at hP
      refine ⟨hP _ (by simp), fun s' hs' => ⟨n, by omega, fun r hr => hP r ?_⟩⟩
      rw [hs', Option.map_some, Option.getD_some]
      exact List.mem_cons_of_mem _ hr

variable {I : List Upcall → List UInt8 → List ReadRes → σ → Prop} {Q : Ret → σ → Prop} {G : LoopFault ε → Prop}
  {calls : List Upcall} {got : List UInt8}

/-- The condition goes with the invariant. -/
theorem Received.heeds {chunk : List UInt8} (h : Received E I Q G calls got d chunk rs s)
    (hn : ∀ s', E.next d chunk s = some s' → Heeds E P rs s') :
    Received E (fun calls got rs s => I calls got rs s ∧ Heeds E P rs s) Q G calls got d chunk rs s :=
  h.and_next.mono fun _ _ s' hs' => ⟨hs'.1, hn s' hs'.2⟩

/-- **The reads.**  An invariant of the loop holds before every read. -/
theorem LoopInv.readings (h : LoopInv E I Q G) (n : ℕ) (calls : List Upcall) (got : List UInt8)
    (hI : I calls got rs s) :
    ∀ r ∈ readings E n rs s, ∃ calls got rs s', I calls got rs s' ∧ E.view s' = some r.dec := by
  have hview : ∀ {rs s calls got}, I calls got rs s →
      ∀ r ∈ (E.view s).toList.map (Reading.mk · []), ∃ calls got rs s', I calls got rs s' ∧
        E.view s' = some r.dec := by
    intro rs s calls got hI r hr
    obtain ⟨d, hd, rfl⟩ := List.mem_map.mp hr
    exact ⟨calls, got, rs, s, hI, by simpa using hd⟩
  induction n generalizing rs calls got s with
  | zero =>
      simp only [Lib.readings]
      exact hview hI
  | succ n ih =>
      rcases rs with _ | ⟨bs | e, rs⟩
      · exact hview hI
      · intro r hr
        cases hv : E.view s with
        | none => simp [Lib.readings, hv] at hr
        | some d =>
            by_cases hend : bs.take d.stillneedtoread = [] ∨
                E.size < d.offset + (bs.take d.stillneedtoread).length
            · simp only [Lib.readings, hv, if_pos hend, List.mem_singleton] at hr
              exact ⟨calls, got, _, s, hI, hr ▸ hv⟩
            · obtain ⟨hne, hsize⟩ := not_or.mp hend
              have hbs : bs ≠ [] := fun h => hne (by simp [h])
              have h0 : d.stillneedtoread ≠ 0 := fun h => hne (by simp [h])
              rw [readings_data hv hbs h0 (by omega), List.mem_cons] at hr
              rcases hr with rfl | hr
              · exact ⟨calls, got, _, s, hI, hv⟩
              · cases hnext : E.next d (bs.take d.stillneedtoread) s with
                | none => simp [hnext] at hr
                | some s' =>
                    obtain ⟨calls', hI'⟩ := (h.read hI hv hbs h0 (by omega)).of_next hnext
                    refine ih _ _ hI' r ?_
                    simpa [hnext] using hr
      · exact hview hI

end Heeds

/-! ### Room in the buffer -/

/-- The bytes still needed fit behind those read. -/
def Decoder.Room (size : ℕ) (d : Decoder) : Prop := d.offset + d.stillneedtoread ≤ size

instance (size : ℕ) (d : Decoder) : Decidable (d.Room size) := inferInstanceAs (Decidable (_ ≤ _))

/-- What can be read fits, and in forward mode it is as much as the buffer holds. -/
def Decoder.Free (size : ℕ) (d : Decoder) : Prop := d.Room size ∧ (d.cstate = .forward → d.stillneedtoread = size)

namespace Reading

/-- The length of the body announced by the header that a read completes. -/
def announces (F : Format) (r : Reading) : Option ℕ :=
  let hdr := (r.dec.buff.store r.dec.offset r.chunk).slice 0 F.hdrLen
  if r.dec.cstate = .header ∧ r.chunk ≠ [] ∧ r.dec.stillneedtoread ≤ r.chunk.length ∧ F.valid hdr then
    some (F.bodyLen hdr)
  else none

/-- No body longer than `size` is announced. -/
def Bounded (F : Format) (size : ℕ) (r : Reading) : Prop := ∀ n ∈ r.announces F, n ≤ size

instance (F : Format) (size : ℕ) (r : Reading) : Decidable (r.Bounded F size) :=
  inferInstanceAs (Decidable (∀ n ∈ r.announces F, n ≤ size))

end Reading

section Room

variable {F : Format} {d : Decoder} {chunk : List UInt8} {size n : ℕ}

theorem Reading.recv_of_announces (h : (⟨d, chunk⟩ : Reading).announces F = some n) :
    (d.recv F chunk).2 = .header ∧ (d.recv F chunk).1.offset = 0 ∧ (d.recv F chunk).1.stillneedtoread = n := by
  simp only [announces, Option.ite_none_right_eq_some, Option.some.injEq] at h
  obtain ⟨⟨hm, -, hl, hv⟩, rfl⟩ := h
  have hfull : ¬ (d.cstate ≠ .forward ∧ chunk.length < d.stillneedtoread) := fun h => absurd h.2 (not_lt.mpr hl)
  simp only [Decoder.recv, if_neg hfull]
  simp only [hm, hv, if_true, and_self]

theorem Decoder.Free.whole (ho : d.offset = 0) (hs : d.stillneedtoread = size) : d.Free size :=
  ⟨by rw [Room, ho, hs, Nat.zero_add], fun _ => hs⟩

theorem Decoder.AtStart.free (h : d.AtStart F) (hsize : F.hdrLen ≤ size) : d.Free size :=
  ⟨by rwa [Room, h.2.1, h.2.2, Nat.zero_add], fun hm => absurd hm (by simp [h.1])⟩

/-- Forward mode starts with a free buffer. -/
theorem Decoder.Free.ready {E : Endpoint σ ε} (h : d.Free E.size) : E.Ready d := by
  intro hm
  have hs := h.2 hm
  have hroom : d.offset + d.stillneedtoread ≤ E.size := h.1
  exact ⟨by omega, hs⟩

theorem Endpoint.Keeps.free {E : Endpoint σ ε} {d' : Decoder} (h : E.Keeps d d') (hd : d.AtStart E.fmt)
    (hsize : E.fmt.hdrLen ≤ E.size) : d'.Free E.size := by
  by_cases hm : d'.cstate = .forward
  · exact .whole (h.ready hd hm).1 (h.ready hd hm).2
  · exact (h.atStart hd hm).free hsize

/-- A read keeps the room, if the header it may complete announces a body that fits. -/
theorem Decoder.Room.recv (h : d.Room size) (hne : chunk ≠ []) (hsize : F.hdrLen ≤ size)
    (hb : (⟨d, chunk⟩ : Reading).Bounded F size) : (d.recv F chunk).1.Room size := by
  have hann : ∀ n, (⟨d, chunk⟩ : Reading).announces F = some n → n ≤ size := hb
  simp only [Decoder.Room] at h ⊢
  by_cases hs : d.cstate ≠ .forward ∧ chunk.length < d.stillneedtoread
  · simp only [Decoder.recv, if_pos hs]
    omega
  · simp only [Decoder.recv, if_neg hs]
    cases hm : d.cstate with
    | header =>
        have hfull : d.stillneedtoread ≤ chunk.length := by
          simpa [hm] using hs
        by_cases hv : F.valid ((d.buff.store d.offset chunk).slice 0 F.hdrLen)
        · have hn := hann (F.bodyLen ((d.buff.store d.offset chunk).slice 0 F.hdrLen)) (if_pos ⟨hm, hne, hfull, hv⟩)
          simp only [hv, if_true]
          omega
        · simp only [hv]
          exact h
    | body =>
        simp only
        omega
    | forward | wait => exact h

theorem Decoder.Free.recv (h : d.Free size) (hne : chunk ≠ []) (hsize : F.hdrLen ≤ size)
    (hb : (⟨d, chunk⟩ : Reading).Bounded F size) : (d.recv F chunk).1.Free size := by
  refine ⟨h.1.recv hne hsize hb, fun hm => ?_⟩
  have hmode := (recv_cstate_forward ..).mp hm
  simpa [Decoder.recv, hmode] using h.2 hmode

end Room

theorem Decoder.recv_message_atStart {F : Format} {d : Decoder} {chunk : List UInt8}
    (h : (d.recv F chunk).2 = .message) : (d.recv F chunk).1.AtStart F := by
  grind [recv, AtStart]

/-- What a free buffer asks of an endpoint whose reads meet `P`: `J` holds before each read, `K` where the loop
ends. -/
structure Roomy (E : Endpoint σ ε) (P : Reading → Prop) (J K : σ → Prop) : Prop where
  fits : E.fmt.hdrLen ≤ E.size
  room : ∀ {s d}, J s → E.view s = some d → d.Free E.size
  put : ∀ {s d₀ d}, J s → E.view s = some d₀ → d.Free E.size → (d.cstate = .forward ↔ d₀.cstate = .forward) →
    ∀ n, J (E.put d (E.onRead n s)) ∧ E.view (E.put d (E.onRead n s)) = some d
  ends : ∀ {s}, J s → K s
  errno : ∀ {s}, J s → ∀ e, K (E.errno e s)
  onMsg : ∀ {s d chunk}, J s → (d.recv E.fmt chunk).2 = .message → E.view s = some (d.recv E.fmt chunk).1 →
    P ⟨d, chunk⟩ → wlp (E.onMsg chunk.length) (fun r s' => (r = none → J s') ∧ K s') s
  onForward : ∀ {s d}, J s → E.view s = some d → d.cstate = .forward → ∀ n,
    wlp (E.onForward n) (fun r s' => (r = none → J s') ∧ K s') s

namespace Roomy

variable {E : Endpoint σ ε} {P : Reading → Prop} {J K : σ → Prop} {rs : List ReadRes} {s : σ}

theorem received (h : Roomy E P J K) {calls : List Upcall} {got chunk : List UInt8} {d : Decoder} (hJ : J s)
    (hv : E.view s = some d) (hne : chunk ≠ []) (hb : (⟨d, chunk⟩ : Reading).Bounded E.fmt E.size)
    (hP : P ⟨d, chunk⟩) :
    Received E (fun _ _ _ s => J s) (fun _ s => K s) (fun _ => True) calls got d chunk rs s := by
  have hput := h.put hJ hv ((h.room hJ hv).recv hne h.fits hb) (Decoder.recv_cstate_forward ..) chunk.length
  have hhandled : ∀ calls got (r : Option ℤ) s', (r = none → J s') ∧ K s' →
      Handled (fun _ _ _ s => J s) (fun _ s => K s) calls got rs r s' := by
    rintro calls got (_ | code) s' ⟨hj, hk⟩
    · exact hj rfl
    · exact hk
  simp only [Received]
  cases ho : (d.recv E.fmt chunk).2 with
  | short | reject => exact h.ends hput.1
  | header | ignored => exact hput.1
  | message => exact wpe_mono (h.onMsg hput.1 ho hput.2 hP) (hhandled _ _) fun _ _ => trivial
  | forward =>
      exact wpe_mono (h.onForward hput.1 hput.2 (Decoder.recv_forward_mode _ _ _ ho) chunk.length)
        (hhandled _ _) fun _ _ => trivial

theorem loopInv (h : Roomy E P J K) :
    LoopInv E (fun _ _ rs s => J s ∧ Heeds E (fun r => r.Bounded E.fmt E.size ∧ P r) rs s) (fun _ s => K s)
      (fun _ => True) where
  freed _ _ := trivial
  fails hI _ _ e := h.errno hI.1 e
  empty hI _ _ := h.ends hI.1
  eof hI _ := h.ends hI.1
  overflow _ _ _ := trivial
  read hI hv hbs h0 hsize := by
    obtain ⟨⟨hb, hP⟩, hrest⟩ := hI.2.read hv hbs h0 hsize
    exact (h.received hI.1 hv (by simp [hbs, h0]) hb hP).heeds hrest

/-- **Room.**  If no header announces more than the buffer holds, `K` holds where the loop ends, and every
read has room. -/
theorem loop (h : Roomy E P J K) (hJ : J s) (hb : ∀ r ∈ E.readings rs s, r.Bounded E.fmt E.size)
    (hP : ∀ r ∈ E.readings rs s, P r) :
    wlp (recvLoop E rs) (fun _ s' => K s') s ∧ ∀ r ∈ E.readings rs s, r.dec.Room E.size := by
  have hI := And.intro hJ (heeds_of_readings fun r hr => And.intro (hb r hr) (hP r hr))
  refine ⟨recvLoop_rule h.loopInv hI, fun r hr => ?_⟩
  obtain ⟨_, _, _, s', hI', hv⟩ := h.loopInv.readings _ [] [] hI r hr
  exact (h.room hI'.1 hv).1

end Roomy

/-! ### The bound is exact -/

theorem exists_mem_readings {E : Endpoint σ ε} {s : σ} {d : Decoder} (hv : E.view s = some d) (n : ℕ)
    (rs : List ReadRes) : ∃ r ∈ readings E n rs s, r.dec = d := by
  rcases n with _ | n
  · exact ⟨⟨d, []⟩, by simp [readings, hv], rfl⟩
  · rcases rs with _ | ⟨bs | e, rs⟩
    · exact ⟨⟨d, []⟩, by simp [readings, hv], rfl⟩
    · exact ⟨⟨d, bs.take d.stillneedtoread⟩, by simp [readings, hv], rfl⟩
    · exact ⟨⟨d, []⟩, by simp [readings, hv], rfl⟩

/-- The read behind a header asks for the length announced. -/
theorem readings_bounded {E : Endpoint σ ε}
    (hput : ∀ {s d₀}, E.view s = some d₀ → ∀ d n, E.view (E.put d (E.onRead n s)) = some d) (n : ℕ)
    {rs : List ReadRes} {s : σ} (h : ∀ r ∈ readings E n rs s, r.dec.Room E.size) :
    ∀ r ∈ readings E n rs s, r.Bounded E.fmt E.size := by
  have hnone : ∀ d : Decoder, (⟨d, []⟩ : Reading).Bounded E.fmt E.size := by
    intro d m hm
    simp [Reading.announces] at hm
  induction n generalizing rs s with
  | zero =>
      intro r hr
      obtain ⟨d, -, rfl⟩ := List.mem_map.mp hr
      exact hnone d
  | succ n ih =>
      intro r hr
      rcases rs with _ | ⟨bs | e, rs⟩
      · obtain ⟨d, -, rfl⟩ := List.mem_map.mp hr
        exact hnone d
      · cases hv : E.view s with
        | none => simp [readings, hv] at hr
        | some d =>
            by_cases hempty : bs.take d.stillneedtoread = []
            · simp only [readings, hv, hempty, true_or, if_true, List.mem_singleton] at hr
              exact hr ▸ hnone d
            · have hbs : bs ≠ [] := fun h => hempty (by simp [h])
              have h0 : d.stillneedtoread ≠ 0 := fun h => hempty (by simp [h])
              have hroom : d.Room E.size := h ⟨d, bs.take d.stillneedtoread⟩ (by simp [readings, hv])
              have hsize : d.offset + (bs.take d.stillneedtoread).length ≤ E.size := by
                rw [List.length_take]
                unfold Decoder.Room at hroom
                omega
              rw [readings_data hv hbs h0 hsize] at hr h
              rcases List.mem_cons.mp hr with rfl | hr
              · intro m hm
                obtain ⟨ho, hoff, hstill⟩ := Reading.recv_of_announces hm
                have hnext := next_of_header (s := s) (.inl ho)
                obtain ⟨r, hr, hd⟩ := exists_mem_readings (hput hv (d.recv E.fmt (bs.take d.stillneedtoread)).1
                  (bs.take d.stillneedtoread).length) n (unread bs (bs.take d.stillneedtoread).length rs)
                have hroom' := h r (List.mem_cons_of_mem _ (by rw [hnext, Option.map_some, Option.getD_some]; exact hr))
                rw [hd] at hroom'
                unfold Decoder.Room at hroom'
                omega
              · cases hnext : E.next d (bs.take d.stillneedtoread) s with
                | none => simp [hnext] at hr
                | some s' =>
                    rw [hnext, Option.map_some, Option.getD_some] at hr h
                    exact ih (fun r hr => h r (List.mem_cons_of_mem _ hr)) r hr
      · obtain ⟨d, -, rfl⟩ := List.mem_map.mp hr
        exact hnone d

/-- Every read has room exactly if no header announces more than the buffer holds. -/
theorem Roomy.room_iff {E : Endpoint σ ε} {P : Reading → Prop} {J K : σ → Prop} {rs : List ReadRes} {s : σ}
    (h : Roomy E P J K) (hput : ∀ {s d₀}, E.view s = some d₀ → ∀ d n, E.view (E.put d (E.onRead n s)) = some d)
    (hJ : J s) (hP : ∀ r ∈ E.readings rs s, P r) :
    (∀ r ∈ E.readings rs s, r.dec.Room E.size) ↔ ∀ r ∈ E.readings rs s, r.Bounded E.fmt E.size :=
  ⟨readings_bounded hput _, fun hb => (h.loop hJ hb hP).2⟩

end HttpsTunnel.Lib

import HttpsTunnel.Wire.Message

/-! # How the recorder reads its connections

`NetRead` reads a header with one `read` and the body it announces with another, and takes each
for complete: what a `read` returns less than asked for is not waited for.  The other programs
collect a header or a body over several reads.

`netRead` is this loop on the bytes of a stream, `f i` being the most that the `i`-th `read`
returns.  It dispatches the messages that were sent exactly if no read falls short
(`netRead_exact`). -/

namespace HttpsTunnel.Recorder

open HttpsTunnel.Lib HttpsTunnel.Wire

/-- A connection: the bytes to come and the number of reads made. -/
structure Conn where
  rest : List UInt8
  reads : ℕ := 0

/-- `read(fd, buf, n)`. -/
def Conn.read (c : Conn) (f : ℕ → ℕ) (n : ℕ) : List UInt8 × Conn :=
  let k := min (f c.reads) n
  (c.rest.take k, ⟨c.rest.drop k, c.reads + 1⟩)

/-- The header of a new `msg_t` after `bs` was read into it. -/
def overlay (bs : List UInt8) : List UInt8 := bs ++ (hdr 0).drop bs.length

/-- One round of `NetRead`: the body it dispatches, unless it closes the connection. -/
def Conn.round (c : Conn) (f : ℕ → ℕ) : Option (List UInt8 × Conn) :=
  let (h, c) := c.read f hdrSize
  if h.isEmpty then none
  else
    -- the delimiters of the header are not looked at
    let (b, c) := c.read f (hdrFormat.bodyLen (overlay h))
    if b.isEmpty then none else some (b, c)

/-- `NetRead`: the bodies it dispatches, in at most `fuel` rounds. -/
def netRead (f : ℕ → ℕ) : ℕ → Conn → List (List UInt8)
  | 0, _ => []
  | fuel + 1, c =>
      match c.round f with
      | none => []
      | some (b, c) => b :: netRead f fuel c

/-- From the `r`-th read on, the reads return whole headers and whole bodies. -/
def Full (f : ℕ → ℕ) : ℕ → List (List UInt8) → Prop
  | _, [] => True
  | r, m :: ms => (hdrSize ≤ f r ∧ m.length ≤ f (r + 1)) ∧ Full f (r + 2) ms

instance (f : ℕ → ℕ) : ∀ r ms, Decidable (Full f r ms)
  | _, [] => .isTrue trivial
  | r, _ :: ms =>
      have := instDecidableFull f (r + 2) ms
      inferInstanceAs (Decidable (_ ∧ _))

section Round

variable {f : ℕ → ℕ} {m rest : List UInt8} {r fuel : ℕ}

theorem round_nil : Conn.round ⟨[], r⟩ f = none := by simp [Conn.round, Conn.read]

theorem round_whole (hm : m.length < 65536) (hm' : m ≠ []) (hf : hdrSize ≤ f r)
    (hf' : m.length ≤ f (r + 1)) :
    Conn.round ⟨frame m ++ rest, r⟩ f = some (m, ⟨rest, r + 2⟩) := by
  have hk : min (f r) hdrSize = (hdr m.length).length := by
    rw [hdr_length]
    omega
  have hne : ¬ (hdr m.length).isEmpty = true := by simp [hdr]
  have hme : ¬ m.isEmpty = true := by simpa using hm'
  have hov : overlay (hdr m.length) = hdr m.length := by simp [overlay, hdr]
  simp only [Conn.round, Conn.read, frame, List.append_assoc, hk, List.take_left', List.drop_left',
    if_neg hne, hov, hdrFormat_bodyLen_hdr hm, Nat.min_eq_right hf', if_neg hme]

/-- What a round that dispatches `m` has read. -/
theorem eq_of_round_eq_some {c c' : Conn} (h : c.round f = some (m, c')) :
    m = (c.rest.drop (min (f c.reads) hdrSize)).take (min (f (c.reads + 1))
      (hdrFormat.bodyLen (overlay (c.rest.take (min (f c.reads) hdrSize))))) := by
  simp only [Conn.round] at h
  split at h
  · cases h
  · split at h
    · cases h
    · exact (Prod.mk.inj (Option.some.inj h)).1.symm

theorem eq_of_eq_take {α : Type} {x y a b : α} {t l : List α} {n : ℕ}
    (h : x :: y :: t = (a :: b :: l).take n) : x = a ∧ y = b := by
  match n with
  | 0 | 1 => simp at h
  | n + 2 =>
      simp only [List.take_succ_cons, List.cons.injEq] at h
      exact ⟨h.1, h.2.1⟩

/-- A header cut short is not followed by the body of the message, unless the message starts with two
zero bytes. -/
theorem hdrSize_le_of_round {c : Conn} (hm : m.length < 65536) (hm' : 2 ≤ m.length)
    (hid : m.take 2 ≠ [0, 0]) (h : Conn.round ⟨frame m ++ rest, r⟩ f = some (m, c)) :
    hdrSize ≤ f r := by
  by_contra hf
  have he := eq_of_round_eq_some h
  obtain ⟨x, y, t, rfl⟩ : ∃ x y t, m = x :: y :: t := by
    match m, hm' with
    | x :: y :: t, _ => exact ⟨x, y, t, rfl⟩
  have hk : min (f r) hdrSize = f r := by omega
  simp only [hk, frame, hdr] at he
  rw [hdrSize] at hf
  generalize f (r + 1) = j at he
  have hz : x = 0 ∧ y = 0 := by
    interval_cases f r
    -- without the length the body is taken to be empty
    · simp [overlay, hdr, hdrFormat, ofBE16] at he
    · simp [overlay, hdr, hdrFormat, ofBE16] at he
    · simp [overlay, hdr, hdrFormat, ofBE16] at he
    -- with its high byte only, the low byte comes first in the body and has to be 0
    · obtain ⟨hx, hy⟩ := eq_of_eq_take he
      refine ⟨hx.trans (UInt8.toNat_inj.mp ?_), hy⟩
      have hl : (x :: y :: t).length ≤
          256 * (UInt8.ofNat ((x :: y :: t).length / 256)).toNat + (0 : UInt8).toNat := by
        have hle := congrArg List.length he
        rw [List.length_take] at hle
        exact hle.le.trans ((Nat.min_le_left _ _).trans (Nat.min_le_right _ _))
      rw [UInt8.toNat_ofNat'] at hl ⊢
      simp only [UInt8.toNat_zero] at hl ⊢
      omega
    · exact eq_of_eq_take he
    · obtain ⟨hx, hy⟩ := eq_of_eq_take he
      exact ⟨hx, hy.trans hx⟩
  exact hid (by simp [hz.1, hz.2])

theorem length_le_of_round {c c' : Conn} (h : c.round f = some (m, c')) :
    m.length ≤ f (c.reads + 1) := by
  have hl := congrArg List.length (eq_of_round_eq_some h)
  rw [List.length_take] at hl
  exact hl.le.trans ((Nat.min_le_left _ _).trans (Nat.min_le_left _ _))

end Round

/-- **The recorder reads its messages** if no read falls short.  And if it reads them then none has, as
long as no message starts with two zero bytes, that is with the identifier 0. -/
theorem netRead_exact (f : ℕ → ℕ) (msgs : List (List UInt8)) (fuel : ℕ)
    (hlen : ∀ m ∈ msgs, 2 ≤ m.length ∧ m.length ≤ 1024) (hfuel : msgs.length < fuel) :
    (Full f 0 msgs → netRead f fuel ⟨msgs.flatMap frame, 0⟩ = msgs) ∧
      ((∀ m ∈ msgs, m.take 2 ≠ [0, 0]) → netRead f fuel ⟨msgs.flatMap frame, 0⟩ = msgs →
        Full f 0 msgs) := by
  generalize 0 = r
  induction msgs generalizing fuel r with
  | nil =>
      obtain ⟨n, rfl⟩ := Nat.exists_eq_add_of_lt hfuel
      exact ⟨fun _ => by simp [netRead, round_nil], fun _ _ => trivial⟩
  | cons m ms ih =>
      obtain ⟨n, rfl⟩ : ∃ n, fuel = n + 1 := ⟨fuel - 1, by omega⟩
      obtain ⟨⟨hm, hm'⟩, hms⟩ := List.forall_mem_cons.mp hlen
      obtain ⟨ih₁, ih₂⟩ := ih n hms (by simpa using hfuel) (r + 2)
      have hne : m ≠ [] := by
        rintro rfl
        simp at hm
      rw [List.flatMap_cons]
      refine ⟨?_, ?_⟩
      · rintro ⟨⟨hf, hf'⟩, hfull⟩
        rw [netRead, round_whole (by omega) hne hf hf']
        simp only [ih₁ hfull]
      · intro hid h
        obtain ⟨hidm, hids⟩ := List.forall_mem_cons.mp hid
        cases hr : Conn.round ⟨frame m ++ ms.flatMap frame, r⟩ f with
        | none => simp [netRead, hr] at h
        | some p =>
            obtain ⟨b, c⟩ := p
            simp only [netRead, hr, List.cons.injEq] at h
            obtain ⟨rfl, h⟩ := h
            have hf := hdrSize_le_of_round (by omega) hm hidm hr
            have hf' := length_le_of_round hr
            rw [round_whole (by omega) hne hf hf'] at hr
            obtain ⟨-, rfl⟩ := Prod.mk.inj (Option.some.inj hr)
            exact ⟨⟨hf, hf'⟩, ih₂ hids h⟩

/-- Two messages on a connection. -/
def twoMessages : List (List UInt8) := [[7, 0, 5], [9, 0]]

/-- The first `read` returns four of the six bytes of a header. -/
def shortHeader : ℕ → ℕ := fun i => if i = 0 then 4 else 1024

/-- Every `read` returns something.  The channel id of the first header is taken for the start of the
body, and the next header is made of the rest of it. -/
theorem netRead_shortHeader :
    (∀ i, 0 < shortHeader i) ∧
      netRead shortHeader 3 ⟨twoMessages.flatMap frame, 0⟩ = [[0, 0, 7], [0, 0, 9, 0]] := by
  refine ⟨fun i => ?_, by decide +kernel⟩
  rw [shortHeader]
  split_ifs <;> decide

theorem netRead_exact_wholeReads :
    netRead (fun _ => 1024) 3 ⟨twoMessages.flatMap frame, 0⟩ = twoMessages :=
  (netRead_exact (fun _ => 1024) twoMessages 3 (by decide) (by decide)).1 (by decide)

end HttpsTunnel.Recorder

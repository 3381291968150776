import HttpsTunnel.Lib.Framing

/-! # What a read loop decodes

The invariant rule of the read loop (`recvN_rule`), and with it the two facts about decoding:

* `Session.tracks`: over any number of calls of the loop, the calls made are the bodies of the
  frames read so far, in order, and in forward mode what follows are exactly the bytes read
  after the message that switched the mode;
* `recvLoop_safe`: as long as the bytes are those of non-empty frames that fit the buffer, the
  loop neither refuses a header, nor takes a frame for the end of the stream, nor leaves its
  buffer.

`Lawful` is what both ask of an endpoint: its handlers leave the decoder of the connection
alone, but for the switch to forward mode. -/

namespace HttpsTunnel.Lib

variable {σ ε : Type}

/-! ### The invariant rule -/

@[simp] theorem Ret.after_nil (r : Ret) : r.after [] [] = r := rfl

theorem Ret.after_after (r : Ret) (c c' : List Upcall) (g g' : List UInt8) :
    (r.after c' g').after c g = r.after (c ++ c') (g ++ g') := by
  simp [Ret.after, List.append_assoc]

section Rule

variable (E : Endpoint σ ε) (I : List Upcall → List UInt8 → List ReadRes → σ → Prop)
  (Q : Ret → σ → Prop) (G : LoopFault ε → Prop)

/-- What has to be shown after a handler has run. -/
def Handled (calls : List Upcall) (got : List UInt8) (rs : List ReadRes) (r : Option ℤ) (s : σ) :
    Prop :=
  match r with
  | some code => Q ⟨code, .handler, calls, got⟩ s
  | none => I calls got rs s

/-- What has to be shown of a read of `chunk`, with `rs` still to come. -/
def Received (calls : List Upcall) (got : List UInt8) (d : Decoder) (chunk : List UInt8)
    (rs : List ReadRes) (s : σ) : Prop :=
  let d' := (d.recv E.fmt chunk).1
  let s₁ := E.put d' (E.onRead chunk.length s)
  match (d.recv E.fmt chunk).2 with
  | .short => Q ⟨-2, .short, calls, got ++ chunk⟩ s₁
  | .reject => Q ⟨-1, .reject, calls, got ++ chunk⟩ s₁
  | .header | .ignored => I calls (got ++ chunk) rs s₁
  | .message =>
      wpe (E.onMsg chunk.length)
        (Handled I Q (calls ++ [.msg (d'.buff.slice 0 d'.h)]) (got ++ chunk) rs)
        (fun e => G (.handler e)) s₁
  | .forward =>
      wpe (E.onForward chunk.length)
        (Handled I Q (calls ++ [.forward (d'.buff.slice 0 chunk.length)]) (got ++ chunk) rs)
        (fun e => G (.handler e)) s₁

/-- An invariant of the loop: `I calls got rs s` holds before each read, with the calls made, the
bytes read and the segments to come. -/
structure LoopInv : Prop where
  freed : ∀ {calls got rs s}, I calls got rs s → E.view s = none → G .freed
  fails : ∀ {calls got rs s d}, I calls got rs s → E.view s = some d → d.stillneedtoread ≠ 0 →
    ∀ e, Q ⟨-1, .fail e, calls, got⟩ (E.errno e s)
  empty : ∀ {calls got rs s d}, I calls got rs s → E.view s = some d → d.stillneedtoread = 0 →
    Q ⟨0, .eof, calls, got⟩ s
  eof : ∀ {calls got rs s d}, I calls got (.data [] :: rs) s → E.view s = some d →
    Q ⟨0, .eof, calls, got⟩ s
  overflow : ∀ {calls got bs rs s d}, I calls got (.data bs :: rs) s → E.view s = some d →
    E.size < d.offset + (bs.take d.stillneedtoread).length → G .overflow
  read : ∀ {calls got bs rs s d}, I calls got (.data bs :: rs) s → E.view s = some d →
    bs ≠ [] → d.stillneedtoread ≠ 0 → d.offset + (bs.take d.stillneedtoread).length ≤ E.size →
    Received E I Q G calls got d (bs.take d.stillneedtoread)
      (unread bs (bs.take d.stillneedtoread).length rs) s

end Rule

section Rule

variable {E : Endpoint σ ε} {I : List Upcall → List UInt8 → List ReadRes → σ → Prop}
  {Q : Ret → σ → Prop} {G : LoopFault ε → Prop}

theorem dispatch_rule {calls : List Upcall} {got chunk : List UInt8} {rs : List ReadRes}
    {call : Upcall} {x : Prog σ ε (Option ℤ)} {k : Prog σ (LoopFault ε) Ret} {s : σ}
    (hx : wpe x (Handled I Q (calls ++ [call]) (got ++ chunk) rs) (fun e => G (.handler e)) s)
    (hk : ∀ s', I (calls ++ [call]) (got ++ chunk) rs s' →
      wpe k (fun r s'' => Q (r.after (calls ++ [call]) (got ++ chunk)) s'') G s') :
    wpe (dispatch call chunk x k) (fun r s' => Q (r.after calls got) s') G s := by
  simp only [dispatch, wpe_bind, wpe_mapFault]
  refine wpe_mono hx ?_ fun _ => id
  intro r s' hr
  cases r with
  | some code => simpa [Ret.after, Handled] using hr
  | none =>
      simp only [wpe_bind, wpe_pure, Ret.after_after]
      exact hk s' hr

theorem receive_rule {calls : List Upcall} {got chunk : List UInt8} {rs : List ReadRes}
    {d : Decoder} {k : Prog σ (LoopFault ε) Ret} {s : σ}
    (h : Received E I Q G calls got d chunk rs s)
    (hk : ∀ calls s', I calls (got ++ chunk) rs s' →
      wpe k (fun r s'' => Q (r.after calls (got ++ chunk)) s'') G s') :
    wpe (E.receive d chunk k) (fun r s' => Q (r.after calls got) s') G s := by
  simp only [Received] at h
  simp only [Endpoint.receive, wpe_bind, wpe_modify]
  cases ho : (d.recv E.fmt chunk).2 with
  | short | reject => simpa [ho, Ret.after] using h
  | header | ignored =>
      simp only [ho] at h
      simp only [wpe_bind, wpe_pure, Ret.after_after, List.append_nil]
      exact hk calls _ h
  | message =>
      simp only [ho] at h
      exact dispatch_rule h (hk _)
  | forward =>
      simp only [ho] at h
      exact dispatch_rule h (hk _)

theorem reading_rule {calls : List Upcall} {got : List UInt8} {rs : List ReadRes} {s : σ}
    {k : Decoder → Prog σ (LoopFault ε) Ret} (h : LoopInv E I Q G) (hI : I calls got rs s)
    (hk : ∀ d, E.view s = some d → d.stillneedtoread ≠ 0 →
      wpe (k d) (fun r s' => Q (r.after calls got) s') G s) :
    wpe (E.reading k) (fun r s' => Q (r.after calls got) s') G s := by
  simp only [Endpoint.reading, wpe_bind, wpe_get]
  cases hv : E.view s with
  | none => exact h.freed hI hv
  | some d =>
      rw [wpe_ite]
      refine ⟨fun h0 => ?_, hk d hv⟩
      simpa [Ret.after] using h.empty hI hv h0

theorem readFails_rule {calls : List Upcall} {got : List UInt8} {rs : List ReadRes} {s : σ}
    (h : LoopInv E I Q G) (hI : I calls got rs s) (e : ℕ) :
    wpe (E.reading fun _ => E.readFails e) (fun r s' => Q (r.after calls got) s') G s := by
  refine reading_rule h hI fun d hv h0 => ?_
  simp only [Endpoint.readFails, wpe_bind, wpe_modify, wpe_pure, Ret.after, List.append_nil]
  exact h.fails hI hv h0 e

/-- **Invariant rule.**  An invariant of the loop that holds before a call gives `Q` when the call
returns and `G` when it stops with a fault. -/
theorem recvN_rule (h : LoopInv E I Q G) (n : ℕ) {rs : List ReadRes} {calls : List Upcall}
    {got : List UInt8} {s : σ} (hI : I calls got rs s) :
    wpe (recvN E n rs) (fun r s' => Q (r.after calls got) s') G s := by
  induction n generalizing rs calls got s with
  | zero => exact readFails_rule h hI EAGAIN
  | succ n ih =>
      match rs with
      | [] => exact readFails_rule h hI EAGAIN
      | .fail e :: rs => exact readFails_rule h hI e
      | .data bs :: rs =>
          refine reading_rule h hI fun d hv h0 => ?_
          simp only [wpe_ite]
          refine ⟨fun hbs => ?_, fun hbs => ⟨fun ho => ?_, fun ho => ?_⟩⟩
          · subst hbs
            simpa [Ret.after] using h.eof hI hv
          · exact h.overflow hI hv ho
          · exact receive_rule (h.read hI hv hbs h0 (by omega)) fun _ _ hI' => ih hI'

theorem recvLoop_rule (h : LoopInv E I Q G) {rs : List ReadRes} {s : σ} (hI : I [] [] rs s) :
    wpe (recvLoop E rs) Q G s := by
  have hn := recvN_rule h (readBound rs) hI
  simp only [Ret.after_nil] at hn
  exact hn

/-- A relation that the handlers follow and that does not see the decoder is followed by the loop. -/
theorem Does.recvLoop {R : σ → σ → Prop} [Std.Refl R] [IsTrans σ R] (hput : ∀ d s, R s (E.put d s))
    (herrno : ∀ e s, R s (E.errno e s)) (hread : ∀ n s, R s (E.onRead n s)) (hmsg : ∀ n, Does R (E.onMsg n))
    (hfwd : ∀ n, Does R (E.onForward n)) (rs : List ReadRes) : Does R (recvLoop E rs) := by
  intro s
  have hinv : LoopInv E (fun _ _ _ s' => R s s') (fun _ s' => R s s') (fun _ => True) := by
    refine ⟨fun _ _ => trivial, fun h _ _ e => trans_of R h (herrno e _), fun h _ _ => h, fun h _ => h,
      fun _ _ _ => trivial, ?_⟩
    intro calls got bs rs s₁ d h _ _ _ _
    generalize bs.take d.stillneedtoread = chunk
    have h₁ : R s (E.put (d.recv E.fmt chunk).1 (E.onRead chunk.length s₁)) :=
      trans_of R h (trans_of R (hread _ _) (hput _ _))
    have hhandled : ∀ {calls got rs} (r : Option ℤ) (s₂ : σ), R s s₂ →
        Handled (fun _ _ _ s' => R s s') (fun _ s' => R s s') calls got rs r s₂ := fun r _ h₂ => by
      cases r <;> exact h₂
    simp only [Received]
    cases (d.recv E.fmt chunk).2 with
    | short | reject | header | ignored => exact h₁
    | message => exact wlp_mono (hmsg _ _) fun r s₂ h₂ => hhandled r s₂ (trans_of R h₁ h₂)
    | forward => exact wlp_mono (hfwd _ _) fun r s₂ h₂ => hhandled r s₂ (trans_of R h₁ h₂)
  exact recvLoop_rule hinv (refl_of R s)

/-- The codes of the loop are its own and those of the handlers. -/
theorem recvLoop_codes {C : ℤ → Prop} (hown : C 0 ∧ C (-1) ∧ C (-2))
    (hmsg : ∀ n, Ensures (E.onMsg n) fun r _ => ∀ code ∈ r, C code)
    (hfwd : ∀ n, Ensures (E.onForward n) fun r _ => ∀ code ∈ r, C code) (rs : List ReadRes) :
    Ensures (recvLoop E rs) fun r _ => C r.code := by
  have hhandled : ∀ calls got rs (r : Option ℤ) (s' : σ), (∀ code ∈ r, C code) →
      Handled (fun _ _ _ _ => True) (fun r _ => C r.code) calls got rs r s' := by
    rintro calls got rs (_ | code) s' hr
    · trivial
    · exact hr code rfl
  have hinv : LoopInv E (fun _ _ _ _ => True) (fun r _ => C r.code) (fun _ => True) := by
    refine ⟨fun _ _ => trivial, fun _ _ _ _ => hown.2.1, fun _ _ _ => hown.1, fun _ _ => hown.1,
      fun _ _ _ => trivial, ?_⟩
    intro calls got bs rs s₁ d _ _ _ _ _
    simp only [Received]
    cases (d.recv E.fmt (bs.take d.stillneedtoread)).2 with
    | short => exact hown.2.2
    | reject => exact hown.2.1
    | header | ignored => trivial
    | message => exact wlp_mono (hmsg _ _) (hhandled _ _ _)
    | forward => exact wlp_mono (hfwd _ _) (hhandled _ _ _)
  exact fun _ => recvLoop_rule hinv trivial

end Rule

/-! ### Frames -/

/-- A frame of the format: a header it accepts and a body of the length announced. -/
structure Frame (F : Format) where
  hdr : List UInt8
  body : List UInt8
  length_hdr : hdr.length = F.hdrLen
  valid : F.valid hdr = true
  length_body : F.bodyLen hdr = body.length

namespace Frame

variable {F : Format}

theorem ext' {f g : Frame F} (hh : f.hdr = g.hdr) (hb : f.body = g.body) : f = g := by
  cases f; cases g; cases hh; cases hb; rfl

def bytes (f : Frame F) : List UInt8 := f.hdr ++ f.body

/-- The bytes of a list of frames on the wire. -/
def wire (fs : List (Frame F)) : List UInt8 := (fs.map bytes).flatten

@[simp] theorem wire_nil : wire ([] : List (Frame F)) = [] := rfl

@[simp] theorem wire_cons (f : Frame F) (fs : List (Frame F)) :
    wire (f :: fs) = f.hdr ++ (f.body ++ wire fs) := by
  simp [wire, bytes]

theorem wire_append (fs gs : List (Frame F)) : wire (fs ++ gs) = wire fs ++ wire gs := by
  simp [wire]

theorem hdr_ne_nil (f : Frame F) : f.hdr ≠ [] := by
  intro h
  have := f.length_hdr
  have := F.hdrLen_pos
  simp_all

/-- The first frame of a byte string is determined by the bytes. -/
theorem head_eq {f g : Frame F} {x y : List UInt8}
    (h : f.hdr ++ (f.body ++ x) = g.hdr ++ (g.body ++ y)) : f = g ∧ x = y := by
  obtain ⟨hh, hr⟩ := List.append_inj h (f.length_hdr.trans g.length_hdr.symm)
  have hl : f.body.length = g.body.length := by
    rw [← f.length_body, ← g.length_body, hh]
  obtain ⟨hb, hx⟩ := List.append_inj hr hl
  exact ⟨ext' hh hb, hx⟩

/-- Frames are read off a byte string in one way. -/
theorem wire_append_inj {fs ws : List (Frame F)} {x y : List UInt8}
    (h : wire fs ++ x = wire ws ++ y) (hl : fs.length ≤ ws.length) :
    ∃ us, ws = fs ++ us ∧ x = wire us ++ y := by
  induction fs generalizing ws with
  | nil => exact ⟨ws, rfl, by simpa using h⟩
  | cons f fs ih =>
      cases ws with
      | nil => simp at hl
      | cons w ws =>
          simp only [wire_cons, List.append_assoc] at h
          obtain ⟨rfl, hx⟩ := head_eq h
          obtain ⟨us, rfl, hus⟩ := ih hx (by simpa using hl)
          exact ⟨us, rfl, hus⟩

/-- Frames read off a prefix of a wire are the first frames of the wire. -/
theorem wire_isPrefix {fs ws : List (Frame F)} {x : List UInt8} (h : wire fs ++ x <+: wire ws) :
    ∃ us, ws = fs ++ us ∧ x <+: wire us := by
  induction fs generalizing ws with
  | nil => exact ⟨ws, rfl, by simpa using h⟩
  | cons f fs ih =>
      obtain ⟨y, hy⟩ := h
      cases ws with
      | nil =>
          simp only [wire_cons, wire_nil, List.append_eq_nil_iff] at hy
          exact absurd hy.1.1.1 f.hdr_ne_nil
      | cons w ws =>
          simp only [wire_cons, List.append_assoc] at hy
          obtain ⟨rfl, hx⟩ := head_eq hy
          obtain ⟨us, rfl, hus⟩ := ih ⟨y, by simpa using hx⟩
          exact ⟨us, rfl, hus⟩

end Frame

/-! ### One read -/

namespace Decoder

variable {F : Format} {d : Decoder} {part chunk : List UInt8}

/-- The decoder waits for the rest of a frame of which it has read `part`. -/
inductive Holds (F : Format) (d : Decoder) : List UInt8 → Prop
  | header {part : List UInt8} (mode : d.cstate = .header) (pos : d.offset = part.length)
      (need : d.offset + d.stillneedtoread = F.hdrLen) (more : d.stillneedtoread ≠ 0)
      (bytes : d.buff.slice 0 d.offset = part) : Holds F d part
  | body {whole hdr part : List UInt8} (split : whole = hdr ++ part) (mode : d.cstate = .body)
      (length : hdr.length = F.hdrLen) (valid : F.valid hdr = true) (announced : F.bodyLen hdr = d.h)
      (pos : d.offset = part.length) (need : d.offset + d.stillneedtoread = d.h)
      (more : d.stillneedtoread ≠ 0 ∨ d.h = 0) (bytes : d.buff.slice 0 d.offset = part) :
      Holds F d whole

/-- What a read does to a decoder that holds a part of a frame. -/
inductive Advances (F : Format) (part : List UInt8) (r : Decoder × Decoded) : Prop
  | part (kind : r.2 = .short ∨ r.2 = .header) (holds : r.1.Holds F part)
  | reject (kind : r.2 = .reject) (length : part.length = F.hdrLen) (valid : F.valid part = false)
  | frame (kind : r.2 = .message) (f : Frame F) (bytes : part = f.bytes)
      (body : r.1.buff.slice 0 r.1.h = f.body) (start : r.1.AtStart F)

theorem AtStart.holds (h : d.AtStart F) : d.Holds F [] := by
  obtain ⟨hc, ho, hn⟩ := h
  refine .header hc ho ?_ ?_ ?_
  · omega
  · have := F.hdrLen_pos
    omega
  · simp [ho]

theorem Holds.not_forward (h : d.Holds F part) : d.cstate ≠ .forward := by
  cases h <;> simp_all

theorem Holds.advances (h : d.Holds F part) (hlen : chunk.length ≤ d.stillneedtoread)
    (hne : chunk ≠ []) : Advances F (part ++ chunk) (d.recv F chunk) := by
  have hpos : 0 < chunk.length := List.length_pos_iff.mpr hne
  have hslice : (d.buff.store d.offset chunk).slice 0 (d.offset + chunk.length) =
      d.buff.slice 0 d.offset ++ chunk := Buff.slice_store_append _ _ _
  cases h with
  | header mode pos need more bytes =>
      rw [bytes] at hslice
      by_cases hs : chunk.length < d.stillneedtoread
      · have hr : d.recv F chunk = ({ d with
            buff := d.buff.store d.offset chunk
            offset := d.offset + chunk.length
            stillneedtoread := d.stillneedtoread - chunk.length }, .short) := by
          simp [recv, mode, hs]
        rw [hr]
        refine .part (.inl rfl) (.header mode ?_ ?_ ?_ hslice) <;> simp <;> omega
      · have hfull : d.offset + chunk.length = F.hdrLen := by omega
        rw [hfull] at hslice
        by_cases hv : F.valid (part ++ chunk)
        · have hr : d.recv F chunk = ({ d with
              buff := d.buff.store d.offset chunk
              h := F.bodyLen (part ++ chunk)
              cstate := .body
              offset := 0
              stillneedtoread := F.bodyLen (part ++ chunk) }, .header) := by
            simp [recv, mode, hs, hslice, hv]
          rw [hr]
          refine .part (.inr rfl) (.body (List.append_nil _).symm rfl ?_ hv rfl rfl ?_ ?_ rfl) <;>
            simp <;> omega
        · have hr : (d.recv F chunk).2 = .reject := by
            simp [recv, mode, hs, hslice, hv]
          refine .reject hr ?_ (by simpa using hv)
          simp only [List.length_append]
          omega
  | @body hdr part split mode length valid announced pos need more bytes =>
      subst split
      rw [bytes] at hslice
      by_cases hs : chunk.length < d.stillneedtoread
      · have hr : d.recv F chunk = ({ d with
            buff := d.buff.store d.offset chunk
            offset := d.offset + chunk.length
            stillneedtoread := d.stillneedtoread - chunk.length }, .short) := by
          simp [recv, mode, hs]
        rw [hr, List.append_assoc]
        refine .part (.inl rfl) (.body rfl mode length valid announced ?_ ?_ ?_ hslice) <;> simp <;> omega
      · have hfull : d.offset + chunk.length = d.h := by omega
        rw [hfull] at hslice
        have hr : d.recv F chunk = ({ d with
            buff := d.buff.store d.offset chunk
            cstate := .header
            stillneedtoread := F.hdrLen
            offset := 0 }, .message) := by
          simp [recv, mode, hs]
        rw [hr]
        have hbl : F.bodyLen hdr = (part ++ chunk).length := by
          rw [announced, List.length_append]
          omega
        exact .frame rfl ⟨hdr, part ++ chunk, length, valid, hbl⟩
          (by simp [Frame.bytes]) hslice ⟨rfl, rfl, rfl⟩

/-- A read in forward mode at the start of the buffer. -/
theorem recv_forward (hm : d.cstate = .forward) (ho : d.offset = 0) :
    d.recv F chunk = ({ d with buff := d.buff.store 0 chunk }, .forward) := by
  simp [recv, hm, ho]

end Decoder

/-- A read of at least one byte leaves less to read. -/
theorem readBound_unread {bs : List UInt8} (hbs : bs ≠ []) {n : ℕ} (h0 : n ≠ 0) (rs : List ReadRes) :
    readBound (unread bs (bs.take n).length rs) + 1 ≤ readBound (.data bs :: rs) := by
  have hpos : 0 < bs.length := List.length_pos_iff.mpr hbs
  simp only [unread, readBound, List.length_take]
  split_ifs
  · omega
  · simp only [readBound, List.length_drop]
    omega

/-- More fuel than the reads can use changes nothing. -/
theorem recvN_fuel (E : Endpoint σ ε) {n m : ℕ} {rs : List ReadRes} (hn : readBound rs ≤ n)
    (hm : readBound rs ≤ m) : recvN E n rs = recvN E m rs := by
  induction n generalizing m rs with
  | zero =>
      cases rs with
      | nil => simp [readBound] at hn
      | cons r rs => cases r <;> simp [readBound] at hn
  | succ n ih =>
      match m, rs with
      | 0, [] | m + 1, [] | m + 1, .fail _ :: rs => rfl
      | 0, .fail _ :: rs | 0, .data _ :: rs => simp [readBound] at hm
      | m + 1, .data bs :: rs =>
          simp only [recvN, Endpoint.reading]
          congr 1
          funext s
          cases E.view s with
          | none => rfl
          | some d =>
              simp only
              split_ifs with h0 hbs ho
              · rfl
              · rfl
              · rfl
              · have hb := readBound_unread hbs h0 rs
                rw [ih (m := m) (by omega) (by omega)]

/-- A chunk read in forward mode, at the start of the buffer: the handler is called on it, and the
loop goes on if it does not return. -/
theorem recvLoop_forward {E : Endpoint σ ε} {Q : Ret → σ → Prop} {G : LoopFault ε → Prop} {s : σ}
    {d : Decoder} {bs : List UInt8} {rs : List ReadRes} (hv : E.view s = some d)
    (hm : d.cstate = .forward) (ho : d.offset = 0) (hne : bs ≠ []) (hn : bs.length ≤ d.stillneedtoread)
    (hsz : bs.length ≤ E.size)
    (h : wpe (E.onForward bs.length) (fun code s' => match code with
        | some code => Q ⟨code, .handler, [.forward bs], bs⟩ s'
        | none => wpe (recvLoop E rs) (fun r s'' => Q (r.after [.forward bs] bs) s'') G s')
      (fun e => G (.handler e)) (E.put { d with buff := d.buff.store 0 bs } (E.onRead bs.length s))) :
    wpe (recvLoop E (.data bs :: rs)) Q G s := by
  have hpos : 0 < bs.length := List.length_pos_iff.mpr hne
  have h0 : d.stillneedtoread ≠ 0 := by omega
  have hroom : ¬ E.size < d.offset + bs.length := by omega
  have hrest : recvN E (readBound rs + bs.length) rs = recvLoop E rs :=
    recvN_fuel E (Nat.le_add_right _ _) le_rfl
  rw [recvLoop, readBound, recvN]
  simp only [Endpoint.reading, wpe_bind, wpe_get, hv, h0, hne, if_false, List.take_of_length_le hn, hroom,
    Endpoint.receive, wpe_modify, Decoder.recv_forward hm ho, dispatch, wpe_mapFault,
    Buff.slice_store_same, unread, le_refl, if_true, hrest]
  refine wpe_mono h ?_ fun _ => id
  intro code s' hcode
  cases code with
  | some code => exact hcode
  | none =>
      simp only [wpe_bind, wpe_pure]
      exact hcode

/-- The decoder after the header of a frame, at the start of its body. -/
def Decoder.atBody {F : Format} (d : Decoder) (f : Frame F) : Decoder where
  cstate := .body
  h := f.body.length
  stillneedtoread := f.body.length
  offset := 0
  buff := d.buff.store 0 f.hdr

/-- The decoder after a frame, at the start of the next header. -/
def Decoder.afterBody {F : Format} (d : Decoder) (f : Frame F) : Decoder where
  cstate := .header
  h := f.body.length
  stillneedtoread := F.hdrLen
  offset := 0
  buff := (d.buff.store 0 f.hdr).store 0 f.body

theorem Decoder.AtStart.recv_hdr {F : Format} {d : Decoder} (h : d.AtStart F) (f : Frame F) :
    d.recv F f.hdr = (d.atBody f, .header) := by
  obtain ⟨hm, ho, hn⟩ := h
  have hs : (d.buff.store 0 f.hdr).slice 0 F.hdrLen = f.hdr := by
    rw [← f.length_hdr]
    exact Buff.slice_store_same _ _ _
  simp [recv, atBody, hm, ho, hn, f.length_hdr, hs, f.valid, f.length_body]

theorem Decoder.recv_atBody {F : Format} (d : Decoder) (f : Frame F) :
    (d.atBody f).recv F f.body = (d.afterBody f, .message) := by
  simp [recv, atBody, afterBody]

/-- A frame that arrives in one piece: the handler is called on its body. -/
theorem recvLoop_frame {E : Endpoint σ ε} {Q : Ret → σ → Prop} {G : LoopFault ε → Prop} {s : σ} {d : Decoder}
    {f : Frame E.fmt} (hd : d.AtStart E.fmt) (hv : E.view s = some d)
    (hv' : E.view (E.put (d.atBody f) (E.onRead E.fmt.hdrLen s)) = some (d.atBody f))
    (hne : f.body ≠ []) (hsz : E.fmt.hdrLen ≤ E.size) (hsz' : f.body.length ≤ E.size)
    (h : wpe (E.onMsg f.body.length) (fun code s' => match code with
        | some code => Q ⟨code, .handler, [.msg f.body], f.bytes⟩ s'
        | none => wpe (recvLoop E []) (fun r s'' => Q (r.after [.msg f.body] f.bytes) s'') G s')
      (fun e => G (.handler e)) (E.put (d.afterBody f) (E.onRead f.body.length
        (E.put (d.atBody f) (E.onRead E.fmt.hdrLen s))))) :
    wpe (recvLoop E [.data f.bytes]) Q G s := by
  have hpos : 0 < f.body.length := List.length_pos_iff.mpr hne
  have hlen := f.length_hdr
  have hhdr : E.fmt.hdrLen ≠ 0 := E.fmt.hdrLen_pos.ne'
  have hbytes : f.bytes ≠ [] := by simp [Frame.bytes, f.hdr_ne_nil]
  have htake : f.bytes.take d.stillneedtoread = f.hdr := by
    rw [hd.2.2, ← hlen, Frame.bytes, List.take_left]
  have hun : unread f.bytes E.fmt.hdrLen [] = [.data f.body] := by
    rw [← hlen, unread, if_neg, Frame.bytes, List.drop_left]
    rw [Frame.bytes, List.length_append]
    omega
  have hfuel : readBound [] + f.bytes.length = (f.hdr.length + f.body.length) + 1 := by
    simp [readBound, Frame.bytes]
    omega
  have hslice : ((d.buff.store 0 f.hdr).store 0 f.body).slice 0 f.body.length = f.body :=
    Buff.slice_store_same _ _ _
  have hrest : recvN E (E.fmt.hdrLen + f.body.length) [] = recvLoop E [] := by
    refine recvN_fuel E ?_ le_rfl
    simp only [readBound]
    omega
  rw [recvLoop, readBound, hfuel, recvN]
  simp only [Endpoint.reading, wpe_bind, wpe_get, hv, hd.2.2, hhdr, hbytes, if_false, hd.2.2 ▸ htake, hd.2.1, hlen,
    Nat.zero_add, Nat.not_lt.mpr hsz, Endpoint.receive, wpe_modify, hd.recv_hdr f, wpe_pure]
  rw [hun, recvN]
  have hn : (d.atBody f).stillneedtoread = f.body.length := rfl
  have ho : (d.atBody f).offset = 0 := rfl
  simp only [Endpoint.reading, wpe_bind, wpe_get, hv', hn, ho, hpos.ne', hne, if_false, List.take_length,
    Nat.zero_add, Nat.not_lt.mpr hsz', Endpoint.receive, wpe_modify, d.recv_atBody f, unread, le_refl, if_true,
    hrest, dispatch, wpe_mapFault, Decoder.afterBody, hslice]
  refine wpe_mono h ?_ fun _ => id
  intro code s' hcode
  cases code with
  | some code => exact hcode
  | none =>
      simp only [wpe_bind, wpe_pure, Ret.after_after, List.nil_append]
      exact hcode

/-- With no bytes to read the loop ends. -/
theorem recvLoop_nil {E : Endpoint σ ε} {Q : Ret → σ → Prop} {G : LoopFault ε → Prop} {s : σ}
    {d : Decoder} (hv : E.view s = some d) (h0 : d.stillneedtoread ≠ 0)
    (h : Q ⟨-1, .fail EAGAIN, [], []⟩ (E.errno EAGAIN s)) : wpe (recvLoop E []) Q G s := by
  simp only [recvLoop, readBound, recvN, Endpoint.reading, Endpoint.readFails, wpe_bind, wpe_get, hv, h0,
    if_false, wpe_modify, wpe_pure]
  exact h

/-- The loop on one segment that fits into what is still needed. -/
theorem recvLoop_segment {E : Endpoint σ ε} {s : σ} {d : Decoder} {bs : List UInt8}
    (hv : E.view s = some d) (hbs : bs ≠ []) (hlen : bs.length ≤ d.stillneedtoread) :
    recvLoop E [.data bs] s = if E.size < d.offset + bs.length then .error .overflow
      else E.receive d bs (recvLoop E []) s := by
  have hstill : d.stillneedtoread ≠ 0 := fun h => hbs (List.length_eq_zero_iff.mp (Nat.le_zero.mp (h ▸ hlen)))
  have hleft : unread bs bs.length [] = [] := if_pos le_rfl
  have hfuel : recvN E (1 + bs.length) [] = recvLoop E [] := recvN_fuel E (Nat.le_add_right 1 _) le_rfl
  rw [recvLoop]
  simp only [readBound, recvN, Endpoint.reading, run_get_bind, hv, hstill, if_false, List.take_of_length_le hlen, hbs,
    hleft, hfuel]
  split_ifs <;> rfl

/-- The loop on one segment that completes a header. -/
theorem recvLoop_header {E : Endpoint σ ε} {s : σ} {d : Decoder} {bs : List UInt8}
    (hv : E.view s = some d) (hm : d.cstate = .header) (hlen : bs.length = d.stillneedtoread) (hbs : bs ≠ [])
    (hput : ∀ d', E.view (E.put d' (E.onRead bs.length s)) = some d') (hfit : d.offset + bs.length ≤ E.size) :
    recvLoop E [.data bs] s =
      let hdr := (d.buff.store d.offset bs).slice 0 E.fmt.hdrLen
      let s' := E.put (d.recv E.fmt bs).1 (E.onRead bs.length s)
      if E.fmt.valid hdr = false then .ok (⟨-1, .reject, [], bs⟩, s')
      else if E.fmt.bodyLen hdr = 0 then .ok (⟨0, .eof, [], bs⟩, s')
      else .ok (⟨-1, .fail EAGAIN, [], bs⟩, E.errno EAGAIN s') := by
  rw [recvLoop_segment hv hbs hlen.le, if_neg hfit.not_gt, Endpoint.receive]
  cases hvalid : E.fmt.valid ((d.buff.store d.offset bs).slice 0 E.fmt.hdrLen) with
  | false =>
      have hr : (d.recv E.fmt bs).2 = .reject := by simp [Decoder.recv, hm, hlen, hvalid]
      simp only [hr, hvalid, if_true]
      rfl
  | true =>
      have hr : (d.recv E.fmt bs).2 = .header := by simp [Decoder.recv, hm, hlen, hvalid]
      have hstill : (d.recv E.fmt bs).1.stillneedtoread =
          E.fmt.bodyLen ((d.buff.store d.offset bs).slice 0 E.fmt.hdrLen) := by simp [Decoder.recv, hm, hlen, hvalid]
      simp only [hr, hvalid, Bool.true_eq_false, if_false]
      rw [run_bind]
      show (recvLoop E [] >>= fun r => pure (r.after [] bs)) (E.put _ (E.onRead bs.length s)) = _
      have hnil : recvLoop E [] = E.reading fun _ => E.readFails EAGAIN := rfl
      rw [hnil, run_bind, Endpoint.reading, run_get_bind]
      simp only [hput, hstill]
      split_ifs
      · exact congrArg (fun got => Except.ok ((⟨0, .eof, [], got⟩ : Ret), _)) (List.append_nil bs)
      · exact congrArg (fun got => Except.ok ((⟨-1, .fail EAGAIN, [], got⟩ : Ret), _)) (List.append_nil bs)

/-! ### What the calls have to do with the bytes -/

/-- The calls made and the bytes read so far, against the state of the decoder. -/
inductive Tracks (F : Format) (calls : List Upcall) (got : List UInt8) (d : Decoder) : Prop
  /-- Whole frames were handled, and the decoder holds a part of the next one. -/
  | framed (fs : List (Frame F)) (part : List UInt8)
      (calls_eq : calls = fs.map fun f => .msg f.body) (got_eq : got = Frame.wire fs ++ part)
      (holds : d.Holds F part)
  /-- After some frames the mode was switched, and all that followed was forwarded. -/
  | forward (fs : List (Frame F)) (chunks : List (List UInt8))
      (calls_eq : calls = fs.map (fun f => .msg f.body) ++ chunks.map .forward)
      (got_eq : got = Frame.wire fs ++ chunks.flatten) (mode : d.cstate = .forward)

/-- In forward mode the whole buffer is free, so that a chunk is stored at its start. -/
def Endpoint.Ready (E : Endpoint σ ε) (d : Decoder) : Prop :=
  d.cstate = .forward → d.offset = 0 ∧ d.stillneedtoread = E.size

/-- A message handler leaves the decoder where it was, or switches it to forward mode. -/
def Endpoint.Keeps (E : Endpoint σ ε) (d d' : Decoder) : Prop :=
  d'.offset = d.offset ∧
    (d'.cstate = d.cstate ∧ d'.stillneedtoread = d.stillneedtoread ∨
      d'.cstate = .forward ∧ d'.stillneedtoread = E.size)

/-- What decoding asks of an endpoint. -/
structure Lawful (E : Endpoint σ ε) : Prop where
  view_put : ∀ {s d₀} d, E.view s = some d₀ → E.view (E.put d s) = some d
  view_errno : ∀ e s, E.view (E.errno e s) = E.view s
  view_onRead : ∀ n s, E.view (E.onRead n s) = E.view s
  onMsg : ∀ {s d}, E.view s = some d → d.AtStart E.fmt → ∀ n,
    wlp (E.onMsg n) (fun _ s' => ∀ d', E.view s' = some d' → E.Keeps d d') s
  onForward : ∀ {s d}, E.view s = some d → d.cstate = .forward → ∀ n,
    wlp (E.onForward n) (fun r s' => ∀ d', E.view s' = some d' →
      d'.cstate = .forward ∧ (r = none → E.Ready d → E.Ready d')) s

theorem Tracks.start {F : Format} {d : Decoder} (h : d.AtStart F) : Tracks F [] [] d :=
  .framed [] [] rfl rfl h.holds

theorem Endpoint.Keeps.atStart {E : Endpoint σ ε} {d d' : Decoder} (h : E.Keeps d d')
    (hd : d.AtStart E.fmt) (hm : d'.cstate ≠ .forward) : d'.AtStart E.fmt := by
  obtain ⟨ho, ⟨hc, hs⟩ | ⟨hc, -⟩⟩ := h
  · exact ⟨hc.trans hd.1, ho.trans hd.2.1, hs.trans hd.2.2⟩
  · exact absurd hc hm

theorem Endpoint.Keeps.ready {E : Endpoint σ ε} {d d' : Decoder} (h : E.Keeps d d')
    (hd : d.AtStart E.fmt) : E.Ready d' := by
  intro hm
  obtain ⟨ho, ⟨hc, -⟩ | ⟨-, hs⟩⟩ := h
  · rw [hd.1, hm] at hc
    cases hc
  · exact ⟨ho.trans hd.2.1, hs⟩

/-- A frame handled: the decoder is at the start of the next, or forwards from here on. -/
theorem Tracks.handled {E : Endpoint σ ε} {fs : List (Frame E.fmt)} {f : Frame E.fmt}
    {d d' : Decoder} (hd : d.AtStart E.fmt) (hk : E.Keeps d d') :
    Tracks E.fmt (fs.map (fun f => .msg f.body) ++ [.msg f.body]) (Frame.wire fs ++ f.bytes) d' := by
  have hw : Frame.wire fs ++ f.bytes = Frame.wire (fs ++ [f]) := by
    simp [Frame.wire]
  rw [hw]
  by_cases hm : d'.cstate = .forward
  · exact .forward (fs ++ [f]) [] (by simp) (by simp) hm
  · exact .framed (fs ++ [f]) [] (by simp) (by simp) (hk.atStart hd hm).holds

/-- A chunk forwarded. -/
theorem Tracks.forwarded {F : Format} {calls : List Upcall} {got chunk : List UInt8}
    {d d' : Decoder} (h : Tracks F calls got d) (hm : d.cstate = .forward)
    (hm' : d'.cstate = .forward) :
    Tracks F (calls ++ [.forward chunk]) (got ++ chunk) d' := by
  cases h with
  | framed fs part calls_eq got_eq holds => exact absurd hm holds.not_forward
  | forward fs chunks calls_eq got_eq mode =>
      refine .forward fs (chunks ++ [chunk]) ?_ ?_ hm'
      · simp [calls_eq]
      · simp [got_eq]

/-! ### Bytes on the wire -/

/-- The bytes of a list of segments. -/
def dataOf : List ReadRes → List UInt8
  | [] => []
  | .data bs :: rs => bs ++ dataOf rs
  | .fail _ :: rs => dataOf rs

/-- The stream goes on: no segment is the end of it. -/
def Goes (rs : List ReadRes) : Prop := ∀ bs, .data bs ∈ rs → bs ≠ []

theorem dataOf_unread (bs : List UInt8) (n : ℕ) (rs : List ReadRes) :
    bs.take n ++ dataOf (unread bs (bs.take n).length rs) = bs ++ dataOf rs := by
  by_cases h : bs.length ≤ n
  · simp [unread, List.take_of_length_le h]
  · have hn : (bs.take n).length = n := by
      rw [List.length_take]
      omega
    rw [hn, unread, if_neg h, dataOf, ← List.append_assoc, List.take_append_drop]

theorem Goes.unread {bs : List UInt8} {rs : List ReadRes} (h : Goes (.data bs :: rs)) (n : ℕ) :
    Goes (unread bs n rs) := by
  intro bs' hbs'
  unfold Lib.unread at hbs'
  split_ifs at hbs' with hn
  · exact h bs' (List.mem_cons_of_mem _ hbs')
  · rcases List.mem_cons.mp hbs' with he | hm
    · cases he
      simpa using hn
    · exact h bs' (List.mem_cons_of_mem _ hm)

/-- Frames with a body that fits a buffer of the given size. -/
def Fits {F : Format} (size : ℕ) (ws : List (Frame F)) : Prop :=
  F.hdrLen ≤ size ∧ ∀ w ∈ ws, w.body ≠ [] ∧ w.body.length ≤ size

/-- The part of a frame held by a decoder, seen on the wire. -/
theorem Frame.head_on_wire {F : Format} {got x part : List UInt8}
    {fs ws : List (Frame F)} (hgot : got = Frame.wire fs ++ part)
    (hw : got ++ x <+: Frame.wire ws) (hx : part ++ x ≠ []) :
    ∃ w ∈ ws, ∃ y, part ++ x <+: w.hdr ++ (w.body ++ y) := by
  subst hgot
  rw [List.append_assoc] at hw
  obtain ⟨us, rfl, hus⟩ := Frame.wire_isPrefix hw
  cases us with
  | nil => exact absurd (List.prefix_nil.mp hus) hx
  | cons w us => exact ⟨w, by simp, Frame.wire us, by simpa using hus⟩

theorem hdr_eq_of_isPrefix {F : Format} {hdr x y : List UInt8} {w : Frame F}
    (hl : hdr.length = F.hdrLen) (h : hdr ++ x <+: w.hdr ++ y) : hdr = w.hdr := by
  obtain ⟨t, ht⟩ := h
  rw [List.append_assoc] at ht
  exact (List.append_inj ht (hl.trans w.length_hdr.symm)).1

/-- On well-formed frames the decoder always has something to read and room for it. -/
theorem Tracks.room {E : Endpoint σ ε} {calls : List Upcall} {got x : List UInt8} {d : Decoder}
    {ws : List (Frame E.fmt)} (h : Tracks E.fmt calls got d) (hr : E.Ready d)
    (hf : Fits E.size ws) (hw : got ++ x <+: Frame.wire ws) :
    d.stillneedtoread ≠ 0 ∧ d.offset + d.stillneedtoread ≤ E.size := by
  have hpos := E.fmt.hdrLen_pos
  have hsz := hf.1
  cases h with
  | forward fs chunks calls_eq got_eq mode =>
      obtain ⟨ho, hs⟩ := hr mode
      omega
  | framed fs part calls_eq got_eq holds =>
      cases holds with
      | header mode pos need more bytes => omega
      | @body hdr bpart split mode length valid announced pos need more bytes =>
          have hne : part ++ x ≠ [] := by
            intro h0
            have : hdr.length = 0 := by
              rw [split] at h0
              simp at h0
              simp [h0]
            omega
          obtain ⟨w, hmem, y, hp⟩ := Frame.head_on_wire got_eq hw hne
          rw [split, List.append_assoc] at hp
          have hh := hdr_eq_of_isPrefix length hp
          have hb := w.length_body
          obtain ⟨hb0, hbs⟩ := hf.2 w hmem
          rw [← hh, announced] at hb
          have : 0 < w.body.length := List.length_pos_iff.mpr hb0
          omega

/-! ### The loop decodes -/

section Decodes

variable (E : Endpoint σ ε) (calls₀ : List Upcall) (got₀ : List UInt8) (ws : List (Frame E.fmt))
  (H : Prop)

/-- Before a read: the decoder is tracked, and under `H` the bytes read and to come are on the
wire of `ws`. -/
def DecInv (calls : List Upcall) (got : List UInt8) (rs : List ReadRes) (s : σ) : Prop :=
  (∀ d, E.view s = some d → Tracks E.fmt (calls₀ ++ calls) (got₀ ++ got) d ∧ E.Ready d) ∧
    (H → Goes rs ∧ got₀ ++ got ++ dataOf rs <+: Frame.wire ws)

/-- When the loop returns: unless a header was refused the decoder is tracked, and under `H` no
header was refused and the stream did not end. -/
def DecPost (r : Ret) (s : σ) : Prop :=
  (H → r.why ≠ .reject ∧ r.why ≠ .eof) ∧
    (r.why ≠ .reject → ∀ d, E.view s = some d →
      Tracks E.fmt (calls₀ ++ r.calls) (got₀ ++ r.got) d)

end Decodes

section Decodes

variable {E : Endpoint σ ε} {calls₀ : List Upcall} {got₀ : List UInt8} {ws : List (Frame E.fmt)}
  {H : Prop}

theorem decInv_received (L : Lawful E) {calls : List Upcall} {got chunk : List UInt8} {d : Decoder}
    {rs : List ReadRes} {s : σ} (hv : E.view s = some d)
    (ht : Tracks E.fmt (calls₀ ++ calls) (got₀ ++ got) d) (hr : E.Ready d) (hne : chunk ≠ [])
    (hlen : chunk.length ≤ d.stillneedtoread)
    (hw : H → Goes rs ∧ got₀ ++ (got ++ chunk) ++ dataOf rs <+: Frame.wire ws) :
    Received E (DecInv E calls₀ got₀ ws H) (DecPost E calls₀ got₀ H) (fun f => H → f ≠ .overflow)
      calls got d chunk rs s := by
  have hput : ∀ d', E.view (E.put d' (E.onRead chunk.length s)) = some d' := fun d' =>
    L.view_put d' ((L.view_onRead _ _).trans hv)
  simp only [Received]
  cases ht with
  | framed fs part calls_eq got_eq holds =>
      have hgot : got₀ ++ (got ++ chunk) = Frame.wire fs ++ (part ++ chunk) := by
        rw [← List.append_assoc, got_eq, List.append_assoc]
      have htr : ∀ d' : Decoder, d'.Holds E.fmt (part ++ chunk) →
          Tracks E.fmt (calls₀ ++ calls) (got₀ ++ (got ++ chunk)) d' := fun d' hd' =>
        .framed fs (part ++ chunk) calls_eq hgot hd'
      cases holds.advances hlen hne with
      | part kind holds' =>
          rcases kind with kind | kind <;> simp only [kind]
          · refine ⟨fun _ => by simp, fun _ d' hd' => ?_⟩
            rw [hput] at hd'
            cases hd'
            exact htr _ holds'
          · refine ⟨fun d' hd' => ?_, hw⟩
            rw [hput] at hd'
            cases hd'
            exact ⟨htr _ holds', fun hm => absurd hm holds'.not_forward⟩
      | reject kind length valid =>
          simp only [kind]
          refine ⟨fun h => ?_, fun h => absurd rfl h⟩
          -- the bytes of the header are those of a frame on the wire
          obtain ⟨w, -, y, hp⟩ := Frame.head_on_wire hgot (hw h).2 (by simp [hne])
          rw [hdr_eq_of_isPrefix length hp, w.valid] at valid
          cases valid
      | frame kind f bytes body start =>
          simp only [kind, body]
          refine wpe_mono (L.onMsg (hput _) start chunk.length) ?_ fun _ _ _ => by simp
          intro r s' hk
          have hd : ∀ d', E.view s' = some d' →
              Tracks E.fmt (calls₀ ++ (calls ++ [.msg f.body])) (got₀ ++ (got ++ chunk)) d' := by
            intro d' hd'
            rw [hgot, bytes, ← List.append_assoc, calls_eq]
            exact Tracks.handled start (hk d' hd')
          cases r with
          | some code => exact ⟨fun _ => by simp, fun _ => hd⟩
          | none => exact ⟨fun d' hd' => ⟨hd d' hd', (hk d' hd').ready start⟩, hw⟩
  | forward fs chunks calls_eq got_eq mode =>
      have ht : Tracks E.fmt (calls₀ ++ calls) (got₀ ++ got) d :=
        .forward fs chunks calls_eq got_eq mode
      simp only [Decoder.recv_forward mode (hr mode).1, Buff.slice_store_same]
      have mode' : ({ d with buff := d.buff.store 0 chunk } : Decoder).cstate = .forward := mode
      refine wpe_mono (L.onForward (hput _) mode' chunk.length) ?_ fun _ _ _ => by simp
      intro r s' hk
      have hd : ∀ d', E.view s' = some d' →
          Tracks E.fmt (calls₀ ++ (calls ++ [.forward chunk])) (got₀ ++ (got ++ chunk)) d' := by
        intro d' hd'
        rw [← List.append_assoc, ← List.append_assoc]
        exact ht.forwarded mode (hk d' hd').1
      cases r with
      | some code => exact ⟨fun _ => by simp, fun _ => hd⟩
      | none =>
          refine ⟨fun d' hd' => ⟨hd d' hd', (hk d' hd').2 rfl fun hm => hr hm⟩, hw⟩

theorem decInv_loopInv (L : Lawful E) (hf : H → Fits E.size ws) :
    LoopInv E (DecInv E calls₀ got₀ ws H) (DecPost E calls₀ got₀ H) (fun f => H → f ≠ .overflow) where
  freed _ _ _ := by simp
  fails := by
    intro calls got rs s d hI hv h0 e
    refine ⟨fun _ => by simp, fun _ d' hd' => ?_⟩
    rw [L.view_errno] at hd'
    exact (hI.1 d' hd').1
  empty := by
    intro calls got rs s d hI hv h0
    obtain ⟨ht, hr⟩ := hI.1 d hv
    exact ⟨fun h => absurd h0 (ht.room hr (hf h) (hI.2 h).2).1, fun _ d' hd' => (hI.1 d' hd').1⟩
  eof := by
    intro calls got rs s d hI hv
    exact ⟨fun h => absurd rfl ((hI.2 h).1 [] (by simp)), fun _ d' hd' => (hI.1 d' hd').1⟩
  overflow := by
    intro calls got bs rs s d hI hv ho h
    obtain ⟨ht, hr⟩ := hI.1 d hv
    have hroom := (ht.room hr (hf h) (hI.2 h).2).2
    rw [List.length_take] at ho
    omega
  read := by
    intro calls got bs rs s d hI hv hbs h0 ho
    obtain ⟨ht, hr⟩ := hI.1 d hv
    refine decInv_received L hv ht hr (by simp [hbs, h0]) (by simp) fun h => ?_
    obtain ⟨hg, hw⟩ := hI.2 h
    refine ⟨hg.unread _, ?_⟩
    rw [← List.append_assoc, List.append_assoc (got₀ ++ got), dataOf_unread]
    exact hw

end Decodes

/-! ### Sessions -/

/-- A session of a connection: calls of the read loop, each in a state that meets `May` and with its
calls and bytes appended to those of the earlier ones, and other activity in between.  A call that
refuses a header ends the session. -/
inductive Session (E : Endpoint σ ε) (May : σ → Prop) (s₀ : σ) : List Upcall → List UInt8 → σ → Prop
  | start : Session E May s₀ [] [] s₀
  | recv {calls : List Upcall} {got : List UInt8} {s s' : σ} {r : Ret} {rs : List ReadRes}
      (h : Session E May s₀ calls got s) (may : May s) (run : recvLoop E rs s = .ok (r, s'))
      (accepted : r.why ≠ .reject) : Session E May s₀ (calls ++ r.calls) (got ++ r.got) s'
  | other {calls : List Upcall} {got : List UInt8} {s s' : σ} (h : Session E May s₀ calls got s)
      (keeps : ∀ d', E.view s' = some d' → ∃ d, E.view s = some d ∧
        (d' = d ∨ d.cstate = .forward ∧ d'.cstate = .forward)) :
      Session E May s₀ calls got s'

/-- **Decoding.**  Over a whole session the calls made are those of the frames read, if the loop is
called only with the whole buffer free in forward mode. -/
theorem Session.tracks {E : Endpoint σ ε} {May : σ → Prop} (L : Lawful E)
    (hmay : ∀ s, May s → ∀ d, E.view s = some d → E.Ready d) {s₀ s : σ} {calls : List Upcall}
    {got : List UInt8} (h : Session E May s₀ calls got s)
    (h₀ : ∀ d, E.view s₀ = some d → d.AtStart E.fmt) :
    ∀ d, E.view s = some d → Tracks E.fmt calls got d := by
  induction h with
  | start => exact fun d hd => .start (h₀ d hd)
  | @recv calls got s s' r rs _ may run accepted ih =>
      have hI : DecInv E calls got [] False [] [] rs s :=
        ⟨fun d hd => ⟨by simpa using ih d hd, hmay s may d hd⟩, False.elim⟩
      have hQ := recvLoop_rule (decInv_loopInv L False.elim) hI
      exact ((wpe_of_ok run).mp hQ).2 accepted
  | @other calls got s s' _ keeps ih =>
      intro d' hd'
      obtain ⟨d, hd, rfl | ⟨hm, hm'⟩⟩ := keeps d' hd'
      · exact ih d' hd
      · cases ih d hd with
        | framed fs part calls_eq got_eq holds => exact absurd hm holds.not_forward
        | forward fs chunks calls_eq got_eq mode => exact .forward fs chunks calls_eq got_eq hm'

/-- **Safety.**  On the wire of non-empty frames that fit the buffer, the loop refuses no header,
does not take a frame for the end of the stream, and stays inside its buffer. -/
theorem recvLoop_safe {E : Endpoint σ ε} (L : Lawful E) {ws : List (Frame E.fmt)}
    (hf : Fits E.size ws) {s : σ} {calls : List Upcall} {got : List UInt8} {rs : List ReadRes}
    (ht : ∀ d, E.view s = some d → Tracks E.fmt calls got d ∧ E.Ready d) (hg : Goes rs)
    (hw : got ++ dataOf rs <+: Frame.wire ws) :
    wpe (recvLoop E rs) (fun r _ => r.why ≠ .reject ∧ r.why ≠ .eof) (fun f => f ≠ .overflow) s := by
  have hI : DecInv E calls got ws True [] [] rs s :=
    ⟨fun d hd => by simpa using ht d hd, fun _ => ⟨hg, by simpa using hw⟩⟩
  exact wpe_mono (recvLoop_rule (decInv_loopInv L fun _ => hf) hI) (fun _ _ h => h.1 trivial)
    fun _ h => h trivial

/-- All frames of the wire were read and the mode was not switched: all of them were handled, and
the decoder is back at the start. -/
theorem Tracks.complete {F : Format} {calls : List Upcall} {d : Decoder} {ws : List (Frame F)}
    (h : Tracks F calls (Frame.wire ws) d) (hm : d.cstate ≠ .forward)
    (hne : ∀ w ∈ ws, w.body ≠ []) :
    calls = ws.map (fun w => .msg w.body) ∧ d.AtStart F := by
  cases h with
  | forward fs chunks calls_eq got_eq mode => exact absurd mode hm
  | framed fs part calls_eq got_eq holds =>
      have hpre : Frame.wire fs ++ part <+: Frame.wire ws := by rw [got_eq]
      obtain ⟨us, rfl, hus⟩ := Frame.wire_isPrefix hpre
      have hpart : part = Frame.wire us := by
        rw [Frame.wire_append] at got_eq
        exact (List.append_cancel_left got_eq).symm
      cases us with
      | nil =>
          subst hpart
          cases holds with
          | header mode pos need more bytes => exact ⟨by simpa using calls_eq, mode, pos, by simp_all⟩
          | body split mode length =>
              have := F.hdrLen_pos
              simp_all
      | cons u us =>
          -- a whole frame would have been handled
          exfalso
          rw [hpart] at holds
          have hlen := u.length_hdr
          cases holds with
          | header mode pos need more bytes =>
              rw [pos, Frame.wire_cons, List.length_append] at need
              omega
          | @body hdr bpart split mode length valid announced pos need more bytes =>
              rw [Frame.wire_cons] at split
              obtain ⟨hh, hb⟩ := List.append_inj split (hlen.trans length.symm)
              have hbody := u.length_body
              rw [hh, announced] at hbody
              have hpos : 0 < u.body.length := List.length_pos_iff.mpr (hne u (by simp))
              have : u.body.length ≤ bpart.length := by
                rw [← hb, List.length_append]
                omega
              omega

def Upcall.isMsg : Upcall → Bool
  | .msg _ => true
  | .forward _ => false

/-- In forward mode, after at most the frames of `ws`: the frames handled are the first ones, and
what was forwarded are exactly the bytes that follow them. -/
theorem Tracks.forwarded_rest {F : Format} {calls : List Upcall} {d : Decoder} {ws : List (Frame F)}
    {raw : List UInt8} (h : Tracks F calls (Frame.wire ws ++ raw) d) (hm : d.cstate = .forward)
    (hl : (calls.filter Upcall.isMsg).length ≤ ws.length) :
    ∃ (n : ℕ) (chunks : List (List UInt8)),
      calls = (ws.take n).map (fun w => .msg w.body) ++ chunks.map .forward ∧
      chunks.flatten = Frame.wire (ws.drop n) ++ raw := by
  cases h with
  | framed fs part calls_eq got_eq holds => exact absurd hm holds.not_forward
  | forward fs chunks calls_eq got_eq mode =>
      have hfs : fs.length ≤ ws.length := by
        have hmsgs : calls.filter Upcall.isMsg = fs.map fun f => .msg f.body := by
          rw [calls_eq, List.filter_append, List.filter_eq_self.mpr (by simp [Upcall.isMsg]),
            List.filter_eq_nil_iff.mpr (by simp [Upcall.isMsg]), List.append_nil]
        rw [hmsgs, List.length_map] at hl
        exact hl
      obtain ⟨us, rfl, hus⟩ := Frame.wire_append_inj got_eq.symm hfs
      exact ⟨fs.length, chunks, by simpa using calls_eq, by simpa using hus⟩

/-! ### Segmentation -/

/-- A call of the loop that finds bytes reads some, unless the stream has ended for it. -/
theorem recvLoop_reads {E : Endpoint σ ε} {bs : List UInt8} (hbs : bs ≠ []) (rs : List ReadRes) (s : σ) :
    wlp (recvLoop E (.data bs :: rs)) (fun r _ => r.why = .eof ∨ r.got ≠ []) s := by
  rw [recvLoop, readBound, recvN]
  simp only [Endpoint.reading, wlp, wpe_bind, wpe_get]
  cases hv : E.view s with
  | none => trivial
  | some d =>
      simp only [wpe_ite, wpe_pure, hbs, wpe_throw, true_or, implies_true, true_and, not_false_iff, forall_const]
      intro h0 _
      have hne : bs.take d.stillneedtoread ≠ [] := by simp [hbs, h0]
      have hany : ∀ (x : Prog σ ε (Option ℤ)) (calls : List Upcall) (rs : List ReadRes) (s : σ),
          wlp x (Handled (fun _ _ _ _ => True) (fun r _ => r.got ≠ []) calls (bs.take d.stillneedtoread) rs) s := by
        refine fun x calls rs s => (wlp_iff _ _ x).mpr ?_
        rintro (_ | code) s' _
        · trivial
        · exact hne
      have hr : Received E (fun _ _ _ _ => True) (fun r _ => r.got ≠ []) (fun _ => True) [] [] d
          (bs.take d.stillneedtoread) rs s := by
        simp only [Received]
        cases (d.recv E.fmt (bs.take d.stillneedtoread)).2 with
        | short | reject => exact hne
        | header | ignored => trivial
        | message | forward => exact hany _ _ _ _
      refine wpe_mono (receive_rule hr fun calls s' _ => ?_) (fun _ _ h => .inr h) fun _ => id
      exact (wlp_iff _ _ _).mpr fun r _ _ => by simp [Ret.after, hne]

/-- A call of the loop goes on with the session: it refuses no header, does not take a frame for the end of
the stream and stays inside its buffer, and if it finds bytes it reads some. -/
def GoesOn (E : Endpoint σ ε) (May : σ → Prop) (s₀ : σ) (calls : List Upcall) (got : List UInt8)
    (rs : List ReadRes) (s : σ) : Prop :=
  wpe (recvLoop E rs) (fun r s' => r.why ≠ .reject ∧ r.why ≠ .eof ∧
    Session E May s₀ (calls ++ r.calls) (got ++ r.got) s' ∧ ((∃ bs rs', rs = .data bs :: rs') → r.got ≠ []))
    (fun f => f ≠ .overflow) s

/-- Decoding does not depend on how the bytes of frames of at most `max` bytes arrive: from the start of
a header, and if the loop is called in states that meet `May`,

* `safe`: on the bytes of such frames no call of the loop refuses a header, takes a frame for the end of the
  stream or leaves the buffer, and one that finds bytes reads some;
* `onward`: so it is for any bytes in forward mode;
* `complete`: once the bytes have been read, the calls are those on the bodies, in order, and the decoder is
  at the start again, unless it was switched;
* `forwarded`: once it was switched by a message, the calls on the frames up to that message are followed by
  calls of the forward branch on exactly the bytes behind it, whatever these are. -/
structure Decodes (E : Endpoint σ ε) (May : σ → Prop) (max : ℕ) : Prop where
  safe : ∀ {s₀ s : σ} {calls : List Upcall} {got : List UInt8} {rs : List ReadRes} {ws : List (Frame E.fmt)},
    (∀ d, E.view s₀ = some d → d.AtStart E.fmt) → Session E May s₀ calls got s → May s →
    (∀ w ∈ ws, w.body ≠ [] ∧ w.body.length ≤ max) → Goes rs → got ++ dataOf rs <+: Frame.wire ws →
    GoesOn E May s₀ calls got rs s
  onward : ∀ {s₀ s : σ} {calls : List Upcall} {got : List UInt8} {rs : List ReadRes},
    Session E May s₀ calls got s → May s → (∀ d, E.view s = some d → d.cstate = .forward) → Goes rs →
    GoesOn E May s₀ calls got rs s
  complete : ∀ {s₀ s : σ} {calls : List Upcall} {d : Decoder} {ws : List (Frame E.fmt)},
    (∀ d, E.view s₀ = some d → d.AtStart E.fmt) → (∀ w ∈ ws, w.body ≠ []) →
    Session E May s₀ calls (Frame.wire ws) s → E.view s = some d → d.cstate ≠ .forward →
    calls = ws.map (fun w => .msg w.body) ∧ d.AtStart E.fmt
  forwarded : ∀ {s₀ s : σ} {calls : List Upcall} {d : Decoder} {ws : List (Frame E.fmt)} {raw : List UInt8},
    (∀ d, E.view s₀ = some d → d.AtStart E.fmt) → Session E May s₀ calls (Frame.wire ws ++ raw) s →
    E.view s = some d → d.cstate = .forward → (calls.filter Upcall.isMsg).length ≤ ws.length →
    ∃ (n : ℕ) (chunks : List (List UInt8)),
      calls = (ws.take n).map (fun w => .msg w.body) ++ chunks.map .forward ∧
      chunks.flatten = Frame.wire (ws.drop n) ++ raw

section Segmentation

variable {E : Endpoint σ ε} {May : σ → Prop} {s₀ s : σ} {calls : List Upcall} {got : List UInt8} {rs : List ReadRes}

/-- A call of the loop that goes well continues the session. -/
theorem Session.goes (h : Session E May s₀ calls got s) (may : May s) (hg : Goes rs)
    (hs : wpe (recvLoop E rs) (fun r _ => r.why ≠ .reject ∧ r.why ≠ .eof) (fun f => f ≠ .overflow) s) :
    GoesOn E May s₀ calls got rs s := by
  have hrun : wlp (recvLoop E rs) (fun r s' => recvLoop E rs s = .ok (r, s')) s :=
    (wlp_iff _ _ _).mpr fun _ _ => id
  refine wpe_mono (wpe_and_wlp hs hrun) ?_ fun _ => id
  rintro r s' ⟨⟨hreject, heof⟩, hr'⟩
  refine ⟨hreject, heof, h.recv may hr' hreject, ?_⟩
  rintro ⟨bs, rs', rfl⟩
  exact ((wpe_of_ok hr').mp (recvLoop_reads (hg bs (by simp)) rs' s)).resolve_left heof

/-- In forward mode any bytes go. -/
theorem recvLoop_onward (L : Lawful E) (hsize : E.size ≠ 0)
    (hm : ∀ d, E.view s = some d → d.cstate = .forward ∧ E.Ready d) (hg : Goes rs) :
    wpe (recvLoop E rs) (fun r _ => r.why ≠ .reject ∧ r.why ≠ .eof) (fun f => f ≠ .overflow) s := by
  have hI : LoopInv E (fun _ _ rs s => (∀ d, E.view s = some d → d.cstate = .forward ∧ E.Ready d) ∧ Goes rs)
      (fun r _ => r.why ≠ .reject ∧ r.why ≠ .eof) (fun f => f ≠ .overflow) := by
    constructor
    case freed => simp
    case fails => simp
    case empty =>
      intro _ _ _ s d hI hv h0
      obtain ⟨hm, hr⟩ := hI.1 d hv
      exact absurd ((hr hm).2.symm.trans h0) hsize
    case eof =>
      intro _ _ _ s d hI hv
      exact absurd rfl (hI.2 [] (by simp))
    case overflow =>
      intro _ _ bs _ s d hI hv ho
      obtain ⟨hm, hr⟩ := hI.1 d hv
      obtain ⟨h0, hs⟩ := hr hm
      rw [List.length_take] at ho
      omega
    case read =>
      intro calls got bs rs s d hI hv hbs h0 _
      obtain ⟨hm, hr⟩ := hI.1 d hv
      have hput : ∀ d', E.view (E.put d' (E.onRead (bs.take d.stillneedtoread).length s)) = some d' := fun d' =>
        L.view_put d' ((L.view_onRead _ _).trans hv)
      simp only [Received, Decoder.recv_forward hm (hr hm).1]
      have hm' : ({ d with buff := d.buff.store 0 (bs.take d.stillneedtoread) } : Decoder).cstate = .forward := hm
      refine wpe_mono (L.onForward (hput _) hm' _) ?_ fun _ _ => by simp
      rintro (_ | code) s' hk
      · exact ⟨fun d' hd' => ⟨(hk d' hd').1, (hk d' hd').2 rfl fun _ => hr hm⟩, hI.2.unread _⟩
      · simp [Handled]
  exact recvLoop_rule hI ⟨hm, hg⟩

/-- **Segmentation.** -/
theorem Lawful.decodes (L : Lawful E) {max : ℕ} (hsize : E.size ≠ 0) (hhdr : E.fmt.hdrLen ≤ E.size)
    (hmax : max ≤ E.size) (hmay : ∀ s, May s → ∀ d, E.view s = some d → E.Ready d) : Decodes E May max where
  safe h₀ h may hws hg hw := by
    refine h.goes may hg (recvLoop_safe L ⟨hhdr, fun w hmem => ?_⟩
      (fun d hd => ⟨h.tracks L hmay h₀ d hd, hmay _ may d hd⟩) hg hw)
    exact ⟨(hws w hmem).1, (hws w hmem).2.trans hmax⟩
  onward h may hm hg := h.goes may hg (recvLoop_onward L hsize (fun d hd => ⟨hm d hd, hmay _ may d hd⟩) hg)
  complete h₀ hne h hd hm := (h.tracks L hmay h₀ _ hd).complete hm hne
  forwarded h₀ h hd hm hl := (h.tracks L hmay h₀ _ hd).forwarded_rest hm hl

end Segmentation

end HttpsTunnel.Lib

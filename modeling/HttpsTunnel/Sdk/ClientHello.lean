import HttpsTunnel.Lib.Buffer
import HttpsTunnel.Lib.Prog

/-! # The inspection of a ClientHello

`YMEUtils.cpp`: `DetactTlsClientHello` looks for the server name in the first bytes of a TLS stream.
It walks over the record with a cursor, the `PACKET`, that knows where it stands and how many bytes
are taken to be left.  The length fields it meets move the cursor on without a check.

The model keeps every value the packet has had.  A byte that is not there cannot be read, and the
loop over the extensions has fuel, so that a run that never ends is one that runs out of every fuel.
`hello_inspected_iff` says on which bytes the inspection ends, reads only bytes it was given and
keeps the packet in step with the record. -/

namespace HttpsTunnel.Sdk

open HttpsTunnel.Lib

/-! ### The packet -/

/-- A `PACKET`: where it is read next, and how many bytes are left. -/
structure Packet where
  curr : ℕ
  remaining : ℤ
deriving DecidableEq, Repr

/-- The local packet, and the values it has had. -/
structure Scan where
  pkt : Packet
  trail : List Packet
deriving DecidableEq, Repr

/-- Why an inspection stops early. -/
inductive Halt
  | overread
  | outOfFuel
deriving DecidableEq, Repr

/-- Programs over the local packet. -/
abbrev HelloM := Prog Scan Halt

/-- `curr += len; remaining -= len`, where the difference is taken in `size_t` and kept in an `int`. -/
def Packet.forward (q : Packet) (len : ℕ) : Packet := ⟨q.curr + len, Int.bmod (q.remaining - len) (2 ^ 32)⟩

/-- The packet gets a new value. -/
def Scan.put (s : Scan) (q : Packet) : Scan := ⟨q, s.trail ++ [q]⟩

def Scan.forward (s : Scan) (len : ℕ) : Scan := s.put (s.pkt.forward len)

/-- `packet_forward`. -/
def packetForward (len : ℕ) : HelloM Unit := modify fun s => s.forward len

section Operations

variable (bs : List UInt8)

/-- `start[i]`. -/
def byteAt (i : ℕ) : HelloM UInt8 :=
  match bs[i]? with
  | some b => pure b
  | none => throw .overread

/-- `PACKET_peek_1`, none if there is nothing left. -/
def peek1 : HelloM (Option UInt8) := do
  let q := (← get).pkt
  if q.remaining = 0 then pure none
  else
    let b ← byteAt bs q.curr
    pure (some b)

/-- `PACKET_get_1`. -/
def get1 : HelloM (Option UInt8) := do
  match ← peek1 bs with
  | none => pure none
  | some b =>
      packetForward 1
      pure (some b)

/-- `PACKET_peek_net_2`. -/
def peekNet2 : HelloM (Option ℕ) := do
  let q := (← get).pkt
  if q.remaining < 2 then pure none
  else
    let hi ← byteAt bs q.curr
    let lo ← byteAt bs (q.curr + 1)
    pure (some (ofBE16 hi lo))

/-- `PACKET_get_net_2`. -/
def getNet2 : HelloM (Option ℕ) := do
  match ← peekNet2 bs with
  | none => pure none
  | some n =>
      packetForward 2
      pure (some n)

/-- `PACKET_skip_field_1`. -/
def skipField1 : HelloM Bool := do
  match ← get1 bs with
  | none => pure false
  | some b =>
      packetForward b.toNat
      pure true

/-- `PACKET_skip_field_2`. -/
def skipField2 : HelloM Bool := do
  match ← peekNet2 bs with
  | none => pure false
  | some n =>
      packetForward (2 + n)
      pure true

/-- `PACKET_peek_copy_bytes`.  The comparison is one of `size_t`. -/
def peekCopyBytes (len : ℕ) : HelloM (Option (List UInt8)) := do
  let q := (← get).pkt
  if q.remaining % 2 ^ 64 < len then pure none
  else if ((bs.drop q.curr).take len).length < len then throw .overread
  else pure (some ((bs.drop q.curr).take len))

/-- `PACKET_copy_bytes`. -/
def copyBytes (len : ℕ) : HelloM (Option (List UInt8)) := do
  match ← peekCopyBytes bs len with
  | none => pure none
  | some data =>
      packetForward len
      pure (some data)

/-! ### The inspection -/

/-- The server name: what was copied to `host`, if anything, and `*hostlen`. -/
abbrev ServerName := Option (List UInt8) × ℕ

/-- The name of a server name extension; `tlen` is what the variable held before. -/
def readServerName (tlen : ℕ) : HelloM ServerName := do
  let n := (← getNet2 bs).getD tlen
  let host ← copyBytes bs n
  pure (host, n)

/-- `tls_parse_extension_host`, none if it returns 0; `type` and `tlen` are what the variables hold. -/
def tlsParseExtensionHost (tlen : ℕ) : ℕ → ℕ → HelloM (Option ServerName)
  | 0, _ => throw .outOfFuel
  | fuel + 1, type => do
      if 0 < (← get).pkt.remaining then
        let type' := (← getNet2 bs).getD type
        if type' = 0 then
          let name ← readServerName bs tlen
          pure (some name)
        else tlsParseExtensionHost tlen fuel type'
      else pure none

/-- What follows the three fields. -/
def readExtensions (fuel type tlen : ℕ) : HelloM (Option ServerName) := do
  if (← get).pkt.remaining = 0 then pure none
  else tlsParseExtensionHost bs tlen fuel type

/-- Session id, cipher suites and compression are skipped. -/
def skipFields (fuel type tlen : ℕ) : HelloM (Option ServerName) := do
  if ← skipField1 bs then
    if ← skipField2 bs then
      if ← skipField1 bs then readExtensions bs fuel type tlen
      else pure none
    else pure none
  else pure none

/-- Size of the random bytes. -/
def randomSize : ℕ := 0x20

/-- The walk over the record.  That the type or the version is missing is printed only. -/
def readHello (fuel type tlen : ℕ) : HelloM (Option ServerName) := do
  let _mt ← get1 bs
  let _legacyVersion ← getNet2 bs
  packetForward randomSize
  skipFields bs fuel type tlen

/-- The compiler pads `TlsHdr` and `CliHelloHdr` to 6 bytes each. -/
def hdrsSize : ℕ := 12

/-- The length of the record, as far as it was received.  It is read where `TlsHdr` has it. -/
def recordLen : ℕ := min (ofBE16 (bs.getD 4 0) (bs.getD 5 0)) ((bs.length - hdrsSize) % 2 ^ 32)

/-- `Connect::DetactTlsClientHello`, none if it returns -1.  Byte 36 is where
`(CliHelloHdr*) start + sizeof(TlsHdr)` points. -/
def detactTlsClientHello (fuel type tlen : ℕ) : HelloM (Option ServerName) := do
  if bs.length < 0x40 then pure none
  else
    let contentType ← byteAt bs 0
    if contentType ≠ 0x16 then pure none
    else
      let handshakeType ← byteAt bs 36
      if handshakeType = 1 then pure none
      else
        modify fun s => s.put ⟨hdrsSize, recordLen bs⟩
        readHello bs fuel type tlen

end Operations

/-! ### Bytes that are inspected safely -/

/-- The packet is not past the end `stop` of the record, and says how many bytes are left to it. -/
def Packet.Sound (stop : ℕ) (q : Packet) : Prop := 0 ≤ q.remaining ∧ q.curr + q.remaining = stop

/-- The inspection ends whatever the variables `type` and `tlen` held, reads only bytes of the packet, and
the packet is sound all the time. -/
def Inspected (bs : List UInt8) : Prop := ∀ type tlen, ∃ fuel,
  wp (detactTlsClientHello bs fuel type tlen) (fun _ s' => ∀ q ∈ s'.trail, q.Sound (hdrsSize + recordLen bs))
    ⟨⟨0, 0⟩, []⟩

/-- A field with a length of one byte lies in the bytes, if it is there at all, and what follows is `ok`. -/
def Field1Then (ok : List UInt8 → Prop) : List UInt8 → Prop
  | [] => True
  | d :: t => d.toNat ≤ t.length ∧ ok (t.drop d.toNat)

/-- A field with a length of two bytes. -/
def Field2Then (ok : List UInt8 → Prop) : List UInt8 → Prop
  | a :: b :: t => ofBE16 a b ≤ t.length ∧ ok (t.drop (ofBE16 a b))
  | _ => True

/-- Taken two by two, the bytes come to an end or to a pair of zeros. -/
def PairsEnd : List UInt8 → Prop
  | [] => True
  | [_] => False
  | a :: b :: t => ofBE16 a b = 0 ∨ PairsEnd t

/-- The fields of a ClientHello behind its random bytes: session id, cipher suites, compression, extensions. -/
def FieldsFit : List UInt8 → Prop := Field1Then (Field2Then (Field1Then PairsEnd))

/-- The bytes are not taken for a ClientHello, or have all the fields they announce. -/
def Benign (bs : List UInt8) : Prop :=
  bs.length < 0x40 ∨ bs[0]? ≠ some 0x16 ∨ bs[36]? = some 1 ∨
    35 ≤ recordLen bs ∧ FieldsFit ((bs.take (hdrsSize + recordLen bs)).drop (hdrsSize + 35))

/-! ### The packet on its record -/

/-- The packet has `rest` of the record before it. -/
structure On (bs : List UInt8) (stop : ℕ) (rest : List UInt8) (s : Scan) : Prop where
  small : rest.length < 2 ^ 16
  bytes : (bs.take stop).drop s.pkt.curr = rest
  remaining : s.pkt.remaining = rest.length
  stop_eq : s.pkt.curr + rest.length = stop
  sound : ∀ q ∈ s.trail, q.Sound stop

section Record

variable {bs rest t : List UInt8} {stop n : ℕ} {a b : UInt8} {s : Scan}

theorem bmod_eq_self {z : ℤ} (h : -2 ^ 31 ≤ z) (h' : z < 2 ^ 31) : Int.bmod z (2 ^ 32) = z := by
  rw [Int.bmod_eq_of_le] <;> omega

theorem On.forward_remaining (h : On bs stop rest s) (hn : n < 2 ^ 17) :
    (s.pkt.forward n).remaining = rest.length - n := by
  have hsmall := h.small
  show Int.bmod (s.pkt.remaining - n) (2 ^ 32) = _
  rw [h.remaining, bmod_eq_self (by omega) (by omega)]

theorem On.forward (h : On bs stop rest s) (hn : n ≤ rest.length) : On bs stop (rest.drop n) (s.forward n) := by
  have hlen : (rest.drop n).length = rest.length - n := List.length_drop
  have hsmall := h.small
  have hstop := h.stop_eq
  have hcurr : (s.forward n).pkt.curr = s.pkt.curr + n := rfl
  have hrem : (s.forward n).pkt.remaining = rest.length - n := h.forward_remaining (by omega)
  refine ⟨by omega, ?_, by omega, by omega, fun q hq => ?_⟩
  · rw [hcurr, ← h.bytes, List.drop_drop]
  · rcases List.mem_append.mp hq with hq | hq
    · exact h.sound q hq
    · rw [List.mem_singleton.mp hq]
      show 0 ≤ (s.forward n).pkt.remaining ∧ ((s.forward n).pkt.curr + (s.forward n).pkt.remaining : ℤ) = stop
      omega

/-- The cursor is moved past the end of the record. -/
theorem On.forward_past (h : On bs stop rest s) (hn : rest.length < n) (hn' : n < 2 ^ 17) :
    ¬ ∀ q ∈ (s.forward n).trail, q.Sound stop := by
  intro hall
  have h0 : 0 ≤ (s.pkt.forward n).remaining := (hall _ (List.mem_append_right _ List.mem_cons_self)).1
  rw [h.forward_remaining hn'] at h0
  omega

theorem On.getElem? (h : On bs stop rest s) {i : ℕ} (hi : i < rest.length) : bs[s.pkt.curr + i]? = rest[i]? := by
  have hstop := h.stop_eq
  rw [← h.bytes, List.getElem?_drop, List.getElem?_take_of_lt (by omega)]

theorem byteAt_of_getElem? {i : ℕ} (h : bs[i]? = some a) : byteAt bs i s = .ok (a, s) := by
  rw [byteAt, h]
  rfl

/-! What the operations do, for the packet on its record. -/

theorem get1_nil (h : On bs stop [] s) : get1 bs s = .ok (none, s) := by
  have hrem : s.pkt.remaining = 0 := h.remaining
  rw [get1, run_bind, peek1, run_get_bind, if_pos hrem]
  rfl

theorem get1_cons (h : On bs stop (b :: t) s) : get1 bs s = .ok (some b, s.forward 1) := by
  have hrem : s.pkt.remaining ≠ 0 := by
    rw [h.remaining, List.length_cons]
    omega
  have hb : bs[s.pkt.curr]? = some b := h.getElem? (i := 0) (by simp)
  rw [get1, run_bind, peek1, run_get_bind, if_neg hrem, run_bind, byteAt_of_getElem? hb]
  rfl

theorem peekNet2_short (h : On bs stop rest s) (hlen : rest.length < 2) : peekNet2 bs s = .ok (none, s) := by
  have hrem : s.pkt.remaining < 2 := by
    rw [h.remaining]
    omega
  rw [peekNet2, run_get_bind, if_pos hrem]
  rfl

theorem peekNet2_cons (h : On bs stop (a :: b :: t) s) : peekNet2 bs s = .ok (some (ofBE16 a b), s) := by
  have hrem : ¬ s.pkt.remaining < 2 := by
    rw [h.remaining, List.length_cons, List.length_cons]
    omega
  have ha : bs[s.pkt.curr]? = some a := h.getElem? (i := 0) (by simp)
  have hb : bs[s.pkt.curr + 1]? = some b := h.getElem? (i := 1) (by simp)
  rw [peekNet2, run_get_bind, if_neg hrem, run_bind, byteAt_of_getElem? ha]
  show (byteAt bs (s.pkt.curr + 1) >>= _) s = _
  rw [run_bind, byteAt_of_getElem? hb]
  rfl

theorem getNet2_short (h : On bs stop rest s) (hlen : rest.length < 2) : getNet2 bs s = .ok (none, s) := by
  rw [getNet2, run_bind, peekNet2_short h hlen]
  rfl

theorem getNet2_cons (h : On bs stop (a :: b :: t) s) :
    getNet2 bs s = .ok (some (ofBE16 a b), s.forward 2) := by
  rw [getNet2, run_bind, peekNet2_cons h]
  rfl

theorem skipField1_nil (h : On bs stop [] s) : skipField1 bs s = .ok (false, s) := by
  rw [skipField1, run_bind, get1_nil h]
  rfl

theorem skipField1_cons (h : On bs stop (b :: t) s) :
    skipField1 bs s = .ok (true, (s.forward 1).forward b.toNat) := by
  rw [skipField1, run_bind, get1_cons h]
  rfl

theorem skipField2_short (h : On bs stop rest s) (hlen : rest.length < 2) : skipField2 bs s = .ok (false, s) := by
  rw [skipField2, run_bind, peekNet2_short h hlen]
  rfl

theorem skipField2_cons (h : On bs stop (a :: b :: t) s) :
    skipField2 bs s = .ok (true, s.forward (2 + ofBE16 a b)) := by
  rw [skipField2, run_bind, peekNet2_cons h]
  rfl

theorem copyBytes_long (h : On bs stop rest s) (hn : rest.length < n) : copyBytes bs n s = .ok (none, s) := by
  have hsmall := h.small
  have hrem : s.pkt.remaining % 2 ^ 64 < n := by
    rw [h.remaining]
    omega
  rw [copyBytes, run_bind, peekCopyBytes, run_get_bind, if_pos hrem]
  rfl

theorem copyBytes_fits (h : On bs stop rest s) (hn : n ≤ rest.length) :
    copyBytes bs n s = .ok (some ((bs.drop s.pkt.curr).take n), s.forward n) := by
  have hsmall := h.small
  have hrem : ¬ s.pkt.remaining % 2 ^ 64 < n := by
    rw [h.remaining]
    omega
  have hlen : ¬ ((bs.drop s.pkt.curr).take n).length < n := by
    have hl : rest.length ≤ (bs.drop s.pkt.curr).length := by
      rw [← h.bytes, List.length_drop, List.length_drop, List.length_take]
      omega
    rw [List.length_take]
    omega
  rw [copyBytes, run_bind, peekCopyBytes, run_get_bind, if_neg hrem, if_neg hlen]
  rfl

end Record

/-! ### The trail only grows -/

/-- The packet has had at least the values it had before. -/
def Longer (s s' : Scan) : Prop := s.trail <+: s'.trail

instance : Std.Refl Longer := ⟨fun _ => List.prefix_rfl⟩

instance : IsTrans Scan Longer := ⟨fun _ _ _ => List.IsPrefix.trans⟩

section Longer

variable (bs : List UInt8)

theorem packetForward_longer (n : ℕ) : Does Longer (packetForward n) := .modify fun _ => List.prefix_append ..

theorem byteAt_longer (i : ℕ) : Does Longer (byteAt bs i) := by
  rw [byteAt]
  split
  · exact .pure _
  · exact .throw _

theorem get1_longer : Does Longer (get1 bs) := by
  have hpeek : Does Longer (peek1 bs) :=
    .get_bind fun _ => .ite (.pure _) (.ret (byteAt_longer bs _))
  refine .bind hpeek fun o => ?_
  cases o with
  | none => exact .pure _
  | some b => exact .ret (packetForward_longer 1)

theorem peekNet2_longer : Does Longer (peekNet2 bs) :=
  .get_bind fun _ => .ite (.pure _) (.seq (byteAt_longer bs _) <| .ret (byteAt_longer bs _))

theorem getNet2_longer : Does Longer (getNet2 bs) := by
  refine .bind (peekNet2_longer bs) fun o => ?_
  cases o with
  | none => exact .pure _
  | some n => exact .ret (packetForward_longer 2)

theorem skipField1_longer : Does Longer (skipField1 bs) := by
  refine .bind (get1_longer bs) fun o => ?_
  cases o with
  | none => exact .pure _
  | some b => exact .ret (packetForward_longer _)

theorem skipField2_longer : Does Longer (skipField2 bs) := by
  refine .bind (peekNet2_longer bs) fun o => ?_
  cases o with
  | none => exact .pure _
  | some n => exact .ret (packetForward_longer _)

theorem copyBytes_longer (n : ℕ) : Does Longer (copyBytes bs n) := by
  have hpeek : Does Longer (peekCopyBytes bs n) := .get_bind fun _ => .ite (.pure _) (.ite (.throw _) (.pure _))
  refine .bind hpeek fun o => ?_
  cases o with
  | none => exact .pure _
  | some data => exact .ret (packetForward_longer n)

theorem tlsParseExtensionHost_longer (tlen fuel type : ℕ) :
    Does Longer (tlsParseExtensionHost bs tlen fuel type) := by
  induction fuel generalizing type with
  | zero => exact .throw _
  | succ fuel ih =>
      have hname : Does Longer (readServerName bs tlen) :=
        .seq (getNet2_longer bs) <| .ret (copyBytes_longer bs _)
      exact .get_bind fun _ => .ite (.seq (getNet2_longer bs) <|
        .ite (.ret hname) (ih _)) (.pure _)

theorem readExtensions_longer (fuel type tlen : ℕ) : Does Longer (readExtensions bs fuel type tlen) :=
  .get_bind fun _ => .ite (.pure _) (tlsParseExtensionHost_longer bs tlen fuel type)

end Longer

/-! ### Steps of an inspection -/

/-- The program returns, and the packet has been sound. -/
def Good {α : Type} (stop : ℕ) (x : HelloM α) (s : Scan) : Prop :=
  wp x (fun _ s' => ∀ q ∈ s'.trail, q.Sound stop) s

/-- The program does so whatever the two variables held, if it has fuel. -/
def Ends {α : Type} (stop : ℕ) (x : ℕ → ℕ → ℕ → HelloM α) (s : Scan) : Prop :=
  ∀ type tlen, ∃ fuel, Good stop (x fuel type tlen) s

section Steps

variable {α β : Type} {bs rest : List UInt8} {stop : ℕ} {s s' : Scan} {ok : List UInt8 → Prop}

theorem Good.sound {x : HelloM α} (h : Good stop x s) (hx : Does Longer x) : ∀ q ∈ s.trail, q.Sound stop := by
  obtain ⟨a, s', hrun, hs'⟩ := (wp_iff _ _ _).mp h
  exact fun q hq => hs' q ((hx.run hrun).subset hq)

theorem good_bind {x : HelloM α} {f : α → HelloM β} {a : α} (hx : x s = .ok (a, s')) :
    Good stop (x >>= f) s ↔ Good stop (f a) s' := by
  rw [Good, wp, wpe_bind, wpe_of_ok hx, Good]

theorem ends_bind {x : HelloM α} {k : α → ℕ → ℕ → ℕ → HelloM β} {a : α} (hx : x s = .ok (a, s')) :
    Ends stop (fun fuel type tlen => x >>= fun a => k a fuel type tlen) s ↔ Ends stop (k a) s' := by
  simp only [Ends, good_bind hx]

theorem not_ends {x : ℕ → ℕ → ℕ → HelloM α} (hx : ∀ fuel type tlen, Does Longer (x fuel type tlen))
    (hs : ¬ ∀ q ∈ s.trail, q.Sound stop) : ¬ Ends stop x s := by
  intro h
  obtain ⟨fuel, hgood⟩ := h 0 0
  exact hs (hgood.sound (hx _ _ _))

theorem ends_pure (a : α) (h : On bs stop rest s) : Ends stop (fun _ _ _ => (pure a : HelloM α)) s :=
  fun _ _ => ⟨0, h.sound⟩

variable {k : ℕ → ℕ → ℕ → HelloM (Option ServerName)}

/-- A field of one byte's length is skipped. -/
theorem ends_skipField1 (hk : ∀ fuel type tlen, Does Longer (k fuel type tlen))
    (hok : ∀ rest s, On bs stop rest s → (Ends stop k s ↔ ok rest)) (h : On bs stop rest s) :
    Ends stop (fun fuel type tlen => do if ← skipField1 bs then k fuel type tlen else pure none) s ↔
      Field1Then ok rest := by
  cases rest with
  | nil =>
      refine (ends_bind (k := fun b fuel type tlen => if b = true then k fuel type tlen else pure none)
        (skipField1_nil h)).trans ?_
      exact iff_of_true (ends_pure none h) trivial
  | cons d t =>
      refine (ends_bind (k := fun b fuel type tlen => if b = true then k fuel type tlen else pure none)
        (skipField1_cons h)).trans ?_
      have h1 : On bs stop t (s.forward 1) := h.forward (n := 1) (by simp)
      show Ends stop k _ ↔ _
      by_cases hd : d.toNat ≤ t.length
      · rw [hok _ _ (h1.forward hd), Field1Then, and_iff_right hd]
      · refine iff_of_false (not_ends hk (h1.forward_past (by omega) ?_)) fun hf => hd hf.1
        have hlt := d.toNat_lt
        omega

/-- A field of two bytes' length is skipped. -/
theorem ends_skipField2 (hk : ∀ fuel type tlen, Does Longer (k fuel type tlen))
    (hok : ∀ rest s, On bs stop rest s → (Ends stop k s ↔ ok rest)) (h : On bs stop rest s) :
    Ends stop (fun fuel type tlen => do if ← skipField2 bs then k fuel type tlen else pure none) s ↔
      Field2Then ok rest := by
  have hshort : rest.length < 2 → (Ends stop (fun fuel type tlen => do
      if ← skipField2 bs then k fuel type tlen else pure none) s ↔ True) := fun hlen =>
    (ends_bind (k := fun b fuel type tlen => if b = true then k fuel type tlen else pure none)
      (skipField2_short h hlen)).trans (iff_of_true (ends_pure none h) trivial)
  rcases rest with _ | ⟨a, _ | ⟨b, t⟩⟩
  · exact hshort (by decide)
  · exact hshort (by simp)
  · refine (ends_bind (k := fun b fuel type tlen => if b = true then k fuel type tlen else pure none)
      (skipField2_cons h)).trans ?_
    show Ends stop k _ ↔ _
    by_cases hd : ofBE16 a b ≤ t.length
    · have hdrop : (a :: b :: t).drop (2 + ofBE16 a b) = t.drop (ofBE16 a b) := by
        rw [Nat.add_comm]
        rfl
      have hon := h.forward (n := 2 + ofBE16 a b) (by simp only [List.length_cons]; omega)
      rw [hok _ _ (hdrop ▸ hon), Field2Then, and_iff_right hd]
    · refine iff_of_false (not_ends hk (h.forward_past ?_ ?_)) fun hf => hd hf.1
      · simp only [List.length_cons]
        omega
      · have hlt := a.toNat_lt
        have hlt' := b.toNat_lt
        rw [ofBE16]
        omega

end Steps

/-! ### The extensions -/

section Extensions

variable {bs rest : List UInt8} {stop type tlen : ℕ} {s : Scan}

/-- The name is copied only if it is there. -/
theorem good_readServerName (h : On bs stop rest s) {f : ServerName → HelloM (Option ServerName)}
    (hf : ∀ name, f name = pure (some name)) : Good stop (readServerName bs tlen >>= f) s := by
  have hcopy : ∀ (n : ℕ) {rest' : List UInt8} {s' : Scan}, On bs stop rest' s' →
      Good stop (copyBytes bs n >>= fun host => f (host, n)) s' := by
    intro n rest' s' h'
    by_cases hn : n ≤ rest'.length
    · rw [good_bind (copyBytes_fits h' hn), hf]
      exact (h'.forward hn).sound
    · rw [good_bind (copyBytes_long h' (by omega)), hf]
      exact h'.sound
  have hassoc : readServerName bs tlen >>= f =
      getNet2 bs >>= fun o => copyBytes bs (o.getD tlen) >>= fun host => f (host, o.getD tlen) := by
    simp only [readServerName, bind_assoc, pure_bind]
  rw [hassoc]
  by_cases hlen : rest.length < 2
  · rw [good_bind (getNet2_short h hlen)]
    exact hcopy _ h
  · rcases rest with _ | ⟨a, _ | ⟨b, t⟩⟩
    · exact absurd (by decide) hlen
    · exact absurd (by simp) hlen
    · rw [good_bind (getNet2_cons h)]
      exact hcopy _ (h.forward (n := 2) (by simp))

/-- One round of the loop over two bytes. -/
theorem good_parse_cons {a b : UInt8} {t : List UInt8} (h : On bs stop (a :: b :: t) s) (fuel type : ℕ) :
    Good stop (tlsParseExtensionHost bs tlen (fuel + 1) type) s ↔
      ofBE16 a b = 0 ∨ Good stop (tlsParseExtensionHost bs tlen fuel (ofBE16 a b)) (s.forward 2) := by
  have hpos : 0 < s.pkt.remaining := by
    rw [h.remaining, List.length_cons]
    omega
  have ht : On bs stop t (s.forward 2) := h.forward (n := 2) (by simp)
  rw [tlsParseExtensionHost, Good, wp, wpe_bind, wpe_get, if_pos hpos]
  refine (good_bind (getNet2_cons h)).trans ?_
  rw [Option.getD_some]
  by_cases h0 : ofBE16 a b = 0
  · rw [if_pos h0]
    exact iff_of_true (good_readServerName ht fun _ => rfl) (.inl h0)
  · rw [if_neg h0, or_iff_right h0]

theorem good_parse_nil (h : On bs stop [] s) (fuel type : ℕ) :
    Good stop (tlsParseExtensionHost bs tlen (fuel + 1) type) s := by
  have hpos : ¬ 0 < s.pkt.remaining := by
    rw [h.remaining]
    simp
  rw [tlsParseExtensionHost, Good, wp, wpe_bind, wpe_get, if_neg hpos]
  exact h.sound

/-- With one byte left the type is not read again, and the loop goes on forever. -/
theorem parse_single {b : UInt8} (h : On bs stop [b] s) (htype : type ≠ 0) (fuel : ℕ) :
    tlsParseExtensionHost bs tlen fuel type s = .error .outOfFuel := by
  induction fuel with
  | zero => rfl
  | succ fuel ih =>
      have hpos : 0 < s.pkt.remaining := by
        rw [h.remaining]
        simp
      rw [tlsParseExtensionHost, run_get_bind, if_pos hpos, run_bind, getNet2_short h (by simp)]
      show (if type = 0 then _ else tlsParseExtensionHost bs tlen fuel type) s = _
      rw [if_neg htype, ih]

/-- The loop comes to an end exactly if the pairs do. -/
theorem exists_good_parse_iff (htype : type ≠ 0) (h : On bs stop rest s) :
    (∃ fuel, Good stop (tlsParseExtensionHost bs tlen fuel type) s) ↔ PairsEnd rest := by
  -- two bytes a round, as `PairsEnd` takes them
  induction rest using PairsEnd.induct generalizing s type with
  | case1 => exact iff_of_true ⟨1, good_parse_nil h 0 type⟩ trivial
  | case2 b =>
      refine iff_of_false ?_ id
      rintro ⟨fuel, hgood⟩
      rw [Good, wp, wpe, parse_single h htype] at hgood
      exact hgood
  | case3 a b t ih =>
      rw [PairsEnd]
      have ht : On bs stop t (s.forward 2) := h.forward (n := 2) (by simp)
      by_cases h0 : ofBE16 a b = 0
      · exact iff_of_true ⟨1, (good_parse_cons h 0 type).mpr (.inl h0)⟩ (.inl h0)
      · rw [or_iff_right h0, ← ih h0 ht]
        constructor
        · rintro ⟨fuel, hgood⟩
          cases fuel with
          | zero => exact absurd hgood id
          | succ fuel => exact ⟨fuel, ((good_parse_cons h fuel type).mp hgood).resolve_left h0⟩
        · rintro ⟨fuel, hgood⟩
          exact ⟨fuel + 1, (good_parse_cons h fuel type).mpr (.inr hgood)⟩

theorem ends_readExtensions (h : On bs stop rest s) : Ends stop (readExtensions bs) s ↔ PairsEnd rest := by
  cases rest with
  | nil =>
      have hrem : s.pkt.remaining = 0 := h.remaining
      refine iff_of_true (fun type tlen => ⟨0, ?_⟩) trivial
      rw [readExtensions, Good, wp, wpe_bind, wpe_get, if_pos hrem]
      exact h.sound
  | cons a t =>
      have hrem : s.pkt.remaining ≠ 0 := by
        rw [h.remaining, List.length_cons]
        omega
      have hparse : ∀ fuel type tlen, Good stop (readExtensions bs fuel type tlen) s ↔
          Good stop (tlsParseExtensionHost bs tlen fuel type) s := fun fuel type tlen => by
        rw [readExtensions, Good, wp, wpe_bind, wpe_get, if_neg hrem, Good]
      simp only [Ends, hparse]
      refine ⟨fun hall => (exists_good_parse_iff Nat.one_ne_zero h).mp (hall 1 0), fun hend type tlen => ?_⟩
      cases t with
      | nil => exact absurd hend id
      | cons b t =>
          -- the first round reads the type, so what the variable held does not matter
          obtain ⟨fuel, hgood⟩ : ∃ fuel, Good stop (tlsParseExtensionHost bs tlen fuel 1) s :=
            (exists_good_parse_iff Nat.one_ne_zero h).mpr hend
          cases fuel with
          | zero => exact absurd hgood id
          | succ fuel => exact ⟨fuel + 1, (good_parse_cons h fuel type).mpr ((good_parse_cons h fuel 1).mp hgood)⟩

end Extensions

/-! ### The whole inspection -/

section Hello

variable {bs rest : List UInt8} {stop : ℕ} {s : Scan}

theorem ends_skipFields (h : On bs stop rest s) : Ends stop (skipFields bs) s ↔ FieldsFit rest := by
  have hext := readExtensions_longer bs
  have h3 : ∀ fuel type tlen, Does Longer (do
      if ← skipField1 bs then readExtensions bs fuel type tlen else pure none) := fun fuel type tlen =>
    .seq (skipField1_longer bs) <| .ite (hext fuel type tlen) (.pure _)
  have h2 : ∀ fuel type tlen, Does Longer (do
      if ← skipField2 bs then (do if ← skipField1 bs then readExtensions bs fuel type tlen else pure none)
      else pure none) := fun fuel type tlen =>
    .seq (skipField2_longer bs) <| .ite (h3 fuel type tlen) (.pure _)
  refine ends_skipField1 h2 (fun _ _ h' => ?_) h
  refine ends_skipField2 h3 (fun _ _ h'' => ?_) h'
  exact ends_skipField1 hext (fun _ _ => ends_readExtensions) h''

theorem skipFields_longer (fuel type tlen : ℕ) : Does Longer (skipFields bs fuel type tlen) :=
  .seq (skipField1_longer bs) <| .ite (.seq (skipField2_longer bs) <|
    .ite (.seq (skipField1_longer bs) <| .ite (readExtensions_longer bs fuel type tlen) (.pure _)) (.pure _))
    (.pure _)

theorem get1_on (h : On bs stop rest s) : ∃ o s', get1 bs s = .ok (o, s') ∧ On bs stop (rest.drop 1) s' := by
  cases rest with
  | nil => exact ⟨none, s, get1_nil h, h⟩
  | cons b t => exact ⟨some b, s.forward 1, get1_cons h, h.forward (n := 1) (by simp)⟩

theorem getNet2_on (h : On bs stop rest s) : ∃ o s' rest', getNet2 bs s = .ok (o, s') ∧ On bs stop rest' s' ∧
    rest' = if rest.length < 2 then rest else rest.drop 2 := by
  split_ifs with hlen
  · exact ⟨none, s, rest, getNet2_short h hlen, h, rfl⟩
  · rcases rest with _ | ⟨a, _ | ⟨b, t⟩⟩
    · exact absurd (by decide) hlen
    · exact absurd (by simp) hlen
    · exact ⟨_, s.forward 2, t, getNet2_cons h, h.forward (n := 2) (by simp), rfl⟩

theorem ends_readHello (h : On bs stop rest s) :
    Ends stop (readHello bs) s ↔ 35 ≤ rest.length ∧ FieldsFit (rest.drop 35) := by
  obtain ⟨mt, s₁, hget, h₁⟩ := get1_on h
  obtain ⟨version, s₂, rest', hnet, h₂, hrest'⟩ := getNet2_on h₁
  have hstep : Ends stop (readHello bs) s ↔ Ends stop (skipFields bs) (s₂.forward randomSize) := by
    refine (ends_bind hget).trans ((ends_bind hnet).trans ?_)
    exact ends_bind (x := packetForward randomSize) (k := fun _ => skipFields bs) rfl
  rw [hstep]
  rw [List.length_drop] at hrest'
  by_cases hlen : 35 ≤ rest.length
  · rw [if_neg (by omega), List.drop_drop] at hrest'
    have hfit : randomSize ≤ rest'.length := by
      rw [hrest', List.length_drop, randomSize]
      omega
    have h₃ := h₂.forward hfit
    rw [hrest', List.drop_drop] at h₃
    exact (ends_skipFields h₃).trans (and_iff_right hlen).symm
  · have hpast : rest'.length < randomSize := by
      rw [hrest', randomSize]
      split_ifs <;> simp only [List.length_drop] <;> omega
    exact iff_of_false (not_ends skipFields_longer (h₂.forward_past hpast (by decide))) fun hf => hlen hf.1

theorem ofBE16_lt (a b : UInt8) : ofBE16 a b < 2 ^ 16 := by
  have ha := a.toNat_lt
  have hb := b.toNat_lt
  rw [ofBE16]
  omega

/-- The packet is set up at the start of the record. -/
theorem on_record (bs : List UInt8) (s : Scan) (h : 0x40 ≤ bs.length) (htrail : s.trail = []) :
    On bs (hdrsSize + recordLen bs) ((bs.take (hdrsSize + recordLen bs)).drop hdrsSize)
      (s.put ⟨hdrsSize, recordLen bs⟩) := by
  have hle : recordLen bs ≤ bs.length - hdrsSize := (min_le_right _ _).trans (Nat.mod_le _ _)
  have hlt : recordLen bs < 2 ^ 16 := (min_le_left _ _).trans_lt (ofBE16_lt _ _)
  have hhdr : hdrsSize = 12 := rfl
  have hlen : ((bs.take (hdrsSize + recordLen bs)).drop hdrsSize).length = recordLen bs := by
    rw [List.length_drop, List.length_take]
    omega
  refine ⟨by omega, rfl, by rw [hlen]; rfl, by rw [hlen]; rfl, fun q hq => ?_⟩
  rw [Scan.put, htrail, List.nil_append, List.mem_singleton] at hq
  rw [hq]
  exact ⟨Int.natCast_nonneg _, (Nat.cast_add _ _).symm⟩

/-- **An inspection is safe** exactly on bytes that are not taken for a ClientHello or hold all the fields
they announce, with extensions that end two by two or at a pair of zeros. -/
theorem hello_inspected_iff (bs : List UInt8) : Inspected bs ↔ Benign bs := by
  show Ends (hdrsSize + recordLen bs) (detactTlsClientHello bs) ⟨⟨0, 0⟩, []⟩ ↔ _
  have hrefused : Good (hdrsSize + recordLen bs) (pure none : HelloM (Option ServerName)) ⟨⟨0, 0⟩, []⟩ :=
    fun q hq => absurd hq List.not_mem_nil
  by_cases hlen : bs.length < 0x40
  · refine iff_of_true (fun type tlen => ⟨0, ?_⟩) (.inl hlen)
    rw [detactTlsClientHello, if_pos hlen]
    exact hrefused
  · obtain ⟨c, hc⟩ : ∃ c, bs[0]? = some c := ⟨_, List.getElem?_eq_getElem (by omega)⟩
    obtain ⟨t, ht⟩ : ∃ t, bs[36]? = some t := ⟨_, List.getElem?_eq_getElem (by omega)⟩
    have hon := on_record bs ⟨⟨0, 0⟩, []⟩ (by omega) rfl
    have hrecord : ((bs.take (hdrsSize + recordLen bs)).drop hdrsSize).length = recordLen bs :=
      Nat.add_left_cancel hon.stop_eq
    rw [Benign, or_iff_right hlen, hc, ht, Option.some.injEq, ne_eq, Option.some.injEq]
    by_cases hc' : c = 0x16
    · by_cases ht' : t = 1
      · refine iff_of_true (fun type tlen => ⟨0, ?_⟩) (.inr (.inl ht'))
        rw [detactTlsClientHello, if_neg hlen, good_bind (byteAt_of_getElem? hc), if_neg (not_not_intro hc'),
          good_bind (byteAt_of_getElem? ht), if_pos ht']
        exact hrefused
      · have hwalk : ∀ fuel type tlen,
            Good (hdrsSize + recordLen bs) (detactTlsClientHello bs fuel type tlen) ⟨⟨0, 0⟩, []⟩ ↔
            Good (hdrsSize + recordLen bs) (readHello bs fuel type tlen)
              (Scan.put ⟨⟨0, 0⟩, []⟩ ⟨hdrsSize, recordLen bs⟩) := fun fuel type tlen => by
          rw [detactTlsClientHello, if_neg hlen, good_bind (byteAt_of_getElem? hc), if_neg (not_not_intro hc'),
            good_bind (byteAt_of_getElem? ht), if_neg ht']
          exact good_bind rfl
        have hends := ends_readHello hon
        rw [hrecord, List.drop_drop] at hends
        rw [or_iff_right (not_not_intro hc'), or_iff_right ht', ← hends]
        simp only [Ends, hwalk]
    · refine iff_of_true (fun type tlen => ⟨0, ?_⟩) (.inl hc')
      rw [detactTlsClientHello, if_neg hlen, good_bind (byteAt_of_getElem? hc), if_pos hc']
      exact hrefused

end Hello

/-- A record of no bytes. -/
def emptyRecord : List UInt8 := 0x16 :: List.replicate 63 0

/-- Empty fields and three bytes of extensions. -/
def oddHello : List UInt8 := [0x16, 0, 0, 0, 0, 42] ++ List.replicate 46 0 ++ [1] ++ List.replicate 11 0

/-- **The packet runs past the record, and the inspection does not end**: the random bytes are skipped in a
record that has none, and the last of three bytes of extensions is waited for forever. -/
theorem hello_past_or_endless :
    (detactTlsClientHello emptyRecord 0 0 0 ⟨⟨0, 0⟩, []⟩).map (fun r => r.2.trail) =
      .ok [⟨12, 0⟩, ⟨44, -32⟩, ⟨45, -33⟩, ⟨45, -33⟩] ∧
    ∀ fuel type tlen, detactTlsClientHello oddHello fuel type tlen ⟨⟨0, 0⟩, []⟩ = .error .outOfFuel := by
  refine ⟨by decide, fun fuel type tlen => ?_⟩
  let trail : List Packet := [⟨12, 42⟩, ⟨13, 41⟩, ⟨15, 39⟩, ⟨47, 7⟩, ⟨48, 6⟩, ⟨48, 6⟩, ⟨50, 4⟩, ⟨51, 3⟩, ⟨51, 3⟩]
  have hwalk : detactTlsClientHello oddHello fuel type tlen ⟨⟨0, 0⟩, []⟩ =
      tlsParseExtensionHost oddHello tlen fuel type ⟨⟨51, 3⟩, trail⟩ := rfl
  have hon : On oddHello 54 [0] ⟨⟨53, 1⟩, trail ++ [⟨53, 1⟩]⟩ :=
    ⟨by decide, by decide, rfl, rfl, by simp [trail, Packet.Sound]⟩
  rw [hwalk]
  cases fuel with
  | zero => rfl
  | succ fuel =>
      have hround : tlsParseExtensionHost oddHello tlen (fuel + 1) type ⟨⟨51, 3⟩, trail⟩ =
          tlsParseExtensionHost oddHello tlen fuel 1 ⟨⟨53, 1⟩, trail ++ [⟨53, 1⟩]⟩ := rfl
      rw [hround, parse_single hon Nat.one_ne_zero]

end HttpsTunnel.Sdk

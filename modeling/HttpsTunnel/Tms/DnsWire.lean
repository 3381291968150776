import HttpsTunnel.Tms.Dns

/-! # Names and responses on the wire

What `req_fill` writes and `res_parse` makes of it.  A name is a list of labels; it is written as the labels, each
after its length, and an empty one.

* `dnsName_roundTrip`: the parser reads back the name of a query.
* `resParse_response_iff`: which responses it reads correctly.  The loop over the answers counts a record only if it
  is of type 1 and has no address, so it runs past the last record unless it finds an address or all records are
  of type 1. -/

namespace HttpsTunnel.Tms

open HttpsTunnel.Lib HttpsTunnel.Wire

/-! ### Names -/

structure Label where
  bytes : Host
  nonempty : bytes ≠ []
  short : bytes.length ≤ 63

/-- A label after its length. -/
def Label.wire (l : Label) : List UInt8 := UInt8.ofNat l.bytes.length :: l.bytes

/-- The labels and the empty one. -/
def wireName (ls : List Label) : List UInt8 := ls.flatMap Label.wire ++ [0]

/-- The labels with dots between them. -/
def dotted : List Label → Host
  | [] => []
  | l :: ls => l.bytes ++ ls.flatMap fun l => dot :: l.bytes

/-- A host name as one can ask for it. -/
structure HostName where
  labels : List Label
  nonempty : labels ≠ []
  noDot : ∀ l ∈ labels, dot ∉ l.bytes
  short : (dotted labels).length ≤ 253

def HostName.text (n : HostName) : Host := dotted n.labels

theorem length_flatMap_wire (ls : List Label) :
    (ls.flatMap Label.wire).length = (ls.flatMap fun l => dot :: l.bytes).length := by
  induction ls with
  | nil => rfl
  | cons l ls ih => simp [Label.wire, ih]

theorem length_wireName {ls : List Label} (h : ls ≠ []) : (wireName ls).length = (dotted ls).length + 2 := by
  cases ls with
  | nil => exact absurd rfl h
  | cons l ls =>
      simp only [wireName, dotted, Label.wire, List.flatMap_cons, List.length_append, List.length_cons,
        List.length_nil, length_flatMap_wire]
      omega

theorem length_le_wireName (ls : List Label) : ls.length < (wireName ls).length := by
  induction ls with
  | nil => simp [wireName]
  | cons l ls ih =>
      simp only [wireName, Label.wire, List.flatMap_cons, List.length_append, List.length_cons] at ih ⊢
      omega

/-! ### Queries -/

/-- Bytes without a dot go into the current label. -/
theorem fillName_append {xs : Host} (h : dot ∉ xs) (ys sec : Host) :
    fillName (xs ++ ys) sec = fillName ys (sec ++ xs) := by
  induction xs generalizing sec with
  | nil => simp
  | cons x xs ih =>
      have hx : x ≠ dot := fun he => h (by simp [he])
      have hxs : dot ∉ xs := fun hm => h (by simp [hm])
      rw [List.cons_append, fillName, if_neg hx, ih hxs, List.append_assoc, List.singleton_append]

theorem fillName_labels {ls : List Label} (h : ∀ l ∈ ls, dot ∉ l.bytes) (sec : Host) :
    fillName (ls.flatMap fun l => dot :: l.bytes) sec =
      UInt8.ofNat sec.length :: sec ++ ls.flatMap Label.wire := by
  induction ls generalizing sec with
  | nil => simp [fillName]
  | cons l ls ih =>
      rw [List.flatMap_cons, List.cons_append, fillName, if_pos rfl, fillName_append (h l (by simp)), List.nil_append,
        ih fun l' hl' => h l' (by simp [hl']), List.flatMap_cons]
      rfl

theorem fillName_dotted {ls : List Label} (hne : ls ≠ []) (h : ∀ l ∈ ls, dot ∉ l.bytes) :
    fillName (dotted ls) [] = ls.flatMap Label.wire := by
  cases ls with
  | nil => exact absurd rfl hne
  | cons l ls =>
      rw [dotted, fillName_append (h l (by simp)), List.nil_append,
        fillName_labels fun l' hl' => h l' (by simp [hl']), List.flatMap_cons]
      rfl

/-- The header of a query. -/
def queryHeader (rv : ℕ) : List UInt8 :=
  toLE 2 ((rv >>> 16) ^^^ (rv ||| 0xffff)) ++ [1, 0, 0, 1, 0, 0, 0, 0, 0, 0]

theorem reqFill_hostName (rv : ℕ) (n : HostName) :
    reqFill rv n.text = queryHeader rv ++ (wireName n.labels ++ [0, 1, 0, 1]) := by
  rw [reqFill, HostName.text, fillName_dotted n.nonempty n.noDot, wireName, queryHeader]
  simp

/-! ### Reading names -/

theorem foldl_appendLabel (ls : List Label) {s : Host} (hs : s ≠ []) :
    ls.foldl (fun s l => appendLabel s l.bytes) s = s ++ ls.flatMap fun l => dot :: l.bytes := by
  induction ls generalizing s with
  | nil => simp
  | cons l ls ih =>
      rw [List.foldl_cons, appendLabel, if_neg hs, ih (by simp), List.flatMap_cons]
      simp

/-- The labels put together are the dotted name. -/
theorem foldl_appendLabel_nil (ls : List Label) :
    ls.foldl (fun s l => appendLabel s l.bytes) [] = dotted ls := by
  cases ls with
  | nil => rfl
  | cons l ls =>
      rw [List.foldl_cons, dotted]
      exact foldl_appendLabel ls l.nonempty

variable {b : Buff}

theorem readName_labels (ls : List Label) {fuel pos : ℕ} (s : Host) (h : b.Has pos (wireName ls))
    (hfit : pos + (wireName ls).length ≤ buffSize) (hfuel : ls.length < fuel) :
    readName b fuel pos s =
      .ok (ls.foldl (fun s l => appendLabel s l.bytes) s, pos + (wireName ls).length) := by
  induction ls generalizing fuel pos s with
  | nil =>
      obtain ⟨fuel, rfl⟩ : ∃ m, fuel = m + 1 := ⟨fuel - 1, by simp at hfuel; omega⟩
      have hzero : b pos = 0 := (Buff.has_cons.mp h).1
      have hpos : ¬ buffSize ≤ pos := by simp [wireName] at hfit; omega
      simp [readName, hzero, hpos, wireName]
  | cons l ls ih =>
      obtain ⟨fuel, rfl⟩ : ∃ m, fuel = m + 1 := ⟨fuel - 1, by simp at hfuel; omega⟩
      have hwire : wireName (l :: ls) = UInt8.ofNat l.bytes.length :: (l.bytes ++ wireName ls) := by
        simp [wireName, Label.wire]
      rw [hwire, Buff.has_cons, Buff.has_append] at h
      obtain ⟨hlen, hlabel, hrest⟩ := h
      have hshort := l.short
      have hnum : (b pos).toNat = l.bytes.length := by
        rw [hlen, UInt8.toNat_ofNat']
        omega
      have hpos : 0 < l.bytes.length := List.length_pos_iff.mpr l.nonempty
      rw [hwire, List.length_cons, List.length_append] at hfit ⊢
      simp only [readName, hnum, if_neg (show ¬ buffSize ≤ pos by omega), if_neg hpos.ne',
        if_neg (show ¬ buffSize < pos + 1 + l.bytes.length by omega)]
      rw [show b.slice (pos + 1) l.bytes.length = l.bytes from hlabel,
        ih _ hrest (by omega) (by simpa using hfuel), List.foldl_cons]
      congr 2
      omega

/-- A response with one question. -/
theorem resParse_question (ls : List Label) (hq : be16 b 4 = 1) (h : b.Has 12 (wireName ls))
    (hfit : 12 + (wireName ls).length ≤ buffSize) :
    resParse b = (do
      let ip ← readAnswers b (buffSize + 1) (be16 b 6) (12 + (wireName ls).length + 4)
      pure (setFirstIp [⟨dotted ls, 0⟩] ip)) := by
  have hlen := length_le_wireName ls
  have hname : readName b (buffSize + 1) 12 [] = .ok (dotted ls, 12 + (wireName ls).length) := by
    rw [readName_labels ls [] h hfit (by omega), foldl_appendLabel_nil]
  have hques : readQuestions b 1 12 = .ok ([⟨dotted ls, 0⟩], 12 + (wireName ls).length + 4) := by
    simp only [readQuestions, hname]
    rfl
  rw [resParse, hq, hques]
  rfl

/-- **The name codec.**  A query for a host name is 18 bytes longer than the name, and read as a response it has one
reply, with this name and no address, whatever else is in the buffer. -/
theorem dnsName_roundTrip (n : HostName) (rv : ℕ) (mem : Buff) :
    (reqFill rv n.text).length = n.text.length + 18 ∧
      resParse (mem.store 0 (reqFill rv n.text)) = .ok [⟨n.text, 0⟩] := by
  have hname := length_wireName n.nonempty
  have hshort := n.short
  have hhdr : (queryHeader rv).length = 12 := by simp [queryHeader]
  have hfill := reqFill_hostName rv n
  constructor
  · rw [hfill, HostName.text, List.length_append, List.length_append, hhdr, hname]
    simp only [List.length_cons, List.length_nil]
    omega
  · have hb := Buff.has_store mem (reqFill rv n.text)
    generalize mem.store 0 (reqFill rv n.text) = b at hb ⊢
    rw [hfill, Buff.has_append, Buff.has_append, hhdr] at hb
    obtain ⟨hhead, hques, -⟩ := hb
    rw [queryHeader, Buff.has_append] at hhead
    simp only [Buff.has_cons, toLE_length, Nat.zero_add, Nat.reduceAdd] at hhead
    obtain ⟨-, -, -, h4, h5, h6, h7, -⟩ := hhead
    have hq : be16 b 4 = 1 := by rw [be16, h4, h5]; rfl
    have ha : be16 b 6 = 0 := by rw [be16, h6, h7]; rfl
    have hsize : buffSize = 8192 := rfl
    rw [resParse_question n.labels hq (by simpa using hques) (by omega), ha]
    rfl

/-! ### Responses -/

/-- `n` in network order on two bytes. -/
def toBE16 (n : ℕ) : List UInt8 := [UInt8.ofNat (n / 256), UInt8.ofNat n]

@[simp] theorem length_toBE16 (n : ℕ) : (toBE16 n).length = 2 := rfl

theorem be16_of_has {pos n : ℕ} (h : b.Has pos (toBE16 n)) (hn : n < 65536) : be16 b pos = n := by
  simp only [toBE16, Buff.has_cons] at h
  rw [be16, h.1, h.2.1, ofBE16, UInt8.toNat_ofNat', UInt8.toNat_ofNat']
  omega

/-- An answer, its owner written as a pointer into the message. -/
structure Answer where
  owner : Fin 16384
  type : UInt16
  cls : UInt16
  ttl : UInt32
  rdata : List UInt8
  short : rdata.length < 65536

namespace Answer

/-- The fields of `dns_ans_hdr`. -/
def header (a : Answer) : List UInt8 :=
  toBE16 (0xc000 + a.owner) ++ (toBE16 a.type.toNat ++ (toBE16 a.cls.toNat ++
    (toBE16 (a.ttl.toNat / 65536) ++ toBE16 a.ttl.toNat))) ++ toBE16 a.rdata.length

def bytes (a : Answer) : List UInt8 := a.header ++ a.rdata

/-- The address of a record of type 1 with four bytes. -/
def address (a : Answer) : Option ℕ :=
  if a.type = 1 then
    match a.rdata with
    | [w, x, y, z] => some (ofBE16 w x * 65536 + ofBE16 y z)
    | _ => none
  else none

/-- What the parser finds where a record is. -/
theorem found {a : Answer} {pos : ℕ} (h : b.Has pos a.bytes) :
    be16 b (pos + 2) = a.type.toNat ∧ be16 b (pos + 10) = a.rdata.length ∧ b.Has (pos + 12) a.rdata := by
  rw [bytes, header, Buff.has_append, Buff.has_append, Buff.has_append, Buff.has_append] at h
  obtain ⟨⟨⟨-, htype, -⟩, hlen⟩, hdata⟩ := h
  exact ⟨be16_of_has htype a.type.toNat_lt, be16_of_has hlen a.short, hdata⟩

theorem length_bytes (a : Answer) : a.bytes.length = 12 + a.rdata.length := by
  simp only [bytes, header, toBE16, List.length_append, List.length_cons, List.length_nil]

/-- A record has an address exactly if it is of type 1 with four bytes. -/
theorem address_isSome (a : Answer) : a.address.isSome ↔ a.type.toNat = 1 ∧ a.rdata.length = 4 := by
  have htype : a.type = 1 ↔ a.type.toNat = 1 := by
    rw [← UInt16.toNat_inj]
    rfl
  rw [address]
  split_ifs with h
  · rw [and_iff_right (htype.mp h)]
    match a.rdata with
    | [] | [_] | [_, _] | [_, _, _] | [_, _, _, _] => simp
    | _ :: _ :: _ :: _ :: _ :: _ => simp
  · simp [htype.not.mp h]

/-- The address is that of the four bytes. -/
theorem be32_address {a : Answer} {pos v : ℕ} (h : b.Has pos a.rdata) (hv : a.address = some v) :
    be32 b pos = v := by
  rw [address] at hv
  split_ifs at hv
  split at hv
  · next w x y z hdata =>
      simp only [hdata, Buff.has_cons] at h
      obtain ⟨hw, hx, hy, hz, -⟩ := h
      rw [be32, be16, be16, hw, hx, show pos + 2 = pos + 1 + 1 from rfl, hy, hz]
      exact Option.some.inj hv
  · cases hv

end Answer

/-- A response with one question; behind the answers there may be further sections. -/
structure Response where
  id : UInt16
  flags : UInt16
  question : List Label
  qtype : UInt16
  qclass : UInt16
  answers : List Answer
  nscount : UInt16
  arcount : UInt16
  rest : List UInt8
  counted : answers.length < 65536

namespace Response

def header (r : Response) : List UInt8 :=
  toBE16 r.id.toNat ++ (toBE16 r.flags.toNat ++ (toBE16 1 ++ (toBE16 r.answers.length ++
    (toBE16 r.nscount.toNat ++ toBE16 r.arcount.toNat))))

def bytes (r : Response) : List UInt8 :=
  r.header ++ (wireName r.question ++ (toBE16 r.qtype.toNat ++ toBE16 r.qclass.toNat) ++
    (r.answers.flatMap Answer.bytes ++ r.rest))

/-- The first address among the answers. -/
def firstAddress (r : Response) : Option ℕ := r.answers.findSome? Answer.address

end Response

/-- How many records `res_parse` looks at: the recursion of `readAnswers`. -/
def answersVisited (b : Buff) : ℕ → ℕ → ℕ → ℕ
  | _, 0, _ => 0
  | 0, _ + 1, _ => 0
  | fuel + 1, k + 1, pos =>
      if buffSize < pos + ansHdrSize then 1
      else
        let len := be16 b (pos + 10)
        let pos' := pos + ansHdrSize
        if be16 b (pos + 2) ≠ 1 then answersVisited b fuel (k + 1) (pos' + len) + 1
        else if len = 4 then 1
        else answersVisited b fuel k (pos' + len) + 1

/-- The records that count after a record without address. -/
def Answer.left (a : Answer) (k : ℕ) : ℕ := if a.type.toNat = 1 then k else k + 1

/-- One record: the loop stops at an address, and goes on behind the record otherwise. -/
theorem readAnswers_record {a : Answer} {pos : ℕ} (fuel k : ℕ) (h : b.Has pos a.bytes)
    (hfit : pos + a.bytes.length ≤ buffSize) :
    readAnswers b (fuel + 1) (k + 1) pos = (match a.address with
      | some v => .ok (some v)
      | none => readAnswers b fuel (a.left k) (pos + a.bytes.length)) ∧
    answersVisited b (fuel + 1) (k + 1) pos = (match a.address with
      | some _ => 1
      | none => answersVisited b fuel (a.left k) (pos + a.bytes.length) + 1) := by
  obtain ⟨htype, hlen, hdata⟩ := Answer.found h
  have hsome := a.address_isSome
  have hsize : ansHdrSize = 12 := rfl
  have hbytes := a.length_bytes
  have hpos : pos + 12 + a.rdata.length = pos + a.bytes.length := by omega
  have hroom : ¬ buffSize < pos + 12 := by omega
  simp only [readAnswers, answersVisited, htype, hlen, hsize, hpos, hroom, Answer.left, if_false]
  by_cases h1 : a.type.toNat = 1
  · by_cases h4 : a.rdata.length = 4
    · obtain ⟨v, hv⟩ := Option.isSome_iff_exists.mp (hsome.mpr ⟨h1, h4⟩)
      have hroom : ¬ buffSize < pos + 12 + 4 := by omega
      simp [h1, h4, hv, hroom, Answer.be32_address hdata hv]
    · have hv : a.address = none := Option.not_isSome_iff_eq_none.mp fun hs => h4 (hsome.mp hs).2
      simp [h1, h4, hv]
  · have hv : a.address = none := Option.not_isSome_iff_eq_none.mp fun hs => h1 (hsome.mp hs).1
    simp [h1, hv]

theorem length_flatMap_answers (as : List Answer) : 12 * as.length ≤ (as.flatMap Answer.bytes).length := by
  induction as with
  | nil => simp
  | cons a as ih =>
      rw [List.flatMap_cons, List.length_append, List.length_cons, a.length_bytes]
      omega

section Records

variable {as : List Answer} {fuel k pos v : ℕ}

/-- The bytes of the first record and of those behind it. -/
theorem has_records {a : Answer} (h : b.Has pos ((a :: as).flatMap Answer.bytes)) :
    b.Has pos a.bytes ∧ b.Has (pos + a.bytes.length) (as.flatMap Answer.bytes) := by
  rwa [List.flatMap_cons, Buff.has_append] at h

/-- The first address is found before the records are used up. -/
theorem readAnswers_found (h : b.Has pos (as.flatMap Answer.bytes))
    (hfit : pos + (as.flatMap Answer.bytes).length ≤ buffSize) (hv : as.findSome? Answer.address = some v)
    (hk : as.length ≤ k) (hfuel : as.length ≤ fuel) :
    readAnswers b fuel k pos = .ok (some v) ∧ answersVisited b fuel k pos ≤ as.length := by
  induction as generalizing fuel k pos with
  | nil => simp at hv
  | cons a as ih =>
      rw [List.length_cons] at hk hfuel
      obtain ⟨k, rfl⟩ : ∃ m, k = m + 1 := ⟨k - 1, by omega⟩
      obtain ⟨fuel, rfl⟩ : ∃ m, fuel = m + 1 := ⟨fuel - 1, by omega⟩
      obtain ⟨ha, has⟩ := has_records h
      rw [List.flatMap_cons, List.length_append] at hfit
      obtain ⟨hread, hvisit⟩ := readAnswers_record fuel k ha (by omega)
      rw [hread, hvisit]
      cases hva : a.address with
      | some w =>
          rw [List.findSome?_cons_of_isSome (by simp [hva]), hva] at hv
          cases hv
          simp
      | none =>
          rw [List.findSome?_cons_of_isNone (by simp [hva])] at hv
          have hleft : as.length ≤ a.left k := by
            rw [Answer.left]
            split_ifs <;> omega
          obtain ⟨hr, hl⟩ := ih has (by omega) hv hleft (Nat.le_of_succ_le_succ hfuel)
          exact ⟨hr, by simpa using hl⟩

/-- Records of type 1 without address are counted. -/
theorem readAnswers_counted (h : b.Has pos (as.flatMap Answer.bytes))
    (hfit : pos + (as.flatMap Answer.bytes).length ≤ buffSize) (hv : as.findSome? Answer.address = none)
    (hone : ∀ a ∈ as, a.type.toNat = 1) (hfuel : as.length ≤ fuel) :
    readAnswers b fuel as.length pos = .ok none ∧ answersVisited b fuel as.length pos = as.length := by
  induction as generalizing fuel pos with
  | nil => simp [readAnswers, answersVisited]
  | cons a as ih =>
      rw [List.length_cons] at hfuel
      obtain ⟨fuel, rfl⟩ : ∃ m, fuel = m + 1 := ⟨fuel - 1, by omega⟩
      obtain ⟨ha, has⟩ := has_records h
      rw [List.flatMap_cons, List.length_append] at hfit
      obtain ⟨hread, hvisit⟩ := readAnswers_record fuel as.length ha (by omega)
      rw [List.findSome?_eq_none_iff] at hv
      have hva : a.address = none := hv a (by simp)
      have hleft : a.left as.length = as.length := by rw [Answer.left, if_pos (hone a (by simp))]
      obtain ⟨hr, hl⟩ := ih has (by omega) (List.findSome?_eq_none_iff.mpr fun a' ha' => hv a' (by simp [ha']))
        (fun a' ha' => hone a' (by simp [ha'])) (Nat.le_of_succ_le_succ hfuel)
      rw [List.length_cons, hread, hvisit, hva, hleft]
      exact ⟨hr, by simp [hl]⟩

/-- Without an address the loop runs past the records if more are due than there are of type 1. -/
theorem answersVisited_past (h : b.Has pos (as.flatMap Answer.bytes))
    (hfit : pos + (as.flatMap Answer.bytes).length ≤ buffSize) (hv : as.findSome? Answer.address = none)
    (hk : as.countP (·.type.toNat = 1) < k) (hfuel : as.length < fuel) :
    as.length < answersVisited b fuel k pos := by
  induction as generalizing fuel k pos with
  | nil =>
      obtain ⟨k, rfl⟩ : ∃ m, k = m + 1 := ⟨k - 1, by omega⟩
      obtain ⟨fuel, rfl⟩ : ∃ m, fuel = m + 1 := ⟨fuel - 1, by simp at hfuel; omega⟩
      simp only [answersVisited]
      split_ifs <;> simp
  | cons a as ih =>
      rw [List.length_cons] at hfuel
      obtain ⟨k, rfl⟩ : ∃ m, k = m + 1 := ⟨k - 1, by omega⟩
      obtain ⟨fuel, rfl⟩ : ∃ m, fuel = m + 1 := ⟨fuel - 1, by omega⟩
      obtain ⟨ha, has⟩ := has_records h
      rw [List.flatMap_cons, List.length_append] at hfit
      rw [List.findSome?_eq_none_iff] at hv
      have hleft : as.countP (·.type.toNat = 1) < a.left k := by
        rw [List.countP_cons] at hk
        rw [Answer.left]
        split_ifs with h1
        · simp only [h1, decide_true, if_true] at hk
          omega
        · omega
      rw [(readAnswers_record fuel k ha (by omega)).2, hv a (by simp), List.length_cons]
      have hpast := ih has (by omega) (List.findSome?_eq_none_iff.mpr fun a' ha' => hv a' (by simp [ha'])) hleft
        (Nat.lt_of_succ_lt_succ hfuel)
      simpa using hpast

end Records

/-- The parser reads the response correctly: one reply, with the name asked for and the first address, and no more
records looked at than there are. -/
def Response.ReadsWell (r : Response) (b : Buff) : Prop :=
  resParse b = .ok [⟨dotted r.question, r.firstAddress.getD 0⟩] ∧
    answersVisited b (buffSize + 1) (be16 b 6) (12 + (wireName r.question).length + 4) ≤ r.answers.length

/-- **Which responses are read correctly.**  Those with an address, and those with records of type 1 only. -/
theorem resParse_response_iff (r : Response) (mem : Buff) (hfit : r.bytes.length ≤ buffSize) :
    r.ReadsWell (mem.store 0 r.bytes) ↔ r.firstAddress.isSome ∨ ∀ a ∈ r.answers, a.type.toNat = 1 := by
  have hb := Buff.has_store mem r.bytes
  unfold Response.ReadsWell
  generalize mem.store 0 r.bytes = b at hb ⊢
  have hhdr : r.header.length = 12 := by simp [Response.header]
  have hmany := length_flatMap_answers r.answers
  simp only [Response.bytes, List.length_append, hhdr, length_toBE16] at hfit
  simp only [Response.bytes, Buff.has_append, List.length_append, hhdr, length_toBE16, Nat.zero_add] at hb
  obtain ⟨hhead, ⟨hname, -⟩, hans, -⟩ := hb
  simp only [Response.header, Buff.has_append, length_toBE16, Nat.zero_add, Nat.reduceAdd] at hhead
  obtain ⟨-, -, hq, ha, -⟩ := hhead
  rw [resParse_question r.question (be16_of_has hq (by omega)) hname (by omega), be16_of_has ha r.counted]
  rw [show 12 + ((wireName r.question).length + (2 + 2)) = 12 + (wireName r.question).length + 4 by omega] at hans
  have hfit' : 12 + (wireName r.question).length + 4 + (r.answers.flatMap Answer.bytes).length ≤ buffSize := by omega
  have hfuel : r.answers.length < buffSize + 1 := by omega
  generalize 12 + (wireName r.question).length + 4 = pos at hans hfit' ⊢
  rw [Response.firstAddress]
  cases hv : r.answers.findSome? Answer.address with
  | some v =>
      obtain ⟨hread, hvisit⟩ := readAnswers_found hans hfit' hv le_rfl hfuel.le
      rw [hread]
      exact iff_of_true ⟨rfl, hvisit⟩ (.inl rfl)
  | none =>
      rw [Option.isSome_none, Bool.false_eq_true, false_or]
      by_cases hone : ∀ a ∈ r.answers, a.type.toNat = 1
      · obtain ⟨hread, hvisit⟩ := readAnswers_counted hans hfit' hv hone hfuel.le
        rw [hread]
        exact iff_of_true ⟨rfl, hvisit.le⟩ hone
      · have hcount : r.answers.countP (·.type.toNat = 1) < r.answers.length := by
          refine lt_of_le_of_ne List.countP_le_length fun he => hone ?_
          simpa using List.countP_eq_length.mp he
        exact iff_of_false (fun h => (answersVisited_past hans hfit' hv hcount hfuel).not_ge h.2) hone

/-- A response to a query for `a.b` with an alias and an address. -/
def aliasResponse : Response where
  id := 7
  flags := 0x8180
  question := [⟨[97], by decide, by decide⟩, ⟨[98], by decide, by decide⟩]
  qtype := 1
  qclass := 1
  answers := [⟨12, 5, 1, 60, [1, 99, 0], by decide⟩, ⟨12, 1, 1, 60, [10, 0, 0, 7], by decide⟩]
  nscount := 0
  arcount := 0
  rest := []
  counted := by decide

/-- The address behind the alias is found. -/
theorem resParse_response_iff_aliasResponse : aliasResponse.ReadsWell (Buff.store (fun _ => 0) 0 aliasResponse.bytes) :=
  (resParse_response_iff aliasResponse _ (by decide)).mpr (.inl rfl)

/-- The response with the alias only. -/
def aliasOnly : Response :=
  { aliasResponse with answers := [⟨12, 5, 1, 60, [1, 99, 0], by decide⟩], counted := by decide }

/-- Behind the alias the parser takes what an earlier, longer response left in the buffer for an address. -/
theorem resParse_readsOn :
    resParse ((Buff.store (fun _ => 0) 0 aliasResponse.bytes).store 0 aliasOnly.bytes) =
      .ok [⟨[97, 46, 98], 0x0a000007⟩] ∧
      ¬ aliasOnly.ReadsWell ((Buff.store (fun _ => 0) 0 aliasResponse.bytes).store 0 aliasOnly.bytes) := by
  have hparse : resParse ((Buff.store (fun _ => 0) 0 aliasResponse.bytes).store 0 aliasOnly.bytes) =
      .ok [⟨[97, 46, 98], 0x0a000007⟩] := by
    decide +kernel
  refine ⟨hparse, fun h => ?_⟩
  have hhost := h.1
  rw [hparse] at hhost
  revert hhost
  decide

end HttpsTunnel.Tms

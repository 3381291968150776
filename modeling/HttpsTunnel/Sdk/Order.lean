import HttpsTunnel.Lib.Decimal

/-! # Orders

`YMESubmitOrder` of `YMEHttp.cpp` writes the items of an order down twice: into the text it signs and
into the form it posts.  The form has each item in braces of its own.  The signed text has one pair of
braces around all of them, so the two bodies are the same text for one item and for no other number
of items (`order_signed_iff`). -/

namespace HttpsTunnel.Sdk

open HttpsTunnel.Lib

/-- `OrderItem`: `userPackage` is an `int`, `mobile` the text in a `char[16]`. -/
structure OrderItem where
  userPackage : ℤ
  mobile : List Char
  userPackage_mem : -2 ^ 31 ≤ userPackage ∧ userPackage < 2 ^ 31
  mobile_length : mobile.length < 16

/-- The characters of a literal. -/
def text (s : String) : List Char := s.toList

/-! ### The signed text -/

/-- The loop over the items, from the `i`-th on. -/
def signItems : ℕ → List OrderItem → List Char
  | _, [] => []
  | i, item :: items =>
      (if i ≠ 0 then text "," else []) ++
        (text "\"userPackage\":\"" ++ decimalInt item.userPackage ++ text "\",") ++
        (text "\"mobiles\":\"" ++ item.mobile ++ text "\"") ++ signItems (i + 1) items

/-- `signpattern`. -/
def signPattern (items : List OrderItem) (reqid : List Char) : List Char :=
  text "body\x7b\"userdataList\":[\x7b" ++ signItems 0 items ++ text "\x7d]," ++
    text "\"type\":\"0\"," ++ (text "\"requestid\":\"" ++ reqid ++ text "\"\x7d") ++
    (text "keysdfjiejfiwhie112partyId10000000requestid" ++ reqid)

/-! ### The form -/

/-- The loop over the items, from the `i`-th of `count` on. -/
def postItems (count : ℕ) : ℕ → List OrderItem → List Char
  | _, [] => []
  | i, item :: items =>
      text "\x7b\"userPackage\":\"" ++ (decimalInt item.userPackage ++ text "\",\"mobiles\":\"") ++
        (item.mobile ++ text "\"\x7d") ++ (if (i : ℤ) ≠ count - 1 then text "," else []) ++
        postItems count (i + 1) items

/-- `postform`, with the digest `md5` of the signed text in hexadecimal. -/
def postForm (md5 : List Char) (items : List OrderItem) (reqid : List Char) : List Char :=
  text "param=\x7b\"header\":\x7b" ++ text "\"sign\":\"" ++ md5 ++ text "\"," ++
    text "\"partyId\":10000000\x7d,\"body\":\x7b\"" ++ text "userdataList\":[" ++
    postItems items.length 0 items ++ text "]," ++ text "\"type\":\"0\"," ++
    (text "\"requestid\":\"" ++ reqid ++ text "\"\x7d\x7d")

inductive OrderFault where
  /-- The signed text does not fit into `cpattern`. -/
  | overflow
deriving DecidableEq, Repr

/-- Size of `cpattern`. -/
def cpatternSize : ℕ := 512

/-- `YMESubmitOrder` at the time `now`, with the digest `md5`: the text it signs and the form it posts. -/
def ymeSubmitOrder (md5 : List Char → List Char) (now : ℕ) (items : List OrderItem) :
    Except OrderFault (List Char × List Char) :=
  let reqid := decimal 1 (now % 2 ^ 64)
  let sign := signPattern items reqid
  if cpatternSize < sign.length then .error .overflow
  else .ok (sign, postForm (md5 sign) items reqid)

/-! ### Bodies -/

/-- What both loops write of an item. -/
def OrderItem.body (item : OrderItem) : List Char :=
  text "\"userPackage\":\"" ++ (decimalInt item.userPackage ++ (text "\",\"mobiles\":\"" ++
    (item.mobile ++ text "\"")))

/-- What precedes the items in a body. -/
def bodyStart : List Char := text "\x7b\"userdataList\":["

/-- What follows the items in a body. -/
def bodyEnd (reqid : List Char) : List Char :=
  text "]," ++ (text "\"type\":\"0\"," ++ (text "\"requestid\":\"" ++ (reqid ++ text "\"\x7d")))

/-- The body in the signed text. -/
def signBody (items : List OrderItem) (reqid : List Char) : List Char :=
  bodyStart ++ (text "\x7b" ++ (signItems 0 items ++ (text "\x7d" ++ bodyEnd reqid)))

/-- The body in the form. -/
def postBody (items : List OrderItem) (reqid : List Char) : List Char :=
  bodyStart ++ (postItems items.length 0 items ++ bodyEnd reqid)

/-- What follows the body in the signed text. -/
def signKey (reqid : List Char) : List Char := text "keysdfjiejfiwhie112partyId10000000requestid" ++ reqid

/-- What precedes the body in the form. -/
def postHead (md5 : List Char) : List Char :=
  text "param=\x7b\"header\":\x7b" ++ (text "\"sign\":\"" ++ (md5 ++ (text "\"," ++
    text "\"partyId\":10000000\x7d,\"body\":")))

section Bodies

variable (items : List OrderItem) (reqid : List Char)

theorem signPattern_eq :
    signPattern items reqid = text "body" ++ (signBody items reqid ++ signKey reqid) := by
  have hopen : text "body\x7b\"userdataList\":[\x7b" = text "body" ++ (bodyStart ++ text "\x7b") := by decide
  have hclose : text "\x7d]," = text "\x7d" ++ text "]," := by decide
  simp only [signPattern, signBody, signKey, bodyEnd, hopen, hclose, List.append_assoc]

theorem postForm_eq (md5 : List Char) :
    postForm md5 items reqid = postHead md5 ++ (postBody items reqid ++ text "\x7d") := by
  have hopen : ∀ l, text "\"partyId\":10000000\x7d,\"body\":\x7b\"" ++ (text "userdataList\":[" ++ l) =
      text "\"partyId\":10000000\x7d,\"body\":" ++ (bodyStart ++ l) := fun l => by
    have hjoin : text "\"partyId\":10000000\x7d,\"body\":\x7b\"" ++ text "userdataList\":[" =
        text "\"partyId\":10000000\x7d,\"body\":" ++ bodyStart := by decide
    rw [← List.append_assoc, hjoin, List.append_assoc]
  have hclose : text "\"\x7d\x7d" = text "\"\x7d" ++ text "\x7d" := by decide
  simp only [postForm, postBody, postHead, bodyEnd, hopen, hclose, List.append_assoc]

theorem signItems_nil (i : ℕ) : signItems i [] = [] := rfl

theorem postItems_nil (count i : ℕ) : postItems count i [] = [] := rfl

variable {items} (item : OrderItem)

theorem signItems_cons (i : ℕ) :
    signItems i (item :: items) = (if i ≠ 0 then text "," else []) ++ (item.body ++ signItems (i + 1) items) := by
  have hmid : ∀ l, text "\"," ++ (text "\"mobiles\":\"" ++ l) = text "\",\"mobiles\":\"" ++ l := fun l => by
    have hjoin : text "\"," ++ text "\"mobiles\":\"" = text "\",\"mobiles\":\"" := by decide
    rw [← List.append_assoc, hjoin]
  simp only [signItems, OrderItem.body, hmid, List.append_assoc]

theorem postItems_cons (count i : ℕ) :
    postItems count i (item :: items) = text "\x7b" ++ (item.body ++ (text "\x7d" ++
      ((if (i : ℤ) ≠ count - 1 then text "," else []) ++ postItems count (i + 1) items))) := by
  have hopen : text "\x7b\"userPackage\":\"" = text "\x7b" ++ text "\"userPackage\":\"" := by decide
  have hclose : text "\"\x7d" = text "\"" ++ text "\x7d" := by decide
  simp only [postItems, OrderItem.body, hopen, hclose, List.append_assoc]

/-- The items of the signed text, with a comma before each but the first. -/
theorem length_signItems (i : ℕ) : (signItems i items).length + (if i = 0 ∧ items ≠ [] then 1 else 0) =
    (items.map fun item => item.body.length + 1).sum := by
  induction items generalizing i with
  | nil => simp [signItems]
  | cons item items ih =>
      have ih := ih (i + 1)
      have hcomma : (text ",").length = 1 := by decide
      rw [signItems_cons, List.map_cons, List.sum_cons, ← ih]
      by_cases hi : i = 0
      · simp [hi]
        omega
      · simp [hi, hcomma]
        omega

/-- The items of the form, each in braces, with a comma after each but the last. -/
theorem length_postItems (i : ℕ) (h : items ≠ []) :
    (postItems (i + items.length) i items).length + 1 = (items.map fun item => item.body.length + 3).sum := by
  have hcomma : (text ",").length = 1 := by decide
  have hopen : (text "\x7b").length = 1 := by decide
  have hclose : (text "\x7d").length = 1 := by decide
  induction items generalizing i with
  | nil => exact absurd rfl h
  | cons item items ih =>
      rw [postItems_cons, List.map_cons, List.sum_cons]
      cases items with
      | nil =>
          simp [postItems_nil, hopen, hclose]
          omega
      | cons item' items =>
          have ih := ih (i + 1) (List.cons_ne_nil _ _)
          have he : i + 1 + (item' :: items).length = i + (item :: item' :: items).length := by
            simp only [List.length_cons]
            omega
          have hne : (i : ℤ) ≠ (i + (item :: item' :: items).length : ℕ) - 1 := by
            simp only [List.length_cons]
            push_cast
            omega
          rw [he] at ih
          rw [if_pos hne, ← ih]
          simp only [List.length_append, hopen, hclose, hcomma]
          omega

/-- Braces around each item take more room than braces around all, unless there is one item. -/
theorem signBody_eq_postBody_iff (h : items ≠ []) :
    signBody items reqid = postBody items reqid ↔ items.length = 1 := by
  constructor
  · intro he
    have hl := congrArg List.length he
    have hs := @length_signItems items 0
    have hp := length_postItems 0 h
    have hopen : (text "\x7b").length = 1 := by decide
    have hclose : (text "\x7d").length = 1 := by decide
    have h3 : (items.map fun item => item.body.length + 3).sum =
        (items.map fun item => item.body.length + 1).sum + items.length * 2 := by
      have hsplit : (fun item : OrderItem => item.body.length + 3) = fun item => item.body.length + 1 + 2 := rfl
      rw [hsplit, List.sum_map_add]
      simp
    simp only [signBody, postBody, List.length_append, hopen, hclose] at hl
    simp only [h, ne_eq, not_false_eq_true, and_self, if_true] at hs
    rw [Nat.zero_add] at hp
    omega
  · intro h1
    obtain ⟨item, rfl⟩ := List.length_eq_one_iff.mp h1
    simp [signBody, postBody, signItems_cons, postItems_cons, signItems_nil, postItems_nil]

end Bodies

/-! ### One item -/

theorem OrderItem.length_body_le (item : OrderItem) : item.body.length ≤ 55 := by
  have hpackage : (decimalInt item.userPackage).length ≤ 11 := by
    refine length_decimalInt_le (by decide) ?_
    obtain ⟨h, h'⟩ := item.userPackage_mem
    omega
  have hmobile := item.mobile_length
  have hfixed : (text "\"userPackage\":\"").length + (text "\",\"mobiles\":\"").length +
      (text "\"").length = 29 := by decide
  simp only [body, List.length_append]
  omega

/-- An order of one item fits into `cpattern`. -/
theorem length_signPattern_le (item : OrderItem) {reqid : List Char} (h : reqid.length ≤ 20) :
    (signPattern [item] reqid).length ≤ cpatternSize := by
  have hitem := item.length_body_le
  have hopen : (text "body").length + bodyStart.length + (text "\x7b").length = 22 := by decide
  have hend : (text "\x7d").length + (text "],").length + (text "\"type\":\"0\",").length +
      (text "\"requestid\":\"").length + (text "\"\x7d").length = 29 := by decide
  have hkey : (text "keysdfjiejfiwhie112partyId10000000requestid").length = 43 := by decide
  rw [signPattern_eq]
  simp only [signBody, signItems_cons, signItems_nil, bodyEnd, signKey, List.length_append, ne_eq,
    not_true_eq_false, if_false, List.length_nil, cpatternSize]
  omega

/-- **What is signed is what is posted** exactly for one item: the order is submitted, and the text between
`body` and the key in the signed text is the value of `body` in the form. -/
theorem order_signed_iff (md5 : List Char → List Char) (now : ℕ) (items : List OrderItem) (h : items ≠ []) :
    (∃ sign post body, ymeSubmitOrder md5 now items = .ok (sign, post) ∧
      sign = text "body" ++ (body ++ signKey (decimal 1 (now % 2 ^ 64))) ∧
      post = postHead (md5 sign) ++ (body ++ text "\x7d")) ↔ items.length = 1 := by
  generalize hreq : decimal 1 (now % 2 ^ 64) = reqid
  rw [← signBody_eq_postBody_iff reqid h]
  constructor
  · rintro ⟨sign, post, body, hsub, hsign, hpost⟩
    simp only [ymeSubmitOrder, hreq] at hsub
    split_ifs at hsub
    obtain ⟨rfl, rfl⟩ := Prod.mk.inj (Except.ok.inj hsub)
    rw [signPattern_eq] at hsign
    rw [postForm_eq] at hpost
    have hs := List.append_cancel_right (List.append_cancel_left hsign)
    have hp := List.append_cancel_right (List.append_cancel_left hpost)
    exact hs.trans hp.symm
  · intro he
    obtain ⟨item, rfl⟩ := List.length_eq_one_iff.mp ((signBody_eq_postBody_iff reqid h).mp he)
    have hlen : reqid.length ≤ 20 := by
      rw [← hreq, length_decimal_le_iff (by decide) (by decide)]
      exact lt_of_lt_of_le (Nat.mod_lt _ (by decide)) (by decide)
    have hfit : ¬ cpatternSize < (signPattern [item] reqid).length :=
      Nat.not_lt.mpr (length_signPattern_le item hlen)
    have hpost := postForm_eq [item] reqid (md5 (signPattern [item] reqid))
    refine ⟨_, _, signBody [item] reqid, ?_, signPattern_eq _ _, he.symm ▸ hpost⟩
    simp only [ymeSubmitOrder, hreq, if_neg hfit]

/-- A package for a mobile number. -/
def samplePackage : OrderItem := ⟨1000, text "18292820258", by decide, by decide⟩

theorem order_signed_iff_one :
    ∃ sign post body, ymeSubmitOrder (fun _ => text "00") 1522831901 [samplePackage] = .ok (sign, post) ∧
      sign = text "body" ++ (body ++ signKey (decimal 1 (1522831901 % 2 ^ 64))) ∧
      post = postHead (text "00") ++ (body ++ text "\x7d") :=
  (order_signed_iff (fun _ => text "00") 1522831901 [samplePackage] (by simp)).mpr rfl

/-- **Two items.**  The signed text has both in one object, the form has two objects. -/
theorem order_twoItems :
    signBody [samplePackage, samplePackage] (text "1") = text "\x7b\"userdataList\":[" ++ (
      text "\x7b\"userPackage\":\"1000\",\"mobiles\":\"18292820258\"," ++
      text "\"userPackage\":\"1000\",\"mobiles\":\"18292820258\"\x7d],\"type\":\"0\",\"requestid\":\"1\"\x7d") ∧
    postBody [samplePackage, samplePackage] (text "1") = text "\x7b\"userdataList\":[" ++ (
      text "\x7b\"userPackage\":\"1000\",\"mobiles\":\"18292820258\"\x7d," ++
      text "\x7b\"userPackage\":\"1000\",\"mobiles\":\"18292820258\"\x7d],\"type\":\"0\",\"requestid\":\"1\"\x7d") ∧
    ymeSubmitOrder (fun _ => text "00") 1 [samplePackage, samplePackage] =
      .ok (signPattern [samplePackage, samplePackage] (text "1"),
        postForm (text "00") [samplePackage, samplePackage] (text "1")) := by
  decide +kernel

end HttpsTunnel.Sdk

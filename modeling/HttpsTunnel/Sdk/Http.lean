import HttpsTunnel.Lib.CString
import HttpsTunnel.Lib.Prog

/-! # Replies to the application's own requests

`HandleRecvHttp` puts the replies to requests of the application together from the chunks a tunnel
without a browser reads.  It is described on the bytes of a chunk only, so that a look behind them
is a fault.

When a reply is complete, `http_reset` clears `need_length` before the rest of the chunk is computed
from it, so the body that was just appended is parsed again, and starts a new element of the list
(`Parser.Ahead`): there are always more elements than replies, and no sequence of replies is put
together as it should be (`http_assembly_iff`). -/

namespace HttpsTunnel.Sdk

open HttpsTunnel.Lib HttpsTunnel.Lib.CString

/-! ### The parser -/

/-- The parser state of a connection, and how often `WakeupUser` was called. -/
structure Parser where
  mf : Bool := false
  header : Bool := true
  keepalive : ℤ := 0
  chunked : ℤ := 0
  contentLength : ℤ := 0
  needLength : ℤ := 0
  rspCode : ℤ := 0
  /-- `http_reply_datalist`. -/
  replies : List Mem := []
  wakeups : ℕ := 0
deriving DecidableEq, Repr

inductive HttpFault where
  | overread
  /-- `rbegin()` of an empty list. -/
  | noReply
  | fuel
deriving DecidableEq, Repr

abbrev HttpM := Prog Parser HttpFault

/-- `http_reset`. -/
def Parser.reset (s : Parser) : Parser := { replies := s.replies, wakeups := s.wakeups }

/-- A result that needs bytes behind the chunk. -/
def inChunk {α : Type} : Option α → HttpM α
  | none => throw .overread
  | some a => pure a

/-- `strncasecmp` of the bytes at `i` with a literal. -/
def caseAt (mem : Mem) (i : ℕ) (pat : Mem) : HttpM Bool := inChunk (caseStarts pat (mem.drop i))

/-- `if (*p == ' ') p++`. -/
def skipBlank (mem : Mem) (i : ℕ) : HttpM ℕ := do
  let b ← inChunk mem[i]?
  pure (if b = 32 then i + 1 else i)

/-- `Connection:` at `i`; the position to go on from. -/
def connectionField (mem : Mem) (i : ℕ) : HttpM ℕ := do
  if ← caseAt mem (i + 1) (lit "onnection:") then
    let i ← skipBlank mem (i + 11)
    let alive ← caseAt mem i (lit "keep-alive")
    modify (fun s => { s with keepalive := if alive then 1 else -1 })
    pure i
  else pure i

/-- `Content-Length:` at `i`. -/
def lengthField (mem : Mem) (i : ℕ) : HttpM ℕ := do
  if ← caseAt mem (i + 1) (lit "ontent-Length:") then
    let i ← skipBlank mem (i + 15)
    let n ← inChunk (atoi (mem.drop i))
    modify (fun s => { s with contentLength := n })
    pure i
  else pure i

/-- `Transfer-Encoding` at `i`. -/
def encodingField (mem : Mem) (i : ℕ) : HttpM ℕ := do
  if ← caseAt mem (i + 1) (lit "ransfer-Encoding") then
    let i ← skipBlank mem (i + 17)
    let chunked ← caseAt mem i (lit "chunked")
    modify (fun s => { s with chunked := if chunked then 1 else -1 })
    pure i
  else pure i

/-- The end of a header was found. -/
def Parser.endHeader (s : Parser) : Parser :=
  { s with
    header := false
    mf := false
    needLength := if 0 < s.contentLength then s.contentLength else s.needLength }

/-- The loop over the header, from `i` to `limit`: the position of the body, if its end was found. -/
def scanHeader (mem : Mem) (limit : ℕ) : ℕ → ℕ → HttpM (Option ℕ)
  | 0, _ => pure none
  | n + 1, i =>
      if limit ≤ i then pure none
      else do
        let b ← inChunk mem[i]?
        if b = 67 ∨ b = 99 then
          let i ← connectionField mem i
          -- looked for behind a `Connection:` as well
          let i ← lengthField mem i
          scanHeader mem limit n (i + 1)
        else if b = 84 ∨ b = 116 then
          let i ← encodingField mem i
          scanHeader mem limit n (i + 1)
        else if b = CR then
          if ← caseAt mem (i + 1) [LF, CR, LF] then
            modify Parser.endHeader
            pure (some (i + 4))
          else scanHeader mem limit n (i + 1)
        else scanHeader mem limit n (i + 1)

/-- The status line; the position the loop starts at. -/
def statusLine (mem : Mem) : HttpM ℕ := do
  if ← caseAt mem 0 (lit "HTTP/1.") then
    let code ← inChunk (atoi (mem.drop 8))
    modify (fun s => { s with rspCode := code, header := false })
    pure 8
  else pure 0

/-- `http_reply_datalist.rbegin()->append(bs)`. -/
def appendReply (bs : Mem) : HttpM Unit := do
  let s ← get
  match s.replies.getLast? with
  | none => throw .noReply
  | some r => set { s with replies := s.replies.dropLast ++ [r ++ bs] }

/-- `http_reply_datalist.push_back(bs)`, or an append if the header has begun before. -/
def keepHeader (bs : Mem) : HttpM Unit := do
  let s ← get
  if s.mf then appendReply bs
  else set { s with replies := s.replies ++ [bs], mf := true }

/-- The part for a chunk that starts in a header: the position of the body. -/
def takeHeader (mem : Mem) : HttpM ℕ := do
  let start ← statusLine mem
  -- `cstr` has moved on but `slen` has not
  let body := (← scanHeader mem (start + mem.length) (start + mem.length) start).getD mem.length
  if mem.length < body then throw .overread
  else
    keepHeader (mem.take body)
    pure body

/-- The part for the body at the end of a chunk; `again` is the recursive call. -/
def takeBody (again : Mem → HttpM Unit) (rest : Mem) : HttpM Unit := do
  let s ← get
  if s.replies = [] then pure ()
  else if s.keepalive < 0 ∨ s.chunked < 0 then pure ()
  else if 0 < s.contentLength then
    if s.needLength ≤ rest.length then
      if rest.length < s.contentLength then throw .overread
      else
        appendReply (rest.take s.contentLength.toNat)
        modify (fun s => { s with wakeups := s.wakeups + 1 })
        modify Parser.reset
        -- `need_length` is 0 by now, so that `rest` is taken again
        if rest ≠ [] then again rest else pure ()
    else
      appendReply rest
      modify (fun s => { s with needLength := s.needLength - rest.length })
  else appendReply rest

/-- `Connect::HandleRecvHttp`. -/
def handleRecvHttp : ℕ → Mem → HttpM Unit
  | 0, _ => throw .fuel
  | n + 1, mem => do
      let body ← if (← get).header then takeHeader mem else pure 0
      if (← get).header then pure () else takeBody (handleRecvHttp n) (mem.drop body)

/-- The chunks of a tunnel, one after the other. -/
def recvChunks (chunks : List Mem) : HttpM Unit :=
  runAll (fun c => handleRecvHttp (2 * c.length + 2) c) chunks

/-! ### What the header loop does -/

/-- What looking for fields leaves alone. -/
structure Scans (s s' : Parser) : Prop where
  replies : s'.replies = s.replies
  wakeups : s'.wakeups = s.wakeups
  mf : s.mf = false → s'.mf = false

theorem Scans.trans {s₁ s₂ s₃ : Parser} (h : Scans s₁ s₂) (h' : Scans s₂ s₃) : Scans s₁ s₃ :=
  ⟨h'.replies.trans h.replies, h'.wakeups.trans h.wakeups, fun hm => h'.mf (h.mf hm)⟩

/-- A program that only looks for fields, and has fuel enough. -/
def Scanning {α : Type} (x : HttpM α) : Prop := ∀ s, wpe x (fun _ s' => Scans s s') (· ≠ .fuel) s

namespace Scanning

variable {α β : Type}

theorem pure (a : α) : Scanning (pure a) := fun _ => ⟨rfl, rfl, id⟩

theorem bind {x : HttpM α} {f : α → HttpM β} (hx : Scanning x) (hf : ∀ a, Scanning (f a)) :
    Scanning (x >>= f) := fun s => by
  rw [wpe_bind]
  refine wpe_mono (hx s) (fun a s₁ h₁ => wpe_mono (hf a s₁) (fun _ s₂ h₂ => h₁.trans h₂) fun _ => id) fun _ => id

theorem modify {f : Parser → Parser} (h : ∀ s, Scans s (f s)) : Scanning (modify f) := h

theorem ite {c : Prop} [Decidable c] {x y : HttpM α} (hx : Scanning x) (hy : Scanning y) :
    Scanning (if c then x else y) := by
  split_ifs
  · exact hx
  · exact hy

theorem inChunk (o : Option α) : Scanning (inChunk o) := by
  cases o with
  | none => exact fun _ => HttpFault.noConfusion
  | some a => exact .pure a

theorem skipBlank (mem : Mem) (i : ℕ) : Scanning (skipBlank mem i) := .bind (.inChunk _) fun _ => .pure _

theorem connectionField (mem : Mem) (i : ℕ) : Scanning (connectionField mem i) :=
  .bind (.inChunk _) fun _ => .ite (.bind (.skipBlank mem _) fun _ => .bind (.inChunk _) fun _ =>
    .bind (.modify fun _ => ⟨rfl, rfl, id⟩) fun _ => .pure _) (.pure _)

theorem lengthField (mem : Mem) (i : ℕ) : Scanning (lengthField mem i) :=
  .bind (.inChunk _) fun _ => .ite (.bind (.skipBlank mem _) fun _ => .bind (.inChunk _) fun _ =>
    .bind (.modify fun _ => ⟨rfl, rfl, id⟩) fun _ => .pure _) (.pure _)

theorem encodingField (mem : Mem) (i : ℕ) : Scanning (encodingField mem i) :=
  .bind (.inChunk _) fun _ => .ite (.bind (.skipBlank mem _) fun _ => .bind (.inChunk _) fun _ =>
    .bind (.modify fun _ => ⟨rfl, rfl, id⟩) fun _ => .pure _) (.pure _)

theorem scanHeader (mem : Mem) (limit n i : ℕ) : Scanning (scanHeader mem limit n i) := by
  induction n generalizing i with
  | zero => exact .pure _
  | succ n ih =>
      refine .ite (.pure _) (.bind (.inChunk _) fun b => .ite ?_ (.ite ?_ (.ite ?_ (ih _))))
      · exact .bind (.connectionField mem i) fun _ => .bind (.lengthField mem _) fun _ => ih _
      · exact .bind (.encodingField mem i) fun _ => ih _
      · exact .bind (.inChunk _) fun _ =>
          .ite (.bind (.modify fun _ => ⟨rfl, rfl, fun _ => rfl⟩) fun _ => .pure _) (ih _)

theorem statusLine (mem : Mem) : Scanning (statusLine mem) :=
  .bind (.inChunk _) fun _ => .ite (.bind (.inChunk _) fun _ =>
    .bind (.modify fun _ => ⟨rfl, rfl, id⟩) fun _ => .pure _) (.pure _)

end Scanning

/-- The body begins behind the start of the chunk. -/
theorem scanHeader_pos (mem : Mem) (limit n i : ℕ) :
    Ensures (scanHeader mem limit n i) fun r _ => ∀ j, r = some j → 0 < j := by
  have hnone : Ensures (pure none : HttpM (Option ℕ)) fun r _ => ∀ j, r = some j → 0 < j := .pure fun _ => by simp
  induction n generalizing i with
  | zero => exact hnone
  | succ n ih =>
      refine .ite hnone (.bind fun b => .ite (.bind fun _ => .bind fun _ => ih _) (.ite (.bind fun _ => ih _)
        (.ite (.bind fun _ => .ite (.bind fun _ => .pure fun _ j hj => ?_) (ih _)) (ih _))))
      cases hj
      omega

/-! ### More elements than replies -/

/-- There are more elements than there were wake-ups, if there was one. -/
def Parser.Ahead (s : Parser) : Prop := s.wakeups = 0 ∨ s.wakeups < s.replies.length

/-- Bytes are added to the last element. -/
theorem appendReply_spec (bs : Mem) (s : Parser) :
    wpe (appendReply bs) (fun _ s' => s'.wakeups = s.wakeups ∧ s'.replies.length = s.replies.length ∧
      s.replies ≠ []) (· ≠ .fuel) s := by
  simp only [appendReply, wpe_bind, wpe_get]
  cases h : s.replies.getLast? with
  | none => exact HttpFault.noConfusion
  | some r =>
      have hne : s.replies ≠ [] := fun h0 => by simp [h0] at h
      have hpos : 0 < s.replies.length := List.length_pos_iff.mpr hne
      refine ⟨rfl, ?_, hne⟩
      simp only [List.length_append, List.length_dropLast, List.length_singleton]
      omega

/-- A header adds an element unless the header has begun before. -/
theorem takeHeader_spec (mem : Mem) (s : Parser) :
    wpe (takeHeader mem) (fun body s' => (0 < body ∨ mem = []) ∧ s'.wakeups = s.wakeups ∧
      s.replies.length ≤ s'.replies.length ∧ (s.mf = false → s.replies.length < s'.replies.length))
      (· ≠ .fuel) s := by
  rw [takeHeader, wpe_bind]
  refine wpe_mono (Scanning.statusLine mem s) (fun start s₁ h₁ => ?_) fun _ => id
  rw [wpe_bind]
  refine wpe_mono (wpe_and_wlp (Scanning.scanHeader mem _ _ start s₁) (scanHeader_pos mem _ _ start s₁))
    (fun r s₂ h₂ => ?_) fun _ => id
  have h := h₁.trans h₂.1
  have hbody : 0 < r.getD mem.length ∨ mem = [] := by
    cases r with
    | none =>
        rw [Option.getD_none, List.length_pos_iff, ← not_ne_iff]
        exact em _
    | some j => exact .inl (h₂.2 j rfl)
  rw [wpe_ite]
  refine ⟨fun _ => HttpFault.noConfusion, fun _ => ?_⟩
  simp only [keepHeader, wpe_bind, wpe_get, wpe_pure, wpe_ite]
  rw [← h.replies, ← h.wakeups]
  refine ⟨fun hmf => ?_, fun _ => ⟨hbody, rfl, by simp, fun _ => by simp⟩⟩
  refine wpe_mono (appendReply_spec _ s₂) (fun _ s₃ h₃ => ⟨hbody, h₃.1, h₃.2.1.ge, fun hm => ?_⟩) fun _ => id
  rw [h.mf hm] at hmf
  cases hmf

/-- The body of a reply: a wake-up is followed by another element. -/
theorem takeBody_ahead {again : Mem → HttpM Unit} {rest : Mem} {s : Parser} (h : s.Ahead)
    (hagain : rest ≠ [] → ∀ s : Parser, s.header = true → s.mf = false → s.wakeups ≤ s.replies.length →
      wpe (again rest) (fun _ s' => s'.Ahead) (· ≠ .fuel) s) :
    wpe (takeBody again rest) (fun _ s' => s'.Ahead) (· ≠ .fuel) s := by
  have happend : ∀ bs, wpe (appendReply bs) (fun _ s' => s'.Ahead) (· ≠ .fuel) s := fun bs =>
    wpe_mono (appendReply_spec bs s) (fun _ s₁ h₁ => by rwa [Parser.Ahead, h₁.1, h₁.2.1]) fun _ => id
  simp only [takeBody, wpe_bind, wpe_get, wpe_ite, wpe_pure, wpe_throw, wpe_modify]
  refine ⟨fun _ => h, fun _ => ⟨fun _ => h, fun _ => ⟨fun hlen => ⟨fun _ => ⟨fun _ => HttpFault.noConfusion,
    fun hin => ?_⟩, fun _ => ?_⟩, fun _ => happend rest⟩⟩⟩
  · have hne : rest ≠ [] := by
      rintro rfl
      simp only [List.length_nil, Nat.cast_zero, not_lt] at hin
      omega
    refine wpe_mono (appendReply_spec _ s) (fun _ s₁ h₁ => ⟨fun _ => ?_, fun h0 => absurd hne h0⟩) fun _ => id
    refine hagain hne _ rfl rfl ?_
    have hpos := List.length_pos_iff.mpr h₁.2.2
    have hle : s₁.wakeups + 1 ≤ s₁.replies.length := by
      rw [h₁.1, h₁.2.1]
      rcases h with h | h <;> omega
    exact hle
  · exact wpe_mono (happend rest) (fun _ s₁ h₁ => h₁) fun _ => id

/-- **There are more elements than replies.**  With fuel for its recursion, `HandleRecvHttp` does not run out of
it; it keeps the elements ahead, and gets them ahead when a reply was just completed. -/
theorem handleRecvHttp_ahead (n : ℕ) (mem : Mem) (s : Parser)
    (hfuel : 2 * mem.length + (if s.header then 0 else 1) < n)
    (h : s.Ahead ∨ s.header = true ∧ s.mf = false ∧ s.wakeups ≤ s.replies.length) :
    wpe (handleRecvHttp n mem) (fun _ s' => s'.Ahead) (· ≠ .fuel) s := by
  induction n generalizing mem s with
  | zero => omega
  | succ n ih =>
      -- the recursive call is for a state that was just reset, with less left of the chunk or no header before
      have hagain : ∀ rest : Mem, 2 * rest.length < n → ∀ s : Parser, s.header = true → s.mf = false →
          s.wakeups ≤ s.replies.length → wpe (handleRecvHttp n rest) (fun _ s' => s'.Ahead) (· ≠ .fuel) s :=
        fun rest hn s hh hm hw => ih rest s (by rwa [if_pos hh]) (.inr ⟨hh, hm, hw⟩)
      rw [handleRecvHttp, wpe_bind, wpe_get]
      cases hh : s.header with
      | true =>
          rw [hh, if_pos rfl] at hfuel
          rw [if_pos rfl, wpe_bind]
          refine wpe_mono (takeHeader_spec mem s) (fun body s₁ h₁ => ?_) fun _ => id
          obtain ⟨hbody, hw, hle, hlt⟩ := h₁
          have hahead : s₁.Ahead := by
            rw [Parser.Ahead, hw]
            rcases h with (h | h) | ⟨-, hm, h⟩
            · exact .inl h
            · exact .inr (h.trans_le hle)
            · exact .inr (h.trans_lt (hlt hm))
          rw [wpe_bind, wpe_get, wpe_ite]
          refine ⟨fun _ => hahead, fun _ => takeBody_ahead hahead fun hne => hagain _ ?_⟩
          have hpos : 0 < body := hbody.resolve_right fun h0 => hne (by simp [h0])
          have hrest := List.length_pos_iff.mpr hne
          rw [List.length_drop] at hrest ⊢
          omega
      | false =>
          rw [hh, if_neg Bool.false_ne_true] at hfuel
          have hahead : s.Ahead := h.resolve_right fun h => by simp [hh] at h
          rw [if_neg Bool.false_ne_true, wpe_bind, wpe_pure, wpe_bind, wpe_get, hh,
            if_neg Bool.false_ne_true]
          refine takeBody_ahead hahead fun _ => hagain _ ?_
          rw [List.drop_zero]
          omega

theorem recvChunks_ahead (chunks : List Mem) (s : Parser) (h : s.Ahead) :
    wpe (recvChunks chunks) (fun _ s' => s'.Ahead) (· ≠ .fuel) s := by
  induction chunks generalizing s with
  | nil => exact h
  | cons c cs ih =>
      rw [recvChunks, runAll, wpe_bind]
      have hfuel : 2 * c.length + (if s.header then 0 else 1) < 2 * c.length + 2 := by split_ifs <;> omega
      exact wpe_mono (handleRecvHttp_ahead _ c s hfuel (.inl h)) (fun _ s₁ h₁ => ih s₁ h₁) fun _ => id

/-! ### Sequences of replies -/

/-- A reply: a header block with the length of the body, and the body. -/
structure HttpReply where
  head : Mem
  body : Mem
  status : lit "HTTP/1." <+: head
  ends : [CR, LF, CR, LF] <:+ head
  nonempty : body ≠ []
  length : lit "Content-Length: " ++ (Nat.toDigits 10 body.length).map (fun c => UInt8.ofNat c.toNat) <:+: head
  noConnection : ¬ lit "Connection:" <:+: head
  noEncoding : ¬ lit "Transfer-Encoding:" <:+: head

def HttpReply.bytes (r : HttpReply) : Mem := r.head ++ r.body

/-- **Replies are put together exactly if there are none.**  For every sequence of replies and every way of
splitting their bytes into chunks: the calls return, look at nothing behind the chunks, leave one element for each
reply and wake the user once for each, if and only if the sequence is empty. -/
theorem http_assembly_iff (rs : List HttpReply) (chunks : List Mem)
    (hsplit : chunks.flatten = rs.flatMap HttpReply.bytes) (hne : ∀ c ∈ chunks, c ≠ []) :
    (∃ s, recvChunks chunks {} = .ok ((), s) ∧ s.replies = rs.map HttpReply.bytes ∧ s.wakeups = rs.length) ↔
      rs = [] := by
  constructor
  · rintro ⟨s, hrun, hreplies, hwakeups⟩
    have h := recvChunks_ahead chunks {} (.inl rfl)
    rw [wpe_of_ok hrun, Parser.Ahead, hreplies, hwakeups, List.length_map] at h
    exact List.length_eq_zero_iff.mp (h.resolve_right (lt_irrefl _))
  · rintro rfl
    obtain rfl : chunks = [] := by
      rw [List.flatMap_nil, List.flatten_eq_nil_iff] at hsplit
      exact List.eq_nil_iff_forall_not_mem.mpr fun c hc => hne c hc (hsplit c hc)
    exact ⟨{}, rfl, rfl, rfl⟩

/-- A reply with a body of three bytes. -/
def shortReply : HttpReply where
  head := lit "HTTP/1.1 200 OK" ++ [CR, LF] ++ lit "Content-Length: 3" ++ [CR, LF, CR, LF]
  body := lit "xyz"
  status := by decide
  ends := by decide
  nonempty := by decide
  length := by decide
  noConnection := by decide
  noEncoding := by decide

/-- No replies and no chunks; one reply in two chunks. -/
theorem http_assembly_iff_short :
    (∃ s, recvChunks [] {} = .ok ((), s) ∧ s.replies = [] ∧ s.wakeups = 0) ∧
      ¬∃ s, recvChunks [shortReply.head, shortReply.body] {} = .ok ((), s) ∧ s.replies = [shortReply.bytes] ∧
        s.wakeups = 1 := by
  refine ⟨(http_assembly_iff [] [] rfl (by simp)).mpr rfl, fun h => ?_⟩
  have hnone := (http_assembly_iff [shortReply] [shortReply.head, shortReply.body] rfl (by decide)).mp h
  exact List.cons_ne_nil _ _ hnone

/-- **A body that is taken twice.**  One reply in one chunk leaves two elements: the reply, and its body. -/
theorem http_bodyTwice : ∃ s, recvChunks [shortReply.bytes] {} = .ok ((), s) ∧
    s.replies = [shortReply.bytes, shortReply.body] ∧ s.wakeups = 1 := by
  have hrun : (recvChunks [shortReply.bytes] {}).toOption.map (fun w => (w.2.replies, w.2.wakeups)) =
      some ([shortReply.bytes, shortReply.body], 1) := by
    decide +kernel
  obtain ⟨⟨⟨⟩, s⟩, hs, he⟩ := Option.map_eq_some_iff.mp hrun
  exact ⟨s, eq_ok_of_toOption hs, Prod.mk.inj he⟩

end HttpsTunnel.Sdk

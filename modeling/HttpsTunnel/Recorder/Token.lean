import HttpsTunnel.Lib.CString
import HttpsTunnel.Lib.Prog
import HttpsTunnel.Recorder.Redis

/-! # Token requests at the recorder

The handler of READ_TOKEN_REQ in `NetRead` looks up the token of a user, compares it with the one
of the request, looks up the balance and answers.  It runs as a coroutine of its own and gives way to
others at each of its two commands, so the two replies may come from different contents of the
server.

The comparison is right for all lengths of the two tokens (`matchToken_eq`), and so is the answer,
but a token that was found equal is printed as a format: `token_decided_iff`. -/

namespace HttpsTunnel.Recorder

open HttpsTunnel.Lib HttpsTunnel.Lib.CString HttpsTunnel.Wire

/-! ### The handler -/

inductive TokenFault where
  | nullReply
  /-- A reply without text is taken for one with text. -/
  | noText
  | overread
  | overflow
  /-- A conversion without an argument. -/
  | format
deriving DecidableEq, Repr

/-- The handler, with the answers it has sent. -/
abbrev TokenM := Prog (List ReadTokenRsp) TokenFault

/-- `SendMsg2Tms`. -/
def sendMsg2Tms (rsp : ReadTokenRsp) : TokenM Unit := modify (· ++ [rsp])

/-- `sizeof msg_t::rz_buf` and `sizeof sz_buf`. -/
def szBufSize : ℕ := 1024

/-- Positions of the tokens in `ReadTokenReq` and `ReadTokenRsp`. -/
def reqTokenAt : ℕ := 26

def rspTokenAt : ℕ := 36

/-- `reply_->str`. -/
def Reply.text : Reply → Option (List Char)
  | .string s => some s
  | .status s => some s
  | _ => none

/-- The bytes of a text. -/
def bytesOf (s : List Char) : Mem := s.map fun c => UInt8.ofNat c.toNat

/-- Compare the token at the start of `field` with `str`: the number of bytes compared if they are
equal. -/
def matchToken (field str : Mem) : TokenM (Option ℕ) :=
  match strlen field with
  | none => throw .overread
  | some n =>
      let len := max str.length n
      match memcmp len field (str ++ [0]) with
      | none => throw .overread
      | some equal => pure (if equal then some len else none)

/-- `memcpy(rsp->token, str, len)` and `rsp->token[len] = 0`. -/
def copyToken (old str : Mem) (len : ℕ) : Mem :=
  ((str ++ [0]).take len ++ 0 :: old.drop (len + 1)).take tokenSize

/-- `snprintf(print_buf, len + 1, str)`. -/
def printToken (str : Mem) : TokenM Unit := if plainFormat str then pure () else throw .format

/-- The balance below which a user is refused. -/
def minBalance : ℤ := 4000

/-- The answer for a token that passed. -/
def answerBalance (rsp : ReadTokenRsp) : Option Reply → TokenM Unit
  | none => throw .nullReply
  | some .nil => sendMsg2Tms { rsp with rspCode := RespCode.noBalance.toNat }
  | some reply =>
      match reply.text with
      | none => throw .noText
      | some s =>
          sendMsg2Tms { rsp with
            balance := atoll s
            rspCode := if atoll s < minBalance then RespCode.noBalance.toNat else 0 }

/-- The handler of a message in `b`, with the replies to its two commands; `mem` is what `sz_buf` held
before. -/
def handleReadTokenReq (b mem : Buff) (auth bal : Option Reply) : TokenM Unit := do
  let req := ReadTokenReq.read b
  let rsp := { ReadTokenRsp.read mem with cid := req.cid, app := req.app, mobile := req.mobile }
  match auth with
  | none => throw .nullReply
  | some .nil => sendMsg2Tms { rsp with rspCode := RespCode.userNotExist.toNat }
  | some reply =>
      match reply.text with
      | none => throw .noText
      | some s =>
          match ← matchToken (b.slice reqTokenAt (szBufSize - reqTokenAt)) (bytesOf s) with
          | none => sendMsg2Tms { rsp with rspCode := RespCode.incorrectToken.toNat }
          | some len =>
              if szBufSize ≤ rspTokenAt + len then throw .overflow
              else
                printToken (bytesOf s)
                answerBalance { rsp with token := copyToken rsp.token (bytesOf s) len } bal

/-- The handler with a server that has content `r` at the first command and `r'` at the second. -/
def serveReadToken (b mem : Buff) (r r' : Redis) : TokenM Unit :=
  let req := ReadTokenReq.read b
  handleReadTokenReq b mem (execCommand r (.get (key .auth req.mobile req.app)) .ok).2
    (execCommand r' (.get (key .bal req.mobile req.app)) .ok).2

/-! ### The decision -/

/-- What the answer to a token should be, by what is stored for the user. -/
def tokenDecision (token : Mem) (auth bal : Option (List Char)) : ℕ :=
  match auth with
  | none => RespCode.userNotExist.toNat
  | some s =>
      if cstr token ≠ bytesOf s then RespCode.incorrectToken.toNat
      else
        match bal with
        | none => RespCode.noBalance.toNat
        | some t => if atoll t < minBalance then RespCode.noBalance.toNat else 0

/-- The answer echoes the request and has the right code, and says 0 only with the token and the balance
stored. -/
structure Decided (req : ReadTokenReq) (auth bal : Option (List Char)) (rsp : ReadTokenRsp) : Prop where
  cid : rsp.cid = req.cid
  app : rsp.app = req.app
  mobile : rsp.mobile = req.mobile
  code : rsp.rspCode = tokenDecision req.token auth bal
  granted : rsp.rspCode = 0 →
    auth.map bytesOf = some (cstr rsp.token) ∧ bal.map atoll = some rsp.balance

/-- A token that matches can be printed. -/
def Printable (token : Mem) (auth : Option (List Char)) : Prop :=
  ∀ s ∈ auth, cstr token = bytesOf s → plainFormat (bytesOf s)

/-! ### Tokens -/

section Tokens

variable {field str : Mem}

theorem cstr_take {n : ℕ} (h : 0 ∈ field.take n) : cstr (field.take n) = cstr field := by
  induction field generalizing n with
  | nil => simp
  | cons x m ih =>
      cases n with
      | zero => cases h
      | succ n =>
          by_cases hx : x = 0
          · simp [cstr, hx]
          · have hm : 0 ∈ m.take n := (List.mem_cons.mp h).resolve_left (Ne.symm hx)
            have hrest : cstr (m.take n) = cstr m := ih hm
            simpa [cstr, hx] using hrest

theorem cstr_length_lt (h : 0 ∈ field) : (cstr field).length < field.length := by
  induction field with
  | nil => cases h
  | cons x m ih =>
      by_cases hx : x = 0
      · simp [cstr, hx]
      · have hm : 0 ∈ m := (List.mem_cons.mp h).resolve_left (Ne.symm hx)
        simpa [cstr, hx] using ih hm

theorem cstr_append_zero (h : 0 ∉ str) (rest : Mem) : cstr (str ++ 0 :: rest) = str := by
  induction str with
  | nil => simp [cstr]
  | cons x m ih =>
      have hx : x ≠ 0 := fun he => h (by simp [he])
      have hm : cstr (m ++ 0 :: rest) = m := ih fun hm => h (List.mem_cons_of_mem _ hm)
      simpa [cstr, hx] using hm

/-- **The comparison is right**, whichever of the tokens is longer. -/
theorem matchToken_eq (hf : 0 ∈ field) (hs : 0 ∉ str) :
    matchToken field str = pure (if cstr field = str then some str.length else none) := by
  simp only [matchToken, strlen_eq hf, memcmp_longer hf hs, decide_eq_true_eq]
  split_ifs with h
  · rw [h, max_self]
  · rfl

/-- The token copied is the one stored. -/
theorem cstr_copyToken {old : Mem} (hs : 0 ∉ str) (hlen : str.length < tokenSize) :
    cstr (copyToken old str str.length) = str := by
  obtain ⟨n, hn⟩ : ∃ n, tokenSize - str.length = n + 1 := ⟨tokenSize - str.length - 1, by omega⟩
  rw [copyToken, List.take_left, List.take_append, List.take_of_length_le hlen.le, hn, List.take_succ_cons]
  exact cstr_append_zero hs _

end Tokens

/-! ### The answer -/

section Answer

variable {b mem : Buff} {auth bal : Option (List Char)}

/-- The reply to a command that reads a text. -/
def replyOf : Option (List Char) → Reply
  | none => .nil
  | some s => .string s

theorem exec_get {r : Redis} {k : List Char} {o : Option (List Char)} (h : r.data k = o.map Value.str) :
    (execCommand r (.get k) .ok).2 = some (replyOf o) := by
  cases o <;> simp [execCommand, Redis.exec, h, replyOf]

/-- The answer for a token that passed, by the balance stored. -/
def balanceRsp (rsp : ReadTokenRsp) : Option (List Char) → ReadTokenRsp
  | none => { rsp with rspCode := RespCode.noBalance.toNat }
  | some t => { rsp with
      balance := atoll t
      rspCode := if atoll t < minBalance then RespCode.noBalance.toNat else 0 }

theorem answerBalance_eq (rsp : ReadTokenRsp) (sent : List ReadTokenRsp) :
    answerBalance rsp (some (replyOf bal)) sent = .ok ((), sent ++ [balanceRsp rsp bal]) := by
  cases bal <;> rfl

theorem length_lt_of_cstr_eq (hnul : 0 ∈ (ReadTokenReq.read b).token) {s : List Char}
    (heq : cstr (ReadTokenReq.read b).token = bytesOf s) : (bytesOf s).length < tokenSize := by
  have h := cstr_length_lt hnul
  rwa [heq, show (ReadTokenReq.read b).token.length = tokenSize from Buff.slice_length ..] at h

/-- The handler on a stored token: refused, printed and answered, or stopped. -/
theorem handleReadTokenReq_stored (mem : Buff) (hnul : 0 ∈ (ReadTokenReq.read b).token) {s : List Char}
    (hs : 0 ∉ bytesOf s)
    (reply : Option Reply) (sent : List ReadTokenRsp) :
    let req := ReadTokenReq.read b
    let rsp := { ReadTokenRsp.read mem with cid := req.cid, app := req.app, mobile := req.mobile }
    handleReadTokenReq b mem (some (replyOf (some s))) reply sent =
      if cstr req.token = bytesOf s then
        if plainFormat (bytesOf s) then
          answerBalance { rsp with token := copyToken rsp.token (bytesOf s) (bytesOf s).length } reply sent
        else .error .format
      else .ok ((), sent ++ [{ rsp with rspCode := RespCode.incorrectToken.toNat }]) := by
  intro req rsp
  have htoken : req.token = (b.slice reqTokenAt (szBufSize - reqTokenAt)).take tokenSize := by
    rw [Buff.take_slice]
    rfl
  have hfield : 0 ∈ b.slice reqTokenAt (szBufSize - reqTokenAt) := by
    have hin : 0 ∈ req.token := hnul
    rw [htoken] at hin
    exact List.mem_of_mem_take hin
  have hcstr : cstr (b.slice reqTokenAt (szBufSize - reqTokenAt)) = cstr req.token := by
    rw [htoken, cstr_take (htoken ▸ hnul)]
  have hstep : handleReadTokenReq b mem (some (replyOf (some s))) reply =
      (do
        match ← matchToken (b.slice reqTokenAt (szBufSize - reqTokenAt)) (bytesOf s) with
        | none => sendMsg2Tms { rsp with rspCode := RespCode.incorrectToken.toNat }
        | some len =>
            if szBufSize ≤ rspTokenAt + len then throw .overflow
            else
              printToken (bytesOf s)
              answerBalance { rsp with token := copyToken rsp.token (bytesOf s) len } reply) := rfl
  rw [hstep, matchToken_eq hfield hs, pure_bind, hcstr]
  by_cases heq : cstr req.token = bytesOf s
  · have hlt := length_lt_of_cstr_eq hnul heq
    have hroom : ¬ szBufSize ≤ rspTokenAt + (bytesOf s).length := by
      have h₁ : szBufSize = 1024 := rfl
      have h₂ : rspTokenAt = 36 := rfl
      have h₃ : tokenSize = 32 := rfl
      omega
    simp only [heq, if_true, hroom, if_false]
    by_cases hp : plainFormat (bytesOf s) = true
    · simp only [printToken, hp, if_true]
      rfl
    · simp only [printToken, hp]
      rfl
  · simp only [heq, if_false]
    rfl

/-- The answer for a token that passed is as decided. -/
theorem balanceRsp_decided {req : ReadTokenReq} {rsp : ReadTokenRsp} (hcid : rsp.cid = req.cid)
    (happ : rsp.app = req.app) (hmobile : rsp.mobile = req.mobile) {s : List Char}
    (heq : cstr req.token = bytesOf s) (htoken : cstr rsp.token = bytesOf s) :
    Decided req (some s) bal (balanceRsp rsp bal) := by
  cases bal with
  | none => exact ⟨hcid, happ, hmobile, by simp [tokenDecision, heq, balanceRsp], fun h => nomatch h⟩
  | some t =>
      refine ⟨hcid, happ, hmobile, by simp [tokenDecision, heq, balanceRsp], fun _ => ⟨?_, rfl⟩⟩
      exact congrArg some htoken.symm

end Answer

/-- **The decision of the recorder is right exactly for tokens that can be printed.**  For every request
whose token ends within its field and every two contents of the server in which the token, if there is one, has
no NUL: one answer is sent, which echoes the request, has the code of the decision, and says 0 only with the
stored token and balance, if and only if a stored token that matches asks for no arguments as a format. -/
theorem token_decided_iff (b mem : Buff) (r r' : Redis) (auth bal : Option (List Char))
    (sent : List ReadTokenRsp) (hnul : 0 ∈ (ReadTokenReq.read b).token) (hauth : ∀ s ∈ auth, 0 ∉ bytesOf s)
    (hr : r.data (key .auth (ReadTokenReq.read b).mobile (ReadTokenReq.read b).app) = auth.map .str)
    (hr' : r'.data (key .bal (ReadTokenReq.read b).mobile (ReadTokenReq.read b).app) = bal.map .str) :
    (∃ rsp, serveReadToken b mem r r' sent = .ok ((), sent ++ [rsp]) ∧
      Decided (ReadTokenReq.read b) auth bal rsp) ↔
    Printable (ReadTokenReq.read b).token auth := by
  have hrun : serveReadToken b mem r r' =
      handleReadTokenReq b mem (some (replyOf auth)) (some (replyOf bal)) := by
    simp only [serveReadToken, exec_get hr, exec_get hr']
  rw [hrun]
  cases auth with
  | none =>
      refine ⟨fun _ s hs => ?_, fun _ => ⟨_, rfl, rfl, rfl, rfl, rfl, fun h => ?_⟩⟩
      · cases hs
      · cases h
  | some s =>
      have hs : 0 ∉ bytesOf s := hauth s rfl
      have hstored := handleReadTokenReq_stored mem hnul hs (some (replyOf bal)) sent
      simp only [answerBalance_eq] at hstored
      rw [hstored]
      by_cases heq : cstr (ReadTokenReq.read b).token = bytesOf s
      · rw [if_pos heq]
        have hiff : Printable (ReadTokenReq.read b).token (some s) ↔ plainFormat (bytesOf s) = true :=
          ⟨fun h => h s rfl heq, fun h s' hs' _ => by cases hs'; exact h⟩
        rw [hiff]
        by_cases hp : plainFormat (bytesOf s) = true
        · rw [if_pos hp]
          refine ⟨fun _ => hp, fun _ => ⟨_, rfl, balanceRsp_decided rfl rfl rfl heq ?_⟩⟩
          exact cstr_copyToken hs (length_lt_of_cstr_eq hnul heq)
        · rw [if_neg hp]
          refine ⟨fun h => ?_, fun h => absurd h hp⟩
          obtain ⟨_, h, -⟩ := h
          cases h
      · rw [if_neg heq]
        refine ⟨fun _ s' hs' he => ?_, fun _ => ⟨_, rfl, rfl, rfl, rfl, ?_, fun h => ?_⟩⟩
        · cases hs'
          exact absurd he heq
        · simp [tokenDecision, heq]
        · cases h

/-- A request of user 2 of application 1 with the given token. -/
def requestWith (token : Mem) : Buff :=
  Buff.store (fun _ => 0) 0 (ReadTokenReq.bytes ⟨7, 1, 2, token ++ List.replicate (tokenSize - token.length) 0⟩)

/-- User 2 of application 1 has this token and a balance of 5000. -/
def storeWith (token : List Char) : Redis where
  data k :=
    if k = key .auth 2 1 then some (.str token)
    else if k = key .bal 2 1 then some (.str ['5', '0', '0', '0'])
    else none

/-- A token that is stored and sent is accepted. -/
theorem token_decided_iff_equal : ∃ rsp, serveReadToken (requestWith [97, 98]) (fun _ => 0)
      (storeWith ['a', 'b']) (storeWith ['a', 'b']) [] = .ok ((), [] ++ [rsp]) ∧
    Decided (ReadTokenReq.read (requestWith [97, 98])) (some ['a', 'b']) (some ['5', '0', '0', '0']) rsp :=
  (token_decided_iff (requestWith [97, 98]) (fun _ => 0) (storeWith ['a', 'b']) (storeWith ['a', 'b'])
    (some ['a', 'b']) (some ['5', '0', '0', '0']) [] (by decide +kernel) (by decide +kernel) (by decide +kernel)
    (by decide +kernel)).mpr (by
      intro s hs _
      cases hs
      decide +kernel)

/-- **A token printed as a format.**  The token `%n` is stored and sent; the handler stops without an
answer. -/
theorem token_asFormat : 0 ∈ (ReadTokenReq.read (requestWith [37, 110])).token ∧ 0 ∉ bytesOf ['%', 'n'] ∧
    tokenDecision (ReadTokenReq.read (requestWith [37, 110])).token (some ['%', 'n'])
      (some ['5', '0', '0', '0']) = 0 ∧
    serveReadToken (requestWith [37, 110]) (fun _ => 0) (storeWith ['%', 'n']) (storeWith ['%', 'n']) [] =
      .error .format := by
  have hfault : faultOf (serveReadToken (requestWith [37, 110]) (fun _ => 0) (storeWith ['%', 'n'])
      (storeWith ['%', 'n']) []) = some .format := by
    decide +kernel
  exact ⟨by decide +kernel, by decide +kernel, by decide +kernel, eq_error_of_faultOf hfault⟩

end HttpsTunnel.Recorder

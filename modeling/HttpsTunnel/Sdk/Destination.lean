import HttpsTunnel.Sdk.FirstChunk

/-! # The destination of a request

A `Head` is a complete request head: a request line, fields, and an empty line.  Its destination is
what a `CONNECT` names, and otherwise what its `Host: ` field names, with port 80 if there is none.

`HandleProxyProtocol` takes the text behind the first `Host: ` of the head, wherever it stands, as it
is, and leaves the port alone; behind `CONNECT ` it takes the text up to the first colon.
`destination_iff` says for which heads that is the destination. -/

namespace HttpsTunnel.Sdk

open HttpsTunnel.Lib HttpsTunnel.Wire HttpsTunnel.Lib.CString

/-! ### Request heads -/

/-- A text inside a line. -/
def Text : Type := { t : Mem // t ≠ [] ∧ CR ∉ t ∧ 0 ∉ t }

/-- A method: no blank and no colon. -/
def Method : Type := { t : Mem // t ≠ [] ∧ CR ∉ t ∧ 0 ∉ t ∧ 32 ∉ t ∧ 58 ∉ t }

/-- A host: a name, or an address in brackets. -/
def HostName : Type := { t : Mem // t ≠ [] ∧ CR ∉ t ∧ 0 ∉ t ∧ 32 ∉ t ∧ (58 ∈ t → t.getLast? = some 93) }

/-- A port in decimal. -/
def PortText : Type := { t : Mem // t ≠ [] ∧ t.all isDigit ∧ decimalValue t < 2 ^ 16 }

def PortText.number (p : PortText) : ℕ := decimalValue p.1

/-- A text up to its case. -/
def Spelling (t : Mem) : Type := { t' : Mem // SameCase t' t }

/-- `HTTP/1.` with the minor version. -/
def version (minor : Fin 10) : Mem := lit "HTTP/1." ++ [48 + UInt8.ofNat minor]

/-- A host with its port, if there is one. -/
def authority (host : HostName) : Option PortText → Mem
  | none => host.1
  | some port => host.1 ++ 58 :: port.1

/-- `CONNECT host:port`. -/
structure ConnectHead where
  method : Spelling (lit "CONNECT")
  host : HostName
  port : PortText
  minor : Fin 10
  fields : List Text

/-- A request with another method, and with a `Host: ` field among its fields. -/
structure PlainHead where
  method : Method
  target : Text
  minor : Fin 10
  before : List Text
  key : Spelling (lit "Host: ")
  host : HostName
  port : Option PortText
  after : List Text
  ne : ¬ SameCase method.1 (lit "CONNECT")

/-- The text behind `CONNECT `. -/
def ConnectHead.line (h : ConnectHead) : Mem := authority h.host (some h.port) ++ 32 :: version h.minor

def ConnectHead.lines (h : ConnectHead) : List Mem := (h.method.1 ++ 32 :: h.line) :: h.fields.map (·.1)

def PlainHead.fields (h : PlainHead) : List Mem :=
  h.before.map (·.1) ++ (h.key.1 ++ authority h.host h.port) :: h.after.map (·.1)

def PlainHead.lines (h : PlainHead) : List Mem :=
  (h.method.1 ++ 32 :: (h.target.1 ++ 32 :: version h.minor)) :: h.fields

/-- A complete request head. -/
inductive Head where
  | connect (h : ConnectHead)
  | plain (h : PlainHead)

namespace Head

def lines : Head → List Mem
  | connect h => h.lines
  | plain h => h.lines

/-- Lines with their ends. -/
def ended (ls : List Mem) : Mem := ls.flatMap (· ++ [CR, LF])

/-- A head as it is sent. -/
def bytes (h : Head) : Mem := ended h.lines ++ [CR, LF]

/-- Where a request is to go: the host and the port. -/
def destination : Head → Host × ℕ
  | connect h => (h.host.1, h.port.number)
  | plain h => (h.host.1, h.port.elim 80 PortText.number)

end Head

/-- The text behind the first `Host: ` of a line. -/
def behindHost : Mem → Option Mem
  | [] => none
  | b :: t => if SameCase ((b :: t).take 6) (lit "Host: ") then some ((b :: t).drop 6) else behindHost t

/-- The heads whose destination is found.  For a `CONNECT`, the host has no colon in it, and the line
is short enough; otherwise, the method does not start like a `CONNECT`, the first `Host: ` in any of
the lines has the host alone behind it, and the port is 80. -/
def Head.Understood : Head → Prop
  | connect h => 58 ∉ h.host.1 ∧ h.line.length < connectValSize
  | plain h => ¬ SameCase (h.method.1.take 7) (lit "CONNECT") ∧ h.lines.findSome? behindHost = some h.host.1 ∧
      h.port.elim 80 PortText.number = 80

/-- `HandleProxyProtocol`, called with the head `h` in the buffer of `p`, sets the host and the port
to the destination. -/
def State.Heeds (s : State) (p : Ptr) (h : Head) : Prop :=
  wp (handleProxyProtocol p h.bytes.length)
    (fun _ s' => ∃ c, s'.conns p = some c ∧ (c.host, c.webPort) = h.destination) s

/-! ### The lines of a head -/

section Lines

variable {t m : Mem}

/-- A line is searched to its end, and what is found is the rest of the line. -/
theorem hostScan_line (hc : CR ∉ t) (h0 : 0 ∉ t) (m : Mem) :
    hostScan (t ++ CR :: LF :: m) (t ++ CR :: LF :: m).length 0 =
      (behindHost t).elim (hostScan m m.length 0) fun x => some (some x) := by
  have hkey : lower CR ∉ (lit "Host: ").map lower := by decide
  induction t with
  | nil =>
      rw [List.nil_append, hostScan_cons]
      exact hostScan_cons LF m
  | cons b t ih =>
      simp only [List.mem_cons, not_or] at hc h0
      have hcase := caseStarts_line (t := b :: t) hkey (LF :: m)
      rw [List.cons_append] at hcase ⊢
      rw [hostScan_cons, hcase, behindHost]
      by_cases h : SameCase ((b :: t).take 6) (lit "Host: ")
      · have hlen : 6 ≤ (b :: t).length := by
          have := h.length_eq
          rw [List.length_take, show (lit "Host: ").length = 6 from rfl] at this
          omega
        have hcr : CR ∉ (b :: t).drop 6 := fun hx => (List.mem_cons.mp (List.mem_of_mem_drop hx)).elim hc.1 hc.2
        have hz : 0 ∉ (b :: t).drop 6 := fun hx => (List.mem_cons.mp (List.mem_of_mem_drop hx)).elim h0.1 h0.2
        have hdrop : (b :: (t ++ CR :: LF :: m)).drop 6 = (b :: t).drop 6 ++ CR :: LF :: m := by
          rw [← List.cons_append, List.drop_append_of_le_length hlen]
        have hstr : strstr [CR, LF] ((b :: t).drop 6 ++ CR :: LF :: m) = some (some ((b :: t).drop 6).length) := by
          rw [strstr_skip hcr hz]
          simp [strstr]
        have hdec : decide (SameCase ((b :: t).take (lit "Host: ").length) (lit "Host: ")) = true := decide_eq_true h
        simp only [hdec, hdrop, hstr, h, if_true, List.take_left, Option.elim_some]
      · have hdec : decide (SameCase ((b :: t).take (lit "Host: ").length) (lit "Host: ")) = false := decide_eq_false h
        simp only [hdec, h, if_false]
        exact ih hc.2 h0.2

theorem hostScan_lines {ls : List Mem} {x : Mem} (hls : ∀ l ∈ ls, CR ∉ l ∧ 0 ∉ l)
    (hx : ls.findSome? behindHost = some x)
    (m : Mem) : hostScan (Head.ended ls ++ m) (Head.ended ls ++ m).length 0 = some (some x) := by
  induction ls with
  | nil => cases hx
  | cons l ls ih =>
      have hl := hls l List.mem_cons_self
      have heq : Head.ended (l :: ls) ++ m = l ++ CR :: LF :: (Head.ended ls ++ m) := by simp [Head.ended]
      rw [heq, hostScan_line hl.1 hl.2]
      rw [List.findSome?_cons] at hx
      cases hb : behindHost l with
      | some y =>
          rw [hb] at hx
          cases hx
          rfl
      | none =>
          rw [hb] at hx
          exact ih (fun l hl => hls l (List.mem_cons_of_mem _ hl)) hx

theorem behindHost_key (key : Spelling (lit "Host: ")) (value : Mem) : behindHost (key.1 ++ value) = some value := by
  have hlen : key.1.length = 6 := key.2.length_eq
  match hk : key.1, hlen with
  | b :: k, hlen =>
      have htake : ((b :: k) ++ value).take 6 = key.1 := by rw [hk]; exact List.take_left' hlen
      have hdrop : ((b :: k) ++ value).drop 6 = value := List.drop_left' hlen
      rw [List.cons_append] at htake hdrop ⊢
      rw [behindHost, htake, hdrop, if_pos key.2]

end Lines

/-! ### What is found -/

/-- The host and the port of a new connection behind a request. -/
def Request.sets : Request → Host × ℕ
  | connect host port => (host, port.getD 80)
  | tooLong => ([], 80)
  | plain host => (host.getD [], 80)

section Found

theorem PortText.digits_eq (port : PortText) : digits port.1 % 2 ^ 16 = port.number := by
  obtain ⟨t, -, hdig, hlt⟩ := port
  rw [CString.digits_eq (List.all_eq_true.mp hdig) (hlt.trans (by decide))]
  exact Nat.mod_eq_of_lt hlt

theorem PortText.not_delim (port : PortText) : ∀ x ∈ port.1, x ∉ lit "\r\n " := by
  intro x hx hd
  have hdig := List.all_eq_true.mp port.2.2.1 x hx
  simp only [lit, isDigit] at hd hdig
  revert hdig
  have : x = 13 ∨ x = 10 ∨ x = 32 := by simpa using hd
  rcases this with rfl | rfl | rfl <;> decide

theorem PortText.starts (port : PortText) : port.1.head?.any isDigit := by
  obtain ⟨b, t, hb⟩ := List.exists_cons_of_ne_nil port.2.1
  rw [hb]
  exact List.all_eq_true.mp port.2.2.1 b (by rw [hb]; exact List.mem_cons_self)

theorem version_text : ∀ minor, CR ∉ version minor ∧ 0 ∉ version minor := by
  decide

theorem authority_text (host : HostName) (port : Option PortText) :
    CR ∉ authority host port ∧ 0 ∉ authority host port := by
  have hhost : CR ∉ host.1 ∧ 0 ∉ host.1 := ⟨host.2.2.1, host.2.2.2.1⟩
  cases port with
  | none => exact hhost
  | some port =>
      have hport : ∀ x, isDigit x = false → x ∉ port.1 :=
        fun x hx h => by simp [List.all_eq_true.mp port.2.2.1 x h] at hx
      have hcolon : CR ≠ 58 ∧ (0 : UInt8) ≠ 58 := by decide
      simp only [authority, List.mem_append, List.mem_cons, not_or]
      exact ⟨⟨hhost.1, hcolon.1, hport CR (by decide)⟩, hhost.2, hcolon.2, hport 0 (by decide)⟩

theorem ConnectHead.line_text (h : ConnectHead) : CR ∉ h.line ∧ 0 ∉ h.line := by
  have hauth := authority_text h.host (some h.port)
  have hver := version_text h.minor
  have hblank : CR ≠ 32 ∧ (0 : UInt8) ≠ 32 := by decide
  simp only [line, List.mem_append, List.mem_cons, not_or]
  exact ⟨⟨hauth.1, hblank.1, hver.1⟩, hauth.2, hblank.2, hver.2⟩

variable {h : ConnectHead}

/-- The host and the port of a line without another colon. -/
theorem lineTarget_line (hhost : 58 ∉ h.host.1) (hlen : h.line.length < connectValSize) :
    lineTarget h.line = .ok (.connect h.host.1 (some h.port.number)) := by
  have hline : h.line = [] ++ h.host.1 ++ 58 :: (h.port.1 ++ 32 :: version h.minor) := by
    simp [ConnectHead.line, authority]
  have htok : strtok (lit ":") h.line = some (h.host.1, h.port.1 ++ 32 :: version h.minor) := by
    rw [hline]
    exact strtok_append (by simp) h.host.2.1 (fun x hx hd => hhost ((mem_colon x).mp hd ▸ hx)) (by simp [lit])
  have hport : strtok (lit "\r\n ") (h.port.1 ++ 32 :: version h.minor) = some (h.port.1, version h.minor) := by
    rw [← List.nil_append h.port.1]
    exact strtok_append (by simp) h.port.2.1 h.port.not_delim (by simp [lit])
  have hne : ¬ h.line.length = connectValSize := by omega
  have hle : ¬ connectValSize < h.line.length := by omega
  simp only [lineTarget, hle, hne, if_false, htok, hport, h.port.starts, if_true, h.port.digits_eq]

theorem connect_found_iff : (∃ r, lineTarget h.line = .ok r ∧ r.sets = (Head.connect h).destination) ↔
    (Head.connect h).Understood := by
  constructor
  · rintro ⟨r, hr, hsets⟩
    obtain ⟨-, rfl⟩ | ⟨hlen, tok, rest, pr, htok, -, rfl⟩ := lineTarget_cases hr
    · exact absurd (Prod.mk.inj hsets).1.symm h.host.2.1
    · obtain ⟨-, -, -, -, -, hcolon, -⟩ := exists_of_strtok htok
      have heq : tok = h.host.1 := (Prod.mk.inj hsets).1
      exact ⟨fun hx => hcolon 58 (heq ▸ hx) ((mem_colon 58).mpr rfl), hlen⟩
  · rintro ⟨hcolon, hlen⟩
    exact ⟨_, lineTarget_line hcolon hlen, rfl⟩

/-- Behind a longer method, what is taken for the host has the blank behind the method in it. -/
theorem blank_mem_of_lineTarget {a b : Mem} {r : Request} (ha : 58 ∉ a) (hr : lineTarget (a ++ 32 :: b) = .ok r) :
    r.sets.1 = [] ∨ 32 ∈ r.sets.1 := by
  obtain ⟨-, rfl⟩ | ⟨-, tok, rest, pr, htok, -, rfl⟩ := lineTarget_cases hr
  · exact .inl rfl
  obtain ⟨lead, tail, hline, hlead, -, -, htail, -⟩ := exists_of_strtok htok
  have hblank : (32 : UInt8) ≠ 58 := by decide
  right
  show 32 ∈ tok
  by_contra hno
  -- then the first blank of the line is in `lead`, or it is where `tail` has its colon, or behind that
  have hfirst : 32 ∉ lead ++ tok := by
    simp only [List.mem_append, not_or]
    exact ⟨fun h => hblank ((mem_colon 32).mp (hlead 32 h)), hno⟩
  rcases List.append_eq_append_iff.mp hline with ⟨u, hu, hv⟩ | ⟨u, hu, hv⟩
  · cases u with
    | nil => exact hblank ((mem_colon 32).mp (htail 32 (by rw [← List.nil_append tail, ← hv]; rfl)))
    | cons x u =>
        cases hv
        exact hfirst (by rw [hu]; simp)
  · cases u with
    | nil => exact hblank ((mem_colon 32).mp (htail 32 (by rw [hv]; rfl)))
    | cons x u =>
        obtain rfl := (mem_colon x).mp (htail x (by rw [hv]; rfl))
        exact ha (by rw [hu]; simp)

end Found

/-! ### Heads -/

section Heads

theorem findRequest_connect (h : ConnectHead) (e : Mem) (n : ℕ) :
    findRequest ((Head.connect h).bytes ++ e) n = lineTarget h.line := by
  have hlen : h.method.1.length = 7 := h.method.2.length_eq
  obtain ⟨rest, hbytes⟩ : ∃ rest, (Head.connect h).bytes ++ e = h.method.1 ++ 32 :: (h.line ++ CR :: rest) :=
    ⟨LF :: (Head.ended (h.fields.map (·.1)) ++ [CR, LF] ++ e), by
      simp [Head.bytes, Head.ended, Head.lines, ConnectHead.lines]⟩
  have hcase : caseStarts (lit "CONNECT") (h.method.1 ++ 32 :: (h.line ++ CR :: rest)) = some true := by
    rw [caseStarts_line (by decide), List.take_of_length_le (by rw [hlen]; decide), decide_eq_true h.method.2]
  have hdrop : (h.method.1 ++ 32 :: (h.line ++ CR :: rest)).drop 8 = h.line ++ CR :: rest := by
    rw [List.drop_append, hlen, List.drop_of_length_le (by omega)]
    rfl
  simp only [hbytes, findRequest, hcase, hdrop]
  exact connectTarget_line h.line_text.1 h.line_text.2 rest

variable {h : PlainHead}

theorem PlainHead.lines_text (h : PlainHead) : ∀ l ∈ h.lines, CR ∉ l ∧ 0 ∉ l := by
  have hkey : CR ∉ h.key.1 ∧ 0 ∉ h.key.1 := ⟨h.key.2.not_mem (by decide), h.key.2.not_mem (by decide)⟩
  have hauth := authority_text h.host h.port
  have hver := version_text h.minor
  have htexts : ∀ ts : List Text, ∀ l ∈ ts.map (·.1), CR ∉ l ∧ 0 ∉ l := by
    intro ts l hl
    obtain ⟨t, -, rfl⟩ := List.mem_map.mp hl
    exact t.2.2
  have hblank : CR ≠ 32 ∧ (0 : UInt8) ≠ 32 := by decide
  intro l hl
  simp only [lines, fields, List.mem_cons, List.mem_append] at hl
  rcases hl with rfl | hl | rfl | hl
  · simp only [List.mem_append, List.mem_cons, not_or]
    exact ⟨⟨h.method.2.2.1, hblank.1, h.target.2.2.1, hblank.1, hver.1⟩,
      h.method.2.2.2.1, hblank.2, h.target.2.2.2, hblank.2, hver.2⟩
  · exact htexts h.before l hl
  · simp only [List.mem_append, not_or]
    exact ⟨⟨hkey.1, hauth.1⟩, hkey.2, hauth.2⟩
  · exact htexts h.after l hl

/-- A request with a `Host: ` field has a first `Host: `. -/
theorem PlainHead.exists_behindHost (h : PlainHead) : ∃ x, h.lines.findSome? behindHost = some x := by
  rw [← Option.isSome_iff_exists, List.findSome?_isSome_iff]
  refine ⟨h.key.1 ++ authority h.host h.port, by simp [lines, fields], ?_⟩
  rw [behindHost_key]
  rfl

/-- The bytes of a head, behind its method and behind its first line. -/
theorem PlainHead.exists_bytes (h : PlainHead) (e : Mem) : ∃ rest, (Head.plain h).bytes ++ e =
    h.method.1 ++ 32 :: (h.target.1 ++ 32 :: version h.minor ++ CR :: rest) :=
  ⟨LF :: (Head.ended h.fields ++ [CR, LF] ++ e), by simp [Head.bytes, Head.ended, Head.lines, lines]⟩

/-- A method that starts like a `CONNECT` is taken for one, and the blank behind it for a part of the
host. -/
theorem PlainHead.not_found (hs : SameCase (h.method.1.take 7) (lit "CONNECT")) {e : Mem} {n : ℕ} {r : Request}
    (hr : findRequest ((Head.plain h).bytes ++ e) n = .ok r) : r.sets ≠ (Head.plain h).destination := by
  intro hsets
  obtain ⟨rest, hbytes⟩ := h.exists_bytes e
  have hlen : 8 ≤ h.method.1.length := by
    have h7 := hs.length_eq
    rw [List.length_take, show (lit "CONNECT").length = 7 from rfl] at h7
    by_contra hlt
    exact h.ne (by rwa [List.take_of_length_le (by omega)] at hs)
  have hdrop : (h.method.1 ++ 32 :: (h.target.1 ++ 32 :: version h.minor ++ CR :: rest)).drop 8 =
      (h.method.1.drop 8 ++ 32 :: (h.target.1 ++ 32 :: version h.minor)) ++ CR :: rest := by
    rw [List.drop_append_of_le_length hlen]
    simp
  have hcase : caseStarts (lit "CONNECT") (h.method.1 ++ 32 :: (h.target.1 ++ 32 :: version h.minor ++ CR :: rest)) =
      some true := by
    rw [caseStarts_line (by decide)]
    exact congrArg some (decide_eq_true hs)
  have htext := h.lines_text _ List.mem_cons_self
  have hsub : ∀ x, x ∈ h.method.1.drop 8 ++ 32 :: (h.target.1 ++ 32 :: version h.minor) →
      x ∈ h.method.1 ++ 32 :: (h.target.1 ++ 32 :: version h.minor) := fun x hx =>
    (List.mem_append.mp hx).elim (fun hx => List.mem_append_left _ (List.mem_of_mem_drop hx)) (List.mem_append_right _)
  simp only [hbytes, findRequest, hcase, hdrop] at hr
  rw [connectTarget_line (fun hx => htext.1 (hsub _ hx)) fun hx => htext.2 (hsub _ hx)] at hr
  have hblank := blank_mem_of_lineTarget (fun hx => h.method.2.2.2.2.2 (List.mem_of_mem_drop hx)) hr
  rw [hsets] at hblank
  exact hblank.elim h.host.2.1 h.host.2.2.2.2.1

theorem plain_found_iff (e : Mem) :
    (∃ r, findRequest ((Head.plain h).bytes ++ e) (Head.plain h).bytes.length = .ok r ∧
      r.sets = (Head.plain h).destination) ↔ (Head.plain h).Understood := by
  by_cases hs : SameCase (h.method.1.take 7) (lit "CONNECT")
  · exact ⟨fun ⟨r, hr, hsets⟩ => absurd hsets (PlainHead.not_found hs hr), fun hu => absurd hs hu.1⟩
  · obtain ⟨x, hx⟩ := h.exists_behindHost
    have hcase : caseStarts (lit "CONNECT") ((Head.plain h).bytes ++ e) = some false := by
      obtain ⟨rest, hbytes⟩ := h.exists_bytes e
      rw [hbytes, caseStarts_line (by decide)]
      exact congrArg some (decide_eq_false hs)
    have hscan : hostScan (Head.plain h).bytes (Head.plain h).bytes.length 0 = some (some x) :=
      hostScan_lines h.lines_text hx [CR, LF]
    have hfind : findRequest ((Head.plain h).bytes ++ e) (Head.plain h).bytes.length = .ok (.plain (some x)) := by
      simp only [findRequest, hcase, hostScan_append (hscan ▸ Option.some_ne_none _), hscan]
    simp only [hfind, Except.ok.injEq, exists_eq_left', Request.sets, Option.getD_some, Head.destination, Prod.mk.injEq,
      Head.Understood, hs, hx, Option.some.injEq, not_false_eq_true, true_and]
    exact and_congr_right' eq_comm

theorem found_iff (h : Head) (e : Mem) :
    (∃ r, findRequest (h.bytes ++ e) h.bytes.length = .ok r ∧ r.sets = h.destination) ↔ h.Understood := by
  cases h with
  | connect h =>
      simp only [findRequest_connect]
      exact connect_found_iff
  | plain h => exact plain_found_iff e

end Heads

/-! ### The handler -/

section Handler

variable {s : State} {p : Ptr} {h : Head}

theorem Request.sets_eq (r : Request) {c : Connect} (hhost : c.host = []) (hport : c.webPort = 80) :
    ((r.setIn c).host, (r.setIn c).webPort) = r.sets := by
  cases r with
  | connect host port => simp [setIn, sets, hport]
  | tooLong => simp [setIn, sets, hhost, hport]
  | plain host => simp [setIn, sets, hhost, hport]

/-- The host and the port that `HandleProxyProtocol` leaves. -/
theorem Turned.exists {c : Connect} {ret : ℤ} {s' : State} (ht : Turned s p c ret s') :
    ∃ c', s'.conns p = some c' ∧ (c'.host, c'.webPort) = (c.host, c.webPort) := by
  obtain ⟨-, hp, -⟩ | ⟨-, -, t, d, -, hp, -⟩ := ht
  · exact ⟨c, hp, rfl⟩
  · exact ⟨_, hp, rfl⟩

/-- **The destination of a request is taken over exactly if the head is `Understood`.** -/
theorem destination_iff (s : State) (p : Ptr) (h : Head) (hlen : h.bytes.length ≤ buffSize)
    (hf : s.FirstRead p h.bytes) : s.Heeds p h ↔ h.Understood := by
  obtain ⟨⟨c, hp, hhost, -, hport, -, hbuff⟩, hunused⟩ := hf
  rw [← found_iff h (c.dec.buff.slice h.bytes.length (buffSize - h.bytes.length)), ← slice_chunk hbuff hlen]
  cases hr : findRequest (c.dec.buff.slice 0 buffSize) h.bytes.length with
  | error e =>
      simp only [State.Heeds, handleProxyProtocol, wpe_bind, wpe_deref, hp, hr, wpe_throw, Option.some.injEq,
        forall_eq', reduceCtorEq, false_and, exists_false, and_false]
  | ok r =>
      have hturn := handleProxyProtocol_turned hp hunused hhost hr
      simp only [Except.ok.injEq, exists_eq_left']
      constructor
      · intro hheeds
        obtain ⟨_, s', -, ht, c', hc', hdest⟩ := (wp_iff _ _ _).mp
          (wp_and_wlp hturn (wpe_mono hheeds (fun _ _ => id) fun _ => False.elim))
        obtain ⟨c'', hc'', hset⟩ := ht.exists
        obtain rfl : c' = c'' := Option.mem_unique hc' hc''
        rw [← r.sets_eq hhost hport, ← hset, hdest]
      · intro hsets
        refine wp_mono hturn fun _ s' ht => ?_
        obtain ⟨c', hc', hset⟩ := ht.exists
        exact ⟨c', hc', hset.trans ((r.sets_eq hhost hport).trans hsets)⟩

end Handler

/-- `GET / HTTP/1.1` with the field `Host: a.com`, and with a port in it. -/
def getHead (port : Option PortText) : Head :=
  .plain {
    method := ⟨lit "GET", by decide⟩
    target := ⟨lit "/", by decide⟩
    minor := 1
    before := []
    key := ⟨lit "Host: ", by decide⟩
    host := ⟨lit "a.com", by decide⟩
    port := port
    after := []
    ne := by decide }

/-- A browser has just sent a head. -/
def received (h : Head) : State := accepted h.bytes

theorem received_firstRead (h : Head) : (received h).FirstRead 0 h.bytes := (accepted_firstChunk h.bytes).toFirstRead

theorem destination_iff_get :
    (getHead none).bytes.length ≤ buffSize ∧ (received (getHead none)).Heeds 0 (getHead none) := by
  have hlen : (getHead none).bytes.length ≤ buffSize := by decide +kernel
  have hiff := destination_iff (received (getHead none)) 0 (getHead none) hlen (received_firstRead _)
  rw [hiff]
  exact ⟨hlen, by decide +kernel, by decide +kernel, rfl⟩

def port8080 : PortText := ⟨lit "8080", by decide⟩

/-- `Host: a.com:8080`: the port stays in the host, and 80 is used. -/
theorem destination_keepsPort :
    ∃ (s : State) (h : Head), h.bytes.length ≤ buffSize ∧ s.FirstRead 0 h.bytes ∧ ¬ s.Heeds 0 h := by
  refine ⟨received (getHead port8080), getHead port8080, by decide +kernel, received_firstRead _, ?_⟩
  rw [State.Heeds, wp_iff]
  rintro ⟨a, s', hrun, c, hc, hdest⟩
  have hset : (handleProxyProtocol 0 (getHead port8080).bytes.length (received (getHead port8080))).toOption.bind
      (fun r => (r.2.conns 0).map (·.webPort)) = some 80 := by
    decide +kernel
  rw [hrun] at hset
  have hport : (s'.conns 0).map (·.webPort) = some 80 := hset
  rw [hc] at hport
  have h8080 : c.webPort = 8080 := congrArg Prod.snd hdest
  rw [Option.map_some, h8080] at hport
  exact absurd hport (by decide)

end HttpsTunnel.Sdk

import HttpsTunnel.Sdk.Download
import HttpsTunnel.Sdk.Upstream

/-! # Relaying what the browser sends

A browser's connection is read in `ProxyRecvEvent`.  Until a tunnel is open every chunk is taken for
the start of a request (`HandleProxyProtocol`); the chunk in which a host is found is kept for the
time when the tunnel is ready, and from then on chunks are written to the tunnel.

`Upload` is a small machine that says what becomes of the chunks, and `browserCall_follows` and
`tunnelReady_follows` that the handlers do just this.  What it does to a request that arrives in
several chunks is not what a relay should do:

* a chunk without a host is read and not kept (`r_offset` stays where it is);
* a chunk that arrives while the login is being answered overwrites the one that is kept, and makes
  a second login request;
* of a `CONNECT` nothing is kept, whatever follows its header in the chunk.

`upload_exact_iff` says for which ways of cutting the stream the relay is exact all the same. -/

namespace HttpsTunnel.Sdk

open HttpsTunnel.Lib HttpsTunnel.Wire HttpsTunnel.Lib.CString

/-! ### What is to be relayed -/

/-- The number of bytes up to the end of the first empty line, or of all if there is none. -/
def headerLength : List UInt8 → ℕ
  | [] => 0
  | b :: bs => if (lit "\r\n\r\n").isPrefixOf (b :: bs) then 4 else headerLength bs + 1

theorem headerLength_le (bs : List UInt8) : headerLength bs ≤ bs.length := by
  induction bs with
  | nil => rfl
  | cons b bs ih =>
      rw [headerLength]
      split_ifs with h
      · exact (List.isPrefixOf_iff_prefix.mp h).length_le
      · simpa using ih

/-- The length of what is for the SDK only: the header of a `CONNECT`. -/
def ownLength (stream : List UInt8) : ℕ :=
  if caseStarts (lit "CONNECT") stream = some true then headerLength stream else 0

theorem ownLength_le (stream : List UInt8) : ownLength stream ≤ stream.length := by
  rw [ownLength]
  split_ifs
  · exact headerLength_le stream
  · exact Nat.zero_le _

/-- A piece written on a tunnel, by the message it is. -/
inductive Sent where
  | login
  | begin
  | other
  | raw (bs : List UInt8)
deriving DecidableEq, Repr

def Piece.sent : Piece → Sent
  | .frame bs =>
      match MsgId.ofNat? (ofLE ((bs.drop hdrSize).take 2)) with
      | some .loginReq => .login
      | some .beginTransmit => .begin
      | _ => .other
  | .raw bs => .raw bs

/-- One login request, `BEGIN_TRANSMIT`, and then what is to be relayed of `stream`. -/
def Exact (stream : List UInt8) (sent : List Sent) : Prop :=
  ∃ raws : List (List UInt8), sent = .login :: .begin :: raws.map .raw ∧
    raws.flatten = stream.drop (ownLength stream)

/-! ### Chunks -/

/-- What a `recv` on a browser's socket returned. -/
structure Chunk where
  bytes : List UInt8
  ne_nil : bytes ≠ []
  length_le : bytes.length ≤ buffSize

def Chunk.read (c : Chunk) : ReadRes := .data c.bytes

/-- The host a request is for, empty if there is none. -/
def Request.host : Request → Host
  | connect host _ => host
  | tooLong => []
  | plain host => host.getD []

/-- `http_version` after a request. -/
def Request.version (v : HttpVersion) : Request → HttpVersion
  | connect _ _ | tooLong => .https
  | plain _ => v

/-- What `HandleProxyProtocol` looks at: the buffer, and `http_version`. -/
structure Seen where
  buff : Buff
  version : HttpVersion

/-- The next chunk is in the buffer. -/
def Seen.take (v : Seen) (c : Chunk) : Seen := { v with buff := v.buff.store 0 c.bytes }

/-- What is found when chunk `c` is the next. -/
def Seen.request (v : Seen) (c : Chunk) : Except Fault Request :=
  findRequest ((v.take c).buff.slice 0 buffSize) c.bytes.length

def Seen.look (v : Seen) (r : Request) : Seen := { v with version := r.version v.version }

/-! ### The machine -/

/-- How far a browser's connection is. -/
inductive Stage where
  /-- No tunnel yet. -/
  | waiting
  /-- A tunnel for `host` was opened, and `n` bytes were announced (`r_data_len`). -/
  | asked (host : Host) (n : ℕ)
  /-- The tunnel is verified. -/
  | ready

structure Upload where
  seen : Seen
  stage : Stage
  /-- The bytes read. -/
  got : List UInt8
  /-- The pieces written on the tunnel. -/
  sent : List Sent

namespace Upload

def take (u : Upload) (c : Chunk) : Upload := { u with seen := u.seen.take c, got := u.got ++ c.bytes }

def look (u : Upload) (r : Request) : Upload := { u with seen := u.seen.look r }

/-- Room for a host in `login_str`. -/
def maxHost : ℕ := loginStrSize - LoginReq.hostAt

/-- A chunk on a connection that has a tunnel. -/
def pass (u : Upload) (c : Chunk) : Option Upload :=
  match u.stage with
  | .waiting => some u
  | .asked host n =>
      if maxHost < host.length then none
      else some { u with stage := .asked host ((n + c.bytes.length) % 2 ^ 32), sent := u.sent ++ [.login] }
  | .ready => some { u with sent := u.sent ++ [.raw c.bytes] }

/-- A chunk, and whether the call reads on.  There is no value where the code leaves its buffers. -/
def chunk (u : Upload) (c : Chunk) : Option (Upload × Bool) :=
  match u.stage with
  | .waiting =>
      match u.seen.request c with
      | .error _ => none
      | .ok r =>
          if r.host = [] then some ((u.take c).look r, false)
          else (pass { (u.take c).look r with stage := .asked r.host 0 } c).map (·, true)
  | .asked _ _ | .ready => ((u.take c).pass c).map (·, true)

/-- A call of `ProxyRecvEvent` that finds the chunks `cs`. -/
def call : List Chunk → Upload → Option Upload
  | [], u => some u
  | c :: cs, u =>
      match u.chunk c with
      | none => none
      | some (u', true) => call cs u'
      | some (u', false) => some u'

/-- The `n` bytes that are kept are sent, or the browser is told to go on. -/
def answer (u : Upload) (n : ℕ) : Option Upload :=
  match u.seen.version with
  | .http =>
      if buffSize < n then none
      else some { u with sent := u.sent ++ [.raw (u.seen.buff.slice 0 n)] }
  | .https => some u

/-- The answer `READY` arrives.  Once the tunnel is ready it goes to the browser. -/
def ready (u : Upload) : Option Upload :=
  match u.stage with
  | .asked _ n => answer { u with stage := .ready, sent := u.sent ++ [.begin] } n
  | .waiting | .ready => some u

/-- What is kept of the chunk with the host. -/
def Kept (u : Upload) (n : ℕ) (kept : List UInt8) : Prop :=
  match u.seen.version with
  | .http => n ≤ buffSize ∧ u.seen.buff.slice 0 n = kept
  | .https => kept = []

theorem Kept.of_http {u : Upload} {n : ℕ} {kept : List UInt8} (hv : u.seen.version = .http) (hn : n ≤ buffSize)
    (hk : u.seen.buff.slice 0 n = kept) : u.Kept n kept := by
  simp only [Kept, hv]
  exact ⟨hn, hk⟩

theorem Kept.of_https {u : Upload} (hv : u.seen.version = .https) (n : ℕ) : u.Kept n [] := by
  simp only [Kept, hv]

section Ready

variable {u u' : Upload} {host : Host} {n : ℕ}

theorem ready_spec (hst : u.stage = .asked host n) (h : u.ready = some u') :
    u'.stage = .ready ∧ u'.got = u.got ∧ ∃ raws : List (List UInt8), u'.sent = u.sent ++ .begin :: raws.map .raw ∧
      ∀ kept, u.Kept n kept → raws.flatten = kept := by
  simp only [ready, hst, answer] at h
  simp only [Kept]
  cases hv : u.seen.version with
  | http =>
      simp only [hv] at h ⊢
      split_ifs at h
      cases h
      refine ⟨rfl, rfl, [u.seen.buff.slice 0 n], by simp, fun kept hk => by simpa using hk.2⟩
  | https =>
      simp only [hv] at h ⊢
      cases h
      exact ⟨rfl, rfl, [], by simp, fun kept hk => hk.symm⟩

theorem Kept.exists_ready {kept : List UInt8} (h : u.Kept n kept) (hst : u.stage = .asked host n) :
    ∃ u', u.ready = some u' := by
  simp only [ready, hst, answer]
  simp only [Kept] at h
  cases hv : u.seen.version with
  | http =>
      simp only [hv] at h ⊢
      exact ⟨_, if_neg (Nat.not_lt.mpr h.1)⟩
  | https => exact ⟨_, rfl⟩

end Ready

end Upload

/-! ### The machine and the state of the SDK -/

namespace Link

variable (L : Link)

/-- A tunnel, with fields `d`, is open for the browser's connection, with fields `c`. -/
structure Opened (s : State) (c d : Connect) : Prop where
  peer : c.peer = some L.tunnel
  tunnel : s.conns L.tunnel = some d
  fd : d.sockFd = L.tunnelFd
  type : d.type ≠ .proxy
  back : d.peer = some L.browser
  entry : s.connMap L.tunnelFd = some (some L.tunnel)

/-- There is no tunnel, and one can be opened. -/
structure Unopened (s : State) (c : Connect) : Prop where
  peer : c.peer = none
  held : c.rDataLen = 0
  next : s.nextConn = L.tunnel
  dials : ∃ rest, s.dials = .opened L.tunnelFd :: rest
  entry : s.connMap L.tunnelFd = none

def AtStage (s : State) (c : Connect) : Stage → Prop
  | .waiting => c.host = [] ∧ L.Unopened s c
  | .asked host n => c.host = host ∧ c.rDataLen = n ∧
      ∃ d, L.Opened s c d ∧ d.verified = false ∧ d.dec.AtStart hdrFormat
  | .ready => ∃ d, L.Opened s c d ∧ d.verified = true ∧ d.Forwards

/-- The browser's connection, with fields `c`. -/
structure Holds (s : State) (v : Seen) (c : Connect) : Prop where
  browser : s.conns L.browser = some c
  type : c.type = .proxy
  free : c.dec.offset = 0
  need : c.dec.stillneedtoread = buffSize
  buff : c.dec.buff = v.buff
  version : c.httpVersion = v.version

structure Browses (s : State) (u : Upload) (c : Connect) : Prop extends L.Holds s u.seen c where
  stage : L.AtStage s c u.stage

/-- What does not change. -/
structure Serves (s : State) : Prop where
  sane : s.Sane
  token : s.config.auth.length < tokenSize
  entry : s.connMap L.browserFd = some (some L.browser)
  ne : L.browser ≠ L.tunnel
  fd_ne : L.tunnelFd ≠ L.browserFd
  fd_pos : L.tunnelFd ≠ 0

/-- The state `s` of the SDK shows the state `u` of the machine. -/
structure Uploads (s : State) (u : Upload) : Prop where
  serves : L.Serves s
  browses : ∃ c, L.Browses s u c
  got : s.received L.browser = u.got
  sent : (s.written L.tunnel).map Piece.sent = u.sent

end Link

/-! ### Logging in and passing on -/

section Pass

variable {L : Link} {s : State} {u : Upload} {c d : Connect}

theorem loginReq_length {t : Connect} {mem : Buff} (h : t.auth.length < tokenSize) :
    (loginReq t mem).length = LoginReq.hostAt + t.host.length := by
  simp only [tokenSize] at h
  simp [loginReq, LoginReq.bytes, tokenField, LoginReq.hostAt]
  omega

theorem take_drop_frame (m : MsgId) (rest : List UInt8) :
    ((frame (toLE 2 m.toNat ++ rest)).drop hdrSize).take 2 = toLE 2 m.toNat :=
  List.take_left' (toLE_length 2 _)

theorem sent_loginReq (t : Connect) (mem : Buff) : (Piece.frame (frame (loginReq t mem))).sent = .login := by
  rw [Piece.sent, loginReq, LoginReq.bytes]
  simp only [List.append_assoc, take_drop_frame]
  rfl

theorem sent_beginTransmit (r : BeginTransmit) : (Piece.frame (frame r.bytes)).sent = .begin := by
  rw [Piece.sent, BeginTransmit.bytes, take_drop_frame]
  rfl

theorem State.count_eq {p : Ptr} (hd : s.conns p = some d) (z : ℤ) :
    s.count p z = { s.setConn p { d with httpTransmitLen := toU64 (d.httpTransmitLen + z) } with
      rptTraffCost := toU64 (s.rptTraffCost + z) } := by
  simp [State.count, hd, State.setConn]

end Pass

/-! ### Updates -/

section Updates

variable {L : Link} {s s' : State} {u : Upload} {c c' d d' : Connect}

/-- What is said above about the fields of a tunnel is about these. -/
def Connect.core (c : Connect) : ℕ × ConnType × Option Ptr × Bool × Decoder :=
  (c.sockFd, c.type, c.peer, c.verified, c.dec)

/-- Fields of the state that are not looked at. -/
theorem Link.AtStage.of_eq {st : Stage} (h : L.AtStage s c st) (hc : s'.conns L.tunnel = s.conns L.tunnel)
    (hm : s'.connMap = s.connMap) (hn : s'.nextConn = s.nextConn) (hdials : s'.dials = s.dials) :
    L.AtStage s' c st := by
  have ho : ∀ {d}, L.Opened s c d → L.Opened s' c d := fun ho =>
    { ho with tunnel := hc.trans ho.tunnel, entry := hm ▸ ho.entry }
  cases st with
  | waiting =>
      obtain ⟨hhost, hfree⟩ := h
      exact ⟨hhost, { hfree with next := hn ▸ hfree.next, dials := hdials ▸ hfree.dials, entry := hm ▸ hfree.entry }⟩
  | asked host n =>
      obtain ⟨hhost, hlen, d, hopen, hd⟩ := h
      exact ⟨hhost, hlen, d, ho hopen, hd⟩
  | ready =>
      obtain ⟨d, hopen, hd⟩ := h
      exact ⟨d, ho hopen, hd⟩

theorem Link.AtStage.setTunnel {st : Stage} (h : L.AtStage s c st) (hd : s.conns L.tunnel = some d)
    (hcore : d'.core = d.core) : L.AtStage (s.setConn L.tunnel d') c st := by
  simp only [Connect.core, Prod.mk.injEq] at hcore
  obtain ⟨hfd, hty, hpeer, hver, hdec⟩ := hcore
  have ho : ∀ {e}, L.Opened s c e → e = d ∧ L.Opened (s.setConn L.tunnel d') c d' := fun ho => by
    obtain rfl := Option.mem_unique ho.tunnel hd
    exact ⟨rfl, { ho with
      tunnel := s.setConn_self _ _
      fd := hfd.trans ho.fd
      type := hty ▸ ho.type
      back := hpeer.trans ho.back }⟩
  cases st with
  | waiting => exact ⟨h.1, { h.2 with }⟩
  | asked host n =>
      obtain ⟨hhost, hlen, e, hopen, hv, hat⟩ := h
      obtain ⟨rfl, hopen'⟩ := ho hopen
      exact ⟨hhost, hlen, d', hopen', hver.trans hv, hdec ▸ hat⟩
  | ready =>
      obtain ⟨e, hopen, hv, hf⟩ := h
      obtain ⟨rfl, hopen'⟩ := ho hopen
      refine ⟨d', hopen', hver.trans hv, ?_⟩
      rw [Connect.Forwards, hdec]
      exact hf

theorem Link.Uploads.of_eq (h : L.Uploads s u) (hcfg : s'.config = s.config) (hw : s'.writes = s.writes)
    (hn : s'.nextConn = s.nextConn) (hm : s'.connMap = s.connMap) (hc : s'.conns = s.conns)
    (hdials : s'.dials = s.dials) (hl : s'.log = s.log) : L.Uploads s' u := by
  obtain ⟨hs, ⟨c, hb⟩, hgot, hsent⟩ := h
  refine ⟨{ hs with sane := ⟨hw.trans hs.sane.full, ?_⟩, token := hcfg ▸ hs.token, entry := hm ▸ hs.entry },
    ⟨c, { hb with browser := hc ▸ hb.browser, stage := hb.stage.of_eq (by rw [hc]) hm hn hdials }⟩, ?_, ?_⟩
  · rw [hn, hc]
    exact hs.sane.unused
  · rw [State.received, hl]
    exact hgot
  · rw [State.written, hl]
    exact hsent

theorem Link.Uploads.emit (h : L.Uploads s u) (o : Obs) :
    L.Uploads (s.emit o) { u with
      got := u.got ++ o.readOf L.browser
      sent := u.sent ++ ((o.pieceOn L.tunnel).map Piece.sent).toList } := by
  obtain ⟨hs, ⟨c, hb⟩, hgot, hsent⟩ := h
  refine ⟨{ hs with sane := ⟨hs.sane.full, hs.sane.unused⟩ }, ⟨c, ?_⟩, ?_, ?_⟩
  · exact ⟨{ hb.toHolds with }, hb.stage.of_eq rfl rfl rfl rfl⟩
  · rw [State.received_emit, hgot]
  · rw [State.written_emit, List.map_append, hsent]
    cases o.pieceOn L.tunnel <;> rfl

/-- An entry that is not about the upload. -/
theorem Link.Uploads.quiet (h : L.Uploads s u) {o : Obs} (hr : o.readOf L.browser = [])
    (hp : o.pieceOn L.tunnel = none) : L.Uploads (s.emit o) u := by
  have he := h.emit o
  rw [hr, hp] at he
  simpa using he

/-- Fields of the tunnel that are not looked at. -/
theorem Link.Uploads.setTunnel (h : L.Uploads s u) (hd : s.conns L.tunnel = some d) (hcore : d'.core = d.core) :
    L.Uploads (s.setConn L.tunnel d') u := by
  obtain ⟨hs, ⟨c, hb⟩, hgot, hsent⟩ := h
  exact ⟨{ hs with sane := hs.sane.setConn hd d' }, ⟨c, { hb with
    browser := (s.setConn_ne d' hs.ne).trans hb.browser, stage := hb.stage.setTunnel hd hcore }⟩, hgot, hsent⟩

theorem Link.Uploads.countTunnel (h : L.Uploads s u) (hd : s.conns L.tunnel = some d) (z : ℤ) :
    L.Uploads (s.count L.tunnel z) u := by
  have h' : L.Uploads (s.setConn L.tunnel { d with httpTransmitLen := toU64 (d.httpTransmitLen + z) }) u :=
    h.setTunnel hd rfl
  rw [State.count_eq hd]
  exact h'.of_eq rfl rfl rfl rfl rfl rfl rfl

/-- New fields of the browser's connection. -/
theorem Link.Uploads.setBrowser {u' : Upload} (h : L.Uploads s u) (hb : L.Browses (s.setConn L.browser c') u' c')
    (hc : s.conns L.browser = some c) (hgot : u'.got = u.got) (hsent : u'.sent = u.sent) :
    L.Uploads (s.setConn L.browser c') u' :=
  ⟨{ h.serves with sane := h.serves.sane.setConn hc c' }, ⟨c', hb⟩, h.got.trans hgot.symm, h.sent.trans hsent.symm⟩

end Updates

/-! ### A chunk on a connection with a tunnel -/

section Pass

variable {L : Link} {s : State} {u : Upload} {c d : Connect}

theorem addEvent_uploads (h : L.Uploads s u) (fd : ℕ) (m : Mask) {F : Fault → Prop} :
    wpe (addEvent fd m) (fun _ s' => L.Uploads s' u) F s := by
  simp only [addEvent, setErrno, wpe_ite, wpe_bind, wpe_get, wpe_pure]
  refine ⟨fun _ => h, fun _ => ?_⟩
  cases s.epoll fd <;> exact h.of_eq rfl rfl rfl rfl rfl rfl rfl

/-- A message is sent on the tunnel. -/
theorem sendTmsMsg_uploads {msg : List UInt8} {k : Sent} {Q : Unit → State → Prop} {F : Fault → Prop}
    (h : L.Uploads s u) (hd : s.conns L.tunnel = some d) (hk : (Piece.frame (frame msg)).sent = k)
    (hbig : tmsMsgSize < hdrSize + msg.length → F .overflow)
    (hQ : ∀ s', L.Uploads s' { u with sent := u.sent ++ [k] } → s'.conns L.browser = s.conns L.browser → Q () s') :
    wpe (sendTmsMsg L.tunnel msg) Q F s := by
  simp only [wpe_sendTmsMsg h.serves.sane.full, hd, found_iff]
  refine ⟨hbig, fun _ => hQ _ ?_ ?_⟩
  · have h₁ := (h.emit (.frame L.tunnel msg (frame msg).length)).countTunnel hd
      (trafficEst s.accurate (frame msg).length)
    simp only [Obs.readOf, Obs.pieceOn, if_true, List.take_length, Option.map_some, hk, List.append_nil,
      Option.toList_some] at h₁
    exact h₁
  · rw [State.count_eq (s := s.emit _) hd]
    exact State.setConn_ne (s.emit _) _ h.serves.ne

/-- Fields of the browser's connection that only count. -/
theorem Link.Uploads.setAsked {host : Host} {n : ℕ} (h : L.Uploads s u) (hb : L.Browses s u c)
    (hst : u.stage = .asked host n) (k : ℕ) :
    L.Uploads (s.setConn L.browser { c with rDataLen := k }) { u with stage := .asked host k } := by
  have hstage := hb.stage
  rw [hst] at hstage
  obtain ⟨hhost, -, d, ho, hd⟩ := hstage
  refine h.setBrowser { hb with browser := s.setConn_self _ _, stage := ⟨hhost, rfl, d, ?_, hd⟩ } hb.browser rfl rfl
  exact { ho with tunnel := (s.setConn_ne _ h.serves.ne.symm).trans ho.tunnel }

/-- A login request is sent. -/
theorem login_follows {host : Host} {n : ℕ} (h : L.Uploads s u) (hst : u.stage = .asked host n) (k : ℕ) :
    wpe (login L.browser L.tunnel k)
      (fun _ s' => ¬ Upload.maxHost < host.length ∧
        L.Uploads s' { u with stage := .asked host ((n + k) % 2 ^ 32), sent := u.sent ++ [.login] })
      (fun _ => Upload.maxHost < host.length) s := by
  obtain ⟨c, hb⟩ := h.browses
  have hstage := hb.stage
  rw [hst] at hstage
  obtain ⟨rfl, rfl, d, ho, -⟩ := hstage
  have htok : ¬ tokenSize < s.config.auth.length + 1 := by
    have := h.serves.token
    omega
  have h₁ := h.setAsked hb hst ((c.rDataLen + k) % 2 ^ 32)
  have htun₁ : (s.setConn L.browser { c with rDataLen := (c.rDataLen + k) % 2 ^ 32 }).conns L.tunnel = some d :=
    (s.setConn_ne _ h.serves.ne.symm).trans ho.tunnel
  simp only [login, wpe_bind, wpe_modConn, wpe_deref, wpe_get, wpe_ite, wpe_throw, hb.browser, found_iff,
    State.setConn_self]
  have hcfg₁ : (s.setConn L.browser { c with rDataLen := (c.rDataLen + k) % 2 ^ 32 }).config = s.config := rfl
  generalize s.setConn L.browser { c with rDataLen := (c.rDataLen + k) % 2 ^ 32 } = s₁ at h₁ htun₁ hcfg₁ ⊢
  simp only [hcfg₁, htok, htun₁, false_implies, not_false_eq_true, true_implies, Option.some.injEq, forall_eq',
    reduceCtorEq, true_and]
  have h₂ : ∀ d', d'.core = d.core → L.Uploads (s₁.setConn L.tunnel d') _ := fun d' => h₁.setTunnel htun₁
  generalize hd' : ({ d with uid := _, mobile := _, auth := _, host := _, webPort := _ } : Connect) = d'
  replace h₂ := h₂ d' (by rw [← hd']; rfl)
  have htun₂ : (s₁.setConn L.tunnel d').conns L.tunnel = some d' := s₁.setConn_self _ _
  have hlen : (loginReq d' s₁.mem).length = LoginReq.hostAt + c.host.length := by
    have hauth : d'.auth.length < tokenSize := by
      rw [← hd']
      exact h.serves.token
    rw [loginReq_length hauth, ← hd']
  generalize s₁.setConn L.tunnel d' = s₂ at h₂ htun₂ ⊢
  refine ⟨fun hbig => ?_, fun hfit => sendTmsMsg_uploads h₂ htun₂ (sent_loginReq d' _) (fun hbig => ?_)
    fun s₃ h₃ _ => ?_⟩
  · simp only [Upload.maxHost, loginStrSize, LoginReq.hostAt] at *
    omega
  · rw [hlen] at hbig
    simp only [tmsMsgSize, hdrSize, loginStrSize, LoginReq.hostAt] at *
    omega
  · simp only [Upload.maxHost, wpe_pure]
    refine wpe_mono (addEvent_uploads h₃ _ _) (fun _ _ h' => ⟨?_, h'⟩) fun _ => id
    simp only [loginStrSize, LoginReq.hostAt] at *
    omega

theorem passUp_follows (h : L.Uploads s u) (hst : u.stage ≠ .waiting) (k : Chunk)
    (hk : u.seen.buff.slice 0 k.bytes.length = k.bytes) :
    wpe (passUp L.browser k.bytes.length)
      (fun code s' => code = none ∧ ∃ u', u.pass k = some u' ∧ L.Uploads s' u') (fun _ => u.pass k = none) s := by
  obtain ⟨c, hb⟩ := h.browses
  have hstage := hb.stage
  have hfd := h.serves.fd_pos
  simp only [passUp, wpe_bind, wpe_deref, hb.browser, found_iff]
  cases hu : u.stage with
  | waiting => exact absurd hu hst
  | asked host n =>
      rw [hu] at hstage
      obtain ⟨-, -, d, ho, hver, -⟩ := hstage
      simp only [ho.peer, wpe_bind, wpe_deref, ho.tunnel, ho.fd, hfd, hver, found_iff, true_and, if_false,
        Bool.false_eq_true, wpe_pure, Upload.pass, hu]
      refine wpe_mono (login_follows h hu k.bytes.length) ?_ ?_
      · rintro - s' ⟨hmax, h'⟩
        exact ⟨_, if_neg hmax, h'⟩
      · exact fun _ hmax => if_pos hmax
  | ready =>
      rw [hu] at hstage
      obtain ⟨d, ho, hver, -⟩ := hstage
      simp only [ho.peer, wpe_bind, wpe_deref, ho.tunnel, ho.fd, hfd, hver, found_iff, true_and, if_false, if_true,
        wpe_pure, wpe_sendRaw h.serves.sane.full, Upload.pass, hu, hb.free, hb.buff, hk]
      have h₁ := h.emit (.raw L.tunnel (some L.browser) k.bytes)
      simp only [Obs.readOf, Obs.pieceOn, if_true, Option.map_some, List.append_nil, Option.toList_some, Piece.sent, hu]
        at h₁
      exact ⟨_, rfl, h₁⟩

end Pass

/-! ### A chunk on a connection without a tunnel -/

section Open

variable {L : Link} {s : State} {u : Upload} {c d : Connect}

/-- The state after `createConn`. -/
def State.created (s : State) (fd : ℕ) (rest : List DialRes) : State :=
  { s.setConn s.nextConn (tunnelConnect fd) with
    dials := rest
    nextConn := s.nextConn + 1
    connMap := Function.update s.connMap fd (some (some s.nextConn)) }

theorem wpe_createConn {fd : ℕ} {rest : List DialRes} {Q : Option Ptr → State → Prop} {F : Fault → Prop}
    (hdials : s.dials = .opened fd :: rest) (hfd : fd ≠ 0) :
    wpe createConn Q F s ↔ Q (some s.nextConn) (s.created fd rest) := by
  simp only [createConn, sockOpen, wpe_bind, wpe_get, hdials, wpe_set, wpe_pure, hfd, if_false]
  rfl

/-- A tunnel is opened for a host that was found. -/
theorem openTunnel_uploads {v : Seen} {Q : ℤ → State → Prop} {F : Fault → Prop} (hs : L.Serves s) (hb : L.Holds s v c)
    (hfree : L.Unopened s c) (hhost : c.host ≠ [])
    (hQ : ∀ s', L.Uploads s' ⟨v, .asked c.host 0, s.received L.browser, (s.written L.tunnel).map Piece.sent⟩ → Q 0 s') :
    wpe (openTunnel L.browser) Q F s := by
  obtain ⟨hpeer, hlen, hnext, ⟨rest, hdials⟩, -⟩ := hfree
  have hbr : (s.created L.tunnelFd rest).conns L.browser = some c := by
    simp [State.created, State.setConn, hnext, hs.ne, hb.browser]
  have htun : (s.created L.tunnelFd rest).conns L.tunnel = some (tunnelConnect L.tunnelFd) := by
    simp [State.created, State.setConn, hnext]
  have htun' : ∀ c', ((s.created L.tunnelFd rest).setConn L.browser c').conns L.tunnel =
      some (tunnelConnect L.tunnelFd) := fun c' => (State.setConn_ne _ c' hs.ne.symm).trans htun
  simp only [openTunnel, wpe_bind, wpe_deref, hb.browser, hhost, if_false, wpe_createConn hdials hs.fd_pos, wpe_modConn,
    hnext, hbr, htun', found_iff, wpe_pure]
  refine hQ _ ⟨⟨⟨hs.sane.full, fun p hp => ?_⟩, hs.token, ?_, hs.ne, hs.fd_ne, hs.fd_pos⟩,
    ⟨{ c with peer := some L.tunnel }, { hb with browser := ?_, stage := ⟨rfl, hlen,
      { tunnelConnect L.tunnelFd with peer := some L.browser }, ?_, rfl, rfl, rfl, rfl⟩ }⟩, rfl, rfl⟩
  · have hp' : s.nextConn + 1 ≤ p := hp
    have hpb : p ≠ L.browser := by
      rintro rfl
      have hnone := hs.sane.unused L.browser (Nat.le_of_succ_le hp')
      rw [hb.browser] at hnone
      cases hnone
    have hpt : p ≠ L.tunnel := hnext ▸ Nat.ne_of_gt hp'
    simp only [State.setConn_ne _ _ hpt, State.setConn_ne _ _ hpb, State.created, hnext]
    exact hs.sane.unused p (Nat.le_of_succ_le hp')
  · exact (Function.update_of_ne hs.fd_ne.symm _ _).trans hs.entry
  · exact (State.setConn_ne _ _ hs.ne).trans (State.setConn_self _ _ _)
  · refine ⟨rfl, State.setConn_self _ _ _, rfl, ConnType.noConfusion, rfl, ?_⟩
    exact (Function.update_self _ _ _).trans (by rw [hnext])

/-- After a request `r` was looked at: with a host there is a tunnel. -/
def Link.Found (L : Link) (u : Upload) (r : Request) (ret : ℤ) (s : State) : Prop :=
  r.host = [] ∧ ret < 0 ∧ L.Uploads s (u.look r) ∨
    r.host ≠ [] ∧ ret = 0 ∧ L.Uploads s { u.look r with stage := .asked r.host 0 }

theorem openTunnel_found {r : Request} {F : Fault → Prop} {c' : Connect} (h : L.Uploads s u) (hb : L.Browses s u c)
    (hst : u.stage = .waiting) (hdec : c'.dec = c.dec) (hty : c'.type = c.type) (hpeer : c'.peer = c.peer)
    (hlen : c'.rDataLen = c.rDataLen) (hv : c'.httpVersion = r.version c.httpVersion) (hh : c'.host = r.host) :
    wpe (openTunnel L.browser) (L.Found u r) F (s.setConn L.browser c') := by
  have hstage := hb.stage
  rw [hst] at hstage
  obtain ⟨-, hfree⟩ := hstage
  have hfree' : L.Unopened (s.setConn L.browser c') c' :=
    { hfree with peer := hpeer.trans hfree.peer, held := hlen.trans hfree.held }
  have hb' : L.Holds (s.setConn L.browser c') (u.seen.look r) c' := by
    refine ⟨s.setConn_self _ _, hty.trans hb.type, ?_, ?_, ?_, ?_⟩
    · rw [hdec, hb.free]
    · rw [hdec, hb.need]
    · rw [hdec, hb.buff]
      rfl
    · rw [hv, hb.version]
      rfl
  by_cases hhost : c'.host = []
  · simp only [openTunnel, wpe_bind, wpe_deref, State.setConn_self, hhost, if_true, wpe_pure, found_iff]
    refine .inl ⟨hh ▸ hhost, by decide, h.setBrowser ⟨hb', ?_⟩ hb.browser rfl rfl⟩
    rw [Upload.look, hst]
    exact ⟨hhost, hfree'⟩
  · refine openTunnel_uploads { h.serves with sane := h.serves.sane.setConn hb.browser c' } hb' hfree' hhost ?_
    intro s' h'
    refine .inr ⟨hh ▸ hhost, rfl, ?_⟩
    have hgot : (s.setConn L.browser c').received L.browser = u.got := h.got
    rw [hgot, State.written_setConn, h.sent, hh] at h'
    exact h'

theorem handleProxyProtocol_follows (h : L.Uploads s u) (hst : u.stage = .waiting) (n : ℕ) :
    wpe (handleProxyProtocol L.browser n)
      (fun ret s' => ∃ r, findRequest (u.seen.buff.slice 0 buffSize) n = .ok r ∧ L.Found u r ret s')
      (fun e => findRequest (u.seen.buff.slice 0 buffSize) n = .error e) s := by
  obtain ⟨c, hb⟩ := h.browses
  simp only [handleProxyProtocol, wpe_bind, wpe_deref, hb.browser, hb.buff, found_iff]
  cases hr : findRequest (u.seen.buff.slice 0 buffSize) n with
  | error e => rfl
  | ok r =>
      have hstage := hb.stage
      rw [hst] at hstage
      have hfound : ∀ (ret : ℤ) s', L.Found u r ret s' → 
          ∃ r', (Except.ok r : Except Fault Request) = .ok r' ∧ L.Found u r' ret s' := fun _ _ hf => ⟨r, rfl, hf⟩
      cases r with
      | connect host port =>
          simp only [wpe_bind, wpe_modConn, hb.browser, found_iff]
          exact wpe_mono (openTunnel_found h hb hst rfl rfl rfl rfl rfl rfl) hfound fun _ => id
      | plain host =>
          simp only [wpe_bind, wpe_modConn, hb.browser, found_iff]
          exact wpe_mono (openTunnel_found h hb hst rfl rfl rfl rfl rfl (by rw [hstage.1]; rfl)) hfound fun _ => id
      | tooLong =>
          simp only [wpe_bind, wpe_modConn, hb.browser, wpe_pure, found_iff]
          refine hfound _ _ (.inl ⟨rfl, by decide, h.setBrowser ⟨?_, ?_⟩ hb.browser rfl rfl⟩)
          · exact { hb.toHolds with browser := s.setConn_self _ _, version := rfl }
          · rw [Upload.look, hst]
            exact ⟨hstage.1, { hstage.2 with }⟩

/-- The chunk is in the buffer, and the log says that it was read. -/
theorem Link.Uploads.take (h : L.Uploads s u) (hb : L.Browses s u c) (k : Chunk) :
    L.Uploads ((s.setConn L.browser { c with dec := { c.dec with buff := c.dec.buff.store 0 k.bytes } }).emit
      (.recv L.browser k.bytes)) (u.take k) := by
  have h₁ : L.Uploads (s.setConn L.browser { c with dec := { c.dec with buff := c.dec.buff.store 0 k.bytes } })
      { u with seen := u.seen.take k } := by
    refine h.setBrowser { hb.toHolds with browser := s.setConn_self _ _, buff := ?_, stage := ?_ } hb.browser rfl rfl
    · rw [hb.buff]
      rfl
    · have ho : ∀ {d c'}, c'.peer = c.peer → L.Opened s c d → L.Opened (s.setConn L.browser c') c' d := fun hp ho =>
        { ho with peer := hp.trans ho.peer, tunnel := (s.setConn_ne _ h.serves.ne.symm).trans ho.tunnel }
      have hstage := hb.stage
      cases hu : u.stage <;> rw [hu] at hstage
      case waiting => exact ⟨hstage.1, { hstage.2 with }⟩
      case asked host n =>
        obtain ⟨hhost, hlen, d, hopen, hd⟩ := hstage
        exact ⟨hhost, hlen, d, ho rfl hopen, hd⟩
      case ready =>
        obtain ⟨d, hopen, hd⟩ := hstage
        exact ⟨d, ho rfl hopen, hd⟩
  have h₂ := h₁.emit (.recv L.browser k.bytes)
  simp only [Obs.readOf, Obs.pieceOn, if_true, Option.map_none, Option.toList_none, List.append_nil] at h₂
  exact h₂

theorem ackUserFail_uploads {F : Fault → Prop} (h : L.Uploads s u) (hst : u.stage = .waiting) (r : ReplyType) :
    wpe (ackUserFail L.browser r) (fun _ s' => L.Uploads s' u) F s := by
  obtain ⟨c, hb⟩ := h.browses
  have hstage := hb.stage
  rw [hst] at hstage
  simp only [ackUserFail, wakeupUser, wpe_bind, wpe_deref, hb.browser, hstage.2.peer, wpe_emit, found_iff]
  exact h.quiet rfl rfl

/-- A chunk that was stored is handled. -/
theorem onChunk_follows (h : L.Uploads s u) (hb : L.Browses s u c) (k : Chunk) :
    wpe (onChunk L.browser k.bytes.length)
      (fun code s' => ∃ u' go, u.chunk k = some (u', go) ∧ code.isNone = go ∧ L.Uploads s' u')
      (fun _ => u.chunk k = none)
      (s.setConn L.browser { c with dec := { c.dec with buff := c.dec.buff.store 0 k.bytes } }) := by
  have h₂ := h.take hb k
  have hbuff : (u.seen.buff.store 0 k.bytes).slice 0 k.bytes.length = k.bytes := Buff.slice_store_same _ _ _
  have hstage := hb.stage
  generalize hc₁ : ({ c with dec := { c.dec with buff := c.dec.buff.store 0 k.bytes } } : Connect) = c₁ at h₂ ⊢
  have hslice : c₁.dec.buff.slice 0 k.bytes.length = k.bytes := by
    rw [← hc₁]
    exact Buff.slice_store_same c.dec.buff 0 k.bytes
  have hfree : c₁.dec.offset = 0 := by
    rw [← hc₁]
    exact hb.free
  have hpeer : c₁.peer = c.peer := by rw [← hc₁]
  simp only [onChunk, wpe_bind, wpe_deref, State.setConn_self, wpe_emit, hfree, hslice, hpeer, found_iff, Nat.zero_add]
  generalize (s.setConn L.browser c₁).emit (.recv L.browser k.bytes) = s₂ at h₂ ⊢
  have hpass : ∀ {s₃ u₃}, L.Uploads s₃ u₃ → u₃.stage ≠ .waiting → u₃.seen.buff = u.seen.buff.store 0 k.bytes →
      u.chunk k = (u₃.pass k).map (·, true) →
      wpe (passUp L.browser k.bytes.length)
        (fun code s' => ∃ u' go, u.chunk k = some (u', go) ∧ code.isNone = go ∧ L.Uploads s' u')
        (fun _ => u.chunk k = none) s₃ := by
    intro s₃ u₃ h₃ hst hbuff₃ hchunk
    rw [hchunk]
    refine wpe_mono (passUp_follows h₃ hst k (hbuff₃ ▸ hbuff)) ?_ fun _ hn => by rw [hn]; rfl
    rintro code s' ⟨rfl, u', hu', h'⟩
    exact ⟨u', true, by rw [hu']; rfl, rfl, h'⟩
  cases hu : u.stage with
  | asked host n =>
      rw [hu] at hstage
      obtain ⟨-, -, d, ho, -⟩ := hstage
      simp only [ho.peer]
      refine hpass h₂ ?_ rfl ?_
      · simp [Upload.take, hu]
      · simp only [Upload.chunk, hu]
  | ready =>
      rw [hu] at hstage
      obtain ⟨d, ho, -⟩ := hstage
      simp only [ho.peer]
      refine hpass h₂ ?_ rfl ?_
      · simp [Upload.take, hu]
      · simp only [Upload.chunk, hu]
  | waiting =>
      rw [hu] at hstage
      simp only [hstage.2.peer, wpe_bind, wpe_ite, wpe_pure]
      refine wpe_mono (handleProxyProtocol_follows h₂ hu k.bytes.length) ?_ ?_
      · rintro ret s₃ ⟨r, hr, hfound⟩
        have hreq : u.seen.request k = .ok r := hr
        have hst₃ : ((u.take k).look r).stage = .waiting := hu
        obtain ⟨hhost, hret, h₃⟩ | ⟨hhost, rfl, h₃⟩ := hfound
        · have hchunk : u.chunk k = some ((u.take k).look r, false) := by
            simp only [Upload.chunk, hu, hreq, hhost, if_true]
          refine ⟨fun _ => ?_, fun _ => ⟨fun _ => ?_, fun hn => absurd hret hn⟩⟩
          · exact wpe_mono (ackUserFail_uploads h₃ hst₃ _) (fun _ s' h' => ⟨_, _, hchunk, rfl, h'⟩) fun _ => id
          · exact ⟨_, _, hchunk, rfl, h₃⟩
        · refine ⟨fun hn => absurd hn (by decide), fun _ => ⟨fun hn => absurd hn (by decide), fun _ => ?_⟩⟩
          refine hpass h₃ Stage.noConfusion rfl ?_
          simp only [Upload.chunk, hu, hreq, hhost, if_false]
      · intro e he
        have hreq : u.seen.request k = .error e := he
        simp only [Upload.chunk, hu, hreq]

end Open

/-! ### Calls -/

section Calls

variable {L : Link} {s : State} {u : Upload} {c d : Connect}

/-- The read loop on a browser's connection. -/
theorem proxyLoop_follows (cs : List Chunk) (h : L.Uploads s u) :
    wpe (recvLoop (proxyEndpoint L.browser) (cs.map Chunk.read))
      (fun _ s' => ∃ u', Upload.call cs u = some u' ∧ L.Uploads s' u') (fun _ => Upload.call cs u = none) s := by
  induction cs generalizing s u with
  | nil =>
      obtain ⟨c, hb⟩ := h.browses
      have hv : (proxyEndpoint L.browser).view s = some { c.dec with cstate := .forward } := by
        simp [proxyEndpoint, hb.browser]
      refine recvLoop_nil hv ?_ ⟨u, rfl, h.of_eq rfl rfl rfl rfl rfl rfl rfl⟩
      simp [hb.need, buffSize]
  | cons k cs ih =>
      obtain ⟨c, hb⟩ := h.browses
      have hv : (proxyEndpoint L.browser).view s = some { c.dec with cstate := .forward } := by
        simp [proxyEndpoint, hb.browser]
      have hput : ∀ n, (proxyEndpoint L.browser).put
          { c.dec with cstate := .forward, buff := c.dec.buff.store 0 k.bytes }
          ((proxyEndpoint L.browser).onRead n s) =
            s.setConn L.browser { c with dec := { c.dec with buff := c.dec.buff.store 0 k.bytes } } := by
        intro n
        simp [proxyEndpoint, hb.browser]
      refine recvLoop_forward hv rfl hb.free k.ne_nil (hb.need ▸ k.length_le) k.length_le ?_
      rw [hput]
      refine wpe_mono (onChunk_follows h hb k) ?_ ?_
      · rintro code s' ⟨u', go, hchunk, hgo, h'⟩
        cases code with
        | none =>
            obtain rfl : true = go := hgo
            simp only [Upload.call, hchunk]
            exact ih h'
        | some code =>
            obtain rfl : false = go := hgo
            simp only [Upload.call, hchunk]
            exact ⟨u', rfl, h'⟩
      · intro e hn
        simp only [Upload.call, hn]

/-- `ProxyRecvEvent` does what the machine does. -/
theorem browserCall_follows (L : Link) (cs : List Chunk) :
    Follows L.Uploads (Event.readable L.browserFd (cs.map Chunk.read)).run (Upload.call cs) := by
  intro s u h
  obtain ⟨c, hb⟩ := h.browses
  simp only [Event.run, handleRecvEvent, wpe_bind, wpe_get, h.serves.entry, wpe_deref, hb.browser, hb.type, if_true,
    found_iff, proxyRecvEvent, wpe_mapFault, wpe_pure]
  exact proxyLoop_follows cs h

end Calls

/-! ### The answer of the TMS -/

section Ready

variable {L : Link} {s : State} {u : Upload} {c c' d d' : Connect}

/-- The tunnel is switched to forward mode. -/
theorem Link.Uploads.switch (h : L.Uploads s u) (hb : L.Browses s u c) (ho : L.Opened s c d)
    (hfd : d'.sockFd = d.sockFd) (hty : d'.type = d.type) (hpeer : d'.peer = d.peer) (hver : d'.verified = true)
    (hf : d'.Forwards) :
    L.Uploads (s.setConn L.tunnel d') { u with stage := .ready } := by
  refine ⟨{ h.serves with sane := h.serves.sane.setConn ho.tunnel d' }, ⟨c, ?_⟩, h.got, h.sent⟩
  refine { hb.toHolds with browser := (s.setConn_ne d' h.serves.ne).trans hb.browser, stage := ⟨d', ?_, hver, hf⟩ }
  exact { ho with
    tunnel := s.setConn_self _ _
    fd := hfd.trans ho.fd
    type := hty ▸ ho.type
    back := hpeer.trans ho.back }

/-- Fields of the browser's connection that are not looked at any more. -/
theorem Link.Uploads.setReady (h : L.Uploads s u) (hst : u.stage = .ready) (hb : L.Browses s u c)
    (hty : c'.type = c.type) (hpeer : c'.peer = c.peer) (hv : c'.httpVersion = c.httpVersion)
    (hfree : c'.dec.offset = 0)
    (hneed : c'.dec.stillneedtoread = buffSize) (hbuff : c'.dec.buff = c.dec.buff) :
    L.Uploads (s.setConn L.browser c') u := by
  have hstage := hb.stage
  rw [hst] at hstage
  obtain ⟨d, ho, hd⟩ := hstage
  refine h.setBrowser ⟨⟨s.setConn_self _ _, hty.trans hb.type, hfree, hneed, hbuff.trans hb.buff,
    hv.trans hb.version⟩, ?_⟩ hb.browser rfl rfl
  rw [hst]
  exact ⟨d, { ho with
    peer := hpeer.trans ho.peer
    tunnel := (s.setConn_ne _ h.serves.ne.symm).trans ho.tunnel }, hd⟩

theorem answerPeer_follows (h : L.Uploads s u) (hst : u.stage = .ready) (hb : L.Browses s u c) :
    wpe (answerPeer L.tunnel L.browser c)
      (fun _ s' => ∃ u', u.answer c.rDataLen = some u' ∧ u'.stage = .ready ∧ L.Uploads s' u')
      (fun _ => u.answer c.rDataLen = none) s := by
  have hstage := hb.stage
  rw [hst] at hstage
  obtain ⟨d, ho, -⟩ := hstage
  have hfull := h.serves.sane.full
  rw [answerPeer, Upload.answer, ← hb.version]
  cases hv : c.httpVersion with
  | http =>
      simp only [wpe_ite, wpe_throw, wpe_sendMsg hfull, ho.tunnel, hb.buff, found_iff]
      refine ⟨fun hlen => if_pos hlen, fun hlen => ⟨_, if_neg hlen, hst, ?_⟩⟩
      have h₁ := (h.emit (.raw L.tunnel (some L.browser) (u.seen.buff.slice 0 c.rDataLen))).countTunnel ho.tunnel
        (u.seen.buff.slice 0 c.rDataLen).length
      simp only [Obs.readOf, Obs.pieceOn, if_true, Option.map_some, List.append_nil,
        Option.toList_some, Piece.sent] at h₁
      exact h₁
  | https =>
      simp only [wpe_sendMsg hfull, hb.browser, found_iff]
      refine ⟨u, rfl, hst, ?_⟩
      have h₁ := h.quiet (o := .raw L.browser none connectReplyOK) rfl (if_neg h.serves.ne)
      obtain ⟨c₁, hb₁⟩ := h₁.browses
      obtain rfl : c = c₁ := Option.mem_unique hb.browser hb₁.browser
      rw [State.count_eq (s := s.emit _) hb.browser]
      have h₂ : ∀ k, L.Uploads ((s.emit (.raw L.browser none connectReplyOK)).setConn L.browser
          { c with httpTransmitLen := k }) u := fun k => h₁.setReady hst hb₁ rfl rfl rfl hb.free hb.need rfl
      exact (h₂ _).of_eq rfl rfl rfl rfl rfl rfl rfl

theorem activatePeer_follows (h : L.Uploads s u) (hst : u.stage = .ready) (hb : L.Browses s u c) :
    wpe (activatePeer L.tunnel L.browser)
      (fun _ s' => ∃ u', u.answer c.rDataLen = some u' ∧ L.Uploads s' u')
      (fun _ => u.answer c.rDataLen = none) s := by
  simp only [activatePeer, addREvent, wpe_bind, wpe_deref, hb.browser, wpe_pure, found_iff]
  refine wpe_mono (answerPeer_follows h hst hb) ?_ fun _ => id
  rintro - s₁ ⟨u', hu', hst', h₁⟩
  obtain ⟨c₁, hb₁⟩ := h₁.browses
  simp only [wpe_modConn, hb₁.browser, found_iff]
  have h₂ : L.Uploads (s₁.setConn L.browser { c₁ with
      rDataLen := 0, dec := { c₁.dec with offset := 0, stillneedtoread := buffSize } }) u' :=
    h₁.setReady hst' hb₁ rfl rfl rfl rfl rfl rfl
  exact wpe_mono (addEvent_uploads h₂ _ _) (fun _ _ h₃ => ⟨u', hu', h₃⟩) fun _ => id

/-- The tunnel becomes ready. -/
theorem loginReady_follows {host : Host} {n : ℕ} (h : L.Uploads s u) (hst : u.stage = .asked host n)
    (hd : s.conns L.tunnel = some d) (hhost : d.host = []) (r : LoginRsp) :
    wpe (loginReady L.tunnel r) (fun _ s' => ∃ u', u.ready = some u' ∧ L.Uploads s' u')
      (fun _ => u.ready = none) s := by
  obtain ⟨c, hb⟩ := h.browses
  have hstage := hb.stage
  rw [hst] at hstage
  obtain ⟨-, rfl, e, ho, -⟩ := hstage
  obtain rfl := Option.mem_unique ho.tunnel hd
  simp only [loginReady, switchConnModeForw, wpe_bind, wpe_deref, wpe_ite, wpe_throw, wpe_modConn, wpe_get, hd, hhost,
    ho.back, State.setConn_self, State.setConn_setConn, wpe_modify, List.length_nil, found_iff]
  refine ⟨fun hbig => absurd hbig (by decide), fun _ => ?_⟩
  generalize hd' : (Connect.mk _ _ _ _ _ _ _ _ _ _ _ _ _ _ _ _) = d'
  have h₁ : L.Uploads (s.setConn L.tunnel d') { u with stage := .ready } := by
    refine h.switch hb ho ?_ ?_ ?_ ?_ ?_ <;> rw [← hd']
    · exact ho.back.symm
    · exact ⟨rfl, rfl, rfl⟩
  have htun₁ : (s.setConn L.tunnel d').conns L.tunnel = some d' := s.setConn_self _ _
  have hbr₁ : (s.setConn L.tunnel d').conns L.browser = some c := (s.setConn_ne _ h.serves.ne).trans hb.browser
  generalize s.setConn L.tunnel d' = s₁ at h₁ htun₁ hbr₁ ⊢
  refine sendTmsMsg_uploads h₁ htun₁ (sent_beginTransmit _) (fun hbig => ?_) fun s₂ h₂ hbr₂ => ?_
  · simp [BeginTransmit.bytes, tmsMsgSize, hdrSize] at hbig
  · have h₃ : L.Uploads { s₂ with avalTraffic := e.avalTraffic } _ := h₂.of_eq rfl rfl rfl rfl rfl rfl rfl
    obtain ⟨c₃, hb₃⟩ := h₃.browses
    obtain rfl : c = c₃ := Option.mem_unique (hbr₂.trans hbr₁) hb₃.browser
    simp only [Upload.ready, hst]
    exact activatePeer_follows h₃ rfl hb₃

theorem msgId_store (b : Buff) (r : LoginRsp) : msgId (b.store 0 r.bytes) = MsgId.loginRsp.toNat := by
  have hlen : 0 + 2 ≤ r.bytes.length := by simp [LoginRsp.bytes, toLEI64]
  rw [msgId, Buff.slice_store_part b hlen]
  rfl

theorem rspCode_store (b : Buff) (r : LoginRsp) : (LoginRsp.read (b.store 0 r.bytes)).rspCode = r.rspCode % 2 ^ 16 := by
  have hlen : 2 + 2 ≤ r.bytes.length := by simp [LoginRsp.bytes, toLEI64]
  have htake : (r.bytes.drop 2).take 2 = toLE 2 r.rspCode := rfl
  rw [LoginRsp.read, Buff.slice_store_part b hlen, htake, ofLE_toLE]
  rfl

/-- The answer is handled. -/
theorem handleRecvMsg_follows {host : Host} {n : ℕ} {b : Buff} {r : LoginRsp} (h : L.Uploads s u)
    (hst : u.stage = .asked host n) (hd : s.conns L.tunnel = some d) (hhost : d.host = []) (hr : r.rspCode = 0)
    (hbuff : d.dec.buff = b.store 0 r.bytes) {k : ℕ} (hk : 4 ≤ k) :
    wpe (handleRecvMsg L.tunnel k) (fun _ s' => ∃ u', u.ready = some u' ∧ L.Uploads s' u')
      (fun _ => u.ready = none) s := by
  have hcode : (LoginRsp.read d.dec.buff).rspCode = RespCode.ready.toNat := by
    rw [hbuff, rspCode_store, hr]
    rfl
  have hid : MsgId.ofNat? (msgId d.dec.buff) = some .loginRsp := by
    rw [hbuff, msgId_store, MsgId.ofNat?_toNat]
  simp only [handleRecvMsg, wpe_bind, wpe_deref, hd, wpe_emit, Nat.not_lt.mpr hk, if_false, hid, wpe_pure, found_iff]
  have h₁ : L.Uploads (s.emit (.msg L.tunnel d.dec.buff k)) u := h.quiet rfl rfl
  have hd₁ : (s.emit (.msg L.tunnel d.dec.buff k)).conns L.tunnel = some d := hd
  generalize s.emit (.msg L.tunnel d.dec.buff k) = s₁ at h₁ hd₁ ⊢
  generalize LoginRsp.read d.dec.buff = r' at hcode ⊢
  simp only [handleLoginRsp, loginAnswered, hcode, if_true, wpe_bind, wpe_ite, wpe_modConn, hd₁, found_iff]
  have hset : ∀ k, L.Uploads (s₁.setConn L.tunnel { d with avalTraffic := k }) u := fun _ => h₁.setTunnel hd₁ rfl
  refine ⟨fun _ => ?_, fun _ => loginReady_follows h₁ hst hd₁ hhost _⟩
  exact loginReady_follows (hset (toU64 r'.avalableTraffic)) hst (State.setConn_self _ _ _) hhost r'

/-- Fields of a tunnel that has not been answered. -/
theorem Link.Uploads.setAnswered {host : Host} {n : ℕ} (h : L.Uploads s u) (hst : u.stage = .asked host n)
    (hd : s.conns L.tunnel = some d) (hcore : ({ d' with dec := d.dec } : Connect).core = d.core)
    (hdec : d'.dec.AtStart hdrFormat) : L.Uploads (s.setConn L.tunnel d') u := by
  obtain ⟨hs, ⟨c, hb⟩, hgot, hsent⟩ := h
  have hstage := hb.stage
  rw [hst] at hstage
  obtain ⟨hhost, hlen, e, ho, hver, -⟩ := hstage
  obtain rfl := Option.mem_unique ho.tunnel hd
  simp only [Connect.core, Prod.mk.injEq] at hcore
  obtain ⟨hfd, hty, hpeer, hver', -⟩ := hcore
  refine ⟨{ hs with sane := hs.sane.setConn hd d' }, ⟨c, { hb.toHolds with
    browser := (s.setConn_ne d' hs.ne).trans hb.browser, stage := ?_ }⟩, hgot, hsent⟩
  rw [hst]
  refine ⟨hhost, hlen, d', { ho with
    tunnel := s.setConn_self _ _
    fd := hfd.trans ho.fd
    type := hty ▸ ho.type
    back := hpeer.trans ho.back }, hver'.trans hver, hdec⟩

/-- Two reads: the fields that count, and the decoder. -/
theorem put_onRead_twice (hd : s.conns L.tunnel = some d) (m n : ℕ) (dec dec' : Decoder) :
    ∃ k x, (endpoint L.tunnel).put dec' ((endpoint L.tunnel).onRead n
      ((endpoint L.tunnel).put dec ((endpoint L.tunnel).onRead m s))) =
        { s.setConn L.tunnel { d with dec := dec', httpTransmitLen := x } with rptTraffCost := k } := by
  refine ⟨toU64 (toU64 (s.rptTraffCost + trafficEst s.accurate m) + trafficEst s.accurate n),
    toU64 (toU64 (d.httpTransmitLen + trafficEst s.accurate m) + trafficEst s.accurate n), ?_⟩
  simp only [endpoint, State.count, hd, State.setConn, Function.update_self, Function.update_idem]

/-- The read loop of a tunnel that waits for the answer. -/
theorem answerLoop_follows {host : Host} {n : ℕ} {r : LoginRsp} (h : L.Uploads s u) (hst : u.stage = .asked host n)
    (hd : s.conns L.tunnel = some d) (hhost : d.host = []) (hr : r.rspCode = 0) :
    wpe (recvLoop (endpoint L.tunnel) [.data (frame r.bytes)])
      (fun _ s' => ∃ u', u.ready = some u' ∧ L.Uploads s' u') (fun _ => u.ready = none) s := by
  have hlen : r.bytes.length = 20 := by simp [LoginRsp.bytes, toLEI64]
  obtain ⟨c, hb⟩ := h.browses
  have hstage := hb.stage
  rw [hst] at hstage
  obtain ⟨-, -, e, ho, hver, hdec⟩ := hstage
  obtain rfl := Option.mem_unique ho.tunnel hd
  have hlt : r.bytes.length < 65536 := by omega
  have hv : (endpoint L.tunnel).view s = some e.dec := by simp [endpoint, hd]
  rw [← msgFrame_bytes r.bytes hlt]
  have hne : r.bytes ≠ [] := by
    rw [← List.length_pos_iff, hlen]
    decide
  refine recvLoop_frame (f := msgFrame r.bytes hlt) hdec hv ?_ hne ?_ ?_ ?_
  · rw [put_onRead hd]
    exact congrArg (Option.map Connect.dec) (State.setConn_self _ _ _)
  · show hdrSize ≤ buffSize
    decide
  · show r.bytes.length ≤ buffSize
    rw [hlen]
    decide
  · obtain ⟨k, x, hs₂⟩ := put_onRead_twice hd hdrSize r.bytes.length (e.dec.atBody (msgFrame r.bytes hlt))
      (e.dec.afterBody (msgFrame r.bytes hlt))
    refine (congrArg (wpe _ _ _) hs₂).mpr ?_
    generalize he₂ : ({ e with dec := _, httpTransmitLen := x } : Connect) = e₂
    have h₂ : L.Uploads (s.setConn L.tunnel e₂) u := by
      refine h.setAnswered hst hd ?_ ?_ <;> rw [← he₂]
      · rfl
      · exact ⟨rfl, rfl, rfl⟩
    have h₃ : L.Uploads { s.setConn L.tunnel e₂ with rptTraffCost := k } u := h₂.of_eq rfl rfl rfl rfl rfl rfl rfl
    have hd₃ : ({ s.setConn L.tunnel e₂ with rptTraffCost := k } : State).conns L.tunnel = some e₂ :=
      State.setConn_self _ _ _
    generalize ({ s.setConn L.tunnel e₂ with rptTraffCost := k } : State) = s₃ at h₃ hd₃ ⊢
    simp only [endpoint, wpe_bind, wpe_deref, hd₃, wpe_pure, found_iff]
    refine wpe_mono (handleRecvMsg_follows (b := e.dec.buff.store 0 (hdr r.bytes.length)) h₃ hst hd₃ ?_ hr ?_ ?_) ?_
      fun _ => id
    · rw [← he₂]
      exact hhost
    · rw [← he₂]
      rfl
    · rw [← he₂]
      exact (by decide : 4 ≤ 20).trans_eq hlen.symm
    · rintro - s' ⟨u', hu', h'⟩
      obtain ⟨c', hb'⟩ := h'.browses
      have hstage := hb'.stage
      rw [(Upload.ready_spec hst hu').1] at hstage
      obtain ⟨d', ho', -, hf⟩ := hstage
      refine recvLoop_nil (d := d'.dec) ?_ ?_ ⟨u', hu', h'.of_eq rfl rfl rfl rfl rfl rfl rfl⟩
      · simp [ho'.tunnel]
      · rw [hf.2.1]
        decide

/-- A tunnel that is ready forwards what it reads. -/
theorem forwardLoop_uploads {bs : List UInt8} {F : LoopFault Fault → Prop} (h : L.Uploads s u) (hst : u.stage = .ready)
    (hne : bs ≠ []) (hlen : bs.length ≤ buffSize) :
    wpe (recvLoop (endpoint L.tunnel) [.data bs]) (fun _ s' => L.Uploads s' u) F s := by
  obtain ⟨c, hb⟩ := h.browses
  have hstage := hb.stage
  rw [hst] at hstage
  obtain ⟨d, ho, hver, hf⟩ := hstage
  have hv : (endpoint L.tunnel).view s = some d.dec := by simp [endpoint, ho.tunnel]
  refine recvLoop_forward hv hf.1 hf.2.2 hne (hf.2.1 ▸ hlen) hlen ?_
  rw [put_onRead ho.tunnel]
  generalize hd' : d.stored _ { d.dec with buff := d.dec.buff.store 0 bs } = d'
  have h₁ : L.Uploads (s.setConn L.tunnel d') { u with stage := .ready } := by
    refine h.switch hb ho ?_ ?_ ?_ ?_ ?_ <;> rw [← hd']
    · rfl
    · rfl
    · rfl
    · exact hver
    · exact hf
  rw [← hst] at h₁
  generalize toU64 (s.rptTraffCost + trafficEst s.accurate bs.length) = k
  have h₂ : L.Uploads { s.setConn L.tunnel d' with rptTraffCost := k } u := h₁.of_eq rfl rfl rfl rfl rfl rfl rfl
  have hd₂ : ({ s.setConn L.tunnel d' with rptTraffCost := k } : State).conns L.tunnel = some d' :=
    State.setConn_self _ _ _
  generalize ({ s.setConn L.tunnel d' with rptTraffCost := k } : State) = s₂ at h₂ hd₂ ⊢
  have hslice : d'.dec.buff.slice 0 bs.length = bs := by
    rw [← hd']
    exact Buff.slice_store_same d.dec.buff 0 bs
  have hpeer : d'.peer = some L.browser := by
    rw [← hd']
    exact ho.back
  have h₃ : L.Uploads (s₂.emit (.recv L.tunnel bs)) u := h₂.quiet (if_neg h.serves.ne.symm) rfl
  have h₄ : L.Uploads ((s₂.emit (.recv L.tunnel bs)).emit (.raw L.browser (some L.tunnel) bs)) u :=
    h₃.quiet rfl (if_neg h.serves.ne)
  obtain ⟨c₂, hb₂⟩ := h₂.browses
  simp only [endpoint, onForward, wpe_bind, wpe_deref, hd₂, hslice, wpe_emit, hpeer, found_iff]
  rw [wpe_sendRaw (s := s₂.emit _) h₂.serves.sane.full]
  refine ⟨fun hn => ?_, fun _ _ => ?_⟩
  · have hn' := hb₂.browser.symm.trans hn
    cases hn'
  · have hok : ¬ (bs.length ≠ bs.length ∨ bs.length = 0) := by simp [hne]
    have hd₄ : ((s₂.emit (.recv L.tunnel bs)).emit (.raw L.browser (some L.tunnel) bs)).conns L.tunnel = some d' := hd₂
    simp only [hok, if_false, wpe_pure]
    refine recvLoop_nil (d := d'.dec) ?_ ?_ (h₄.of_eq rfl rfl rfl rfl rfl rfl rfl)
    · simp only [hd₄]
      rfl
    · rw [← hd']
      exact hf.2.1 ▸ (by decide)

/-- `StreamRecvEvent` does what the machine does with the answer. -/
theorem tunnelReady_follows (L : Link) {r : LoginRsp} (hr : r.rspCode = 0) :
    Follows L.Uploads (Event.readable L.tunnelFd [.data (frame r.bytes)]).run Upload.ready := by
  intro s u h
  obtain ⟨c, hb⟩ := h.browses
  have hstage := hb.stage
  have hlen : (frame r.bytes).length = 26 := by simp [frame, LoginRsp.bytes, toLEI64, hdrSize]
  cases hst : u.stage with
  | waiting =>
      rw [hst] at hstage
      simp only [Event.run, handleRecvEvent, wpe_bind, wpe_get, hstage.2.entry, wpe_pure, Upload.ready, hst]
      exact ⟨u, rfl, h⟩
  | asked host n =>
      rw [hst] at hstage
      obtain ⟨-, -, d, ho, -⟩ := hstage
      simp only [Event.run, handleRecvEvent, wpe_bind, wpe_get, ho.entry, wpe_deref, ho.tunnel, ho.type, if_false,
        wpe_modConn, found_iff, streamRecvEvent, wpe_mapFault, wpe_pure]
      exact answerLoop_follows (h.setTunnel ho.tunnel rfl) hst (State.setConn_self _ _ _) rfl hr
  | ready =>
      rw [hst] at hstage
      obtain ⟨d, ho, -⟩ := hstage
      simp only [Event.run, handleRecvEvent, wpe_bind, wpe_get, ho.entry, wpe_deref, ho.tunnel, ho.type, if_false,
        wpe_modConn, Option.some.injEq, forall_eq', reduceCtorEq, false_implies, true_and, streamRecvEvent,
        wpe_mapFault, wpe_pure, Upload.ready, hst, exists_eq_left']
      refine forwardLoop_uploads (h.setTunnel ho.tunnel rfl) hst ?_ ?_
      · rw [← List.length_pos_iff, hlen]
        decide
      · rw [hlen]
        decide

end Ready

/-! ### Runs of the machine -/

/-- What becomes of the bytes read before the answer, when the next chunk is `c`: those that are lost
and those that are kept.  `last` says that there are no more, and `rest` what becomes of them. -/
def Seen.judge (v : Seen) (c : Chunk) (last : Bool) (rest : Request → Option (List UInt8 × List UInt8)) :
    Except Fault Request → Option (List UInt8 × List UInt8)
  | .error _ => none
  | .ok r =>
      if r.host = [] then (rest r).map fun k => (c.bytes ++ k.1, k.2)
      else if r.host.length ≤ Upload.maxHost ∧ last then
        match r.version v.version with
        | .http => some ([], c.bytes)
        | .https => some (c.bytes, [])
      else none

/-- The bytes read before the answer that are lost, and those that are kept, if the last of the chunks
is the only one with a host.  A call ends with a chunk that has none. -/
def Seen.keeps : Seen → List (List Chunk) → Option (List UInt8 × List UInt8)
  | _, [] => none
  | v, [] :: css => v.keeps css
  | v, (c :: cs) :: css =>
      v.judge c (cs.isEmpty && css.all List.isEmpty) (fun r => ((v.take c).look r).keeps css) (v.request c)

/-- Of all that is read, the bytes that are lost before the answer are just those that are not to be
relayed. -/
def Seen.Whole (v : Seen) (pre post : List (List Chunk)) : Prop :=
  ∃ lost kept, v.keeps pre = some (lost, kept) ∧
    lost.length = ownLength (lost ++ (kept ++ post.flatten.flatMap Chunk.bytes))

namespace Upload

def calls (css : List (List Chunk)) (u : Upload) : Option Upload := css.foldlM (fun u cs => call cs u) u

variable {u u' : Upload} {c : Chunk} {cs : List Chunk} {css : List (List Chunk)} {k : ℕ} {go : Bool}

/-- Before the answer only login requests were sent, `k` of them. -/
def Logins (u : Upload) (k : ℕ) : Prop :=
  u.sent = List.replicate k .login ∧
    match u.stage with
    | .waiting => k = 0
    | .asked _ _ => 0 < k
    | .ready => False

theorem Logins.pass (h : u.sent = List.replicate k .login) {host : Host} {n : ℕ} (hst : u.stage = .asked host n)
    (hp : u.pass c = some u') : u'.Logins (k + 1) := by
  simp only [Upload.pass, hst] at hp
  split_ifs at hp
  cases hp
  exact ⟨by rw [h, List.replicate_succ'], Nat.succ_pos k⟩

theorem Logins.chunk (h : u.Logins k) (hc : u.chunk c = some (u', go)) :
    ∃ k', u'.Logins k' ∧ (0 < k → k' = k + 1 ∧ go = true) := by
  obtain ⟨hsent, hst⟩ := h
  cases hu : u.stage with
  | ready => simp only [hu] at hst
  | asked host n =>
      simp only [Upload.chunk, hu, Option.map_eq_some_iff, Prod.mk.injEq] at hc
      obtain ⟨u₁, hp, rfl, rfl⟩ := hc
      exact ⟨k + 1, Logins.pass (u := u.take c) hsent hu hp, fun _ => ⟨rfl, rfl⟩⟩
  | waiting =>
      simp only [hu] at hst
      subst hst
      simp only [Upload.chunk, hu] at hc
      cases hr : u.seen.request c with
      | error e => simp [hr] at hc
      | ok r =>
          simp only [hr] at hc
          split_ifs at hc with hhost
          · cases hc
            refine ⟨0, ⟨hsent, ?_⟩, fun h => absurd h (Nat.lt_irrefl 0)⟩
            simp only [Upload.look, Upload.take, hu]
          · simp only [Option.map_eq_some_iff, Prod.mk.injEq] at hc
            obtain ⟨u₁, hp, rfl, rfl⟩ := hc
            have hp' := Logins.pass (u := { (u.take c).look r with stage := .asked r.host 0 }) hsent rfl hp
            exact ⟨1, hp', fun h => absurd h (Nat.lt_irrefl 0)⟩

theorem Logins.call (h : u.Logins k) (hc : Upload.call cs u = some u') :
    ∃ k', u'.Logins k' ∧ (0 < k → k' = k + cs.length) := by
  induction cs generalizing u k with
  | nil =>
      cases hc
      exact ⟨k, h, fun _ => rfl⟩
  | cons c cs ih =>
      rw [Upload.call] at hc
      cases hch : u.chunk c with
      | none => simp [hch] at hc
      | some p =>
          obtain ⟨u₁, go⟩ := p
          obtain ⟨k₁, h₁, hk₁⟩ := h.chunk hch
          cases go with
          | false =>
              simp only [hch, Option.some.injEq] at hc
              subst hc
              exact ⟨k₁, h₁, fun hk => absurd (hk₁ hk).2 Bool.false_ne_true⟩
          | true =>
              simp only [hch] at hc
              obtain ⟨k', h', hk'⟩ := ih h₁ hc
              refine ⟨k', h', fun hk => ?_⟩
              have := (hk₁ hk).1
              have := hk' (by omega)
              simp only [List.length_cons]
              omega

theorem Logins.calls (h : u.Logins k) (hc : Upload.calls css u = some u') :
    ∃ k', u'.Logins k' ∧ (0 < k → k' = k + css.flatten.length) := by
  induction css generalizing u k with
  | nil =>
      cases hc
      exact ⟨k, h, fun _ => rfl⟩
  | cons cs css ih =>
      obtain ⟨u₁, hcall, hrest⟩ := Option.bind_eq_some_iff.mp hc
      obtain ⟨k₁, h₁, hk₁⟩ := h.call hcall
      obtain ⟨k', h', hk'⟩ := ih h₁ hrest
      refine ⟨k', h', fun hk => ?_⟩
      have := hk₁ hk
      have := hk' (by omega)
      simp only [List.flatten_cons, List.length_append]
      omega

/-- Once the tunnel is ready every chunk is sent. -/
theorem call_ready (cs : List Chunk) (hst : u.stage = .ready) :
    ∃ u', call cs u = some u' ∧ u'.stage = .ready ∧ u'.got = u.got ++ cs.flatMap Chunk.bytes ∧
      u'.sent = u.sent ++ cs.map fun c => .raw c.bytes := by
  induction cs generalizing u with
  | nil => exact ⟨u, rfl, hst, by simp, by simp⟩
  | cons c cs ih =>
      have hchunk : u.chunk c = some ({ u.take c with sent := u.sent ++ [.raw c.bytes] }, true) := by
        simp only [Upload.chunk, hst, Upload.pass, Upload.take, Option.map_some]
      obtain ⟨u', hu', hst', hgot, hsent⟩ := ih (u := { u.take c with sent := u.sent ++ [.raw c.bytes] }) hst
      refine ⟨u', ?_, hst', ?_, ?_⟩
      · simp only [call, hchunk]
        exact hu'
      · rw [hgot]
        simp [Upload.take]
      · rw [hsent]
        simp

theorem calls_ready (css : List (List Chunk)) (hst : u.stage = .ready) :
    ∃ u', calls css u = some u' ∧ u'.got = u.got ++ css.flatten.flatMap Chunk.bytes ∧
      u'.sent = u.sent ++ css.flatten.map fun c => .raw c.bytes := by
  induction css generalizing u with
  | nil => exact ⟨u, rfl, by simp, by simp⟩
  | cons cs css ih =>
      obtain ⟨u₁, hu₁, hst₁, hgot₁, hsent₁⟩ := call_ready cs hst
      obtain ⟨u', hu', hgot, hsent⟩ := ih hst₁
      refine ⟨u', Option.bind_eq_some_iff.mpr ⟨u₁, hu₁, hu'⟩, ?_, ?_⟩
      · rw [hgot, hgot₁]
        simp
      · rw [hsent, hsent₁]
        simp

theorem calls_of_all_isEmpty (h : css.all List.isEmpty) (u : Upload) : calls css u = some u := by
  induction css with
  | nil => rfl
  | cons cs css ih =>
      simp only [List.all_cons, Bool.and_eq_true, List.isEmpty_iff] at h
      obtain ⟨rfl, h⟩ := h
      exact ih h

theorem calls_cons (cs : List Chunk) (css : List (List Chunk)) (u : Upload) :
    calls (cs :: css) u = (call cs u).bind (calls css) := rfl

/-- A chunk without a host is read, and the call returns. -/
theorem call_lost {r : Request} (hst : u.stage = .waiting) (hr : u.seen.request c = .ok r) (hhost : r.host = [])
    (cs : List Chunk) : call (c :: cs) u = some ((u.take c).look r) := by
  simp only [call, chunk, hst, hr, hhost, if_true]

/-- The chunk with the host. -/
theorem call_asked {r : Request} (hst : u.stage = .waiting) (hr : u.seen.request c = .ok r) (hhost : r.host ≠ [])
    (cs : List Chunk) : call (c :: cs) u = if maxHost < r.host.length then none else
      call cs { (u.take c).look r with
        stage := .asked r.host (c.bytes.length % 2 ^ 32), sent := u.sent ++ [.login] } := by
  simp only [call, chunk, hst, hr, hhost, if_false, pass]
  split_ifs
  · rfl
  · simp only [Option.map_some, Nat.zero_add]
    rfl

theorem keeps_some {lost kept : List UInt8} (hst : u.stage = .waiting) (hsent : u.sent = [])
    (h : u.seen.keeps css = some (lost, kept)) :
    ∃ u' host n, calls css u = some u' ∧ u'.stage = .asked host n ∧ u'.sent = [.login] ∧
      u'.got = u.got ++ (lost ++ kept) ∧ u'.Kept n kept := by
  induction css generalizing u lost with
  | nil => simp [Seen.keeps] at h
  | cons cs css ih =>
      cases cs with
      | nil =>
          rw [Seen.keeps] at h
          exact ih hst hsent h
      | cons c cs =>
          rw [Seen.keeps] at h
          cases hr : u.seen.request c with
          | error e =>
              rw [hr] at h
              cases h
          | ok r =>
              rw [hr, Seen.judge] at h
              rw [calls_cons]
              split_ifs at h with hhost hlast
              · obtain ⟨⟨lost', kept'⟩, hk, he⟩ := Option.map_eq_some_iff.mp h
                cases he
                obtain ⟨u', host, n, hu', hst', hsent', hgot, hkept⟩ := ih (u := (u.take c).look r) hst hsent hk
                refine ⟨u', host, n, ?_, hst', hsent', ?_, hkept⟩
                · rw [call_lost hst hr hhost]
                  exact hu'
                · rw [hgot]
                  simp [Upload.take, Upload.look]
              · obtain ⟨hmax, hlast⟩ := hlast
                simp only [Bool.and_eq_true, List.isEmpty_iff] at hlast
                obtain ⟨hcs, hcss⟩ := hlast
                subst hcs
                have hlen : c.bytes.length % 2 ^ 32 = c.bytes.length :=
                  Nat.mod_eq_of_lt (c.length_le.trans_lt (by decide))
                rw [call_asked hst hr hhost, if_neg (Nat.not_lt.mpr hmax), hlen]
                refine ⟨_, _, _, calls_of_all_isEmpty hcss _, rfl, by rw [hsent]; rfl, ?_⟩
                cases hv : r.version u.seen.version with
                | http =>
                    simp only [hv, Option.some.injEq, Prod.mk.injEq] at h
                    obtain ⟨rfl, rfl⟩ := h
                    exact ⟨rfl, Kept.of_http hv c.length_le (Buff.slice_store_same u.seen.buff 0 c.bytes)⟩
                | https =>
                    simp only [hv, Option.some.injEq, Prod.mk.injEq] at h
                    obtain ⟨rfl, rfl⟩ := h
                    exact ⟨by rw [List.append_nil]; rfl, Kept.of_https hv _⟩

theorem keeps_none (hst : u.stage = .waiting) (hsent : u.sent = []) (h : u.seen.keeps css = none)
    (hc : calls css u = some u') : ∃ k, u'.Logins k ∧ k ≠ 1 := by
  induction css generalizing u with
  | nil =>
      cases hc
      exact ⟨0, ⟨hsent, by simp only [hst]⟩, by decide⟩
  | cons cs css ih =>
      cases cs with
      | nil =>
          rw [Seen.keeps] at h
          exact ih hst hsent h hc
      | cons c cs =>
          rw [Seen.keeps] at h
          obtain ⟨u₁, hcall, hrest⟩ := Option.bind_eq_some_iff.mp hc
          cases hr : u.seen.request c with
          | error e => simp [call, chunk, hst, hr] at hcall
          | ok r =>
              rw [hr, Seen.judge] at h
              split_ifs at h with hhost hlast
              · cases (call_lost hst hr hhost cs).symm.trans hcall
                exact ih (u := (u.take c).look r) hst hsent (Option.map_eq_none_iff.mp h) hrest
              · cases hv : r.version u.seen.version <;> simp [hv] at h
              · replace hcall := (call_asked hst hr hhost cs).symm.trans hcall
                split_ifs at hcall with hmax
                have h₁ : Logins { (u.take c).look r with
                    stage := .asked r.host (c.bytes.length % 2 ^ 32), sent := u.sent ++ [.login] } 1 :=
                  ⟨by rw [hsent]; rfl, Nat.one_pos⟩
                obtain ⟨k₂, h₂, hk₂⟩ := h₁.call hcall
                obtain ⟨k₃, h₃, hk₃⟩ := h₂.calls hrest
                refine ⟨k₃, h₃, fun hone => hlast ⟨Nat.not_lt.mp hmax, ?_⟩⟩
                have e₂ := hk₂ Nat.one_pos
                have e₃ := hk₃ (by omega)
                have hcs : cs = [] := List.eq_nil_of_length_eq_zero (by omega)
                have hcss : css.flatten = [] := List.eq_nil_of_length_eq_zero (by omega)
                simpa [hcs] using List.flatten_eq_nil_iff.mp hcss

theorem drop_eq_iff {xs ys : List UInt8} {n : ℕ} (hn : n ≤ (xs ++ ys).length) :
    ys = (xs ++ ys).drop n ↔ xs.length = n := by
  constructor
  · intro h
    have hlen := congrArg List.length h
    simp only [List.length_drop, List.length_append] at hlen hn
    omega
  · rintro rfl
    exact (List.drop_left).symm

theorem exact_iff (v : Seen) (pre post : List (List Chunk)) :
    (∃ u', ((calls pre ⟨v, .waiting, [], []⟩).bind ready).bind (calls post) = some u' ∧ Exact u'.got u'.sent) ↔
      v.Whole pre post := by
  unfold Seen.Whole
  cases hk : v.keeps pre with
  | none =>
      simp only [reduceCtorEq, false_and, exists_false, iff_false]
      rintro ⟨u', hu', raws, hsent, -⟩
      obtain ⟨u₂, h₂, hpost⟩ := Option.bind_eq_some_iff.mp hu'
      obtain ⟨u₁, h₁, hready⟩ := Option.bind_eq_some_iff.mp h₂
      obtain ⟨k, hl, hk1⟩ := keeps_none rfl rfl hk h₁
      obtain ⟨hs, hst⟩ := hl
      cases hu : u₁.stage with
      | ready => simp only [hu] at hst
      | waiting =>
          simp only [ready, hu, Option.some.injEq] at hready
          subst hready
          obtain ⟨k', ⟨hs', -⟩, -⟩ := Logins.calls ⟨hs, hst⟩ hpost
          have hmem : Sent.begin ∈ List.replicate k' Sent.login := by
            rw [← hs', hsent]
            simp
          cases List.eq_of_mem_replicate hmem
      | asked host n =>
          simp only [hu] at hst
          obtain ⟨hst₂, -, raws', hs₂, -⟩ := ready_spec hu hready
          obtain ⟨u₃, h₃, -, hs₃⟩ := calls_ready post hst₂
          cases h₃.symm.trans hpost
          rw [hs₃, hs₂, hs] at hsent
          obtain ⟨j, rfl⟩ : ∃ j, k = j + 2 := ⟨k - 2, by omega⟩
          simp [List.replicate_succ] at hsent
  | some p =>
      obtain ⟨lost, kept⟩ := p
      obtain ⟨u₁, host, n, h₁, hst, hs, hgot, hkept⟩ := keeps_some (u := ⟨v, .waiting, [], []⟩) rfl rfl hk
      obtain ⟨u₂, h₂⟩ := hkept.exists_ready hst
      obtain ⟨hst₂, hgot₂, raws, hs₂, hraws⟩ := ready_spec hst h₂
      obtain ⟨u₃, h₃, hgot₃, hs₃⟩ := calls_ready post hst₂
      have hsent : u₃.sent = .login :: .begin :: (raws ++ post.flatten.map Chunk.bytes).map .raw := by
        rw [hs₃, hs₂, hs]
        simp [Function.comp_def]
      have hgot' : u₃.got = lost ++ (kept ++ post.flatten.flatMap Chunk.bytes) := by
        rw [hgot₃, hgot₂, hgot]
        simp
      have hflat : (raws ++ post.flatten.map Chunk.bytes).flatten = kept ++ post.flatten.flatMap Chunk.bytes := by
        rw [List.flatten_append, hraws kept hkept, List.flatMap_def]
      simp only [h₁, Option.bind_some, h₂, h₃, Option.some.injEq, Prod.mk.injEq, exists_eq_left', Exact, hsent, hgot']
      constructor
      · rintro ⟨raws', he, hf⟩
        have he' : raws ++ post.flatten.map Chunk.bytes = raws' :=
          List.map_injective_iff.mpr (fun _ _ => Sent.raw.inj)
            (List.cons_inj_right _ |>.mp (List.cons_inj_right _ |>.mp he))
        rw [← he', hflat] at hf
        exact ⟨lost, kept, ⟨rfl, rfl⟩, (drop_eq_iff (ownLength_le _)).mp hf⟩
      · rintro ⟨_, _, ⟨rfl, rfl⟩, hlen⟩
        exact ⟨_, rfl, hflat.trans ((drop_eq_iff (ownLength_le _)).mpr hlen)⟩

end Upload

/-! ### Runs of the SDK -/

/-- What happens: the browser's connection is readable, or the answer of the TMS arrives. -/
inductive Turn where
  | browser (cs : List Chunk)
  | answer

def Turn.event (L : Link) (r : LoginRsp) : Turn → Event
  | browser cs => .readable L.browserFd (cs.map Chunk.read)
  | answer => .readable L.tunnelFd [.data (frame r.bytes)]

def Turn.run (L : Link) (r : LoginRsp) (t : Turn) : SdkM Unit := (t.event L r).run

def Turn.step : Turn → Upload → Option Upload
  | browser cs => Upload.call cs
  | answer => Upload.ready

/-- The calls that read the browser before the answer, and those after it. -/
def turns (pre post : List (List Chunk)) : List Turn := pre.map .browser ++ .answer :: post.map .browser

theorem foldlM_turns (pre post : List (List Chunk)) (u : Upload) :
    (turns pre post).foldlM (fun u t => t.step u) u =
      ((Upload.calls pre u).bind Upload.ready).bind (Upload.calls post) := by
  simp only [turns, List.foldlM_append, List.foldlM_cons, List.foldlM_map, Option.bind_assoc]
  rfl

/-- A browser has been accepted, and a tunnel can be opened for it. -/
structure Link.Accepted (L : Link) (s : State) (c : Connect) : Prop where
  serves : L.Serves s
  holds : L.Holds s ⟨c.dec.buff, .http⟩ c
  host : c.host = []
  unopened : L.Unopened s c
  log : s.log = []

theorem Link.Accepted.uploads {L : Link} {s : State} {c : Connect} (h : L.Accepted s c) :
    L.Uploads s ⟨⟨c.dec.buff, .http⟩, .waiting, [], []⟩ := by
  refine ⟨h.serves, ⟨c, h.holds, h.host, h.unopened⟩, ?_, ?_⟩
  · rw [State.received, h.log]
    rfl
  · rw [State.written, h.log]
    rfl

theorem Turn.run_follows (L : Link) {r : LoginRsp} (hr : r.rspCode = 0) (t : Turn) :
    Follows L.Uploads (t.run L r) t.step := by
  cases t with
  | browser cs => exact browserCall_follows L cs
  | answer => exact tunnelReady_follows L hr

/-- **When the upload is exact.**  The calls `pre` read the browser before the `READY` response
arrives, and the calls `post` after it.  One login request is sent, and what follows
`BEGIN_TRANSMIT` is what the browser sent (without the header of a `CONNECT`), just when the last of
the chunks before the response is the only one with a host, and the bytes lost until then are the
header of a `CONNECT`. -/
theorem upload_exact_iff (L : Link) (s : State) (c : Connect) (h : L.Accepted s c) (r : LoginRsp)
    (hr : r.rspCode = RespCode.ready.toNat) (pre post : List (List Chunk)) :
    (∃ s', runAll (Turn.run L r) (turns pre post) s = .ok ((), s') ∧
      Exact (s'.received L.browser) ((s'.written L.tunnel).map Piece.sent)) ↔
    Seen.Whole ⟨c.dec.buff, .http⟩ pre post := by
  have hf := (Follows.runAll (Turn.run_follows L hr) (turns pre post)).exists_iff h.uploads
    (P := fun s' => Exact (s'.received L.browser) ((s'.written L.tunnel).map Piece.sent))
    (Q := fun u => Exact u.got u.sent) fun s' u' h' => by rw [h'.got, h'.sent]
  simp only [foldlM_turns] at hf
  rw [← Upload.exact_iff, ← hf]
  exact ⟨fun ⟨s', hs'⟩ => ⟨(), s', hs'⟩, fun ⟨_, s', hs'⟩ => ⟨s', hs'⟩⟩

/-! ### A request in one piece, and one in two -/

/-- The header of a request but for its last line, and this line. -/
def requestLines : Chunk := ⟨lit "GET / HTTP/1.1\r\nHost: a\r\n", by decide, by decide⟩
def emptyLine : Chunk := ⟨lit "\r\n", by decide, by decide⟩

/-- A whole header, and bytes that follow it later. -/
def wholeRequest : Chunk := ⟨lit "GET / HTTP/1.1\r\nHost: a\r\n\r\n", by decide, by decide⟩
def laterBytes : Chunk := ⟨[1, 2, 3], by decide, by decide⟩

def readyRsp : LoginRsp := ⟨RespCode.ready.toNat, 5000, 7⟩

/-- The browser and the tunnel of `browserState`. -/
def browserLink : Link := ⟨1, 0, 11, 10⟩

theorem browserState_accepted : browserLink.Accepted browserState (proxyConnect 10) where
  serves := ⟨browserState_fresh.sane, by decide, rfl, by decide, by decide, by decide⟩
  holds := ⟨rfl, rfl, rfl, rfl, rfl, rfl⟩
  host := rfl
  unopened := ⟨rfl, rfl, rfl, ⟨[], rfl⟩, rfl⟩
  log := rfl

/-- The empty line arrives before the answer: it makes a second login request, and it is what the
tunnel gets in place of the first two bytes of the request. -/
theorem upload_twoLogins : ∃ s', runAll (Turn.run browserLink readyRsp) (turns [[requestLines], [emptyLine]] [])
      browserState = .ok ((), s') ∧
    s'.received 0 = requestLines.bytes ++ emptyLine.bytes ∧
    (s'.written 1).map Piece.sent =
      [.login, .login, .begin, .raw (emptyLine.bytes ++ requestLines.bytes.drop 2 ++ [0, 0])] ∧
    ¬ Exact (s'.received 0) ((s'.written 1).map Piece.sent) := by
  have hrun : (runAll (Turn.run browserLink readyRsp) (turns [[requestLines], [emptyLine]] [])
    browserState).toOption.map
      (fun r => (r.2.received 0, (r.2.written 1).map Piece.sent)) =
        some (requestLines.bytes ++ emptyLine.bytes,
          [.login, .login, .begin, .raw (emptyLine.bytes ++ requestLines.bytes.drop 2 ++ [0, 0])]) := by
    decide +kernel
  obtain ⟨⟨⟨⟩, s'⟩, hs', he⟩ := Option.map_eq_some_iff.mp hrun
  simp only [Prod.mk.injEq] at he
  refine ⟨s', eq_ok_of_toOption hs', he.1, he.2, ?_⟩
  rintro ⟨raws, hsent, -⟩
  rw [he.2] at hsent
  cases hsent

theorem upload_exact_iff_wholeRequest : ∃ s', runAll (Turn.run browserLink readyRsp)
      (turns [[wholeRequest]] [[laterBytes]]) browserState = .ok ((), s') ∧
    Exact (s'.received 0) ((s'.written 1).map Piece.sent) := by
  refine (upload_exact_iff browserLink browserState (proxyConnect 10) browserState_accepted readyRsp rfl _ _).mpr
    ⟨[], wholeRequest.bytes, ?_, ?_⟩
  · decide +kernel
  · decide +kernel

end HttpsTunnel.Sdk

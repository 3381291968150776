import HttpsTunnel.Tms.Download
import HttpsTunnel.Tms.Quiet

/-! # Relaying what the client sends

A tunnel in forward mode is read in `StreamRecvEvent`, each chunk is charged, and then sent to the agent.
There is no counterpart to the bookkeeping of `Download.lean`: the result of the `send` is only printed, so
that what the agent does not take is lost.  The relay is exact in those runs in which every chunk is taken
whole, and in no others (`uploadRelay_exact_iff`). -/

namespace HttpsTunnel.Tms

open HttpsTunnel.Lib HttpsTunnel.Wire

/-! ### What is relayed -/

/-- The bytes read from the tunnel `t` that the socket of `a` accepted. -/
def Obs.passedOf (t a : Ptr) : Obs → List UInt8
  | relay .up t' a' bs => if t' = t ∧ a' = a then bs else []
  | _ => []

/-- What the agent takes of a chunk. -/
def taken : List UInt8 × SendRes → List UInt8
  | (bs, .sent n) => bs.take n
  | (_, .fail _) => []

/-- The agent takes the whole chunk. -/
def TakesAll : List UInt8 × SendRes → Prop
  | (bs, .sent n) => bs.length ≤ n
  | (_, .fail _) => False

instance : DecidablePred TakesAll
  | (_, .sent _) => inferInstanceAs (Decidable (_ ≤ _))
  | (_, .fail _) => .isFalse id

theorem prefix_taken_fst (p : List UInt8 × SendRes) : taken p <+: p.1 := by
  obtain ⟨bs, n | e⟩ := p
  · exact List.take_prefix _ _
  · exact List.nil_prefix

theorem taken_eq_iff {p : List UInt8 × SendRes} (hp : p.1 ≠ []) : taken p = p.1 ↔ TakesAll p := by
  obtain ⟨bs, n | e⟩ := p
  · exact List.take_eq_self_iff _
  · exact ⟨fun h => absurd h.symm hp, False.elim⟩

/-- What was taken of the chunks is all there was only if each was taken whole. -/
theorem flatMap_taken_eq_iff {l : List (List UInt8 × SendRes)} (hl : ∀ p ∈ l, p.1 ≠ []) :
    l.flatMap taken = l.flatMap Prod.fst ↔ ∀ p ∈ l, TakesAll p := by
  have hle : ∀ l : List (List UInt8 × SendRes), (l.flatMap taken).length ≤ (l.flatMap Prod.fst).length := by
    intro l
    induction l with
    | nil => exact le_rfl
    | cons p l ih =>
        simp only [List.flatMap_cons, List.length_append]
        exact Nat.add_le_add (prefix_taken_fst p).length_le ih
  induction l with
  | nil => simp
  | cons p l ih =>
      obtain ⟨hp, hl⟩ := List.forall_mem_cons.mp hl
      rw [List.forall_mem_cons, ← taken_eq_iff hp, List.flatMap_cons, List.flatMap_cons]
      refine ⟨fun h => ?_, fun ⟨h, h'⟩ => by rw [h, (ih hl).mpr h']⟩
      have hlen := congrArg List.length h
      rw [List.length_append, List.length_append] at hlen
      have hrest := hle l
      have hfirst := (prefix_taken_fst p).length_le
      obtain ⟨h₁, h₂⟩ := List.append_inj h (by omega)
      exact ⟨h₁, (ih hl).mp h₂⟩

namespace Link

variable (L : Link)

/-- The bytes read from the tunnel. -/
def readUp (s : Server) : List UInt8 := s.log.flatMap (Obs.readOf L.tunnel)

/-- Those that the agent accepted. -/
def sentUp (s : Server) : List UInt8 := s.log.flatMap (Obs.passedOf L.tunnel L.agent)

/-- The stream is open, and its tunnel can be read in forward mode: `c` are the fields of the agent, `tn` those of
the tunnel. -/
structure Passes (s : Server) (c tn : Connect) : Prop where
  joins : L.Joins s c tn
  forward : tn.dec.cstate = .forward
  need : tn.dec.stillneedtoread = buffSize
  offset : tn.dec.offset = 0
  status : tn.status ≠ .hangup
  isOpen : c.sockFd ∈ s.openFds
  notShut : c.sockFd ∉ s.shutFds

@[simp] theorem readUp_emit (s : Server) (o : Obs) : L.readUp (s.emit o) = L.readUp s ++ o.readOf L.tunnel := by
  simp [readUp, Server.emit]

@[simp] theorem sentUp_emit (s : Server) (o : Obs) :
    L.sentUp (s.emit o) = L.sentUp s ++ o.passedOf L.tunnel L.agent := by
  simp [sentUp, Server.emit]

end Link

/-! ### Runs -/

/-- Charging the chunks does not cut a stream of this status and balance off. -/
def uncut (accurate : Bool) (status : UserStat) : ℤ → List (List UInt8 × SendRes) → Bool
  | _, [] => true
  | b, (bs, _) :: rest =>
      !cutsOff status b (trafficEst accurate bs.length) &&
        uncut accurate status (wrapI64 (b - trafficEst accurate bs.length)) rest

/-- `StreamRecvEvent` on the tunnel, which is read a chunk at a time, with the result of each `send`. -/
def uploadRun (L : Link) (chunks : List (List UInt8 × SendRes)) : TmsM Unit := do
  modify (·.withSends (chunks.map (·.2)))
  let _ ← streamRecvEvent L.tunnel (chunks.map fun p => .data p.1)

/-- What a read can return, on a stream that is not closed. -/
def UploadOpen (L : Link) (s : Server) (chunks : List (List UInt8 × SendRes)) : Prop :=
  (∀ p ∈ chunks, IsChunk p.1) ∧
    (s.userMap L.user).all fun v => uncut s.accurate (s.scbs L.scb).status v.balance chunks

instance (L : Link) (s : Server) (chunks : List (List UInt8 × SendRes)) : Decidable (UploadOpen L s chunks) :=
  inferInstanceAs (Decidable (_ ∧ _))

/-! ### Reading the tunnel -/

section Read

variable {L : Link} {s s' : Server} {c tn : Connect} {accurate : Bool} {status : UserStat} {b : ℤ} {res : SendRes}
  {bs rd st : List UInt8} {chunks : List (List UInt8 × SendRes)}

/-- Charging and sending leave the stream alone. -/
theorem Link.Passes.frame (h : L.Passes s c tn) (hf : L.Frame s s') (hs : Same s s') : L.Passes s' c tn := by
  have hopen : s'.openFds = s.openFds := congrArg Net.fds hs
  have hshut : s'.shutFds = s.shutFds := congrArg Net.shut hs
  exact { h with joins := h.joins.frame hf, isOpen := hopen ▸ h.isOpen, notShut := hshut ▸ h.notShut }

theorem Link.Passes.emit (h : L.Passes s c tn) (o : Obs) : L.Passes (s.emit o) c tn :=
  { h with joins := h.joins.emit o, isOpen := h.isOpen, notShut := h.notShut }

/-- `send` to a socket that is open. -/
theorem sockSend_taken {fd : ℕ} {sends : List SendRes} (hfd : fd ∈ s.openFds) (hshut : fd ∉ s.shutFds)
    (hpay : L.Pays accurate status b (res :: sends) s) :
    wp (sockSend fd bs) (fun w s' => L.Frame s s' ∧ L.Pays accurate status b sends s' ∧
      w.elim [] bs.take = taken (bs, res)) s := by
  have hf : ∀ e, L.Frame s { s with sends := sends, errno := e } := fun _ => ⟨rfl, rfl, rfl, rfl, rfl, rfl, id⟩
  have hp : ∀ e, L.Pays accurate status b sends { s with sends := sends, errno := e } := fun _ =>
    ⟨hpay.accurate, hpay.status, hpay.balance, rfl⟩
  simp only [sockSend, wp, wpe_bind, wpe_get, hfd, hshut, not_true_eq_false, if_false, hpay.sends]
  cases res with
  | fail e => exact ⟨hf e, hp e, rfl⟩
  | sent n =>
      refine ⟨hf s.errno, hp s.errno, ?_⟩
      change bs.take (min n bs.length) = bs.take n
      rw [← List.take_take, List.take_length]

/-- Bytes from the client, in the buffer and in the log. -/
theorem forwardUp_passes (h : L.Passes s c tn) (hb : tn.dec.buff.slice 0 bs.length = bs)
    (hpay : L.Pays accurate status b (((bs, res) :: chunks).map (·.2)) s)
    (hcut : cutsOff status b (trafficEst accurate bs.length) = false) (hread : L.readUp s = rd)
    (hsent : L.sentUp s = st) :
    wp (forwardUp L.tunnel tn L.scb L.agent bs.length) (fun code s' => code = none ∧ L.Passes s' c tn ∧
      L.Pays accurate status (wrapI64 (b - trafficEst accurate bs.length)) (chunks.map (·.2)) s' ∧
        L.readUp s' = rd ∧ L.sentUp s' = st ++ taken (bs, res)) s := by
  simp only [forwardUp, sendRelay, wp, wpe_bind, wpe_nonNull, h.joins.tunnel_user, wpe_charge, wpe_ite, found_iff,
    hpay.accurate]
  refine wp_mono (wp_and_wlp (recordTraffic_frame _ hpay) (recordTraffic_does (R := Same) _ _ _ s)) ?_
  rintro ret s₁ ⟨⟨hf₁, hpay₁, rfl⟩, hs₁⟩
  have h₁ := h.frame hf₁ hs₁
  rw [hcut]
  refine ⟨fun hne => absurd rfl hne, fun _ => ?_⟩
  simp only [wpe_deref, h₁.joins.agent, found_iff, hb]
  refine wp_mono (wp_and_wlp (sockSend_taken h₁.isOpen h₁.notShut hpay₁) (sockSend_does (R := Same) _ _ s₁)) ?_
  rintro w s₂ ⟨⟨hf₂, hpay₂, htaken⟩, hs₂⟩
  have h₂ := h₁.frame hf₂ hs₂
  have hlog : s₂.log = s.log := hf₂.log.trans hf₁.log
  have hread₂ : L.readUp s₂ = rd := by
    rw [← hread, Link.readUp, hlog, Link.readUp]
  have hsent₂ : L.sentUp s₂ = st := by
    rw [← hsent, Link.sentUp, hlog, Link.sentUp]
  rw [← htaken]
  cases w with
  | none =>
      simp only [wpe_pure]
      exact ⟨trivial, h₂, hpay₂, hread₂, by simpa using hsent₂⟩
  | some n =>
      simp only [wpe_bind, wpe_emit, wpe_pure]
      exact ⟨trivial, h₂.emit _, { hpay₂ with sends := hpay₂.sends }, by simp [hread₂, Obs.readOf],
        by simp [hsent₂, Obs.passedOf]⟩

/-- The forward branch on a chunk in the buffer. -/
theorem onForward_passes (h : L.Passes s c tn) (hb : tn.dec.buff.slice 0 bs.length = bs)
    (hpay : L.Pays accurate status b (((bs, res) :: chunks).map (·.2)) s)
    (hcut : cutsOff status b (trafficEst accurate bs.length) = false) (hread : L.readUp s = rd)
    (hsent : L.sentUp s = st) :
    wp (onForward L.tunnel bs.length) (fun code s' => code = none ∧ L.Passes s' c tn ∧
      L.Pays accurate status (wrapI64 (b - trafficEst accurate bs.length)) (chunks.map (·.2)) s' ∧
        L.readUp s' = rd ++ bs ∧ L.sentUp s' = st ++ taken (bs, res)) s := by
  simp only [onForward, emitFwd, wp, wpe_bind, wpe_deref, wpe_get, wpe_emit, h.joins.tunnel, hb, found_iff]
  generalize hfwd : Obs.fwd L.tunnel tn _ _ _ bs = o
  simp only [h.joins.tunnel_scb, wpe_bind, wpe_getScb]
  have hscb : (s.emit o).scbs = s.scbs := rfl
  simp only [hscb, h.joins.block_tunnel, h.joins.block_agent, h.joins.tunnel_type]
  refine forwardUp_passes (h.emit o) hb { hpay with sends := hpay.sends } hcut ?_ ?_
  · simp [hread, ← hfwd, Obs.readOf]
  · simp [hsent, ← hfwd, Obs.passedOf]

/-- New fields of the tunnel. -/
theorem Link.Joins.setTunnel (h : L.Joins s c tn) (tn' : Connect) (hfd : tn'.sockFd = tn.sockFd)
    (hty : tn'.type = tn.type) (hst : tn'.status = tn.status) (hk : tn'.scb = tn.scb) (hu : tn'.user = tn.user) :
    L.Joins (s.setConn L.tunnel tn') c tn' :=
  { h with
    agent := by simpa [Server.setConn, h.ne.symm] using h.agent
    tunnel := by simp [Server.setConn]
    tunnel_fd := hfd.trans h.tunnel_fd
    tunnel_type := hty.trans h.tunnel_type
    tunnel_status := hst ▸ h.tunnel_status
    tunnel_scb := hk.trans h.tunnel_scb
    tunnel_user := hu.trans h.tunnel_user }

/-- The read loop of the tunnel. -/
theorem recvLoop_passes (h : L.Passes s c tn) (hchunks : ∀ p ∈ chunks, IsChunk p.1)
    (hpay : L.Pays accurate status b (chunks.map (·.2)) s) (hcut : uncut accurate status b chunks = true)
    (hread : L.readUp s = rd) (hsent : L.sentUp s = st) :
    wp (recvLoop (endpoint L.tunnel) (chunks.map fun p => .data p.1)) (fun _ s' => (∃ tn', L.Passes s' c tn') ∧
      L.readUp s' = rd ++ chunks.flatMap Prod.fst ∧ L.sentUp s' = st ++ chunks.flatMap taken) s := by
  induction chunks generalizing s tn b rd st with
  | nil =>
      refine recvLoop_nil (d := tn.dec) (by simp [endpoint, h.joins.tunnel]) ?_ ?_
      · rw [h.need]
        decide
      · have hf : L.Frame s { s with errno := EAGAIN } := ⟨rfl, rfl, rfl, rfl, rfl, rfl, id⟩
        exact ⟨⟨tn, h.frame hf rfl⟩, hread.trans (List.append_nil rd).symm, hsent.trans (List.append_nil st).symm⟩
  | cons p chunks ih =>
      obtain ⟨bs, res⟩ := p
      obtain ⟨hchunk, hrest⟩ := List.forall_mem_cons.mp hchunks
      simp only [uncut, Bool.and_eq_true, Bool.not_eq_true'] at hcut
      refine recvLoop_forward (d := tn.dec) (by simp [endpoint, h.joins.tunnel]) h.forward h.offset hchunk.1
        (h.need ▸ hchunk.2) hchunk.2 ?_
      have hput : (endpoint L.tunnel).put { tn.dec with buff := tn.dec.buff.store 0 bs } s =
          s.setConn L.tunnel { tn with dec := { tn.dec with buff := tn.dec.buff.store 0 bs } } := by
        simp [endpoint, h.joins.tunnel]
      generalize htn : ({ tn with dec := { tn.dec with buff := tn.dec.buff.store 0 bs } } : Connect) = tn₁ at hput
      have h₁ : L.Passes (s.setConn L.tunnel tn₁) c tn₁ := by
        subst htn
        exact { h with joins := h.joins.setTunnel _ rfl rfl rfl rfl rfl, isOpen := h.isOpen, notShut := h.notShut }
      have hb : tn₁.dec.buff.slice 0 bs.length = bs := by
        subst htn
        exact Buff.slice_store_same tn.dec.buff 0 bs
      have hF := onForward_passes h₁ hb { hpay with sends := hpay.sends } hcut.1 hread hsent
      refine wpe_mono (hput ▸ hF) ?_ fun _ => id
      rintro code s' ⟨rfl, h', hpay', hread', hsent'⟩
      refine wpe_mono (ih h' hrest hpay' hcut.2 hread' hsent') ?_ fun _ => id
      rintro - s'' ⟨htn', hread'', hsent''⟩
      exact ⟨htn', by rw [hread'', List.flatMap_cons, List.append_assoc],
        by rw [hsent'', List.flatMap_cons, List.append_assoc]⟩

end Read

/-! ### Whole runs -/

theorem uploadRun_passes {L : Link} {s : Server} {c tn : Connect} {chunks : List (List UInt8 × SendRes)}
    (hopen : UploadOpen L s chunks) (h : L.Passes s c tn) :
    wp (uploadRun L chunks) (fun _ s' => (∃ tn', L.Passes s' c tn') ∧
      L.readUp s' = L.readUp s ++ chunks.flatMap Prod.fst ∧ L.sentUp s' = L.sentUp s ++ chunks.flatMap taken) s := by
  obtain ⟨hchunks, hcut⟩ := hopen
  obtain ⟨v, hv⟩ := Option.isSome_iff_exists.mp h.joins.user
  have hf : L.Frame s (s.withSends (chunks.map (·.2))) := ⟨rfl, rfl, rfl, rfl, rfl, rfl, id⟩
  simp only [uploadRun, streamRecvEvent, wp, wpe_bind, wpe_modify, wpe_pure, wpe_mapFault]
  exact recvLoop_passes (h.frame hf rfl) hchunks
    ⟨rfl, rfl, Option.map_eq_some_iff.mpr ⟨v, hv, rfl⟩, rfl⟩ (by simpa [hv, Server.withSends] using hcut) rfl rfl

/-- What a run of uploads leaves in the log. -/
theorem runAll_passes {L : Link} {es : List (List (List UInt8 × SendRes))} {s : Server} {c tn : Connect}
    (h : L.Passes s c tn) (hopen : Along (uploadRun L) (UploadOpen L) es s) :
    wp (runAll (uploadRun L) es) (fun _ s' => (∃ tn', L.Passes s' c tn') ∧
      L.readUp s' = L.readUp s ++ es.flatten.flatMap Prod.fst ∧
        L.sentUp s' = L.sentUp s ++ es.flatten.flatMap taken) s := by
  induction es generalizing s tn with
  | nil => exact ⟨⟨tn, h⟩, by simp, by simp⟩
  | cons e es ih =>
      obtain ⟨hop, hrest⟩ := hopen
      obtain ⟨⟨⟩, s₁, hrun, ⟨tn₁, h₁⟩, hread, hsent⟩ := (wp_iff _ _ _).mp (uploadRun_passes hop h)
      rw [hrun] at hrest
      rw [runAll, wp, wpe_bind, wpe_of_ok hrun]
      refine wp_mono (ih h₁ hrest) ?_
      rintro - s' ⟨htn, hread', hsent'⟩
      refine ⟨htn, ?_, ?_⟩
      · rw [hread', hread, List.flatten_cons, List.flatMap_append, List.append_assoc]
      · rw [hsent', hsent, List.flatten_cons, List.flatMap_append, List.append_assoc]

/-- The chunks of a run are not empty. -/
theorem chunk_ne_nil {L : Link} {es : List (List (List UInt8 × SendRes))} {s : Server} {c tn : Connect}
    (h : L.Passes s c tn) (hopen : Along (uploadRun L) (UploadOpen L) es s) : ∀ p ∈ es.flatten, p.1 ≠ [] := by
  induction es generalizing s tn with
  | nil => simp
  | cons e es ih =>
      obtain ⟨hop, hrest⟩ := hopen
      obtain ⟨⟨⟩, s₁, hrun, ⟨tn₁, h₁⟩, -⟩ := (wp_iff _ _ _).mp (uploadRun_passes hop h)
      rw [hrun] at hrest
      intro p hp
      rcases List.mem_append.mp (List.flatten_cons ▸ hp) with hp | hp
      · exact (hop.1 p hp).1
      · exact ih h₁ hrest p hp

/-- The stream of `joinedServer`, when its tunnel is in forward mode. -/
theorem joinedServer_passes : sampleLink.Passes joinedServer joinedAgent joinedTunnel where
  joins := joinedServer_joins
  forward := rfl
  need := rfl
  offset := rfl
  status := SockStat.noConfusion
  isOpen := by decide
  notShut := by decide

/-- Three bytes and then one. -/
def sampleUpload : List (List (List UInt8 × SendRes)) := [[([4, 5, 6], .sent 3)], [([7], .sent 9)]]

/-- A client in forward mode sends three bytes, of which its web server takes one; then it sends a fourth. -/
def slowServerRun : List (List Event) :=
  [[.connects 10], [{ Event.arrives 10 sampleLogin with socks := [.opened 11 true] }], [.writable 11],
    [.arrives 6 (frame (ReadTokenRsp.bytes ⟨0, 10, 1, 2, 1000000, 65 :: List.replicate 31 0⟩))],
    [.arrives 10 (frame (BeginTransmit.bytes ⟨1⟩))],
    [{ Event.arrives 10 [4, 5, 6] with sends := [.sent 1] }], [.arrives 10 [7]]]

end HttpsTunnel.Tms

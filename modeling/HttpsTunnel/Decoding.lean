import HttpsTunnel.Buffers

/-! # Decoding

`StreamRecvEvent` is written three times, in the tunnel server, the DPI and the SDK.  The three read loops differ in
what they do with a message and with bytes in forward mode, and in the size of the buffer; they decode alike, as long as
a connection is read in forward mode only with its whole buffer free.  This is what the runs whose reads have room
(`Buffers.lean`) keep to. -/

namespace HttpsTunnel

open HttpsTunnel.Lib HttpsTunnel.Wire

/-! ### The calls of the loop -/

/-- In a run whose events meet `P`, the loop is called for `p` in state `t`. -/
def Tms.Called (P : Server → Event → Prop) (s₀ : Server) (p : Ptr) (t : Server) : Prop :=
  ∃ s e rest, ReachableBy P s₀ s (e :: rest) ∧ e.inn = true ∧ s.connMap e.fd = some p ∧ t = s.load e

/-- The same of the DPI. -/
def Dpi.Called (P : Station → LoopEvent → Prop) (s₀ : Station) (p : Ptr) (t : Station) : Prop :=
  ∃ s e, ReachableBy P s₀ s ∧ e.inn = true ∧ s.connMap e.fd = some p ∧ t = s.load e

/-- The same of the SDK, for a tunnel. -/
def Sdk.Called (P : World → Call → Prop) (w₀ : World) (p : Ptr) (t : State) : Prop :=
  ∃ w fd out first more err last rest c, ReachableBy P w₀ w (.conn fd true out first more err last :: rest) ∧
    w.sdk.connMap fd = some (some p) ∧ w.sdk.conns p = some c ∧ c.type ≠ .proxy ∧
    t = State.setConn { w.sdk with writes := first.writes, dials := [first.dial] } p { c with host := [] }

theorem Tms.Called.ready {accurate : Bool} {errno err : ℕ} {mem : Buff} {p : Ptr} {t : Server} {d : Decoder}
    (h : Called Server.Fits (.init accurate errno err mem) p t) (hd : (endpoint p).view t = some d) :
    (endpoint p).Ready d := by
  obtain ⟨s, e, rest, h, -, hm, rfl⟩ := h
  exact ((endpoint_roomy (List.nodup_cons.mp h.nodup).1).room (h.legible hm) hd).ready

theorem Dpi.Called.ready {errno err : ℕ} {mem : Buff} {p : Ptr} {t : Station} {d : Decoder}
    (h : Called Station.Announced (.init errno err mem) p t) (hd : (endpoint p).view t = some d) :
    (endpoint p).Ready d := by
  obtain ⟨s, e, h, -, hm, rfl⟩ := h
  exact ((endpoint_roomy p).room ⟨SameConns.wf rfl h.wf, e.fd, hm⟩ hd).ready

theorem Sdk.Called.ready {w₀ : World} (hw : w₀.Fresh) {p : Ptr} {t : State} {d : Decoder}
    (h : Called (fun w c => c.Fits w) w₀ p t) (hd : (endpoint p).view t = some d) : (endpoint p).Ready d := by
  obtain ⟨w, fd, out, first, more, err, last, rest, c, h, he, hc, hty, rfl⟩ := h
  exact ((endpoint_roomy (h.head_notMem fd rfl)).room (h.legible hw he hc hty) hd).ready

/-! ### Segmentation -/

/-- **Frame decoding is independent of segmentation**, in the three programs and for messages of up to 4096 bytes, in
every run in which no header announces more than the buffer holds, no flush for an agent that is not hung up is taken
in part (TMS) and no CONNECT_HOST_RSP lets a tunnel forward (SDK). -/
theorem frames_decoded (accurate : Bool) (errno err : ℕ) (mem : Buff) (w₀ : Sdk.World) (hw : w₀.Fresh) :
    (∀ p, Decodes (Tms.endpoint p) (Tms.Called Tms.Server.Fits (.init accurate errno err mem) p) 4096) ∧
    (∀ p, Decodes (Dpi.endpoint p) (Dpi.Called Dpi.Station.Announced (.init errno err mem) p) 4096) ∧
    ∀ p, Decodes (Sdk.endpoint p) (Sdk.Called (fun w c => c.Fits w) w₀ p) 4096 := by
  have htms : Tms.buffSize ≠ 0 ∧ hdrSize ≤ Tms.buffSize ∧ 4096 ≤ Tms.buffSize := by decide
  have hdpi : Dpi.buffSize ≠ 0 ∧ hdrSize ≤ Dpi.buffSize ∧ 4096 ≤ Dpi.buffSize := by decide
  have hsdk : Sdk.buffSize ≠ 0 ∧ hdrSize ≤ Sdk.buffSize ∧ 4096 ≤ Sdk.buffSize := by decide
  exact ⟨fun p => (Tms.endpoint_lawful p).decodes htms.1 htms.2.1 htms.2.2 fun _ h _ => h.ready,
    fun p => (Dpi.endpoint_lawful p).decodes hdpi.1 hdpi.2.1 hdpi.2.2 fun _ h _ => h.ready,
    fun p => (Sdk.endpoint_lawful p).decodes hsdk.1 hsdk.2.1 hsdk.2.2 fun _ h _ => h.ready hw⟩

/-- The theorem on a message for the DPI. -/
theorem frames_decoded_message : ∃ s r s',
    Dpi.Called Dpi.Station.Announced (.init 0 0 fun _ => 0) 0 s ∧
      recvLoop (Dpi.endpoint 0) [.data (frame [1, 2, 3, 4])] s = .ok (r, s') ∧ r.calls = [.msg [1, 2, 3, 4]] := by
  have hrun : ∃ t ∈ (recvLoop (Dpi.endpoint 0) [.data (frame [1, 2, 3, 4])] (.init 0 0 fun _ => 0)).toOption,
      t.1.why ≠ .reject ∧ t.1.got = frame [1, 2, 3, 4] ∧
        ∃ d ∈ (Dpi.endpoint 0).view t.2, d.cstate ≠ .forward := by
    decide +kernel
  obtain ⟨⟨r, s'⟩, hrun, hwhy, hgot, d, hd, hmode⟩ := hrun
  have hcalled : Dpi.Called Dpi.Station.Announced (.init 0 0 fun _ => 0) 0 (.init 0 0 fun _ => 0) :=
    ⟨_, { fd := 5, inn := true }, .start, rfl, rfl, rfl⟩
  have hsession := Session.start.recv hcalled (eq_ok_of_toOption hrun) hwhy
  have hdecodes := (frames_decoded true 0 0 (fun _ => 0) Sdk.freshWorld Sdk.freshWorld_fresh).2.1 0
  have hwire : r.got = Frame.wire [msgFrame [1, 2, 3, 4] (by decide)] := hgot
  have hstart : ∀ d, (Dpi.endpoint 0).view (.init 0 0 fun _ => 0) = some d → d.AtStart hdrFormat := by
    rintro d ⟨⟩
    exact ⟨rfl, rfl, rfl⟩
  exact ⟨_, r, s', hcalled, eq_ok_of_toOption hrun,
    (hdecodes.complete hstart (List.forall_mem_singleton.mpr (by simp [msgFrame])) (hwire ▸ hsession) hd hmode).1⟩

/-- In the SDK, after a CONNECT_HOST_RSP and with a browser that takes one of three bytes and then sends more, the byte
that arrives next is stored behind those that wait, and one of them is passed on in its place. -/
theorem frames_misread : ∃ s r s', Sdk.Called (fun _ _ => True) Sdk.freshWorld 1 s ∧
    recvLoop (Sdk.endpoint 1) [.data [7]] s = .ok (r, s') ∧ r.got = [7] ∧ r.calls = [.forward [4]] := by
  have hrun : ∃ w ∈ Sdk.handleEach (fun _ _ => True)
      (browserOpens ++ [tunnelReads (frame (ConnectHostRsp.bytes ⟨RespCode.ready.toNat, 7⟩)) [],
        tunnelReads [4, 5, 6] [.wrote 1], .conn 5 true false { reads := [.data [8]] } [] 0 {}]) Sdk.freshWorld,
      w.Reports (tunnelReads [7] []) ∧ w.sdk.connMap 6 = some (some 1) ∧ ∃ c ∈ w.sdk.conns 1, c.type ≠ .proxy ∧
        ∃ t ∈ (recvLoop (Sdk.endpoint 1) [.data [7]] (Sdk.State.setConn
          { w.sdk with writes := [], dials := [({} : Sdk.Answers).dial] } 1 { c with host := [] })).toOption,
          t.1.got = [7] ∧ t.1.calls = [.forward [4]] := by
    decide +kernel
  obtain ⟨w, hw, hrep, he, c, hc, hty, ⟨r, s'⟩, hrun, hr⟩ := hrun
  have hreach : Sdk.ReachableBy (fun _ _ => True) Sdk.freshWorld w [tunnelReads [7] []] :=
    .wait _ (Sdk.handleEach_reachable .start hw) (by simpa using hrep) (by simp [tunnelReads, Sdk.Ready.fd])
  exact ⟨_, r, s', ⟨w, 6, _, _, _, _, _, _, c, hreach, he, hc, hty, rfl⟩, eq_ok_of_toOption hrun, hr⟩

end HttpsTunnel

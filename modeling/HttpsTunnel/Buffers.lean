import HttpsTunnel.Tms.Room
import HttpsTunnel.Tms.Download
import HttpsTunnel.Dpi.Receive
import HttpsTunnel.Sdk.Batch

/-! # Receive buffers

The read loops of the three programs read into a buffer of fixed size.  The length a header announces is not compared
with it, so that a read has room exactly as long as the peer announces no more than the buffer holds; in the tunnel
server and the SDK there is one more way to lose the room. -/

namespace HttpsTunnel

open HttpsTunnel.Lib HttpsTunnel.Wire

/-- **Receive buffer bounds.**  In every run of the three programs in which no header announces more than the buffer
holds, no flush for an agent that is not hung up is taken in part (TMS) and no CONNECT_HOST_RSP lets a tunnel forward
(SDK), every read has room in the buffer exactly if no header announces too much while the event is handled. -/
theorem reads_have_room (accurate : Bool) (errno err : ℕ) (mem : Buff) (w₀ : Sdk.World) (hw : w₀.Fresh) :
    (∀ s e rest, Tms.ReachableBy Tms.Server.Fits (Tms.Server.init accurate errno err mem) s (e :: rest) →
      ((∀ r ∈ s.readings e, r.dec.Room 8192) ↔ ∀ r ∈ s.readings e, r.Bounded hdrFormat 8192)) ∧
    (∀ s e, Dpi.ReachableBy Dpi.Station.Announced (Dpi.Station.init errno err mem) s →
      ((∀ r ∈ s.readings e, r.dec.Room 8192) ↔ ∀ r ∈ s.readings e, r.Bounded hdrFormat 8192)) ∧
    ∀ w e rest, Sdk.ReachableBy (fun w c => c.Fits w) w₀ w (e :: rest) →
      ((∀ r ∈ e.readings w, r.dec.Room 4096) ↔ ∀ r ∈ e.readings w, r.Bounded hdrFormat 4096) :=
  ⟨fun _ _ _ h => h.room_iff, fun _ e h => h.room_iff e, fun _ _ _ h => h.room_iff hw⟩

/-- The first event of a browser and its request, for which a tunnel is opened. -/
def browserOpens : List Sdk.Ready :=
  [.listening 5 [⟨0, 0⟩],
    .conn 5 true false { reads := [.data (CString.lit "GET / HTTP/1.1\r\nHost: a\r\n\r\n")], dial := .opened 6 }
      [] 0 {}]

/-- Bytes arrive on the tunnel. -/
def tunnelReads (bs : List UInt8) (writes : List Sdk.WriteRes) : Sdk.Ready :=
  .conn 6 true false { reads := [.data bs], writes := writes } [] 0 {}

/-- The theorem on a login, on a message for the DPI and on the answer to a login. -/
theorem reads_have_room_logins :
    (∃ s, Tms.ReachableBy Tms.Server.Fits (Tms.Server.init true 0 0 fun _ => 0) s [.arrives 10 Tms.sampleLogin] ∧
      (s.readings (.arrives 10 Tms.sampleLogin)).length = 3 ∧
      ∀ r ∈ s.readings (.arrives 10 Tms.sampleLogin), r.dec.Room 8192) ∧
    (∀ r ∈ (Dpi.Station.init 0 0 fun _ => 0).readings { fd := 5, inn := true, reads := [.data (frame [1, 2, 3, 4])] },
      r.dec.Room 8192) ∧
    ∃ w, Sdk.ReachableBy (fun w c => c.Fits w) Sdk.freshWorld w
        [tunnelReads (frame (LoginRsp.bytes ⟨RespCode.ready.toNat, 5000, 7⟩)) []] ∧
      ∀ r ∈ (tunnelReads (frame (LoginRsp.bytes ⟨RespCode.ready.toNat, 5000, 7⟩)) []).readings w, r.dec.Room 4096 := by
  have hroom := reads_have_room true 0 0 (fun _ => 0) Sdk.freshWorld Sdk.freshWorld_fresh
  refine ⟨?_, ?_, ?_⟩
  · have hrun : ∃ t ∈ (Tms.handleEvent (.connects 10) (Tms.Server.init true 0 0 fun _ => 0)).toOption,
        t.2.Reports (.arrives 10 Tms.sampleLogin) ∧ (t.2.readings (.arrives 10 Tms.sampleLogin)).length = 3 ∧
          ∀ r ∈ t.2.readings (.arrives 10 Tms.sampleLogin), r.Bounded hdrFormat 8192 := by
      decide +kernel
    obtain ⟨⟨⟨⟩, s⟩, hs, hrep, hlen, hb⟩ := hrun
    have hfits : (Tms.Server.init true 0 0 fun _ => 0).Fits (.connects 10) :=
      ⟨by simp [Tms.Server.readings, Tms.Event.connects], fun _ _ hout => absurd hout (by decide)⟩
    have hreach : Tms.ReachableBy Tms.Server.Fits (Tms.Server.init true 0 0 fun _ => 0) s
        [.arrives 10 Tms.sampleLogin] :=
      .wait _ (.event (.wait [.connects 10] .start (by decide) (by decide)) hfits (eq_ok_of_toOption hs))
        (by simpa using hrep) (by simp)
    exact ⟨s, hreach, hlen, (hroom.1 _ _ _ hreach).mpr hb⟩
  · exact (hroom.2.1 _ _ .start).mpr (by decide +kernel)
  · have hrun : ∃ w ∈ Sdk.handleEach (fun w c => c.Fits w) browserOpens Sdk.freshWorld,
        w.Reports (tunnelReads (frame (LoginRsp.bytes ⟨RespCode.ready.toNat, 5000, 7⟩)) []) ∧
          ∀ r ∈ (tunnelReads (frame (LoginRsp.bytes ⟨RespCode.ready.toNat, 5000, 7⟩)) []).readings w,
            r.Bounded hdrFormat 4096 := by
      decide +kernel
    obtain ⟨w, hw, hrep, hb⟩ := hrun
    have hreach : Sdk.ReachableBy (fun w c => c.Fits w) Sdk.freshWorld w
        [tunnelReads (frame (LoginRsp.bytes ⟨RespCode.ready.toNat, 5000, 7⟩)) []] :=
      .wait _ (Sdk.handleEach_reachable .start hw) (by simpa using hrep) (by simp [tunnelReads, Sdk.Ready.fd])
    exact ⟨w, hreach, (hroom.2.2 _ _ _ hreach).mpr hb⟩

/-- A header that announces 65535 bytes, for each of the three programs; in the tunnel server a second flush of which
the tunnel takes a part; in the SDK a CONNECT_HOST_RSP, with a browser that takes one of three bytes and then sends
more. -/
theorem reads_overrun :
    (∃ s, Tms.Reachable (Tms.Server.init false 0 0 fun _ => 0) s [.arrives 10 (hdr 65535)] ∧
      ∃ r ∈ s.readings (.arrives 10 (hdr 65535)), ¬ r.dec.Room 8192) ∧
    (∃ r ∈ (Dpi.Station.init 0 0 fun _ => 0).readings { fd := 5, inn := true, reads := [.data (hdr 65535)] },
      ¬ r.dec.Room 8192) ∧
    (∃ w, Sdk.ReachableBy (fun _ _ => True) Sdk.freshWorld w [tunnelReads (hdr 65535) []] ∧
      ∃ r ∈ (tunnelReads (hdr 65535) []).readings w, ¬ r.dec.Room 4096) ∧
    (∃ s, Tms.Reachable (Tms.Server.init false 0 0 fun _ => 0) s [.arrives 11 [7]] ∧
      ∃ r ∈ s.readings (.arrives 11 [7]), ¬ r.dec.Room 8192) ∧
    ∃ w, Sdk.ReachableBy (fun _ _ => True) Sdk.freshWorld w [tunnelReads [7] []] ∧
      ∃ r ∈ (tunnelReads [7] []).readings w, ¬ r.dec.Room 4096 := by
  have htms : ∀ (batches : List (List Tms.Event)) (e : Tms.Event),
      (∃ s ∈ Tms.mainLoop batches (Tms.Server.init false 0 0 fun _ => 0), s.Reports e ∧
        ∃ r ∈ s.readings e, ¬ r.dec.Room 8192) →
      ∃ s, Tms.Reachable (Tms.Server.init false 0 0 fun _ => 0) s [e] ∧ ∃ r ∈ s.readings e, ¬ r.dec.Room 8192 := by
    rintro batches e ⟨s, hs, hrep, hr⟩
    exact ⟨s, .wait [e] (Tms.mainLoop_reachable .start hs) (by simpa using hrep) (by simp), hr⟩
  have hsdk : ∀ (es : List Sdk.Ready) (bs : List UInt8),
      (∃ w ∈ Sdk.handleEach (fun _ _ => True) es Sdk.freshWorld, w.Reports (tunnelReads bs []) ∧
        ∃ r ∈ (tunnelReads bs []).readings w, ¬ r.dec.Room 4096) →
      ∃ w, Sdk.ReachableBy (fun _ _ => True) Sdk.freshWorld w [tunnelReads bs []] ∧
        ∃ r ∈ (tunnelReads bs []).readings w, ¬ r.dec.Room 4096 := by
    rintro es bs ⟨w, hw, hrep, hr⟩
    exact ⟨w, .wait _ (Sdk.handleEach_reachable .start hw) (by simpa using hrep)
      (by simp [tunnelReads, Sdk.Ready.fd]), hr⟩
  refine ⟨htms [[.connects 10]] _ ?_, ?_, hsdk browserOpens _ ?_,
    htms (Tms.writableTwiceRun.dropLast ++ [[{ Tms.Event.writable 10 with sends := [.sent 1] }]]) _ ?_,
    hsdk (browserOpens ++ [tunnelReads (frame (ConnectHostRsp.bytes ⟨RespCode.ready.toNat, 7⟩)) [],
      tunnelReads [4, 5, 6] [.wrote 1], .conn 5 true false { reads := [.data [8]] } [] 0 {}]) _ ?_⟩
  · decide +kernel
  · decide +kernel
  · decide +kernel
  · decide +kernel
  · decide +kernel

end HttpsTunnel

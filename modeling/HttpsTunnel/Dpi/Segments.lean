import HttpsTunnel.Dpi.Account

/-! # Billing by segments

The capture layer may hand over several segments of a connection as one packet.  `TelecomTrafficPredict` adds the
headers of as many segments as the payload fills, so that such a packet is billed as the segments it was put together
from (`billed_by_segments`). -/

namespace HttpsTunnel.Dpi

open HttpsTunnel.Lib HttpsTunnel.Wire

/-! ### Payloads -/

/-- The headers of a segment on the wire. -/
def headerLen : ℕ := 14 + (32 + 20)

/-- What is reported for a payload, as long as it is an `int`. -/
theorem traffic_of_payload (tmsAddr : ℕ) (p : Packet) (t : Clock) {n : ℕ} (hp : p.len = headerLen + n) (hn : 0 < n)
    (hint : telecomTrafficPredict n < 2 ^ 31) :
    ((dpiPacketProcess tmsAddr p t).traffic : ℤ) = telecomTrafficPredict n := by
  have hpos : (n : ℤ) < telecomTrafficPredict n := by
    unfold telecomTrafficPredict tcpAckLen
    split_ifs <;> omega
  have hlen : (p.len : ℤ) - 14 - tcpAckLen = n := by
    simp only [hp, headerLen, tcpAckLen]
    omega
  show (toU64 (wrapI32 (telecomTrafficPredict (wrapI32 (p.len - 14 - tcpAckLen)))) : ℤ) = _
  have hwrap : wrapI32 n = n := wrapI32_of_mem (by omega) (by omega)
  rw [hlen, hwrap, wrapI32_of_mem (by omega) hint]
  exact toU64_of_mem (by omega) (by omega)

/-! ### Segments -/

/-- The payload of a full segment. -/
def segmentSize : ℕ := 1388

/-- The number of segments a payload fills. -/
def segmentCount (n : ℕ) : ℕ := (n + (segmentSize - 1)) / segmentSize

/-- A payload cut into full segments and a rest. -/
def segments (n : ℕ) : List ℕ :=
  if n ≤ segmentSize then [n] else segmentSize :: segments (n - segmentSize)
termination_by n
decreasing_by
  simp only [segmentSize] at *
  omega

/-- A payload is billed with the headers of the segments it fills. -/
theorem telecomTrafficPredict_of_pos {n : ℕ} (h : 0 < n) :
    telecomTrafficPredict n = n + segmentCount n * tcpAckLen := by
  simp only [telecomTrafficPredict, segmentCount, segmentSize, tcpAckLen]
  split_ifs <;> omega

/-- A full segment in front counts one. -/
theorem segmentCount_full_add (n : ℕ) : segmentCount (segmentSize + n) = 1 + segmentCount n := by
  simp only [segmentCount, segmentSize]
  omega

/-- Cutting a payload does not lower the number of segments. -/
theorem segmentCount_add_le (m n : ℕ) : segmentCount (m + n) ≤ segmentCount m + segmentCount n := by
  simp only [segmentCount, segmentSize]
  omega

theorem telecomTrafficPredict_full_add {n : ℕ} (h : 0 < n) : telecomTrafficPredict ↑(segmentSize + n) =
    telecomTrafficPredict segmentSize + telecomTrafficPredict n := by
  have hfull : segmentCount segmentSize = 1 := by decide
  rw [telecomTrafficPredict_of_pos (by omega), telecomTrafficPredict_of_pos h,
    telecomTrafficPredict_of_pos (by decide), segmentCount_full_add, hfull]
  push_cast
  ring

theorem telecomTrafficPredict_add_le {m n : ℕ} (hm : 0 < m) (hn : 0 < n) :
    telecomTrafficPredict ↑(m + n) ≤ telecomTrafficPredict m + telecomTrafficPredict n := by
  have hle := segmentCount_add_le m n
  rw [telecomTrafficPredict_of_pos (by omega), telecomTrafficPredict_of_pos hm, telecomTrafficPredict_of_pos hn]
  simp only [tcpAckLen]
  omega

/-- A payload is billed as its segments. -/
theorem telecomTrafficPredict_segments {n : ℕ} (h : 0 < n) :
    telecomTrafficPredict n = ((segments n).map fun m : ℕ => telecomTrafficPredict m).sum := by
  induction n using segments.induct with
  | case1 n hle => rw [segments, if_pos hle, List.map_singleton, List.sum_singleton]
  | case2 n hgt ih =>
      have hrest : 0 < n - segmentSize := by omega
      rw [segments, if_neg hgt, List.map_cons, List.sum_cons, ← ih hrest, ← telecomTrafficPredict_full_add hrest,
        Nat.add_sub_cancel' (by omega)]

/-- It is not billed more than any other way to cut it. -/
theorem telecomTrafficPredict_le_sum {l : List ℕ} (hpos : ∀ m ∈ l, 0 < m) (hne : l ≠ []) :
    telecomTrafficPredict l.sum ≤ (l.map fun m : ℕ => telecomTrafficPredict m).sum := by
  induction l with
  | nil => exact absurd rfl hne
  | cons m l ih =>
      obtain ⟨hm, hl⟩ := List.forall_mem_cons.mp hpos
      rw [List.map_cons, List.sum_cons, List.sum_cons]
      by_cases hnil : l = []
      · simp [hnil]
      · have hsum : 0 < l.sum := List.sum_pos l hl hnil
        exact (telecomTrafficPredict_add_le hm hsum).trans (Int.add_le_add_left (ih hl hnil) _)

theorem mem_segments {n m : ℕ} (h : 0 < n) (hm : m ∈ segments n) : 0 < m ∧ m ≤ segmentSize := by
  induction n using segments.induct with
  | case1 n hle =>
      rw [segments, if_pos hle, List.mem_singleton] at hm
      exact hm ▸ ⟨h, hle⟩
  | case2 n hgt ih =>
      rw [segments, if_neg hgt, List.mem_cons] at hm
      rcases hm with rfl | hm
      · exact ⟨by decide, le_rfl⟩
      · exact ih (by omega) hm

/-- **Segment-wise billing.**  A payload is billed as the segments it is cut into, and not more than any list of
payloads it may have been put together from; so a packet of the capture layer is reported with the traffic of its
segments. -/
theorem billed_by_segments (n : ℕ) (hn : 0 < n) :
    telecomTrafficPredict n = ((segments n).map fun m : ℕ => telecomTrafficPredict m).sum ∧
    (∀ l : List ℕ, (∀ m ∈ l, 0 < m) → l.sum = n →
      telecomTrafficPredict n ≤ (l.map fun m : ℕ => telecomTrafficPredict m).sum) ∧
    (telecomTrafficPredict n < 2 ^ 31 → ∀ tmsAddr t (p : Packet), p.len = headerLen + n →
      (dpiPacketProcess tmsAddr p t).traffic =
        ((segments n).map fun m => (dpiPacketProcess tmsAddr { p with len := headerLen + m } t).traffic).sum) := by
  refine ⟨telecomTrafficPredict_segments hn, fun l hpos hsum => ?_, fun hint tmsAddr t p hp => ?_⟩
  · have hne : l ≠ [] := by
      rintro rfl
      exact hn.ne hsum
    exact hsum ▸ telecomTrafficPredict_le_sum hpos hne
  · have hsegment : ∀ m ∈ segments n, ((dpiPacketProcess tmsAddr { p with len := headerLen + m } t).traffic : ℤ) =
        telecomTrafficPredict m := by
      intro m hm
      obtain ⟨hpos, hle⟩ := mem_segments hn hm
      refine traffic_of_payload tmsAddr _ t rfl hpos ?_
      rw [telecomTrafficPredict_of_pos hpos]
      simp only [segmentCount, segmentSize, tcpAckLen] at *
      omega
    have hsum := telecomTrafficPredict_segments hn
    rw [← traffic_of_payload tmsAddr p t hp hn hint, ← List.map_congr_left hsegment] at hsum
    apply Nat.cast_injective (R := ℤ)
    rw [hsum, Nat.cast_list_sum, List.map_map]
    rfl

/-- A payload of 3000 bytes fills two segments and a part of a third, and is billed with three headers. -/
theorem billed_by_segments_threeThousand : 0 < 3000 ∧
    telecomTrafficPredict 3000 ≤ telecomTrafficPredict 1500 + (telecomTrafficPredict 1500 + 0) ∧
    (dpiPacketProcess 1 ⟨3066, 1, 2, false, false⟩ {}).traffic = ((segments 3000).map fun m =>
      (dpiPacketProcess 1 ⟨headerLen + m, 1, 2, false, false⟩ {}).traffic).sum := by
  obtain ⟨-, hle, hbilled⟩ := billed_by_segments 3000 (by decide)
  exact ⟨by decide, hle [1500, 1500] (by decide) rfl, hbilled (by decide) 1 {} ⟨3066, 1, 2, false, false⟩ rfl⟩

end HttpsTunnel.Dpi

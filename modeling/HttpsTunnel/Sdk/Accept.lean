import HttpsTunnel.Sdk.Recycler

/-! # The accept window

After `YMEConnectable` the SDK is to take connections of browsers for five seconds, and before the
first call always.  `Window` is what the code makes of that: the time from which the five seconds
count, if they count at all.  Every connection that is taken moves it on, so that the window stays open
as long as connections follow each other closely. -/

namespace HttpsTunnel.Sdk

open HttpsTunnel.Lib

/-! ### What the accept handler does to the window -/

/-- Every entry of the connection table is a connection. -/
def State.Tabled (s : State) : Prop :=
  ∀ fd e, s.connMap fd = some e → ∃ p, e = some p ∧ (s.conns p).isSome

/-- The beginning of the window, if there is one. -/
abbrev Window := Option ℤ

def World.window (w : World) : Window := if w.timeWindow then some w.acceptBeginTime else none

/-- The length of the window. -/
def windowMicros : ℤ := 5 * 1000000

/-- A connection at time `t` is inside the window. -/
def Window.Takes (b : Window) (t : ℤ) : Prop := ∀ a ∈ b, t - a ≤ windowMicros

/-- The window behind a connection at time `t`. -/
def Window.slide (b : Window) (t : ℤ) : Window :=
  b.map fun a => if t - a ≤ windowMicros then t else a

/-- The worlds in which `HandleAcceptEvent` works, with the window they show. -/
def World.Open (w : World) (b : Window) : Prop := w.sdk.Tabled ∧ w.Numbered ∧ w.window = b

theorem wp_inWindow {w : World} {b : Window} {t : Timeval} {ts : List Timeval} (hw : w.Open b)
    (hts : w.times = t :: ts) :
    wp inWindow (fun ok w' => w'.Open (b.slide t.micros) ∧ (ok = true ↔ b.Takes t.micros)) w := by
  obtain ⟨htab, hnum, rfl⟩ := hw
  simp only [inWindow, gettimeofday, wp, wpe_bind, wpe_get, wpe_ite, wpe_pure, wpe_set, wpe_modify, hts,
    List.headD_cons, List.tail_cons]
  refine ⟨fun hw => ⟨fun hlate => ⟨⟨htab, hnum, ?_⟩, ?_⟩, fun hin => ⟨⟨htab, hnum, ?_⟩, ?_⟩⟩,
    fun hw => ⟨⟨htab, hnum, ?_⟩, ?_⟩⟩
  · have hout : ¬ t.micros - w.acceptBeginTime ≤ windowMicros := not_le.mpr hlate
    simp only [World.window, hw, Window.slide, if_true, Option.map_some, if_neg hout]
  · have hout : ¬ t.micros - w.acceptBeginTime ≤ windowMicros := not_le.mpr hlate
    simpa [World.window, hw, Window.Takes] using hout
  · have hin' : t.micros - w.acceptBeginTime ≤ windowMicros := not_lt.mp hin
    simp only [World.window, hw, Window.slide, if_true, Option.map_some, if_pos hin']
  · have hin' : t.micros - w.acceptBeginTime ≤ windowMicros := not_lt.mp hin
    simpa [World.window, hw, Window.Takes] using hin'
  · simp [World.window, hw, Window.slide]
  · simp [World.window, hw, Window.Takes]

/-- The objects of `s` are still there in `s'`. -/
def State.Grows (s s' : State) : Prop := ∀ q, (s.conns q).isSome → (s'.conns q).isSome

theorem State.grows_setConn (s : State) (p : Ptr) (c : Connect) : s.Grows (s.setConn p c) := by
  intro q hq
  by_cases h : q = p <;> simp [setConn, h, hq]

theorem wp_acceptObject {s : State} (hs : s.Tabled) (fd : ℕ) :
    wp (acceptObject fd) (fun p s' => s'.connMap = s.connMap ∧ (∃ c, s'.conns p = some c) ∧ s.Grows s') s := by
  simp only [acceptObject, wp, wpe_bind, wpe_get]
  cases h : s.connMap fd with
  | none =>
      simp only [wpe_bind, wpe_set, wpe_pure]
      exact ⟨rfl, ⟨{}, State.setConn_self _ _ _⟩, s.grows_setConn _ _⟩
  | some e =>
      obtain ⟨p, rfl, hp⟩ := hs fd e h
      obtain ⟨c, hc⟩ := Option.isSome_iff_exists.mp hp
      simp only [wpe_bind, wpe_modConn, hc, reduceCtorEq, false_implies, true_and, Option.some.injEq, forall_eq',
        wpe_pure]
      exact ⟨rfl, ⟨_, State.setConn_self _ _ _⟩, s.grows_setConn _ _⟩

theorem wp_acceptEntry {s : State} (hs : s.Tabled) (fd : ℕ) :
    wp (acceptEntry fd) (fun p s' => s'.Tabled ∧ ∃ c, s'.conns p = some c) s := by
  simp only [acceptEntry, wp, wpe_bind]
  refine wp_mono (wp_acceptObject hs fd) ?_
  rintro p s₁ ⟨hmap, ⟨c, hc⟩, hlive⟩
  simp only [wpe_modify, wpe_modConn, hc, reduceCtorEq, false_implies, true_and, Option.some.injEq, forall_eq',
    wpe_pure, hmap]
  refine ⟨fun fd' e he => ?_, ⟨_, State.setConn_self _ _ _⟩⟩
  by_cases hfd : fd' = fd
  · simp only [State.setConn, hfd, Function.update_self, Option.some.injEq] at he
    exact ⟨p, he.symm, by simp [State.setConn]⟩
  · simp only [State.setConn, ne_eq, hfd, not_false_eq_true, Function.update_of_ne] at he
    obtain ⟨q, rfl, hq⟩ := hs fd' e he
    exact ⟨q, rfl, State.grows_setConn _ _ _ q (hlive q hq)⟩

theorem wp_acceptConnection {w : World} {b : Window} (hw : w.Open b) (fd : ℕ) :
    wp (acceptConnection fd) (fun _ w' => w'.Open b) w := by
  obtain ⟨htab, hnum, rfl⟩ := hw
  simp only [acceptConnection, wp, wpe_bind, wpe_onSdk]
  refine wp_mono (wp_acceptEntry htab fd) ?_
  rintro p s ⟨hs, c, hc⟩
  have hn : ({ w with sdk := s } : World).Numbered := hnum
  simp only [wpe_watch hn hc, wpe_modify]
  exact ⟨hs, hn.nodeAdded, rfl⟩

theorem wp_handleAcceptEvent {w : World} {b : Window} {t : Timeval} {ts : List Timeval} (hw : w.Open b)
    (hts : w.times = t :: ts) {newfd : ℤ} (hfd : 0 < newfd) :
    wp (handleAcceptEvent newfd) (fun r w' => w'.Open (b.slide t.micros) ∧ (r = newfd ↔ b.Takes t.micros)) w := by
  simp only [handleAcceptEvent, if_neg (not_le.mpr hfd), wp, wpe_bind]
  refine wp_mono (wp_inWindow hw hts) ?_
  rintro ok w₁ ⟨h₁, hok⟩
  cases ok with
  | true =>
      simp only [if_true, wpe_bind, wpe_pure]
      exact wp_mono (wp_acceptConnection h₁ _) fun _ w₂ h₂ => ⟨h₂, by simpa using hok⟩
  | false =>
      simp only [Bool.false_eq_true, if_false, wpe_pure]
      exact ⟨h₁, iff_of_false hfd.ne (by simpa using hok)⟩

/-! ### Histories -/

/-- What happens to the window: a call of `YMEConnectable`, or `HandleAcceptEvent` on a connection
that `accept` gives the descriptor `newfd`; the clock shows `t` first, and then `ts`. -/
inductive WindowEvent where
  | connectable (t : Timeval) (ts : List Timeval)
  | incoming (newfd : ℤ) (t : Timeval) (ts : List Timeval)

namespace WindowEvent

def time : WindowEvent → ℤ
  | connectable t _ | incoming _ t _ => t.micros

def run : WindowEvent → WorldM ℤ
  | connectable t ts => do
      modify (fun w => { w with times := t :: ts })
      yMEConnectable
      pure 0
  | incoming newfd t ts => do
      modify (fun w => { w with times := t :: ts })
      handleAcceptEvent newfd

/-- The window behind an event. -/
def window (b : Window) : WindowEvent → Window
  | connectable t _ => some t.micros
  | incoming newfd t _ => if 0 < newfd then b.slide t.micros else b

/-- The call of `YMEConnectable` that counts, and behind it the connections since. -/
def since (l : List ℤ) : WindowEvent → List ℤ
  | connectable t _ => [t.micros]
  | incoming newfd t _ => if 0 < newfd ∧ l ≠ [] then l ++ [t.micros] else l

end WindowEvent

/-- The times of the most recent call of `YMEConnectable` and of the connections since. -/
def sinceCall (es : List WindowEvent) : List ℤ := es.foldl WindowEvent.since []

/-- What is documented of a connection at time `t`: `YMEConnectable` was never called, or at most five
seconds ago. -/
def Documented (es : List WindowEvent) (t : ℤ) : Prop := ∀ t₀ ∈ (sinceCall es).head?, t - t₀ ≤ windowMicros

/-- At most five seconds have passed from `t` to `t'`. -/
def Close (t t' : ℤ) : Prop := t' - t ≤ windowMicros

/-- Among the most recent call, the connections since, and a connection at time `t`, two neighbours
are more than five seconds apart. -/
def Gap (es : List WindowEvent) (t : ℤ) : Prop := ¬ (sinceCall es ++ [t]).IsChain Close

/-- After the events `es` a connection is taken. -/
def Taken (w : World) (es : List WindowEvent) (newfd : ℤ) (t : Timeval) (ts : List Timeval) : Prop :=
  ∃ w₁ w₂, runAll (fun e => do let _ ← e.run) es w = .ok ((), w₁) ∧
    (WindowEvent.incoming newfd t ts).run w₁ = .ok (newfd, w₂)

/-- The window as the times since the call make it: the last time of a chain without a gap, or a time
the window was left at. -/
def Window.Shows (b : Window) (l : List ℤ) : Prop :=
  (b = none ∧ l = []) ∨
    ∃ a z, b = some a ∧ l.getLast? = some z ∧ ((l.IsChain Close ∧ a = z) ∨ (¬ l.IsChain Close ∧ ¬ Close a z))

namespace Window.Shows

variable {b : Window} {l : List ℤ} {t : ℤ}

theorem isChain_append {z : ℤ} (hz : l.getLast? = some z) :
    (l ++ [t]).IsChain Close ↔ l.IsChain Close ∧ Close z t := by
  simp [List.isChain_append, hz]

theorem slide (h : b.Shows l) (hl : l ≠ []) (ht : ∀ z ∈ l.getLast?, z ≤ t) : (b.slide t).Shows (l ++ [t]) := by
  obtain ⟨rfl, rfl⟩ | ⟨a, z, rfl, hz, h⟩ := h
  · exact absurd rfl hl
  refine .inr ⟨if t - a ≤ windowMicros then t else a, t, rfl, by simp, ?_⟩
  rw [isChain_append hz]
  obtain ⟨hc, rfl⟩ | ⟨hc, ha⟩ := h
  · by_cases hin : Close a t
    · exact .inl ⟨⟨hc, hin⟩, if_pos hin⟩
    · have ha : (if t - a ≤ windowMicros then t else a) = a := if_neg hin
      exact .inr ⟨fun h => hin h.2, by rwa [ha]⟩
  · have hout : ¬ Close a t := by
      have := ht z hz
      unfold Close at *
      omega
    have ha : (if t - a ≤ windowMicros then t else a) = a := if_neg hout
    exact .inr ⟨fun h => hc h.1, by rwa [ha]⟩

theorem takes_iff (h : b.Shows l) (ht : ∀ z ∈ l.getLast?, z ≤ t) : b.Takes t ↔ (l ++ [t]).IsChain Close := by
  obtain ⟨rfl, rfl⟩ | ⟨a, z, rfl, hz, h⟩ := h
  · simp [Takes]
  have htakes : Takes (some a) t ↔ Close a t := by simp [Takes, Close]
  rw [htakes, isChain_append hz]
  obtain ⟨hc, rfl⟩ | ⟨hc, ha⟩ := h
  · simp [hc]
  · have := ht z hz
    have hout : ¬ Close a t := by
      unfold Close at *
      omega
    simp [hc, hout]

end Window.Shows

/-- The times since the call are times of events, in their order. -/
theorem sinceCall_sublist (es : List WindowEvent) : (sinceCall es).Sublist (es.map WindowEvent.time) := by
  induction es using List.reverseRecOn with
  | nil => simp [sinceCall]
  | append_singleton es e ih =>
      simp only [sinceCall, List.foldl_append, List.foldl_cons, List.foldl_nil, List.map_append, List.map_cons,
        List.map_nil] at ih ⊢
      cases e with
      | connectable t ts => exact List.sublist_append_right _ _
      | incoming fd t ts =>
          simp only [WindowEvent.since]
          split_ifs with h
          · exact ih.append (List.Sublist.refl _)
          · exact ih.trans (List.sublist_append_left _ _)

theorem sinceCall_sorted {es : List WindowEvent} {t : ℤ}
    (h : (es.map WindowEvent.time ++ [t]).Pairwise (· ≤ ·)) : (sinceCall es ++ [t]).Pairwise (· ≤ ·) :=
  h.sublist ((sinceCall_sublist es).append (List.Sublist.refl _))

theorem last_le {l : List ℤ} {t : ℤ} (h : (l ++ [t]).Pairwise (· ≤ ·)) : ∀ z ∈ l.getLast?, z ≤ t := by
  intro z hz
  simp only [List.pairwise_append, List.mem_singleton, forall_eq] at h
  exact h.2.2 z (List.mem_of_getLast? hz)

/-- Within five seconds of the call there is no gap. -/
theorem Documented.not_gap {es : List WindowEvent} {t : ℤ} (h : Documented es t)
    (hmono : (sinceCall es ++ [t]).Pairwise (· ≤ ·)) : ¬ Gap es t := by
  rw [Gap, not_not]
  cases hl : sinceCall es with
  | nil => simp
  | cons t₀ l =>
      have ht : t - t₀ ≤ windowMicros := h t₀ (by simp [hl])
      rw [hl] at hmono
      refine List.Pairwise.isChain (hmono.imp_of_mem ?_)
      intro x y hx hy _
      have hx₀ : t₀ ≤ x := by
        rcases List.mem_cons.mp hx with rfl | hx
        · exact le_rfl
        · exact List.rel_of_pairwise_cons hmono hx
      have hy₁ : y ≤ t := by
        simp only [List.pairwise_append, List.mem_singleton, forall_eq] at hmono
        rcases List.mem_append.mp hy with hy | hy
        · exact hmono.2.2 y hy
        · exact (List.mem_singleton.mp hy).le
      unfold Close
      omega

/-- What a history makes of the window. -/
theorem shows_sinceCall {es : List WindowEvent} (h : (es.map WindowEvent.time).Pairwise (· ≤ ·)) :
    Window.Shows (es.foldl WindowEvent.window none) (sinceCall es) := by
  induction es using List.reverseRecOn with
  | nil => exact .inl ⟨rfl, rfl⟩
  | append_singleton es e ih =>
      rw [List.map_append, List.map_singleton] at h
      have hi := ih (List.pairwise_append.mp h).1
      have hlast := last_le (sinceCall_sorted h)
      simp only [sinceCall, List.foldl_append, List.foldl_cons, List.foldl_nil] at hi hlast ⊢
      cases e with
      | connectable t ts => exact .inr ⟨_, _, rfl, rfl, .inl ⟨List.isChain_singleton _, rfl⟩⟩
      | incoming fd t ts =>
          simp only [WindowEvent.window, WindowEvent.since]
          by_cases hfd : 0 < fd
          · by_cases hl : es.foldl WindowEvent.since [] = []
            · obtain ⟨hb, -⟩ | ⟨a, z, -, hz, -⟩ := hi
              · simp only [hb, hl, hfd, ne_eq, not_true, and_false, if_false, if_true]
                exact .inl ⟨rfl, rfl⟩
              · simp [hl] at hz
            · simp only [hfd, hl, ne_eq, not_false_eq_true, and_self, if_true]
              exact hi.slide hl hlast
          · simp only [hfd, false_and, if_false]
            exact hi

theorem run_follows (e : WindowEvent) :
    Follows World.Open (do let _ ← e.run) (fun b => some (e.window b)) := by
  intro w b hw
  refine wpe_mono (P := fun _ w' => w'.Open (e.window b)) (F := fun _ => False) ?_
    (fun _ _ h => ⟨_, rfl, h⟩) fun _ h => h.elim
  simp only [wpe_bind, wpe_pure]
  cases e with
  | connectable t ts =>
      simp only [WindowEvent.run, yMEConnectable, wpe_bind, wpe_modify, wpe_gettimeofday, wpe_pure,
        List.headD_cons]
      exact ⟨hw.1, hw.2.1, rfl⟩
  | incoming newfd t ts =>
      simp only [WindowEvent.run, WindowEvent.window, wpe_bind, wpe_modify]
      have hw' : ({ w with times := t :: ts } : World).Open b := hw
      by_cases hfd : 0 < newfd
      · simp only [hfd, if_true]
        exact wp_mono (wp_handleAcceptEvent hw' rfl hfd) fun _ _ h => h.1
      · simp only [hfd, if_false, handleAcceptEvent, not_lt.mp hfd, if_true, wpe_pure]
        exact hw'

/-- A connection is taken when no two neighbours since the call are more than five seconds apart. -/
theorem taken_iff {w : World} (hw : w.Open none) {es : List WindowEvent} {newfd : ℤ} (hfd : 0 < newfd)
    {t : Timeval} (ts : List Timeval) (hmono : (es.map WindowEvent.time ++ [t.micros]).Pairwise (· ≤ ·)) :
    Taken w es newfd t ts ↔ ¬ Gap es t.micros := by
  have hsorted := sinceCall_sorted hmono
  rw [Gap, not_not, ← (shows_sinceCall (List.pairwise_append.mp hmono).1).takes_iff (last_le hsorted)]
  have hfold : es.foldlM (fun b e => some (WindowEvent.window b e)) none =
      some (es.foldl WindowEvent.window none) := List.foldlM_pure
  have hlastEvent : ∀ w' b, World.Open w' b →
      ((∃ w₂, (WindowEvent.incoming newfd t ts).run w' = .ok (newfd, w₂)) ↔ b.Takes t.micros) := by
    intro w' b hw'
    have hw'' : ({ w' with times := t :: ts } : World).Open b := hw'
    obtain ⟨r, w₂, hr, -, htakes⟩ := (wp_iff _ _ _).mp (wp_handleAcceptEvent hw'' rfl hfd)
    have hr' : (WindowEvent.incoming newfd t ts).run w' = .ok (r, w₂) := hr
    rw [hr', ← htakes]
    simp
  have hiff := (Follows.runAll run_follows es).exists_iff hw hlastEvent
  simp only [hfold, Option.some.injEq, exists_eq_left'] at hiff
  rw [← hiff]
  constructor
  · rintro ⟨w₁, w₂, h₁, h₂⟩
    exact ⟨(), w₁, h₁, w₂, h₂⟩
  · rintro ⟨⟨⟩, w₁, h₁, w₂, h₂⟩
    exact ⟨w₁, w₂, h₁, h₂⟩

/-- **The accept window.**  `HandleAcceptEvent` does as documented with a connection exactly when it is
to be taken, or when the call of `YMEConnectable`, the connections since and this one leave a gap of
more than five seconds. -/
theorem accept_window_iff {w : World} (hw : w.timeWindow = false) (htab : w.sdk.Tabled) (hnum : w.Numbered)
    (es : List WindowEvent) (newfd : ℤ) (hfd : 0 < newfd) (t : Timeval) (ts : List Timeval)
    (hmono : (es.map WindowEvent.time ++ [t.micros]).Pairwise (· ≤ ·)) :
    (Taken w es newfd t ts ↔ Documented es t.micros) ↔ (Documented es t.micros ∨ Gap es t.micros) := by
  have hopen : w.Open none := ⟨htab, hnum, by simp [World.window, hw]⟩
  rw [taken_iff hopen hfd ts hmono]
  constructor
  · intro h
    by_cases hg : Gap es t.micros
    · exact .inr hg
    · exact .inl (h.mp hg)
  · rintro (hd | hg)
    · exact iff_of_true (hd.not_gap (sinceCall_sorted hmono)) hd
    · exact iff_of_false (not_not.mpr hg) fun hd => hd.not_gap (sinceCall_sorted hmono) hg

/-- An SDK that has just been started. -/
def freshWorld : World where
  sdk :=
    { accurate := false, config := ⟨[], 0, 0⟩, conns := fun _ => none, nextConn := 0, connMap := fun _ => none
      avalTraffic := 0, rptTraffCost := 0, epoll := fun _ => none, errno := 0, mem := fun _ => 0
      writes := [], dials := [], log := [] }

theorem freshWorld_open : freshWorld.Open none :=
  ⟨fun _ _ h => (nomatch h), fun _ h => (nomatch h), rfl⟩

/-- A connection four seconds after the call opens the window for one at eight seconds. -/
theorem accept_window_slides :
    Taken freshWorld [.connectable ⟨0, 0⟩ [], .incoming 7 ⟨4, 0⟩ []] 8 ⟨8, 0⟩ [] ∧
      ¬ Documented [.connectable ⟨0, 0⟩ [], .incoming 7 ⟨4, 0⟩ []] (Timeval.micros ⟨8, 0⟩) := by
  rw [taken_iff freshWorld_open (by decide) [] (by decide)]
  constructor
  · simp [Gap, sinceCall, WindowEvent.since, Timeval.micros, Close, windowMicros]
  · simp [Documented, sinceCall, WindowEvent.since, Timeval.micros, windowMicros]

/-- The theorem on a connection nine seconds after the call: it is refused, as documented. -/
theorem accept_window_iff_late :
    Taken freshWorld [.connectable ⟨0, 0⟩ []] 7 ⟨9, 0⟩ [] ↔
      Documented [.connectable ⟨0, 0⟩ []] (Timeval.micros ⟨9, 0⟩) :=
  (accept_window_iff rfl freshWorld_open.1 freshWorld_open.2.1 [.connectable ⟨0, 0⟩ []] 7 (by decide)
    ⟨9, 0⟩ [] (by decide)).mpr (.inr (by simp [Gap, sinceCall, WindowEvent.since, Timeval.micros, Close, windowMicros]))

end HttpsTunnel.Sdk

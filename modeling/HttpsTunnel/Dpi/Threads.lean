import HttpsTunnel.Dpi.Manager

/-! # The two threads of the DPI on one entry

`OnTrafficReport` runs in the thread of `pcap_run`, `OnTrafficReportReply` and `OnUserLogin` in
that of `dpi_run`, and both work on one `IpUserTraffic` without a mutex.  Here every access to a
`volatile` field, every `atomic_cas` and every send is one step of its thread, and the steps of
the two threads mix in any order.  A loop that repeats a failed CAS of `fins` or `reporting` is
the step of its successful round.  The recorder answers a report at most once.

`atomic_cas(&dbu->traffic, dbu->traffic, dbu->traffic + traffic)` reads the counter twice, in an
order that C++ leaves open. -/

namespace HttpsTunnel.Dpi.Threads

open HttpsTunnel.Wire

/-- Where the capture thread is in `OnTrafficReport`, with its locals. -/
inductive Pcap where
  | idle
  | orFins (n f : ℕ)
  | storeFins (n v : ℕ)
  | testFins (n : ℕ)
  | loop (n : ℕ) (fin : Bool)
  | full (n : ℕ)
  | user (n : ℕ)
  | claim (n : ℕ)
  | take (n : ℕ)
  | reset (n : ℕ) (r : ℤ)
  | clear (r : ℤ)
  | send (r : ℤ)
  | read (n : ℕ) (fin : Bool)
  | reread (n : ℕ) (fin : Bool) (v : ℤ)
  | cas (n : ℕ) (fin : Bool) (old new : ℤ)
deriving DecidableEq

/-- Where the main thread is in `OnTrafficReportReply`. -/
inductive Main where
  | idle | loop | full | fins | take
  | cas (t : ℤ)
  | clear (r : ℤ)
  | send (r : ℤ)
  | release
deriving DecidableEq

/-- The entry of the address `ip` and its threads.  `inFlight` reports wait for the reply; `counted` are the bytes of
the packets counted. -/
structure World where
  ip : ℕ
  clock : Clock := {}
  e : IpUserTraffic := {}
  pcap : Pcap := .idle
  main : Main := .idle
  reports : List TrafficReport := []
  inFlight : ℕ := 0
  counted : ℤ := 0

namespace World

/-- A report of `r` bytes goes to the recorder. -/
def sent (w : World) (r : ℤ) : World :=
  { w with reports := w.e.report w.ip r w.clock :: w.reports, inFlight := w.inFlight + 1 }

/-- `first`: the comparand of the CAS is read before the sum. -/
def pcapStep (first : Bool) (w : World) : World :=
  match w.pcap with
  | .idle => w
  | .orFins n f => { w with pcap := .storeFins n (w.e.fins ||| f) }
  | .storeFins n v => { w with e.fins := v, pcap := .testFins n }
  | .testFins n => { w with pcap := .loop n (decide (w.e.fins ≥ finTypeC ||| finTypeS)) }
  | .loop n fin => { w with pcap := if fin ∧ w.e.reporting = false then .full n else .read n fin }
  | .full n => { w with pcap := if w.e.traffic > 256 then .user n else .read n true }
  | .user n => { w with pcap := if w.e.mobile = 0 then .idle else .claim n }
  | .claim n =>
      if w.e.reporting then { w with pcap := .loop n true }
      else { w with e.reporting := true, pcap := .take n }
  | .take n => { w with pcap := .reset n (w.e.traffic + n + minAckLen) }
  | .reset n r => { w with e.traffic := -minAckLen, pcap := .clear r, counted := w.counted + n }
  | .clear r => { w with e.fins := 0, pcap := .send r }
  | .send r => { w.sent r with pcap := .idle }
  | .read n fin => { w with pcap := .reread n fin w.e.traffic }
  | .reread n fin v =>
      let (old, m) := if first then (v, w.e.traffic) else (w.e.traffic, v)
      { w with pcap := .cas n fin old (wrapI32 (m + n)) }
  | .cas n fin old new =>
      if w.e.traffic = old then
        { w with e.traffic := new, pcap := .idle, counted := w.counted + n }
      else { w with pcap := .loop n fin }

def mainStep (w : World) : World :=
  match w.main with
  | .idle => w
  | .loop => { w with main := if w.e.reporting then .full else .idle }
  | .full => { w with main := if w.e.traffic > 256 then .fins else .release }
  | .fins =>
      { w with main := if w.e.fins &&& (finTypeC ||| finTypeS) ≠ 0 then .take else .release }
  | .take => { w with main := .cas w.e.traffic }
  | .cas t =>
      if w.e.traffic = t then
        { w with e.traffic := -minAckLen, main := .clear (wrapI32 (t + minAckLen)) }
      else { w with main := .loop }
  | .clear r => { w with e.fins := 0, main := .send r }
  | .send r => { w.sent r with main := .idle }
  | .release => if w.e.reporting then { w with e.reporting := false, main := .idle } else w

end World

/-- Time passes, a packet or a message reaches its thread, or a thread takes a step. -/
inductive Label where
  | clock (t : Clock)
  | packet (n f : ℕ)
  | reply
  | login (u : SynUserTuple)
  | pcap
  | main

def World.step (first : Bool) (w : World) : Label → World
  | .clock t => { w with clock := t }
  | .packet n f => if w.pcap = .idle then { w with pcap := .orFins n f } else w
  | .reply =>
      if w.main = .idle ∧ 0 < w.inFlight then
        { w with main := .loop, inFlight := w.inFlight - 1 }
      else w
  | .login u => if w.main = .idle then { w with e := w.e.onUserLogin u } else w
  | .pcap => w.pcapStep first
  | .main => w.mainStep

def run (first : Bool) (ip : ℕ) (ls : List Label) : World := ls.foldl (World.step first) { ip := ip }

/-! ### What every step keeps -/

/-- The thread is between claiming the report and the end of the send. -/
def Pcap.owns : Pcap → ℕ
  | take _ | reset _ _ | clear _ | send _ => 1
  | _ => 0

def Main.owns : Main → ℕ
  | idle => 0
  | _ => 1

/-- A report taken from the counter and not sent yet. -/
def Pcap.held : Pcap → ℤ
  | clear r | send r => r
  | _ => 0

def Main.held : Main → ℤ
  | clear r | send r => r
  | _ => 0

namespace World

/-- At most one report is being made or waits for its reply, and `reporting` tells. -/
def Locked (w : World) : Prop :=
  w.pcap.owns + w.inFlight + w.main.owns = if w.e.reporting then 1 else 0

/-- Every byte counted is in the counter, in the hands of a thread or in a report. -/
def Conserved (w : World) : Prop :=
  ((w.reports.map (·.traffic)).sum : ℤ) + w.pcap.held + w.main.held + w.e.traffic ≡ w.counted [ZMOD 2 ^ 32]

/-- What the capture thread knows of the counter.  While it adds, the main thread can only reset
the counter, which then differs from the comparand. -/
def Known (w : World) : Prop :=
  match w.pcap with
  | .reset n r => r = w.e.traffic + n + minAckLen
  | .reread _ _ v => w.e.traffic = v ∨ w.e.traffic = -minAckLen ∧ v ≠ -minAckLen
  | .cas n _ old new =>
      w.e.traffic = old ∧ new = wrapI32 (old + n) ∨ w.e.traffic = -minAckLen ∧ old ≠ -minAckLen
  | _ => True

variable {first : Bool} {w : World}

theorem Locked.step (h : w.Locked) (l : Label) : (w.step first l).Locked := by
  unfold Locked at *
  cases l with
  | clock t => exact h
  | packet n f => grind [World.step, Pcap.owns]
  | reply => grind [World.step, Main.owns]
  | login u => grind [World.step, IpUserTraffic.onUserLogin]
  | pcap => grind [World.step, pcapStep, World.sent, Pcap.owns]
  | main => grind [World.step, mainStep, World.sent, Main.owns]

theorem Known.step (hl : w.Locked) (h : w.Known) (l : Label) : (w.step true l).Known := by
  unfold Locked Known at *
  cases l with
  | clock t => exact h
  | packet n f => grind [World.step]
  | reply => grind [World.step]
  | login u => grind [World.step, IpUserTraffic.onUserLogin]
  | pcap => grind [World.step, pcapStep, World.sent]
  | main => grind [World.step, mainStep, World.sent, Main.owns, Pcap.owns]

theorem wrapI32_modEq (z : ℤ) : wrapI32 z ≡ z [ZMOD 2 ^ 32] := Int.bmod_emod

theorem toU64_modEq (z : ℤ) : (toU64 z : ℤ) ≡ z [ZMOD 2 ^ 32] := by
  unfold toU64 Int.ModEq
  omega

theorem Conserved.step (hk : w.Known) (h : w.Conserved) (l : Label) :
    (w.step true l).Conserved := by
  unfold Known Conserved Int.ModEq at *
  cases l with
  | clock t => exact h
  | packet n f => grind [World.step, Pcap.held]
  | reply => grind [World.step, Main.held]
  | login u => grind [World.step, IpUserTraffic.onUserLogin]
  | pcap =>
      grind [World.step, pcapStep, World.sent, IpUserTraffic.report, Pcap.held, wrapI32_modEq, toU64_modEq, Int.ModEq]
  | main =>
      grind [World.step, mainStep, World.sent, IpUserTraffic.report, Main.held, wrapI32_modEq, toU64_modEq, Int.ModEq]

end World

theorem run_invariant {first : Bool} {P : World → Prop} (ip : ℕ) (h₀ : P { ip := ip })
    (hs : ∀ w l, P w → P (w.step first l)) (ls : List Label) : P (run first ip ls) := by
  induction ls using List.reverseRecOn with
  | nil => exact h₀
  | append_singleton ls l ih => simpa [run] using hs _ l ih

/-! ### Interleavings -/

/-- **`reporting` is a lock**, whatever the order of the reads. -/
theorem reporting_locks (first : Bool) (ip : ℕ) (ls : List Label) : (run first ip ls).Locked :=
  run_invariant (P := World.Locked) ip rfl (fun _ l h => h.step l) ls

/-- With the sum read first: a reply is handled between the two reads for a packet of 7 bytes, and
what it reported is counted again. -/
def race : List Label :=
  List.flatten [[.login ⟨1, 1, 0, 0⟩, .packet 300 4], .replicate 8 .pcap, [.packet 300 4],
    .replicate 11 .pcap, [.packet 300 1], .replicate 7 .pcap, [.packet 7 1], .replicate 5 .pcap,
    [.reply], .replicate 7 .main, .replicate 2 .pcap]

/-- **No interleaving loses bytes or reports them twice exactly if the comparand is read
first.** -/
theorem conserved_iff (first : Bool) : (∀ ip ls, (run first ip ls).Conserved) ↔ first = true := by
  constructor
  · intro h
    cases first with
    | false =>
        have hr := h 7 race
        revert hr
        unfold World.Conserved
        decide +kernel
    | true => rfl
  · rintro rfl ip ls
    have hall := run_invariant (P := fun w => w.Locked ∧ w.Known ∧ w.Conserved)
      ip ⟨rfl, trivial, .rfl⟩ (fun w l h => ⟨h.1.step l, h.2.1.step h.1 l, h.2.2.step h.2.1 l⟩) ls
    exact hall.2.2

/-- The call `l` and the steps `s` of its thread. -/
def World.alone (first : Bool) (w : World) (l s : Label) : World :=
  (l :: List.replicate 11 s).foldl (World.step first) w

/-- The call is over, with the result `r`. -/
def World.Over (w w' : World) (r : IpUserTraffic × Option TrafficReport) : Prop :=
  w'.pcap = .idle ∧ w'.main = .idle ∧ w'.e = r.1 ∧
    w'.reports = r.2.toList ++ w.reports

/-- **A call that is not interrupted is the one step the manager makes of it**: the entry and the report, if there is
one, are those of the manager. -/
theorem alone_eq (first : Bool) (ip : ℕ) (t : Clock) (e : IpUserTraffic) (rs : List TrafficReport) (k : ℕ) (c : ℤ)
    (n f : ℕ) :
    let w : World := ⟨ip, t, e, .idle, .idle, rs, k + 1, c⟩
    w.Over (w.alone first (.packet n f) .pcap) (e.onTrafficReport ip n f t) ∧
      w.Over (w.alone first .reply .main) (e.onTrafficReportReply ip t) := by
  obtain ⟨a, q, g, d, b, x⟩ := e
  constructor
  · by_cases hf : g ||| f ≥ finTypeC ||| finTypeS <;> by_cases hd : d > 256 <;>
      by_cases hb : b = 0 <;> cases q <;>
      simp [World.alone, World.Over, List.replicate, World.step, World.pcapStep, World.sent,
        IpUserTraffic.onTrafficReport, IpUserTraffic.report, hf, hd, hb]
  · by_cases hf : g &&& (finTypeC ||| finTypeS) = 0 <;> by_cases hd : d > 256 <;> cases q <;>
      simp [World.alone, World.Over, List.replicate, World.step, World.mainStep, World.sent,
        IpUserTraffic.onTrafficReportReply, IpUserTraffic.report, hf, hd]

end HttpsTunnel.Dpi.Threads

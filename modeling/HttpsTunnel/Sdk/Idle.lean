import HttpsTunnel.Sdk.Batch
import HttpsTunnel.Sdk.Counters

/-! # Closing idle connections

`CRBScan` takes a browser for idle when its `http_transmit_len` is what its block remembers.  The bytes
that are relayed are counted for the tunnel, or not at all; of a browser only the answer to a `CONNECT` is
counted.  So a browser may be closed while it transmits (`idle_closesActive`).

If, before each call, the counters of the browsers for which it can relay bytes are not what their blocks remember
(`Call.Shows`), the scan closes only browsers for which nothing was relayed since their block was last looked at
(`idle_closed`).  The invariant says for each block what its counter is good for (`World.Vouches`). -/

namespace HttpsTunnel.Sdk

open HttpsTunnel.Lib HttpsTunnel.Wire

/-! ### What is recorded -/

/-- The position and the time from which on a block waits for the descriptor. -/
def Note.watch (fd : ℕ) : Note → Option (ℕ × Timeval)
  | watched fd' pos tv => if fd' = fd then some (pos, tv) else none
  | closed _ _ _ _ => none

/-- The last of them. -/
def lastWatch (fd : ℕ) (notes : List Note) : Option (ℕ × Timeval) := (notes.filterMap (Note.watch fd)).getLast?

theorem lastWatch_watched (fd pos : ℕ) (tv : Timeval) (notes : List Note) :
    lastWatch fd (notes ++ [.watched fd pos tv]) = some (pos, tv) := by
  simp [lastWatch, Note.watch]

theorem lastWatch_other {fd : ℕ} {o : Note} (ho : o.watch fd = none) (notes : List Note) :
    lastWatch fd (notes ++ [o]) = lastWatch fd notes := by
  simp [lastWatch, ho]

/-- A browser that was closed was idle: nothing was relayed since its block was last looked at, and that was
more than 12 seconds ago. -/
def Note.Idle (log : List Obs) (notes : List Note) : Note → Prop
  | watched _ _ _ => True
  | closed fd p pos now => pos ≤ log.length ∧ ∃ pos₀ tv, lastWatch fd notes = some (pos₀, tv) ∧
      tv.sec + Expire_Seconds < now.sec ∧ ∀ o ∈ (log.take pos).drop pos₀, ¬ o.Relays p

/-- Every browser that was closed was idle. -/
def World.ClosesIdle (w : World) : Prop :=
  ∀ notes o rest, w.record = notes ++ o :: rest → o.Idle w.sdk.log notes

theorem Note.Idle.mono {log log' : List Obs} {notes : List Note} {o : Note} (h : o.Idle log notes)
    (hlog : log <+: log') : o.Idle log' notes := by
  cases o with
  | watched => trivial
  | closed fd p pos now =>
      obtain ⟨hpos, h⟩ := h
      obtain ⟨l, rfl⟩ := hlog
      refine ⟨hpos.trans (by simp), ?_⟩
      rwa [List.take_append_of_le_length hpos]

/-! ### The invariant -/

/-- If the counter is still what block `k` remembers, nothing was relayed since the block was last looked at. -/
def World.Vouches (w : World) (k : Block) : Prop :=
  ∀ p ∈ k.conn, ∃ pos, lastWatch k.fd w.record = some (pos, k.tv) ∧ pos ≤ w.sdk.log.length ∧
    (w.sdk.transmitLen p = some k.traffic → ∀ o ∈ w.sdk.log.drop pos, ¬ o.Relays p)

structure World.Idling (w : World) : Prop where
  blocks : ∀ e ∈ w.expireList, w.Vouches (w.blocks e.2)
  closed : w.ClosesIdle

section Invariant

variable {w w' : World} {k : Block}

/-- Nothing that matters for the block happens. -/
theorem World.Vouches.of_quiet {l : List Obs} (h : w.Vouches k) (hlog : w'.sdk.log = w.sdk.log ++ l)
    (hwatch : lastWatch k.fd w'.record = lastWatch k.fd w.record)
    (hquiet : ∀ p ∈ k.conn, w'.sdk.transmitLen p = some k.traffic →
      w.sdk.transmitLen p = some k.traffic ∧ ∀ o ∈ l, ¬ o.Relays p) : w'.Vouches k := by
  intro p hp
  obtain ⟨pos, hlast, hpos, hno⟩ := h p hp
  refine ⟨pos, hwatch.trans hlast, ?_, fun hlen o ho => ?_⟩
  · rw [hlog, List.length_append]
    exact Nat.le_add_right_of_le hpos
  · rw [hlog, List.drop_append_of_le_length hpos] at ho
    obtain ⟨hlen, hl⟩ := hquiet p hp hlen
    exact (List.mem_append.mp ho).elim (hno hlen o) (hl o)

/-- A block that has just been looked at. -/
theorem World.vouches_watched (notes : List Note) (hrec : w.record = notes ++ [.watched k.fd w.sdk.log.length k.tv]) :
    w.Vouches k := by
  refine fun p _ => ⟨w.sdk.log.length, ?_, le_rfl, fun _ o ho => ?_⟩
  · rw [hrec]
    exact lastWatch_watched _ _ _ _
  · simp at ho

theorem World.ClosesIdle.same (h : w.ClosesIdle) (hrec : w'.record = w.record) (hlog : w.sdk.log <+: w'.sdk.log) :
    w'.ClosesIdle := fun notes o rest heq => (h notes o rest (hrec ▸ heq)).mono hlog

/-- A new entry of the record. -/
theorem World.ClosesIdle.noted {o : Note} (h : w.ClosesIdle) (hrec : w'.record = w.record ++ [o])
    (hlog : w.sdk.log <+: w'.sdk.log) (ho : o.Idle w.sdk.log w.record) : w'.ClosesIdle := by
  intro notes o' rest heq
  rw [hrec] at heq
  rcases List.eq_nil_or_concat rest with rfl | ⟨rest', last, rfl⟩
  · obtain ⟨rfl, ho'⟩ := List.append_inj' heq rfl
    rw [← List.singleton_inj.mp ho']
    exact ho.mono hlog
  · rw [List.concat_eq_append, ← List.cons_append, ← List.append_assoc] at heq
    obtain ⟨heq, -⟩ := List.append_inj' heq rfl
    exact (h notes o' rest' heq).mono hlog

/-- The clock is not looked at. -/
theorem World.Idling.clocked (h : w.Idling) (ts : List Timeval) (z : ℤ) : (w.clocked ts z).Idling :=
  ⟨h.blocks, h.closed⟩

/-- A browser is accepted. -/
theorem World.Idling.accepted (h : w.Idling) (hs : w.Sound) {fd : ℕ} (hfd : w.sdk.connMap fd = none) :
    (w.accepted fd).Idling := by
  obtain ⟨-, -, hsame⟩ := hs.nodeAdded_blocks
  have hlist : (w.accepted fd).expireList = w.expireList ++ [(w.nextNode, w.freeBlock)] := rfl
  have hrec : (w.accepted fd).record = w.record ++ [.watched fd w.sdk.log.length (w.times.headD ⟨0, 0⟩)] := rfl
  refine ⟨fun e he => ?_, h.closed.noted hrec List.prefix_rfl trivial⟩
  rw [hlist, List.mem_append, List.mem_singleton] at he
  rcases he with he | rfl
  · obtain ⟨hne, hblock⟩ := hsame e he
    have hblock' : (w.accepted fd).blocks e.2 = w.blocks e.2 := (Function.update_of_ne hne _ _).trans hblock
    obtain ⟨p, c, hh⟩ := hs.holds_of_mem (n := e.1) (b := e.2) he
    have hother : fd ≠ (w.blocks e.2).fd := by
      rintro rfl
      cases hfd.symm.trans (hh.fd ▸ hs.listed hh.conn)
    rw [hblock']
    refine (h.blocks e he).of_quiet (l := []) (List.append_nil _).symm ?_ fun q hq hlen => ⟨?_, by simp⟩
    · rw [hrec]
      exact lastWatch_other (by simp [Note.watch, hother]) _
    · obtain rfl : p = q := Option.mem_unique hh.back hq
      rwa [State.transmitLen, show (w.accepted fd).sdk.conns p = w.sdk.conns p from State.setConn_ne _ _ ?_] at hlen
      rintro rfl
      cases (hs.unused _ le_rfl).symm.trans hh.conn
  · have hnew : ((w.accepted fd).blocks w.freeBlock).fd = fd ∧
        ((w.accepted fd).blocks w.freeBlock).tv = w.times.headD ⟨0, 0⟩ := by
      refine ⟨?_, ?_⟩ <;> exact congrArg _ (Function.update_self _ _ _)
    refine World.vouches_watched w.record ?_
    rw [hnew.1, hnew.2]
    exact hrec

/-- A browser is removed with its tunnel. -/
theorem World.Idling.removed {b : Ptr} {c : Connect} {n : ℕ} {j : BlockPtr} (h : w.Idling) (hs : w.Sound)
    (hh : w.Holds b c n j) (hr : w.Removed b c n j w') : w'.Idling := by
  obtain ⟨l, hl, hshut⟩ := hr.log
  refine ⟨fun e he => ?_, h.closed.same hr.record ⟨l, hl.symm⟩⟩
  rw [hr.expireList, List.mem_filter] at he
  obtain ⟨he, hne⟩ := he
  have hne : e.1 ≠ n := by simpa using hne
  rw [hr.blocks, Function.update_of_ne (World.Removed.block_ne hs hh he hne)]
  obtain ⟨p, d, hpd⟩ := hs.holds_of_mem (n := e.1) (b := e.2) he
  refine (h.blocks e he).of_quiet hl (by rw [hr.record]) fun q hq hlen => ⟨?_, fun o ho => ?_⟩
  · obtain rfl : p = q := Option.mem_unique hpd.back hq
    rwa [State.transmitLen, hr.kept] at hlen
    rintro (rfl | hpeer)
    · exact hne (Option.mem_unique hpd.iter hh.iter)
    · obtain ⟨d', hd', -, hkind⟩ := hs.peer hh.conn hpeer
      obtain rfl : d = d' := Option.mem_unique hpd.conn hd'
      exact hkind.mp hpd.type hh.type
  · obtain ⟨q', rfl⟩ := hshut o ho
    exact id

/-- **A step of the scan.**  The browser it closes is one whose counter is what the block remembers. -/
theorem World.Idling.scanStep {now : Timeval} (h : w.Idling) (hs : w.Sound) (hstep : w.ScanStep now w') :
    w'.Idling := by
  cases hstep with
  | @close p c n b hh hexp hidle hr =>
      have hlen : w.sdk.transmitLen p = some (w.blocks b).traffic := by
        rw [State.transmitLen, hh.conn, hidle]
        rfl
      obtain ⟨pos, hlast, -, hno⟩ := h.blocks _ hh.mem p hh.back
      have hsame := w.same_noted (.closed (w.blocks b).fd p w.sdk.log.length now)
      have h₁ : (w.noted (.closed (w.blocks b).fd p w.sdk.log.length now)).Idling := by
        refine ⟨fun e he => ?_, h.closed.noted rfl List.prefix_rfl ⟨le_rfl, pos, _, hlast, hexp, ?_⟩⟩
        · exact (h.blocks e he).of_quiet (l := []) (List.append_nil _).symm (lastWatch_other rfl _)
            fun q _ hq => ⟨hq, by simp⟩
        · rw [List.take_length]
          exact hno hlen
      exact h₁.removed (hsame.sound hs rfl) (hsame.holds hh.conn hh rfl rfl) hr
  | @delay p c n b hh hexp hne honly heq =>
      subst heq
      generalize hw₁ : w.remembering b c.httpTransmitLen = w₁
      have hsame := w.same_remembering b c.httpTransmitLen
      rw [hw₁] at hsame
      have hrec : w₁.record = w.record ∧ w₁.sdk = w.sdk ∧ w₁.expireList = w.expireList := by
        subst hw₁
        exact ⟨rfl, rfl, rfl⟩
      have hs₁ : w₁.Sound := hsame.sound hs hrec.2.1
      have hh₁ : w₁.Holds p c n b := hsame.holds (hrec.2.1 ▸ hh.conn) hh rfl rfl
      obtain ⟨-, -, hfree⟩ := hs₁.nodeAdded_blocks
      obtain ⟨hlist, -⟩ := delayed_only (p := p) hs₁.numbered (hrec.2.2.trans honly)
      have hnew : (w₁.delayed n b p).blocks w₁.freeBlock = { w₁.blocks b with tv := w₁.times.headD ⟨0, 0⟩ } := by
        simp [World.delayed, (hfree _ hh₁.mem).1.symm]
      refine ⟨fun e he => ?_, ?_⟩
      · rw [hlist, List.mem_singleton] at he
        rw [he, hnew]
        exact World.vouches_watched w₁.record rfl
      · refine h.closed.noted (o := .watched (w₁.blocks b).fd w₁.sdk.log.length (w₁.times.headD ⟨0, 0⟩)) ?_ ?_ trivial
        · rw [← hrec.1]
          rfl
        · rw [← hrec.2.1]
          exact List.prefix_rfl

theorem World.Idling.scans {now : Timeval} (h : w.Idling) (hs : w.Sound) (hscan : w.Scans now w') : w'.Idling := by
  induction hscan with
  | refl => exact h
  | tail hscan hstep ih => exact ih.scanStep (World.Scans.sound hscan hs) hstep

end Invariant

/-! ### Calls -/

/-- The counter of `p` is not what its block remembers. -/
def World.Marked (w : World) (p : Ptr) : Prop :=
  ∀ e ∈ w.expireList, (w.blocks e.2).conn = some p → w.sdk.transmitLen p ≠ some (w.blocks e.2).traffic

/-- The browser of a tunnel `c` before an event with the readings `rs`: if the tunnel passes something on, the
counter of the browser is not what its block remembers, and if the browser can be told that its `CONNECT` succeeded, it
takes the whole reply, which does not bring the counter there. -/
def World.TellsWell (w : World) (c : Connect) (rs : List Reading) (writes : List WriteRes) : Prop :=
  ∀ q ∈ c.peer, ∀ d ∈ w.sdk.conns q, ((∃ r ∈ rs, Hands d.httpVersion r) → w.Marked q) ∧
    (c.dec.cstate ≠ .forward ∧ d.httpVersion = .https → writes = [] ∧ ∀ e ∈ w.expireList,
      (w.blocks e.2).conn = some q → toU64 (d.httpTransmitLen + connectReplyOK.length) = (w.blocks e.2).traffic →
        d.httpTransmitLen = (w.blocks e.2).traffic)

/-- Before a call: where it can relay bytes for a browser, the counter is not what the block remembers. -/
def Call.Shows (w : World) : Call → Prop
  | recv fd k => ∀ p ∈ (w.sdk.connMap fd).join, ∀ c ∈ w.sdk.conns p,
      if c.type = .proxy then (∃ d ∈ w.sdk.peerOf p, d.verified = true) → w.Marked p
      else w.TellsWell c ((recv fd k).readings w) k.writes
  | writable fd _ => ∀ p ∈ (w.sdk.connMap fd).join, (∃ d ∈ w.sdk.peerOf p, d.status = .hangup) → w.Marked p
  | accept _ _ | register _ | remove _ | scan _ | login _ _ | loginEnd _ => True

/-- From `w` to `s'`: a browser whose counter is what its block remembers had it before, and nothing has been relayed
for it. -/
def World.Shows (w : World) (s' : State) : Prop :=
  ∀ e ∈ w.expireList, ∀ p ∈ (w.blocks e.2).conn, s'.transmitLen p = some (w.blocks e.2).traffic →
    w.sdk.transmitLen p = some (w.blocks e.2).traffic ∧ Silent p w.sdk s'

section Calls

variable {w w' : World} {s' : State}

theorem World.Idling.beside (h : w.Idling) (hb : w.Beside w') (hshow : w.Shows w'.sdk) : w'.Idling := by
  refine ⟨fun e he => ?_, h.closed.same hb.record hb.log⟩
  rw [hb.expireList] at he
  obtain ⟨l, hl⟩ := hb.log
  rw [hb.blocks]
  refine (h.blocks e he).of_quiet hl.symm (by rw [hb.record]) fun p hp hlen => ?_
  obtain ⟨hlen', l', hl', hno⟩ := hshow e he p hp hlen
  exact ⟨hlen', List.append_cancel_left (hl'.symm.trans hl.symm) ▸ hno⟩

theorem World.Idling.sdk (h : w.Idling) (hlog : w.sdk.log <+: s'.log) (hshow : w.Shows s') (ls : List Ptr) :
    World.Idling { w with sdk := s', logins := ls } := h.beside ⟨rfl, rfl, rfl, hlog⟩ hshow

/-- It is enough to look at each browser. -/
theorem World.Sound.shows (hs : w.Sound)
    (h : ∀ b d, w.sdk.Browser b d → (Silent b w.sdk s' ∨ w.Marked b) ∧
      ∀ e ∈ w.expireList, (w.blocks e.2).conn = some b → s'.transmitLen b = some (w.blocks e.2).traffic →
        w.sdk.transmitLen b = some (w.blocks e.2).traffic) : w.Shows s' := by
  intro e he p hp hlen
  obtain ⟨b, d, hh⟩ := hs.holds_of_mem (n := e.1) (b := e.2) he
  obtain rfl : b = p := Option.mem_unique hh.back hp
  obtain ⟨hor, hback⟩ := h b d ⟨hh.conn, hh.type⟩
  have hlen' := hback e he hp hlen
  exact ⟨hlen', hor.resolve_right fun hm => hm e he hp hlen'⟩

/-- Nothing is counted for a browser, and bytes are relayed at most for `p`. -/
theorem World.Sound.shows_of {p : Ptr} {B : Prop} (hs : w.Sound) (hm : B → w.Marked p)
    (h : ∀ b d, w.sdk.Browser b d → Stays b w.sdk s' ∧ (b ≠ p ∨ ¬ B → Silent b w.sdk s')) : w.Shows s' := by
  refine hs.shows fun b d hb => ⟨?_, fun e _ _ hlen => (h b d hb).1 _ hlen⟩
  by_cases hor : b ≠ p ∨ ¬ B
  · exact .inl ((h b d hb).2 hor)
  · obtain ⟨hbp, hB⟩ := not_or.mp hor
    exact .inr (not_not.mp hbp ▸ hm (not_not.mp hB))

/-- An event on a tunnel. -/
theorem World.Sound.shows_tells {p : Ptr} {c : Connect} {k : Answers} {rs : List Reading} (hs : w.Sound)
    (hp : w.sdk.Tunnel p c) (hshow : w.TellsWell c rs k.writes)
    (h : ∀ B : Prop, (∀ r ∈ rs, (Hands .https r → B) ∧ ∀ q d, w.sdk.Peers p q → w.sdk.Browser q d →
      Hands d.httpVersion r → B) → Tells p B { w.sdk with writes := k.writes, dials := [k.dial] } s') :
    w.Shows s' := by
  refine hs.shows fun b d hb => ?_
  have hpeer : ∀ {q}, w.sdk.Peers p q → c.peer = some q := by
    rintro q ⟨c₁, hc₁, hq⟩
    exact Option.mem_unique hp.1 hc₁ ▸ hq
  have ht := h (w.sdk.Peers p b → ∃ r ∈ rs, Hands d.httpVersion r) fun r hr => by
    refine ⟨fun hh _ => ⟨r, hr, hh.1, hh.2.imp_right fun hm => by cases hm.2⟩, fun q d' hq hd' hh hb' => ⟨r, hr, ?_⟩⟩
    obtain rfl : q = b := Option.mem_unique (hpeer hq) (hpeer hb')
    exact Option.mem_unique hd'.1 hb.1 ▸ hh
  refine ⟨?_, fun e he hbe hlen => ?_⟩
  · by_cases hm : w.sdk.Peers p b ∧ ∃ r ∈ rs, Hands d.httpVersion r
    · exact .inr ((hshow b (hpeer hm.1) d hb.1).1 hm.2)
    · obtain ⟨l, hl, hno⟩ := ht.log
      refine .inl ⟨l, hl, fun o ho hrel => ?_⟩
      rcases hno o ho b hrel with rfl | ⟨hB, hpb⟩
      · exact hb.not_tunnel hp
      · exact hm ⟨hpb, hB hpb⟩
  · obtain ⟨d', hd', -, hor⟩ := ht.browser hb
    rw [State.transmitLen, hd', Option.map_some, Option.some.injEq] at hlen
    rw [State.transmitLen, hb.1, Option.map_some, Option.some.injEq]
    rcases hor with heq | ⟨-, ⟨hnf, hpb, hver⟩, n, hn, heq⟩
    · exact heq.symm.trans hlen
    · obtain ⟨hw, hback⟩ := (hshow b (hpeer hpb) d hb.1).2 ⟨fun hf => hnf ⟨c, hp.1, hf⟩, hver⟩
      exact hback e he hbe (hn hw ▸ heq.symm.trans hlen)

theorem Steps.log {p : Ptr} {b : Bool} {s : State} (h : Steps p b s s') : s.log <+: s'.log := by
  induction h with
  | refl => exact List.prefix_rfl
  | tail _ h ih => exact ih.trans h.log

theorem World.Orderly.recv_idling (h : w.Orderly) (hi : w.Idling) {fd : ℕ} {k : Answers}
    (hshow : (Call.recv fd k).Shows w) : wlp (Call.recv fd k).exec (fun _ w' => w'.Idling) w := by
  simp only [Call.exec, Call.answering, wlp, wpe_bind, wpe_modify, wpe_onSdk]
  cases he : w.sdk.connMap fd with
  | none =>
      simp only [handleRecvEvent, wpe_bind, wpe_get, he, wpe_pure]
      have hlog : w.sdk.log <+: { w.sdk with writes := k.writes, dials := [k.dial] : State }.log := List.prefix_rfl
      exact hi.sdk hlog (fun e _ p _ hlen => ⟨hlen, .refl p _⟩) w.logins
  | some e =>
      obtain ⟨p, c, rfl, hp, -⟩ := h.sound.entry he
      have hlinked := (h.answering k).sound.linked
      simp only [Call.Shows, he, Option.join_some, Option.mem_def, Option.some.injEq, forall_eq', hp] at hshow
      split_ifs at hshow with hty
      · simp only [handleRecvEvent, wpe_bind, wpe_get, he, wpe_deref, hp, found_iff, if_pos hty]
        refine wpe_mono (proxyRecvEvent_acts hlinked ⟨hp, hty⟩ k.reads) (fun _ s' hsteps => ?_) fun _ _ => trivial
        have hlog := Steps.log hsteps
        refine hi.sdk hlog (h.sound.shows_of hshow fun b d hb => ?_) w.logins
        obtain ⟨hst, hsi⟩ := Steps.rests hsteps (c := c) ⟨hp, hty⟩ hlinked hb
        refine ⟨hst, fun hor => hsi (hor.imp_right fun hno d hd => ?_)⟩
        exact Bool.eq_false_iff.mpr fun hv => hno ⟨d, hd, hv⟩
      · refine (wlp_iff _ _ _).mpr fun a s' hrun => ?_
        have ht := fun B hB => (wlp_iff _ _ _).mp (handleRecvEvent_tells (B := B)
          (s := { w.sdk with writes := k.writes, dials := [k.dial] }) ⟨hp, hty⟩ hlinked he k.reads hB) a s' hrun
        obtain ⟨l, hl, -⟩ := (ht True fun _ _ => ⟨fun _ => trivial, fun _ _ _ _ _ => trivial⟩).log
        exact hi.sdk ⟨l, hl.symm⟩ (h.sound.shows_tells ⟨hp, hty⟩ hshow ht) w.logins

theorem World.Orderly.login_idling (h : w.Orderly) (hi : w.Idling) (a : LoginArgs) (k : Answers) :
    wlp (Call.login a k).exec (fun _ w' => w'.Idling) w := by
  simp only [Call.exec, Call.answering, wlp, wpe_bind, wpe_modify, wpe_onSdk]
  refine wpe_mono (yMELoginTms_spec (U := False) a) ?_ fun _ _ => trivial
  rintro (_ | p) s' hs'
  · exact hi.sdk ⟨_, hs'.log.symm⟩ (fun e _ p _ hlen => ⟨Stays.of_keys (hs'.keys_none p) _ hlen, _, hs'.log, by simp⟩)
      w.logins
  · obtain ⟨rfl, fd, rest, s₁, -, he₁, msg, h₂⟩ := hs'
    obtain ⟨l, n, he₂, hno⟩ := h₂.counts
    have hlog : s'.log = w.sdk.log ++ l := by
      rw [he₂.log, he₁.log, List.append_nil]
      rfl
    refine hi.sdk ⟨l, hlog.symm⟩ (h.sound.shows fun b d hb => ?_) _
    have hbn : b ≠ w.sdk.nextConn := by
      rintro rfl
      cases (h.sound.unused _ le_rfl).symm.trans hb.1
    refine ⟨.inl ⟨l, hlog, fun o ho => hno o ho b⟩, fun e _ _ hlen => ?_⟩
    have hkeys := (he₂.keys_ne (by simp [hbn.symm])).trans (he₁.keys_none b)
    exact Stays.of_keys (hkeys.trans (congrArg _ (Function.update_of_ne hbn _ _))) _ hlen

/-- **A call** in a run. -/
theorem Call.run_idling (c : Call) (hc : c.Fair w) (hshow : c.Shows w) (h : w.Orderly) (hi : w.Idling) :
    wlp c.run (fun _ w' => w'.Idling) w := by
  simp only [Call.run, wlp, wpe_bind, wpe_get, wpe_pure]
  cases c with
  | register fd =>
      simp only [Call.exec, wpe_onSdk]
      refine wpe_mono (wp_addEvent _ _ _) (fun _ s' he => ?_) fun _ => False.elim
      exact hi.sdk ⟨_, he.log.symm⟩ (fun e _ p _ hlen => ⟨Stays.of_keys (he.keys_none p) _ hlen, _, he.log, by simp⟩) _
  | recv fd k => exact h.recv_idling hi hshow
  | writable fd k =>
      simp only [Call.exec, Call.answering, wpe_bind, wpe_modify, wpe_onSdk]
      obtain ⟨e, he⟩ := Option.ne_none_iff_exists'.mp hc
      obtain ⟨p, c, rfl, hp, -⟩ := h.sound.entry he
      refine wpe_mono (handleEPOEvent_serves (h.answering k).sound.linked he hp) (fun _ s' hs' => ?_) fun _ _ => trivial
      obtain ⟨l, hl, -⟩ := id hs'
      refine hi.sdk ⟨_, hl.log.symm⟩ (h.sound.shows_of (hshow p (by simp [he])) fun b d hb => ?_) _
      obtain ⟨hst, hsi⟩ := hs'.rests hb
      exact ⟨hst, fun hor => hsi (hor.imp_right fun hno d hd hup => hno ⟨d, hd, hup⟩)⟩
  | login a k => exact h.login_idling hi a k
  | loginEnd p =>
      refine wpe_mono (wpe_and_wlp (wp_loginEnd_orderly h p) (loginEnd_inside (R := Leaves) p w)) ?_ fun _ => False.elim
      exact fun _ w' h' => hi.beside h'.1.2 fun e _ q _ hlen => ⟨h'.2.stays q _ hlen, h'.2.silent q⟩
  | accept newfd ts =>
      simp only [Call.exec, Call.timing, wpe_bind, wpe_modify]
      have hs₁ : World.Sound { w with times := ts } := h.sound.clocked ts w.acceptBeginTime
      have hi₁ : World.Idling { w with times := ts } := hi.clocked ts w.acceptBeginTime
      refine wpe_mono (wp_accept_sound hs₁ hc) ?_ fun _ => False.elim
      rintro - w' ⟨ts', z, rfl | ⟨hpos, rfl⟩⟩
      · exact hi₁.clocked ts' z
      · exact (hi₁.clocked ts' z).accepted (hs₁.clocked ts' z) (hc hpos)
  | remove fd =>
      refine wpe_mono (wp_removeConnect h.sound hc) ?_ fun _ => False.elim
      rintro - w' (rfl | ⟨b, c, n, k, hh, hr⟩)
      · obtain ⟨hconns, -, -, -, hlog⟩ := w.sdk.unregistered_same fd
        refine ⟨fun e he => (hi.blocks e he).of_quiet (l := []) ?_ rfl fun p _ hlen => ⟨?_, by simp⟩, ?_⟩
        · rw [List.append_nil]
          exact hlog
        · rwa [State.transmitLen, hconns] at hlen
        · exact hi.closed.same rfl (hlog ▸ List.prefix_rfl)
      · exact hi.removed h.sound hh hr
  | scan ts =>
      simp only [Call.exec, Call.timing, crbScan, wpe_bind, wpe_modify, wpe_gettimeofday, wpe_get, wpe_pure]
      have hs₁ : World.Sound { w with times := ts.tail } := h.sound.clocked ts.tail w.acceptBeginTime
      have hd : World.DelaysLast { w with times := ts.tail } (ts.headD ⟨0, 0⟩) Expire_Count w.expireList := by
        refine DelaysLast.mono (w := w) ?_ ?_ ?_ hc
        · exact fun _ _ => rfl
        · exact id
        · exact id
      refine wpe_mono (wp_scanFrom Expire_Count hs₁ hd) (fun _ w' hsc => ?_) fun _ => False.elim
      exact (hi.clocked ts.tail w.acceptBeginTime).scans hs₁ hsc

end Calls

/-! ### Runs -/

/-- The calls of an entry of a run are fair and show what they relay. -/
def LoopOp.Shows (w : World) (op : LoopOp) : Prop := op.plan.Guard Call.run (fun w c => c.Fair w ∧ c.Shows w) w

instance (w : World) (p : Ptr) : Decidable (w.Marked p) := inferInstanceAs (Decidable (∀ _ ∈ _, _ → _))

instance (w : World) (c : Connect) (rs : List Reading) (ws : List WriteRes) : Decidable (w.TellsWell c rs ws) :=
  inferInstanceAs (Decidable (∀ q ∈ c.peer, ∀ d ∈ w.sdk.conns q, (_ → _) ∧ (_ → _ ∧ ∀ _ ∈ _, _ → _ → _)))

instance instDecidableCallShows (w : World) : ∀ c : Call, Decidable (c.Shows w)
  | .recv fd k => inferInstanceAs (Decidable (∀ p ∈ (w.sdk.connMap fd).join, ∀ c ∈ w.sdk.conns p,
      if c.type = .proxy then (∃ d ∈ w.sdk.peerOf p, d.verified = true) → w.Marked p
      else w.TellsWell c ((Call.recv fd k).readings w) k.writes))
  | .writable fd _ => inferInstanceAs (Decidable (∀ p ∈ (w.sdk.connMap fd).join,
      (∃ d ∈ w.sdk.peerOf p, d.status = .hangup) → w.Marked p))
  | .accept _ _ | .register _ | .remove _ | .scan _ | .login _ _ | .loginEnd _ => .isTrue trivial

instance instDecidableLoopShows (w : World) (op : LoopOp) : Decidable (op.Shows w) :=
  inferInstanceAs (Decidable (op.plan.Guard Call.run (fun w c => c.Fair w ∧ c.Shows w) w))

/-- **Idle connections.**  In every run from the start whose calls are fair and show what they relay, every browser
that the scan has closed was idle. -/
theorem idle_closed {w : World} (hw : w.Fresh) (hl : w.logins = []) (hr : w.record = []) (ops : List LoopOp)
    (h : Along LoopOp.run LoopOp.Shows ops w) (w' : World) (hrun : runAll LoopOp.run ops w = .ok ((), w')) :
    w'.ClosesIdle := by
  have hstart : w.Orderly ∧ w.Idling :=
    ⟨⟨hw.sound, by simp [hl], by simp [hl]⟩, by simp [hw.expireList], fun _ _ _ heq => by simp [hr] at heq⟩
  have hinv : wlp (runAll LoopOp.run ops) (fun _ w' => w'.Orderly ∧ w'.Idling) w := by
    refine Along.plans (fun w c hc hi => ?_) h hstart
    exact wlp_and (wpe_mono (c.run_orderly hc.1 hi.1) (fun _ _ h' => h') fun _ _ => trivial)
      (c.run_idling hc.1 hc.2 hi.1 hi.2)
  rw [wlp, wpe_of_ok hrun] at hinv
  exact hinv.2.closed

/-- The tunnel with descriptor 6 gets the answer `READY` and three bytes of a page. -/
def pageArrives : List LoopOp :=
  [.event (.conn 6 true false { reads := [.data (frame (LoginRsp.bytes ⟨RespCode.ready.toNat, 5000, 7⟩))] } [] 0 {}),
    .event (.conn 6 true false { reads := [.data [1, 2, 3]] } [] 0 {})]

/-- A browser that is getting its page when the scan comes. -/
def scannedPage : List LoopOp := browserRequests ++ pageArrives ++ [.scan [⟨20, 0⟩]]

/-- It is closed. -/
theorem idle_closesActive : ∃ w', runAll LoopOp.run scannedPage freshWorld = .ok ((), w') ∧ ¬ w'.ClosesIdle := by
  have hrun : (runAll LoopOp.run scannedPage freshWorld).toOption.map (fun r =>
      (r.2.record, decide (∃ o ∈ (r.2.sdk.log.take 7).drop 0, o.Relays 0))) =
        some ([.watched 5 0 ⟨0, 0⟩] ++ [.closed 5 0 7 ⟨20, 0⟩], true) := by
    decide +kernel
  obtain ⟨⟨⟨⟩, w'⟩, hw', he⟩ := Option.map_eq_some_iff.mp hrun
  simp only [Prod.mk.injEq, decide_eq_true_eq] at he
  obtain ⟨hrec, o, ho, hrel⟩ := he
  refine ⟨w', eq_ok_of_toOption hw', fun hidle => ?_⟩
  obtain ⟨-, pos, tv, hlast, -, hno⟩ := hidle _ _ [] hrec
  obtain ⟨rfl, rfl⟩ : 0 = pos ∧ ⟨0, 0⟩ = tv := by simpa [lastWatch, Note.watch] using hlast
  exact hno o ho hrel

/-- A browser that uses `CONNECT` is delayed by one scan and closed by the next. -/
def scannedConnect : List LoopOp :=
  [.event (.listening 5 [⟨0, 0⟩]),
    .event (.conn 5 true false
      { reads := [.data (CString.lit "CONNECT a:443 HTTP/1.1\r\n\r\n")], dial := .opened 6 } [] 0 {})] ++
    pageArrives ++ [.scan [⟨20, 0⟩, ⟨20, 0⟩], .scan [⟨40, 0⟩]]

theorem idle_closed_scannedConnect : ∃ w', runAll LoopOp.run scannedConnect freshWorld = .ok ((), w') ∧
    .closed 5 0 7 ⟨40, 0⟩ ∈ w'.record ∧ w'.ClosesIdle := by
  have hshows : Along LoopOp.run LoopOp.Shows scannedConnect freshWorld := by
    decide +kernel
  have hrun : (runAll LoopOp.run scannedConnect freshWorld).toOption.map (fun r =>
      decide (.closed 5 0 7 ⟨40, 0⟩ ∈ r.2.record)) = some true := by
    decide +kernel
  obtain ⟨⟨⟨⟩, w'⟩, hw', he⟩ := Option.map_eq_some_iff.mp hrun
  exact ⟨w', eq_ok_of_toOption hw', of_decide_eq_true he,
    idle_closed freshWorld_fresh rfl rfl scannedConnect hshows w' (eq_ok_of_toOption hw')⟩

end HttpsTunnel.Sdk

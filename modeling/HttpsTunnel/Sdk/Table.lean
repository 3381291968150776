import HttpsTunnel.Sdk.Loop

/-! # The connection table of the SDK

In every run of the main loop the table lists the live connections under their descriptors, peers have
each other, and no handler follows a null or deleted `Connect*`, as long as (`Call.Fair`)

* the kernel gives out no descriptor of a connection in the table,
* `HandleEPOEvent` is called only for a descriptor in the table: `_ConnMap[fd]` inserts a null pointer for
  any other, such as one of a connection that was closed earlier in the batch,
* `RemoveConnect` is not called for a tunnel of the application, which has no peer,
* a scan delays a node only when no other is left.

The invariant is that of the recycler (`World.Sound`) with the calls of `YMELoginTms` that wait
(`World.Orderly`). -/

namespace HttpsTunnel.Sdk

open HttpsTunnel.Lib

/-! ### The invariant -/

/-- The table and the lists are in order, and the connections of the application that is logging in are
alive. -/
structure World.Orderly (w : World) : Prop where
  sound : w.Sound
  logins : ∀ p ∈ w.logins, ∃ c, w.sdk.conns p = some c ∧ c.type ≠ .proxy ∧ c.peer = none
  nodup : w.logins.Nodup

theorem World.Sound.linked {w : World} (hs : w.Sound) : w.sdk.Linked False where
  alive hp hq hn := by
    obtain ⟨d, hd, -⟩ := hs.peer hp hq
    cases hn.symm.trans hd
  kinds hp hq hd := by
    obtain ⟨e, he, -, hty⟩ := hs.peer hp hq
    obtain rfl := Option.mem_unique hd he
    exact hty
  known {_ _ q} hp hq := by
    obtain ⟨d, hd, -⟩ := hs.peer hp hq
    by_contra hle
    cases (hs.unused q (Nat.le_of_not_lt hle)).symm.trans hd
  unused := hs.unused

theorem World.Sound.of_logins {w : World} (hs : w.Sound) (l : List Ptr) : ({ w with logins := l } : World).Sound :=
  World.SameNodes.sound (w := w) ⟨rfl, rfl, rfl, rfl, rfl, fun _ => ⟨rfl, rfl⟩⟩ hs rfl

section Keep

variable {w w' : World} {s' : State} {p : Ptr} {fd : ℕ}

/-- The invariant where connections stay what they are and nothing happens to the recycler. -/
theorem World.Orderly.of_same (h : w.Orderly) (hw : w.SameNodes w') (hs : SameIdents w.sdk w'.sdk)
    (hl : w'.logins = w.logins) : w'.Orderly where
  sound := hw.sound_of_ident h.sound hs.idents hs.connMap hs.nextConn
  logins q hq := by
    obtain ⟨c, hc, hty, hpeer⟩ := h.logins q (hl ▸ hq)
    obtain ⟨c', hc', hid⟩ := hs.conn hc
    obtain ⟨hty', hpeer', -⟩ := Connect.ident_eq hid
    exact ⟨c', hc', hty' ▸ hty, hpeer'.trans hpeer⟩
  nodup := hl ▸ h.nodup

theorem World.Orderly.sdk (h : w.Orderly) (hs : SameIdents w.sdk s') : ({ w with sdk := s' } : World).Orderly :=
  h.of_same ⟨rfl, rfl, rfl, rfl, rfl, fun _ => ⟨rfl, rfl⟩⟩ hs rfl

/-- A new tunnel. -/
theorem World.Sound.opens (h : w.Sound) (ho : Opens p fd w.sdk s') (hfd : w.sdk.connMap fd = none) :
    ({ w with sdk := s' } : World).Sound := by
  obtain ⟨c, hc, hnone, c', hc', hk'⟩ := ho.browser
  obtain ⟨t, ht, htk⟩ := ho.tunnel
  have hfree : ∀ {q d}, w.sdk.conns q = some d → d.sockFd ≠ fd := by
    rintro q d hq rfl
    cases (h.listed hq).symm.trans hfd
  have hold : ∀ {q d}, w.sdk.conns q = some d → q ≠ w.sdk.nextConn := by
    rintro q d hq rfl
    cases (h.unused _ le_rfl).symm.trans hq
  have hmap : ∀ {fd'}, fd' ≠ fd → s'.connMap fd' = w.sdk.connMap fd' := by
    intro fd' hne
    rw [ho.connMap, Function.update_of_ne hne]
  have hconn : ∀ {q d}, w.sdk.conns q = some d → ∃ d', s'.conns q = some d' ∧ d.Becomes d' := fun hq =>
    ho.conn h.linked hq
  constructor
  case entry =>
    intro fd' e he
    by_cases hf : fd' = fd
    · subst hf
      have he' : some w.sdk.nextConn = e := by simpa [ho.connMap] using he
      exact ⟨_, t, he'.symm, ht, congrArg Key.sockFd htk⟩
    · obtain ⟨q, d, rfl, hq, hqf⟩ := h.entry ((hmap hf).symm.trans he)
      obtain ⟨d', hd', hb⟩ := hconn hq
      exact ⟨q, d', rfl, hd', hb.sockFd.trans hqf⟩
  case listed =>
    intro q d hq
    show s'.connMap d.sockFd = some (some q)
    obtain ⟨rfl, hd⟩ | ⟨rfl, c₀, hc₀, hd⟩ | ⟨-, -, hd⟩ := ho.cases hq
    · rw [(Connect.ident_eq_mk hd).2.2, ho.connMap, Function.update_self]
    · rw [(Connect.ident_eq_mk hd).2.2, hmap (hfree hc₀.1)]
      exact h.listed hc₀.1
    · rw [hmap (hfree hd)]
      exact h.listed hd
  case peer =>
    intro q d r hq hr
    obtain ⟨rfl, hd⟩ | ⟨rfl, c₀, hc₀, hd⟩ | ⟨-, hqp, hd⟩ := ho.cases hq
    · obtain ⟨hty, hpe, -⟩ := Connect.ident_eq_mk hd
      obtain rfl : p = r := Option.mem_unique hpe hr
      have hcty : c'.type = .proxy := (congrArg Key.type hk').trans hc.2
      exact ⟨c', hc', congrArg Key.peer hk', by simp [hty, hcty]⟩
    · obtain ⟨hty, hpe, -⟩ := Connect.ident_eq_mk hd
      obtain rfl : w.sdk.nextConn = r := Option.mem_unique hpe hr
      have htty : t.type = .tunnel := congrArg Key.type htk
      exact ⟨t, ht, congrArg Key.peer htk, by simp [hty, htty]⟩
    · obtain ⟨e, he, hback, hkind⟩ := h.peer hd hr
      have hrp : r ≠ p := by
        rintro rfl
        obtain rfl : c = e := Option.mem_unique hc.1 he
        cases hnone.symm.trans hback
      exact ⟨e, (ho.others r hrp (hold he)).trans he, hback, hkind⟩
  case unused =>
    exact (ho.linked h.linked).unused
  case nodes => exact h.nodes
  case numbered => exact h.numbered
  case blocks => exact h.blocks
  case allocated => exact h.allocated
  case node =>
    intro q d hq hty
    obtain ⟨-, hd⟩ | ⟨rfl, c₀, hc₀, -⟩ | ⟨-, -, hd⟩ := ho.cases hq
    · cases hty.symm.trans (Connect.ident_eq_mk hd).1
    · exact h.node hc₀.1 hc₀.2
    · exact h.node hd hty
  case block =>
    intro n b hm
    obtain ⟨q, d, hback, hq, hty, hit, hqf⟩ := h.block hm
    obtain ⟨d', hd', hb⟩ := hconn hq
    exact ⟨q, d', hback, hd', hb.type.trans hty, hit, hqf.trans hb.sockFd.symm⟩

/-- A connection that is deleted and no browser's. -/
theorem World.Sound.dropped {c : Connect} (h : w.Sound) (hp : w.sdk.conns p = some c) (hty : c.type ≠ .proxy)
    (hpeer : c.peer = none) (hconns : s'.conns = Function.update w.sdk.conns p none)
    (hmap : s'.connMap = Function.update w.sdk.connMap c.sockFd none) (hnext : s'.nextConn = w.sdk.nextConn) :
    ({ w with sdk := s' } : World).Sound := by
  have hlive : ∀ {q d}, s'.conns q = some d → w.sdk.conns q = some d ∧ q ≠ p := by
    intro q d hq
    by_cases hqp : q = p
    · simp [hconns, hqp] at hq
    · exact ⟨by simpa [hconns, hqp] using hq, hqp⟩
  have hkept : ∀ {q d}, w.sdk.conns q = some d → q ≠ p → s'.conns q = some d := by
    intro q d hq hqp
    rw [hconns, Function.update_of_ne hqp, hq]
  constructor
  case entry =>
    intro fd' e he
    have hne : fd' ≠ c.sockFd := by
      rintro rfl
      simp [hmap] at he
    obtain ⟨q, d, rfl, hq, hqf⟩ := h.entry (by simpa [hmap, hne] using he)
    refine ⟨q, d, rfl, hkept hq ?_, hqf⟩
    rintro rfl
    obtain rfl : c = d := Option.mem_unique hp hq
    exact hne hqf.symm
  case listed =>
    intro q d hq
    obtain ⟨hq', hqp⟩ := hlive hq
    have hne : d.sockFd ≠ c.sockFd := fun hfd => hqp (h.conn_unique hq' hp hfd)
    show s'.connMap d.sockFd = some (some q)
    rw [hmap, Function.update_of_ne hne]
    exact h.listed hq'
  case peer =>
    intro q d r hq hr
    obtain ⟨hq', -⟩ := hlive hq
    obtain ⟨e, he, hback, hkind⟩ := h.peer hq' hr
    refine ⟨e, hkept he ?_, hback, hkind⟩
    rintro rfl
    obtain rfl : c = e := Option.mem_unique hp he
    cases hpeer.symm.trans hback
  case unused =>
    intro q hq
    show s'.conns q = none
    rw [hconns]
    by_cases hqp : q = p
    · simp [hqp]
    · rw [Function.update_of_ne hqp]
      exact h.unused q (hnext ▸ hq)
  case nodes => exact h.nodes
  case numbered => exact h.numbered
  case blocks => exact h.blocks
  case allocated => exact h.allocated
  case node => exact fun hq hty' => h.node (hlive hq).1 hty'
  case block =>
    intro n b hm
    obtain ⟨q, d, hback, hq, hdty, hit, hqf⟩ := h.block hm
    refine ⟨q, d, hback, hkept hq ?_, hdty, hit, hqf⟩
    rintro rfl
    obtain rfl : c = d := Option.mem_unique hp hq
    exact hty hdty

/-- A new tunnel of the application. -/
theorem World.Sound.dialled (h : w.Sound) (hfd : w.sdk.connMap fd = none) (rest : List DialRes) :
    ({ w with sdk := w.sdk.dialled fd rest } : World).Sound := by
  have hnew : (w.sdk.dialled fd rest).conns w.sdk.nextConn = some (tunnelConnect fd) := Function.update_self _ _ _
  have hkept : ∀ {q}, q ≠ w.sdk.nextConn → (w.sdk.dialled fd rest).conns q = w.sdk.conns q := fun hq =>
    Function.update_of_ne hq _ _
  have hold : ∀ {q d}, w.sdk.conns q = some d → (w.sdk.dialled fd rest).conns q = some d := by
    intro q d hq
    refine (hkept ?_).trans hq
    rintro rfl
    cases (h.unused _ le_rfl).symm.trans hq
  have hcases : ∀ {q d}, (w.sdk.dialled fd rest).conns q = some d →
      q = w.sdk.nextConn ∧ tunnelConnect fd = d ∨ w.sdk.conns q = some d :=
    fun hq => (update_some_eq hq).imp_right And.right
  have hmap : ∀ {fd'}, fd' ≠ fd → (w.sdk.dialled fd rest).connMap fd' = w.sdk.connMap fd' := fun hne =>
    Function.update_of_ne hne _ _
  constructor
  case entry =>
    intro fd' e he
    obtain ⟨rfl, rfl⟩ | ⟨-, he⟩ := update_some_eq he
    · exact ⟨_, _, rfl, hnew, rfl⟩
    · obtain ⟨q, d, rfl, hq, hqf⟩ := h.entry he
      exact ⟨q, d, rfl, hold hq, hqf⟩
  case listed =>
    intro q d hq
    show (w.sdk.dialled fd rest).connMap d.sockFd = some (some q)
    obtain ⟨rfl, rfl⟩ | hold' := hcases hq
    · exact Function.update_self _ _ _
    · have hne : d.sockFd ≠ fd := by
        rintro rfl
        cases (h.listed hold').symm.trans hfd
      rw [hmap hne]
      exact h.listed hold'
  case peer =>
    intro q d r hq hr
    obtain ⟨rfl, rfl⟩ | hq := hcases hq
    · cases hr
    · obtain ⟨e, he, hrest⟩ := h.peer hq hr
      exact ⟨e, hold he, hrest⟩
  case unused =>
    intro q hq
    have hq' : w.sdk.nextConn + 1 ≤ q := hq
    exact (hkept (Nat.ne_of_gt hq')).trans (h.unused q (Nat.le_of_succ_le hq'))
  case nodes => exact h.nodes
  case numbered => exact h.numbered
  case blocks => exact h.blocks
  case allocated => exact h.allocated
  case node =>
    intro q d hq hty
    obtain ⟨rfl, rfl⟩ | hq := hcases hq
    · cases hty
    · exact h.node hq hty
  case block =>
    intro n b hm
    obtain ⟨q, d, hback, hq, hrest⟩ := h.block hm
    exact ⟨q, d, hback, hold hq, hrest⟩

/-! ### Handlers -/

/-- At most one descriptor is given out, and it is not in the table. -/
def State.Dials (s : State) : Prop :=
  (∀ fd, DialRes.opened fd ∈ s.dials → s.connMap fd = none) ∧ s.dials.length ≤ 1

theorem State.Dials.of_same {s : State} (h : s.Dials) (hs : SameIdents s s') : s'.Dials := by
  refine ⟨fun fd hfd => ?_, hs.dials.length_le.trans h.2⟩
  rw [hs.connMap]
  exact h.1 fd (hs.dials.subset hfd)

/-- An act keeps the invariant. -/
theorem World.Orderly.act {b : Bool} (h : w.Orderly) (hd : w.sdk.Dials) (ha : Act p b w.sdk s') :
    ({ w with sdk := s' } : World).Orderly ∧ s'.Dials := by
  obtain hs | ⟨-, fd, ho⟩ := ha.same_or_opens
  · exact ⟨h.sdk hs, hd.of_same hs⟩
  · have hrest : s'.dials = [] := by
      have hl := hd.2
      rw [ho.dials, List.length_cons] at hl
      exact List.length_eq_zero_iff.mp (by omega)
    have hfd : w.sdk.connMap fd = none := hd.1 fd (by simp [ho.dials])
    refine ⟨⟨h.sound.opens ho hfd, fun q hq => ?_, h.nodup⟩, by simp [hrest], by simp [hrest]⟩
    obtain ⟨c, hc, hty, hpeer⟩ := h.logins q hq
    refine ⟨c, ?_, hty, hpeer⟩
    refine (ho.others q ?_ ?_).trans hc
    · rintro rfl
      obtain ⟨c₀, hc₀, -⟩ := ho.browser
      obtain rfl : c = c₀ := Option.mem_unique hc hc₀.1
      exact hty hc₀.2
    · rintro rfl
      cases (h.sound.unused _ le_rfl).symm.trans hc

theorem World.Orderly.acts {ns : List ℕ} (h : w.Orderly) (hd : w.sdk.Dials) (ha : Acts p ns w.sdk s') :
    ({ w with sdk := s' } : World).Orderly := by
  have hall : ({ w with sdk := s' } : World).Orderly ∧ s'.Dials := by
    generalize hs₀ : w.sdk = s₀ at ha
    induction ha with
    | refl =>
        subst hs₀
        exact ⟨h, hd⟩
    | act _ ha ih =>
        obtain ⟨h₁, hd₁⟩ := ih hs₀
        exact h₁.act hd₁ ha
    | read _ _ he ih =>
        obtain ⟨h₁, hd₁⟩ := ih hs₀
        exact ⟨h₁.sdk (.of_emits he), hd₁.of_same (.of_emits he)⟩
    | message _ _ _ hm ih =>
        obtain ⟨h₁, hd₁⟩ := ih hs₀
        exact ⟨h₁.sdk hm.same, hd₁.of_same hm.same⟩
  exact hall.1

end Keep

/-! ### Calls -/

/-- The stops that are not those of a connection: a handler leaves its buffer, or a text has no end. -/
def Crash.Handlers (e : Crash) : Prop := ∃ f, e = .handler f

/-- What has to hold of a call of the main loop. -/
def Call.Fair (w : World) : Call → Prop
  | accept newfd _ => 0 < newfd → w.sdk.connMap newfd.toNat = none
  | recv _ k | login _ k => ∀ fd, k.dial = .opened fd → w.sdk.connMap fd = none
  | writable fd _ => w.sdk.connMap fd ≠ none
  | remove fd => ∀ c ∈ w.sdk.connAt fd, c.type = .proxy ∨ c.peer ≠ none
  | scan ts => w.DelaysLast (ts.headD ⟨0, 0⟩) Expire_Count w.expireList
  | register _ | loginEnd _ => True

section Calls

variable {w : World}

theorem Crash.handlers_of_within {e : Fault} (h : e.Within False) : (Crash.ofFault e).Handlers := by
  cases e with
  | useAfterFree => exact (h rfl).elim
  | nullDeref => exact ⟨_, rfl⟩
  | overflow => exact ⟨_, rfl⟩
  | overread => exact ⟨_, rfl⟩

theorem World.Orderly.answering (h : w.Orderly) (k : Answers) :
    ({ w with sdk := { w.sdk with writes := k.writes, dials := [k.dial] } } : World).Orderly :=
  ⟨World.SameNodes.sound_of_ident (w := w) ⟨rfl, rfl, rfl, rfl, rfl, fun _ => ⟨rfl, rfl⟩⟩ h.sound
    (fun _ => rfl) rfl rfl, h.logins, h.nodup⟩

theorem State.Dials.answering {s : State} {k : Answers} (hd : ∀ fd, k.dial = .opened fd → s.connMap fd = none) :
    State.Dials { s with writes := k.writes, dials := [k.dial] } :=
  ⟨fun fd hfd => hd fd (List.mem_singleton.mp hfd).symm, le_rfl⟩

/-- `HandleRecvEvent`. -/
theorem wpe_recv_orderly (h : w.Orderly) (hd : w.sdk.Dials) (fd : ℕ) (reads : List ReadRes) :
    wpe (onSdk (handleRecvEvent fd reads)) (fun _ w' => w'.Orderly) Crash.Handlers w := by
  rw [wpe_onSdk]
  cases he : w.sdk.connMap fd with
  | none =>
      simp only [handleRecvEvent, wpe_bind, wpe_get, he, wpe_pure]
      exact h
  | some e =>
      obtain ⟨p, c, rfl, hp, -⟩ := h.sound.entry he
      exact wpe_mono (handleRecvEvent_acts h.sound.linked he hp reads) (fun _ s' ha => h.acts hd ha)
        fun _ => Crash.handlers_of_within

/-- `HandleEPOEvent` on a descriptor in the table. -/
theorem wpe_writable_orderly (h : w.Orderly) {fd : ℕ} (hfd : w.sdk.connMap fd ≠ none) :
    wpe (onSdk (handleEPOEvent fd)) (fun _ w' => w'.Orderly) Crash.Handlers w := by
  rw [wpe_onSdk]
  obtain ⟨e, he⟩ := Option.ne_none_iff_exists'.mp hfd
  obtain ⟨p, c, rfl, hp, -⟩ := h.sound.entry he
  refine wpe_mono (handleEPOEvent_serves h.sound.linked he hp) ?_ fun _ => Crash.handlers_of_within
  exact fun _ s' ⟨l, hl, _⟩ => h.sdk (.of_emits hl)

/-- A browser that is accepted. -/
theorem World.Orderly.accepted (h : w.Orderly) {fd : ℕ} (hfd : w.sdk.connMap fd = none) : (w.accepted fd).Orderly where
  sound := h.sound.accepted hfd
  logins q hq := by
    obtain ⟨c, hc, hrest⟩ := h.logins q hq
    refine ⟨c, (State.setConn_ne _ _ ?_).trans hc, hrest⟩
    rintro rfl
    cases (h.sound.unused _ le_rfl).symm.trans hc
  nodup := h.nodup

/-- A browser that is removed with its tunnel. -/
theorem World.Orderly.removed {w' : World} {b : Ptr} {c : Connect} {n : ℕ} {k : BlockPtr} (h : w.Orderly)
    (hh : w.Holds b c n k) (hr : w.Removed b c n k w') : w'.Orderly where
  sound := hr.sound h.sound hh
  logins q hq := by
    obtain ⟨d, hd, hty, hpeer⟩ := h.logins q (hr.logins ▸ hq)
    refine ⟨d, (hr.kept q ?_).trans hd, hty, hpeer⟩
    rintro (rfl | hcq)
    · obtain rfl : d = c := Option.mem_unique hd hh.conn
      exact hty hh.type
    · obtain ⟨e, he, hback, -⟩ := h.sound.peer hh.conn hcq
      obtain rfl : d = e := Option.mem_unique hd he
      cases hpeer.symm.trans hback
  nodup := hr.logins ▸ h.nodup

theorem World.Orderly.noted (h : w.Orderly) (o : Note) : (w.noted o).Orderly :=
  h.of_same (w.same_noted o) (.of_emits (.refl _)) rfl

theorem World.Scans.orderly {w' : World} {now : Timeval} (hsc : w.Scans now w') (h : w.Orderly) : w'.Orderly := by
  induction hsc with
  | refl => exact h
  | tail _ hstep ih =>
      cases hstep with
      | @close p c n b hh _ _ hr =>
          exact (ih.noted _).removed ((World.same_noted _ _).holds hh.conn hh rfl rfl) hr
      | @delay p c n b hh hexp hne honly heq =>
          have hs := (World.ScanStep.delay hh hexp hne honly heq).sound ih.sound
          subst heq
          exact ⟨hs, ih.logins, ih.nodup⟩

theorem wpe_login_orderly (h : w.Orderly) (hd : w.sdk.Dials) (a : LoginArgs) :
    wpe (onSdk (yMELoginTms a)) (fun r w' =>
      match r with
      | none => w'.Orderly
      | some p => World.Orderly { w' with logins := p :: w'.logins }) Crash.Handlers w := by
  rw [wpe_onSdk]
  refine wpe_mono (yMELoginTms_spec a) ?_ fun _ => Crash.handlers_of_within
  rintro (_ | p) s' hs'
  · exact h.sdk (.of_emits hs')
  · obtain ⟨rfl, fd, rest, s₁, hdial, he₁, msg, h₂⟩ := hs'
    obtain ⟨l, z, he₂⟩ := h₂.emits
    have hfd : w.sdk.connMap fd = none := hd.1 fd (by simp [hdial])
    have hnew : w.sdk.nextConn ∉ w.logins := by
      intro hmem
      obtain ⟨c, hc, -⟩ := h.logins _ hmem
      cases (h.sound.unused _ le_rfl).symm.trans hc
    have h₀ : World.Orderly { w with sdk := w.sdk.dialled fd rest, logins := w.sdk.nextConn :: w.logins } := by
      refine ⟨(h.sound.dialled hfd rest).of_logins _, fun q hq => ?_, List.nodup_cons.mpr ⟨hnew, h.nodup⟩⟩
      rcases List.mem_cons.mp hq with rfl | hq
      · exact ⟨tunnelConnect fd, Function.update_self _ _ _, ConnType.noConfusion, rfl⟩
      · obtain ⟨c, hc, hrest⟩ := h.logins q hq
        refine ⟨c, (Function.update_of_ne ?_ _ _).trans hc, hrest⟩
        rintro rfl
        exact hnew hq
    exact h₀.sdk ((SameIdents.of_emits he₁).trans (.of_emits he₂))

/-- From `w` to `w'` the recycler is left alone. -/
structure World.Beside (w w' : World) : Prop where
  blocks : w'.blocks = w.blocks
  expireList : w'.expireList = w.expireList
  record : w'.record = w.record
  log : w.sdk.log <+: w'.sdk.log

/-- `YMEShutDown` on a tunnel of the application. -/
theorem wp_yMEShutDown (hs : w.Sound) {p : Ptr} {c : Connect} (hp : w.sdk.conns p = some c) (hty : c.type ≠ .proxy)
    (hpeer : c.peer = none) : wp (yMEShutDown c.sockFd) (fun _ w' => w'.Sound ∧ w'.logins = w.logins ∧
      w.Beside w' ∧ ∀ q, q ≠ p → w'.sdk.conns q = w.sdk.conns q) w := by
  simp only [yMEShutDown, eraseEntry, wp, wpe_bind, wpe_get, hs.listed hp, wpe_onSdk, wpe_modify, wpe_pure]
  rw [wpe_destroy_tunnel hp hty]
  obtain ⟨hc, hm, hn, hl⟩ : (w.sdk.deleted p c).conns = Function.update w.sdk.conns p none ∧
      (w.sdk.deleted p c).connMap = w.sdk.connMap ∧ (w.sdk.deleted p c).nextConn = w.sdk.nextConn ∧
      w.sdk.log <+: (w.sdk.deleted p c).log := by
    simp only [State.deleted]
    split_ifs
    · obtain ⟨-, hm, hn, -, hl⟩ := w.sdk.unregistered_same c.sockFd
      exact ⟨trivial, hm, hn, hl ▸ List.prefix_append _ _⟩
    · exact ⟨trivial, rfl, rfl, List.prefix_rfl⟩
  refine ⟨hs.dropped hp hty hpeer hc (congrArg (Function.update · c.sockFd none) hm) hn, rfl, ⟨rfl, rfl, rfl, hl⟩,
    fun q hq => ?_⟩
  exact (congrFun hc q).trans (Function.update_of_ne hq _ _)

theorem wp_loginEnd_orderly (h : w.Orderly) (p : Ptr) :
    wp (loginEnd p) (fun _ w' => w'.Orderly ∧ w.Beside w') w := by
  have hsame : ∀ ls, w.Beside { w with logins := ls } := fun _ => ⟨rfl, rfl, rfl, List.prefix_rfl⟩
  simp only [loginEnd, wp, wpe_bind, wpe_get, wpe_ite, wpe_modify, wpe_onSdk, wpe_deref, wpe_pure]
  refine ⟨fun hmem => ?_, fun _ => ⟨h, hsame w.logins⟩⟩
  obtain ⟨c, hc, hty, hpeer⟩ := h.logins p hmem
  have h₁ : World.Orderly { w with logins := w.logins.erase p } :=
    ⟨h.sound.of_logins _, fun q hq => h.logins q (List.mem_of_mem_erase hq), h.nodup.erase p⟩
  simp only [hc, found_iff]
  refine ⟨fun _ => ?_, fun _ => ⟨h₁, hsame _⟩⟩
  refine wp_mono (wp_yMEShutDown (w := { w with logins := w.logins.erase p }) h₁.sound hc hty hpeer) ?_
  rintro - w' ⟨hs', hl, hbeside, hkept⟩
  refine ⟨⟨hs', fun q hq => ?_, hl ▸ h₁.nodup⟩, ⟨hbeside.blocks, hbeside.expireList, hbeside.record, hbeside.log⟩⟩
  rw [hl] at hq
  have hqp : q ≠ p := by
    rintro rfl
    exact absurd hq (h.nodup.not_mem_erase)
  rw [hkept q hqp]
  exact h₁.logins q hq

/-- **A call** that is fair keeps the invariant. -/
theorem Call.run_orderly (c : Call) (hc : c.Fair w) (h : w.Orderly) :
    wpe c.run (fun _ w' => w'.Orderly) Crash.Handlers w := by
  have hclock : ∀ {w : World} (ts z), w.Orderly → (w.clocked ts z).Orderly := fun ts z h =>
    ⟨h.sound.clocked ts z, h.logins, h.nodup⟩
  simp only [Call.run, wpe_bind, wpe_get, wpe_pure]
  cases c with
  | accept newfd ts =>
      simp only [Call.exec, Call.timing, wpe_bind, wpe_modify]
      have h₁ : World.Orderly { w with times := ts } := hclock ts w.acceptBeginTime h
      refine wpe_mono (wp_accept_sound h₁.sound hc) ?_ fun _ => False.elim
      rintro - w' ⟨ts', z, rfl | ⟨hpos, rfl⟩⟩
      · exact hclock ts' z h₁
      · exact (hclock ts' z h₁).accepted (hc hpos)
  | register fd =>
      simp only [Call.exec, wpe_onSdk]
      refine wpe_mono (wp_addEvent _ _ _) ?_ fun _ => False.elim
      exact fun _ s' he => h.sdk (.of_emits he)
  | recv fd k =>
      simp only [Call.exec, Call.answering, wpe_bind, wpe_modify]
      exact wpe_recv_orderly (h.answering k) (.answering hc) fd k.reads
  | writable fd k =>
      simp only [Call.exec, Call.answering, wpe_bind, wpe_modify]
      exact wpe_writable_orderly (h.answering k) hc
  | remove fd =>
      refine wpe_mono (wp_removeConnect h.sound hc) ?_ fun _ => False.elim
      rintro - w' (rfl | ⟨b, c, n, k, hh, hr⟩)
      · exact h.sdk (.of_emits (State.unregistered_emits _ _))
      · exact h.removed hh hr
  | scan ts =>
      simp only [Call.exec, Call.timing, crbScan, wpe_bind, wpe_modify, wpe_gettimeofday, wpe_get, wpe_pure]
      have h₁ : World.Orderly { w with times := ts.tail } := hclock ts.tail w.acceptBeginTime h
      have hd : World.DelaysLast { w with times := ts.tail } (ts.headD ⟨0, 0⟩) Expire_Count w.expireList := by
        refine DelaysLast.mono (w := w) ?_ ?_ ?_ hc
        · exact fun _ _ => rfl
        · exact id
        · exact id
      exact wpe_mono (wp_scanFrom Expire_Count h₁.sound hd) (fun _ w' hsc => hsc.orderly h₁) fun _ => False.elim
  | login a k =>
      simp only [Call.exec, Call.answering, wpe_bind, wpe_modify]
      refine wpe_mono (wpe_login_orderly (h.answering k) (.answering hc) a) ?_ fun _ => id
      rintro (_ | p) w' h' <;> exact h'
  | loginEnd p => exact wpe_mono (wp_loginEnd_orderly h p) (fun _ _ h' => h'.1) fun _ => False.elim

end Calls

/-! ### Runs -/

/-- Every entry of the table is a live connection with this descriptor, and peers have each other. -/
structure World.TableSafe (w : World) : Prop where
  entry : ∀ fd e, w.sdk.connMap fd = some e → ∃ p c, e = some p ∧ w.sdk.conns p = some c ∧ c.sockFd = fd
  peer : ∀ p c q, w.sdk.conns p = some c → c.peer = some q → ∃ d, w.sdk.conns q = some d ∧ d.peer = some p

/-- The calls of an entry of a run are fair. -/
def LoopOp.Fair (w : World) (op : LoopOp) : Prop := op.plan.Guard Call.run Call.Fair w

theorem forall_opened_iff {P : ℕ → Prop} {n : ℕ} : P n ↔ ∀ fd, DialRes.opened n = .opened fd → P fd := by
  simp

theorem forall_fail_opened {P : ℕ → Prop} {e : ℕ} : ∀ fd, DialRes.fail e = .opened fd → P fd :=
  fun _ h => DialRes.noConfusion h

instance instDecidableForallOpened {P : ℕ → Prop} [DecidablePred P] :
    ∀ r : DialRes, Decidable (∀ fd, r = .opened fd → P fd)
  | .opened n => decidable_of_iff (P n) forall_opened_iff
  | .fail _ => .isTrue forall_fail_opened

instance instDecidableCallFair (w : World) : ∀ c : Call, Decidable (c.Fair w)
  | .accept newfd _ => inferInstanceAs (Decidable (0 < newfd → w.sdk.connMap newfd.toNat = none))
  | .recv _ k | .login _ k => inferInstanceAs (Decidable (∀ fd, k.dial = .opened fd → w.sdk.connMap fd = none))
  | .writable fd _ => inferInstanceAs (Decidable (w.sdk.connMap fd ≠ none))
  | .remove fd => inferInstanceAs (Decidable (∀ c ∈ w.sdk.connAt fd, c.type = .proxy ∨ c.peer ≠ none))
  | .scan ts => inferInstanceAs (Decidable (w.DelaysLast (ts.headD ⟨0, 0⟩) Expire_Count w.expireList))
  | .register _ | .loginEnd _ => .isTrue trivial

instance instDecidableLoopFair (w : World) (op : LoopOp) : Decidable (op.Fair w) :=
  inferInstanceAs (Decidable (op.plan.Guard Call.run Call.Fair w))

/-- **The connection table.**  In every run from the start whose calls are fair, the table is safe, and no
handler stops at a null or deleted connection or at an erased node. -/
theorem connTable_safe {w : World} (hw : w.Fresh) (hl : w.logins = []) (ops : List LoopOp)
    (h : Along LoopOp.run LoopOp.Fair ops w) :
    (∃ w', runAll LoopOp.run ops w = .ok ((), w') ∧ w'.TableSafe) ∨
      ∃ f, runAll LoopOp.run ops w = .error (.handler f) := by
  have hstart : w.Orderly := ⟨hw.sound, by simp [hl], by simp [hl]⟩
  have hinv : wpe (runAll LoopOp.run ops) (fun _ w' => w'.Orderly) Crash.Handlers w :=
    Along.plans (fun _ c hc => c.run_orderly hc) h hstart
  unfold wpe at hinv
  cases hrun : runAll LoopOp.run ops w with
  | error e =>
      rw [hrun] at hinv
      obtain ⟨f, rfl⟩ := hinv
      exact .inr ⟨f, rfl⟩
  | ok r =>
      obtain ⟨⟨⟩, w'⟩ := r
      rw [hrun] at hinv
      refine .inl ⟨w', rfl, fun _ _ he => hinv.sound.entry he, fun p c q hp hq => ?_⟩
      obtain ⟨d, hd, hback, -⟩ := hinv.sound.peer hp hq
      exact ⟨d, hd, hback⟩

/-- A browser asks for a page, and a tunnel is opened for it. -/
def browserRequests : List LoopOp :=
  [.event (.listening 5 [⟨0, 0⟩]),
    .event (.conn 5 true false
      { reads := [.data (CString.lit "GET / HTTP/1.1\r\nHost: a\r\n\r\n")], dial := .opened 6 } [] 0 {})]

/-- The browser goes, and the event of the tunnel is still in the batch. -/
def closedInBatch : List LoopOp :=
  browserRequests ++
    [.event (.conn 5 true false { reads := [.data []] } [] 0 {}), .event (.conn 6 false true {} [] 0 {})]

/-- `HandleEPOEvent` puts a null pointer into the table, and `RemoveConnect` follows it. -/
theorem connTable_null : runAll LoopOp.run closedInBatch freshWorld = .error .nullConnect :=
  eq_error_of_faultOf (by decide +kernel)

/-- The application logs in, and the TMS closes the tunnel of the browser. -/
def tunnelCloses : List LoopOp :=
  browserRequests ++
    [.event (.conn 5 false true {} [] 0 {}), .login ⟨1, 2, [3], [97]⟩ { dial := .opened 7 }, .loginEnd 2,
      .event (.conn 6 true true { reads := [.data []] } [] 0 {}), .scan [⟨20, 0⟩]]

theorem connTable_safe_tunnelCloses :
    ∃ w', runAll LoopOp.run tunnelCloses freshWorld = .ok ((), w') ∧ w'.TableSafe := by
  have hfair : Along LoopOp.run LoopOp.Fair tunnelCloses freshWorld := by
    decide +kernel
  have hends : (runAll LoopOp.run tunnelCloses freshWorld).toOption.isSome := by
    decide +kernel
  rcases connTable_safe freshWorld_fresh rfl tunnelCloses hfair with h | ⟨f, hf⟩
  · exact h
  · rw [hf] at hends
    exact absurd hends Bool.false_ne_true

end HttpsTunnel.Sdk

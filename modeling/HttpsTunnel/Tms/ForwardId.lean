import HttpsTunnel.Tms.Passive
import HttpsTunnel.Lib.Session

/-! # Forward ids

A forward id is issued when the agent of a stream is connected, and stored in the stream's block.
Nothing else changes the counter, and a block gets no id in another way: every other function keeps
the ids, or clears that of a block it takes or gives back (`IdsKept`).

So the state after `n` calls of `NewForwardId` has the ids of these calls only (`IdsIssued`).  The next
one is new as long as the counter has not gone round (`IdsIssued.fresh`). -/

namespace HttpsTunnel.Tms

open HttpsTunnel.Lib HttpsTunnel.Wire

/-! ### The counter -/

/-- The number of ids before the counter starts again: `ULONG_MAX` is not issued, nor is 0. -/
def idCycle : ℕ := 2 ^ 64 - 2

/-- The id issued by a call that `n` calls precede. -/
def issuedId (n : ℕ) : ℕ := n % idCycle + 1

/-- The id the next call issues. -/
def Server.nextId (s : Server) : ℕ := if s.avalForwardId = 2 ^ 64 - 1 then 1 else s.avalForwardId

theorem issuedId_ne_zero (n : ℕ) : issuedId n ≠ 0 := Nat.succ_ne_zero _

theorem issuedId_lt (n : ℕ) : issuedId n < 2 ^ 64 - 1 := by
  have h : n % idCycle < idCycle := Nat.mod_lt _ (by decide)
  rw [issuedId, idCycle] at *
  omega

theorem issuedId_of_lt {n : ℕ} (h : n < idCycle) : issuedId n = n + 1 := by rw [issuedId, Nat.mod_eq_of_lt h]

theorem issuedId_succ (n : ℕ) : issuedId (n + 1) = if issuedId n + 1 = 2 ^ 64 - 1 then 1 else issuedId n + 1 := by
  have hlt : n % idCycle < idCycle := Nat.mod_lt _ (by decide)
  have hadd : (n + 1) % idCycle = (n % idCycle + 1) % idCycle := by
    rw [Nat.add_mod, Nat.mod_eq_of_lt (show 1 < idCycle by decide)]
  have hcycle : idCycle + 1 = 2 ^ 64 - 1 := rfl
  rw [issuedId, hadd, issuedId]
  split_ifs with h
  · rw [show n % idCycle + 1 = idCycle by omega, Nat.mod_self]
  · rw [Nat.mod_eq_of_lt (by omega)]

/-! ### What keeps the ids -/

/-- No id is issued: the counter stays, and a block keeps its id or loses it. -/
structure IdsKept (s s' : Server) : Prop where
  next : s'.avalForwardId = s.avalForwardId
  block : ∀ k, (s'.scbs k).forwardId = (s.scbs k).forwardId ∨ (s'.scbs k).forwardId = 0

theorem IdsKept.of_ids {s s' : Server} (h : s'.ids = s.ids) : IdsKept s s' :=
  ⟨congrArg Ids.next h, fun k => .inl (congrFun (congrArg Ids.block h) k)⟩

instance : Std.Refl IdsKept := ⟨fun _ => .of_ids rfl⟩

instance : IsTrans Server IdsKept := ⟨fun _ _ _ h h' => ⟨h'.next.trans h.next, fun k => by
  rcases h'.block k with h₁ | h₁
  · exact (h.block k).imp h₁.trans h₁.trans
  · exact .inr h₁⟩⟩

instance : Unwatched IdsKept := ⟨fun _ _ _ => .of_ids rfl⟩

instance : Receiving IdsKept where
  tables _ h := .of_ids h
  desk _ _ := .of_ids rfl
  clear {s b} k hb := by
    refine ⟨rfl, fun j => ?_⟩
    by_cases hj : j = k
    · exact .inr (by simp [Server.setScb, hj, hb])
    · exact .inl (by simp [Server.setScb, hj])
  unregister := removeEvent_does
  close fd s := by
    simp only [closeFd, wlp, wpe_bind, wpe_get, wpe_ite]
    exact ⟨fun _ => .of_ids rfl, fun _ => .of_ids rfl⟩
  erase _ _ := .of_ids rfl
  delete _ _ := .of_ids rfl
  pool _ _ := .of_ids rfl
  conn _ _ _ := .of_ids rfl
  create _ _ _ := .of_ids rfl

/-! ### Events -/

theorem acceptConn_ids (e : Event) : Does IdsKept (acceptConn e) := by
  have hobject : ∀ fd, Does IdsKept (handleAcceptEvent fd) := fun fd => .get_bind fun s => by
    split
    · next p _ => exact .seq (modConn_receiving p _) <| fun _ => .of_ids rfl
    · exact .ret (fun _ => .of_ids rfl)
  intro s
  simp only [acceptConn, wlp, wpe_bind, wpe_get]
  cases e.accept with
  | none => exact .of_ids rfl
  | some a =>
      simp only [wpe_ite, wpe_bind, wpe_set]
      refine ⟨fun _ => ?_, fun _ => .of_ids rfl⟩
      have hpeer : IdsKept s { s with peer := Function.update s.peer a.1 (some (a.2.1, a.2.2)) } := .of_ids rfl
      refine wlp_mono (hobject a.1 _) fun _ s₁ h₁ => wlp_mono (addEvent_does (R := IdsKept) _ _ s₁) fun _ s₂ h₂ => ?_
      exact trans_of IdsKept hpeer (trans_of IdsKept h₁ h₂)

/-! ### Output -/

/-- One id is issued, to block `k`. -/
structure Issues (k : ScbPtr) (s s' : Server) : Prop where
  next : s'.avalForwardId = s.nextId + 1
  id : (s'.scbs k).forwardId = s.nextId
  others : ∀ j ≠ k, (s'.scbs j).forwardId = (s.scbs j).forwardId ∨ (s'.scbs j).forwardId = 0

/-- What an event does to the ids: one is issued, or none. -/
def MayIssue (s s' : Server) : Prop := IdsKept s s' ∨ ∃ k, Issues k s s'

/-- All ids are the same. -/
def SameIds (s s' : Server) : Prop := s'.ids = s.ids

instance : Passive SameIds where
  refl _ := rfl
  trans _ _ _ h h' := Eq.trans h' h
  tables _ h := h
  desk _ _ := rfl

instance : Unwatched SameIds := ⟨fun _ _ _ => rfl⟩

theorem SameIds.kept {s s' : Server} (h : SameIds s s') : IdsKept s s' := .of_ids h

theorem IdsKept.nextId {s s' : Server} (h : IdsKept s s') : s'.nextId = s.nextId := by
  rw [Server.nextId, Server.nextId, h.next]

theorem IdsKept.issues {k : ScbPtr} {s s₁ s' : Server} (h : IdsKept s s₁) (h' : Issues k s₁ s') : Issues k s s' := by
  refine ⟨h.nextId ▸ h'.next, h.nextId ▸ h'.id, fun j hj => ?_⟩
  rcases h'.others j hj with h₁ | h₁
  · exact (h.block j).imp h₁.trans h₁.trans
  · exact .inr h₁

theorem Issues.same {k : ScbPtr} {s s₁ s' : Server} (h : Issues k s s₁) (h' : SameIds s₁ s') : Issues k s s' := by
  have hn : s'.avalForwardId = s₁.avalForwardId := congrArg Ids.next h'
  have hb : ∀ j, (s'.scbs j).forwardId = (s₁.scbs j).forwardId := congrFun (congrArg Ids.block h')
  exact ⟨hn.trans h.next, (hb k).trans h.id, fun j hj => hb j ▸ h.others j hj⟩

theorem IdsKept.mayIssue {s s₁ s' : Server} (h : IdsKept s s₁) (h' : MayIssue s₁ s') : MayIssue s s' := by
  obtain h' | ⟨k, h'⟩ := h'
  · exact .inl (trans_of IdsKept h h')
  · exact .inr ⟨k, h.issues h'⟩

theorem wpe_newForwardId {s : Server} {Q : ℕ → Server → Prop} {F : Fault → Prop} :
    wpe newForwardId Q F s ↔ Q s.nextId { s with avalForwardId := s.nextId + 1 } := Iff.rfl

theorem agentReady_issues (p : Ptr) (k : ScbPtr) (t : Ptr) (s : Server) :
    wlp (agentReady p k t) (fun _ s' => Issues k s s') s := by
  rw [agentReady, wlp, wpe_bind, wpe_modConn]
  refine ⟨fun _ => trivial, fun c _ => ?_⟩
  have h₁ : SameIds s (s.setConn t { c with agentStatus := true }) := rfl
  generalize s.setConn t { c with agentStatus := true } = s₁ at h₁
  rw [wpe_bind, wpe_newForwardId, wpe_bind, wpe_modScb]
  generalize hs₂ : Server.setScb _ k _ = s₂
  have h₂ : Issues k s₁ s₂ := by
    rw [← hs₂]
    exact ⟨rfl, by simp [Server.setScb], fun j hj => .inl (by simp [Server.setScb, hj])⟩
  have hready : ∀ b : SCB, Does SameIds (if b.status ≠ .invalid then do
        modConn p (fun c => { c with status := SockStat.ofNum (transStatNum .forward) })
        let c ← deref p
        let v ← derefUser (← nonNull c.user)
        let _ ← sendTmsMsg t (LoginRsp.bytes ⟨RespCode.ready.toNat, v.balance, s₁.nextId⟩)
      else do
        let _ ← sendTmsMsg t (LoginRsp.bytes ⟨RespCode.agentEstablished.toNat, 0, s₁.nextId⟩)) := fun b =>
    .ite (.seq (fun _ => wpe_modConn.mpr ⟨fun _ => trivial, fun _ _ => rfl⟩) <| .seq (deref_does p) <|
      .seq (nonNull_does _) <| .seq (derefUser_does _) <| .ret (sendTmsMsg_does t _)) (.ret (sendTmsMsg_does t _))
  rw [wpe_bind, wpe_getScb]
  exact wlp_mono (hready _ s₂) fun _ _ h => h₁.kept.issues (h₂.same h)

theorem establish_mayIssue (fd : ℕ) (p : Ptr) (c : Connect) : Does MayIssue (establish fd p c) := by
  intro s
  rw [establish, wlp, wpe_bind, wpe_modConn]
  refine ⟨fun _ => trivial, fun c' _ => ?_⟩
  have h₁ : SameIds s (s.setConn p { c' with status := .online, agentStatus := true }) := rfl
  generalize s.setConn p { c' with status := .online, agentStatus := true } = s₁ at h₁
  rw [wpe_bind, wpe_get]
  split
  · next k t _ _ =>
      refine wlp_bind (agentReady_issues p k t s₁) fun _ s₂ h₂ => ?_
      exact wlp_bind (modifyEvent_does fd _ s₂) fun _ _ h₃ => .inr ⟨k, h₁.kept.issues (h₂.same h₃)⟩
  · have herase : Does IdsKept (do mapErase fd; pure (-1) : TmsM ℤ) := .ret (mapErase_closing fd)
    exact wlp_mono (herase s₁) fun _ _ h => .inl (trans_of IdsKept h₁.kept h)

theorem flush_ids (fd : ℕ) (p : Ptr) (c : Connect) : Does IdsKept (flush fd p c) :=
  .bind (nonNull_does _) fun k => .seq (getScb_does k) <| .bind (nonNull_does _) fun a =>
    .bind (deref_does a) fun ac => .ite (.pure _) (.bind (sendRelay_passive _ _ _ _ _) fun r => by
      cases r with
      | none => exact .pure _
      | some wrote =>
          have hflushed : Does IdsKept (flushed a wrote) := .seq (deref_does a) <|
            .ite (.seq (modConn_receiving a _) <| .ret (addEvent_does _ _))
              (.ite (modConn_receiving a _) (.pure _))
          refine .seq hflushed <| .ite (.seq (nonNull_does _) <| .seq (charge_does _) <|
            .seq (recordTraffic_does _ _ _) <| .ite (.ret (emit_passive _)) (.pure _))
            (.pure _))

theorem handleEPOEvent_mayIssue (fd : ℕ) : Does MayIssue (handleEPOEvent fd) := by
  intro s
  have hkept : IdsKept s s := refl_of IdsKept s
  rw [handleEPOEvent, wlp, wpe_bind, wpe_get]
  split
  · exact .inl hkept
  · next p _ =>
      rw [wpe_bind, wpe_deref]
      refine ⟨fun _ => trivial, fun c _ => ?_⟩
      simp only [wpe_ite]
      exact ⟨fun _ => establish_mayIssue fd p c s, fun _ => ⟨fun _ => .inl hkept, fun _ => ⟨fun _ => .inl hkept,
        fun _ => wlp_mono (flush_ids fd p c s) fun _ _ => .inl⟩⟩⟩

theorem outputPart_mayIssue (e : Event) : Does MayIssue (outputPart e) := by
  intro s
  have hkept : IdsKept s s := refl_of IdsKept s
  rw [outputPart, wlp, wpe_ite]
  refine ⟨fun _ => ?_, fun _ => .inl hkept⟩
  rw [outputEvent]
  refine wlp_bind (fetchError_of (R := SameIds) (fun _ _ _ => rfl) e s) fun _ s₁ h₁ => ?_
  rw [wpe_bind, wpe_get, wpe_ite]
  refine ⟨fun _ => ?_, fun _ => .inl h₁.kept⟩
  refine wlp_bind (handleEPOEvent_mayIssue e.fd s₁) fun ret s₂ h₂ => ?_
  have h₂ : MayIssue s s₂ := h₁.kept.mayIssue h₂
  have hshut : Does SameIds (if ret = -1 then shutdownFd e.fd else pure ()) := by
    refine .ite (fun s => ?_) (.pure _)
    simp only [shutdownFd, wlp, wpe_bind, wpe_get, wpe_ite]
    exact ⟨fun _ => rfl, fun _ => rfl⟩
  refine wlp_mono (hshut s₂) fun _ s₃ h₃ => ?_
  rcases h₂ with h | ⟨k, h⟩
  · exact .inl (trans_of IdsKept h h₃.kept)
  · exact .inr ⟨k, h.same h₃⟩

theorem handleEvent_mayIssue (e : Event) : Does MayIssue (handleEvent e) := by
  intro s
  have hload : IdsKept s (s.load e) := .of_ids rfl
  rw [handleEvent, wlp, wpe_bind, wpe_modify, wpe_ite]
  refine ⟨fun _ => ?_, fun _ => wlp_mono (outputPart_mayIssue e _) fun _ _ => hload.mayIssue⟩
  rw [wpe_ite]
  refine ⟨fun _ => ?_, fun _ => ?_⟩
  · refine wlp_bind (acceptConn_ids e _) fun _ s₁ h₁ => ?_
    exact wlp_mono (outputPart_mayIssue e s₁) fun _ _ => (trans_of IdsKept hload h₁).mayIssue
  · refine wlp_bind (inputEvent_receiving (R := IdsKept) e _) fun ok s₁ h₁ => ?_
    have h₁ := trans_of IdsKept hload h₁
    rw [wpe_ite]
    exact ⟨fun _ => wlp_mono (outputPart_mayIssue e s₁) fun _ _ => h₁.mayIssue, fun _ => .inl h₁⟩

/-! ### Runs -/

/-- The states of the loop with the number of ids issued so far: an event issues one if it moves the counter,
and no event issues two. -/
inductive ReachableAfter (s₀ : Server) : ℕ → Server → List Event → Prop
  | start : ReachableAfter s₀ 0 s₀ []
  | wait {n : ℕ} {s : Server} (batch : List Event) (h : ReachableAfter s₀ n s [])
      (hr : ∀ e ∈ batch, s.Reports e) (hd : (batch.map (·.fd)).Nodup) : ReachableAfter s₀ n s batch
  | event {n : ℕ} {s s' : Server} {e : Event} {rest : List Event} (h : ReachableAfter s₀ n s (e :: rest))
      (he : handleEvent e s = .ok ((), s')) :
      ReachableAfter s₀ (if s'.avalForwardId = s.avalForwardId then n else n + 1) s' rest

theorem Reachable.after {s₀ s : Server} {pending : List Event} (h : Reachable s₀ s pending) :
    ∃ n, ReachableAfter s₀ n s pending := by
  induction h with
  | start => exact ⟨0, .start⟩
  | wait batch _ hr hd ih =>
      obtain ⟨n, hn⟩ := ih
      exact ⟨n, .wait batch hn hr hd⟩
  | event _ he ih =>
      obtain ⟨n, hn⟩ := ih
      exact ⟨_, .event hn he⟩

/-- The ids of a state are those of `n` calls. -/
structure IdsIssued (n : ℕ) (s : Server) : Prop where
  next : s.nextId = issuedId n
  past : ∀ k, (s.scbs k).forwardId = 0 ∨ ∃ i < n, (s.scbs k).forwardId = issuedId i

theorem IdsIssued.kept {n : ℕ} {s s' : Server} (h : IdsIssued n s) (h' : IdsKept s s') : IdsIssued n s' := by
  refine ⟨h'.nextId.trans h.next, fun k => ?_⟩
  rcases h'.block k with hk | hk
  · rw [hk]
    exact h.past k
  · exact .inl hk

theorem IdsIssued.issues {n : ℕ} {k : ScbPtr} {s s' : Server} (h : IdsIssued n s) (h' : Issues k s s') :
    IdsIssued (n + 1) s' := by
  refine ⟨?_, fun j => ?_⟩
  · rw [Server.nextId, h'.next, h.next, issuedId_succ]
  · by_cases hj : j = k
    · exact .inr ⟨n, n.lt_succ_self, hj ▸ h'.id.trans h.next⟩
    · rcases h'.others j hj with hk | hk
      · rw [hk]
        rcases h.past j with h0 | ⟨i, hi, he⟩
        · exact .inl h0
        · exact .inr ⟨i, Nat.lt_succ_of_lt hi, he⟩
      · exact .inl hk

/-- An id that is issued moves the counter. -/
theorem Issues.moves {k : ScbPtr} {s s' : Server} (h : Issues k s s') : s'.avalForwardId ≠ s.avalForwardId := by
  rw [h.next, Server.nextId]
  split_ifs <;> omega

/-- As long as the counter has not gone round, the next id is not one that a block has. -/
theorem IdsIssued.fresh {n : ℕ} {s : Server} (h : IdsIssued n s) (hn : n < idCycle) (k : ScbPtr) :
    (s.scbs k).forwardId ≠ issuedId n := by
  intro he
  rcases h.past k with h0 | ⟨i, hi, hi'⟩
  · exact issuedId_ne_zero n (he.symm.trans h0)
  · rw [he, issuedId_of_lt hn, issuedId_of_lt (hi.trans hn)] at hi'
    omega

theorem ReachableAfter.issued {accurate : Bool} {errno err n : ℕ} {mem : Buff} {s : Server} {pending : List Event}
    (h : ReachableAfter (Server.init accurate errno err mem) n s pending) : IdsIssued n s := by
  induction h with
  | start => exact ⟨rfl, fun _ => .inl rfl⟩
  | wait _ _ _ _ ih => exact ih
  | event _ he ih =>
      obtain hk | ⟨k, hk⟩ := (handleEvent_mayIssue _).run he
      · rw [if_pos hk.next]
        exact ih.kept hk
      · rw [if_neg hk.moves]
        exact ih.issues hk

/-- **The id an event issues**: it goes to one block, it is not 0, and no other block has it unless the counter
has gone round. -/
theorem ReachableAfter.issues {accurate : Bool} {errno err n : ℕ} {mem : Buff} {s s' : Server} {e : Event}
    {rest : List Event} (h : ReachableAfter (Server.init accurate errno err mem) n s (e :: rest))
    (he : handleEvent e s = .ok ((), s')) (hnew : s'.avalForwardId ≠ s.avalForwardId) :
    ∃ k, (s'.scbs k).forwardId = issuedId n ∧
      (n < idCycle → ∀ j ≠ k, (s'.scbs j).forwardId ≠ issuedId n) := by
  obtain hk | ⟨k, hk⟩ := (handleEvent_mayIssue e).run he
  · exact absurd hk.next hnew
  · refine ⟨k, hk.id.trans h.issued.next, fun hn j hj => ?_⟩
    rcases hk.others j hj with ho | ho
    · rw [ho]
      exact h.issued.fresh hn j
    · rw [ho]
      exact (issuedId_ne_zero n).symm

end HttpsTunnel.Tms

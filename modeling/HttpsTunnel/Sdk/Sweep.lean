import HttpsTunnel.Sdk.Loop

/-! # What the recycler does to the SDK

The recycler keeps its own lists; of the connections it only takes some out of the table and deletes them.  `Pruning R`
says that a relation between the states of the SDK does not see this, `Removing R` that it does not see the end of a
connection either; the functions of the recycler then follow any such relation. -/

namespace HttpsTunnel.Sdk

open HttpsTunnel.Lib

/-- The states of the SDK inside are related. -/
def Inside (R : State → State → Prop) (w w' : World) : Prop := R w.sdk w'.sdk

class Pruning (R : State → State → Prop) : Prop extends Std.Refl R, IsTrans State R where
  unregister : ∀ fd, Does R (removeEvent fd)
  shut : ∀ s p, R s (s.emit (.shut p))
  erase : ∀ (s : State) (fd : ℕ), R s { s with connMap := Function.update s.connMap fd none }
  delete : ∀ (s : State) (p : Ptr), R s { s with conns := Function.update s.conns p none }

class Removing (R : State → State → Prop) : Prop extends Pruning R where
  down : ∀ p, Does R (modConn p Connect.down)
  wakeup : ∀ s p, R s (s.emit (.wakeup p))

section Inside

variable {R : State → State → Prop}

instance [Std.Refl R] : Std.Refl (Inside R) := ⟨fun w => refl_of R w.sdk⟩

instance [IsTrans State R] : IsTrans World (Inside R) := ⟨fun _ _ _ h h' => trans_of R h h'⟩

/-- A part of the SDK. -/
theorem onSdk_inside {α : Type} {x : SdkM α} (h : Does R x) : Does (Inside R) (onSdk x) :=
  fun w => wpe_onSdk.mpr (wpe_mono (h w.sdk) (fun _ _ h => h) fun _ _ => trivial)

variable [Std.Refl R]

theorem Inside.of_sdk {w w' : World} (h : w'.sdk = w.sdk) : Inside R w w' := by
  unfold Inside
  rw [h]
  exact refl_of R w.sdk

theorem modify_inside {f : World → World} (h : ∀ w, (f w).sdk = w.sdk) :
    Does (Inside R) (modify f : WorldM PUnit) := .modify fun w => .of_sdk (h w)

theorem deref_inside (p : Ptr) : Does (Inside R) (onSdk (deref p)) :=
  onSdk_inside fun s => wpe_deref.mpr ⟨fun _ => trivial, fun _ _ => refl_of R s⟩

theorem atNode_inside (n : ℕ) : Does (Inside R) (atNode n) := fun _ =>
  wpe_atNode.mpr ⟨fun _ => trivial, fun _ _ => .of_sdk rfl⟩

theorem eraseNode_inside (n : ℕ) : Does (Inside R) (eraseNode n) := fun _ =>
  wpe_eraseNode.mpr ⟨fun _ => trivial, fun _ _ => .of_sdk rfl⟩

theorem modBlock_inside (b : BlockPtr) (f : Block → Block) : Does (Inside R) (modBlock b f) :=
  modify_inside fun _ => rfl

theorem note_inside (o : Note) : Does (Inside R) (note o) := modify_inside fun _ => rfl

theorem gettimeofday_inside : Does (Inside R) gettimeofday := fun _ => wpe_gettimeofday.mpr (.of_sdk rfl)

theorem crbNew_inside : Does (Inside R) crbNew := fun _ => wpe_crbNew.mpr (.of_sdk rfl)

variable [IsTrans State R]

theorem setCrbIt_inside (p : Option Ptr) (it : Iter) : Does (Inside R) (setCrbIt p it) := by
  cases p with
  | none => exact .throw _
  | some p => exact .seq (deref_inside p) <| modify_inside fun _ => rfl

theorem clearCrbIt_inside (conn : Option Ptr) : Does (Inside R) (clearCrbIt conn) := by
  cases conn with
  | none => exact .pure _
  | some p => exact .seq (deref_inside p) <| .get_bind fun _ => .ite (setCrbIt_inside _ _) (.pure _)

theorem crbDelete_inside (it : Iter) : Does (Inside R) (crbDelete it) := by
  cases it with
  | none => exact .pure _
  | some n =>
      exact .seq (atNode_inside n) <| .get_bind fun _ => .seq (clearCrbIt_inside _) <|
        .seq (modify_inside fun _ => rfl) <| .seq (modBlock_inside _ _) <|
        .ret (eraseNode_inside n)

theorem crbDelay_inside (n : ℕ) : Does (Inside R) (crbDelay n) :=
  .seq (atNode_inside n) <| .seq crbNew_inside <| .seq (atNode_inside _) <| .get_bind fun _ =>
    .seq (modBlock_inside _ _) <| .seq gettimeofday_inside <| .seq (modBlock_inside _ _) <|
    .get_bind fun _ => .seq (note_inside _) <| .seq (modify_inside fun _ => rfl) <|
    .seq gettimeofday_inside <| .seq (modBlock_inside _ _) <| .seq (eraseNode_inside n) <|
    .get_bind fun _ => .ret (setCrbIt_inside _ _)

theorem watch_inside (fd : ℕ) (p : Ptr) : Does (Inside R) (watch fd p) :=
  .seq crbNew_inside <| .seq (setCrbIt_inside _ _) <| .seq (atNode_inside _) <|
    .seq (modBlock_inside _ _) <| .seq gettimeofday_inside <| .seq (modBlock_inside _ _) <|
    .get_bind fun _ => note_inside _

theorem inWindow_inside : Does (Inside R) inWindow :=
  .get_bind fun _ => .ite (.seq gettimeofday_inside <| .get_bind fun _ =>
    .ite (.pure _) (.ret (modify_inside fun _ => rfl))) (.pure _)

omit [IsTrans State R] in
theorem isProxied_inside (c : Connect) : Does (Inside R) (isProxied c) := by
  refine .ite (.pure _) ?_
  cases c.peer with
  | none => exact .throw _
  | some q => exact .ret (deref_inside q)

end Inside

/-! ### Deleting -/

section Pruning

variable {R : State → State → Prop} [Pruning R]

theorem eraseEntry_inside (fd : ℕ) : Does (Inside R) (eraseEntry fd) :=
  onSdk_inside (.modify fun s => Pruning.erase s fd)

theorem destroy_inside (p : Ptr) : Does (Inside R) (destroy p) := by
  have hdel : Does (Inside R) (onSdk (modify (fun s => { s with conns := Function.update s.conns p none }))) :=
    onSdk_inside (.modify fun s => Pruning.delete s p)
  refine .bind (deref_inside p) fun c => ?_
  have hrest : ∀ _ : Unit, Does (Inside R) (do
      if c.type = .proxy then crbDelete ((← get).crbIt p)
      onSdk (modify (fun s => { s with conns := Function.update s.conns p none }))) := fun _ =>
    .ite (.get_bind fun _ => .seq (crbDelete_inside _) <| hdel) hdel
  exact .ite (.seq (onSdk_inside (Pruning.unregister _)) <|
    .bind (onSdk_inside (.modify fun s => Pruning.shut s p)) hrest) (hrest ())

theorem dropConn_inside (p : Ptr) : Does (Inside R) (dropConn p) :=
  .seq (deref_inside p) <| .seq (eraseEntry_inside _) <| destroy_inside p

theorem dropPeer_inside (peer : Option Ptr) : Does (Inside R) (dropPeer peer) := by
  cases peer with
  | none => exact .pure _
  | some q => exact dropConn_inside q

theorem yMEShutDown_inside (fd : ℕ) : Does (Inside R) (yMEShutDown fd) := by
  refine .get_bind fun w => ?_
  rcases w.sdk.connMap fd with _ | _ | p
  · exact .pure _
  · exact .ret (eraseEntry_inside fd)
  · exact .seq (destroy_inside p) <| .ret (eraseEntry_inside fd)

theorem loginEnd_inside (p : Ptr) : Does (Inside R) (loginEnd p) :=
  .get_bind fun _ => .ite
    (.seq (modify_inside fun _ => rfl) <| .seq (deref_inside p) <|
      .ite (.ret (yMEShutDown_inside _)) (.pure _))
    (.pure _)

end Pruning

/-! ### Removing -/

/-- The scan follows every relation that `RemoveConnect` follows. -/
theorem crbScan_follows {R : State → State → Prop} [Std.Refl R] [IsTrans State R]
    (hremove : ∀ fd, Does (Inside R) (removeConnect fd)) : Does (Inside R) crbScan := by
  have hnode (now : Timeval) (n : ℕ) (b : BlockPtr) : Does (Inside R) (scanNode now n b) := by
    refine .get_bind fun w => .get_bind fun w' => ?_
    rcases w'.sdk.connMap (w.blocks b).fd with _ | _ | p
    · exact .ret (crbDelete_inside _)
    · exact .throw _
    · exact .seq (deref_inside p) <| .ite
        (.seq (atNode_inside n) <| .get_bind fun _ => .get_bind fun _ =>
          .seq (note_inside _) <| .ret (hremove _))
        (.seq (modBlock_inside _ _) <| crbDelay_inside n)
  have hfrom (now : Timeval) (i : ℕ) (it : Iter) : Does (Inside R) (scanFrom now i it) := by
    induction i generalizing it with
    | zero => exact .pure _
    | succ i ih =>
        cases it with
        | none => exact .pure _
        | some n =>
            exact .bind (atNode_inside n) fun b => .get_bind fun _ =>
              .ite (.bind (hnode now n b) fun it => ih it) (.pure _)
  exact .seq gettimeofday_inside <| .get_bind fun _ => hfrom _ _ _

section Removing

variable {R : State → State → Prop} [Removing R]

theorem removeEntry_inside (p : Ptr) : Does (Inside R) (removeEntry p) := by
  have hend : Does (Inside R) (modify (fun w => { w with connCount := w.connCount - 1 }) : WorldM PUnit) :=
    modify_inside fun _ => rfl
  refine .bind (deref_inside p) fun c => ?_
  have hrest : ∀ peer : Option Ptr, Does (Inside R) (do
      onSdk (modConn p Connect.down)
      if ← isProxied c then
        dropPeer peer
        dropConn p
      else onSdk (wakeupUser p)
      modify (fun w => { w with connCount := w.connCount - 1 })) := fun _ =>
    .seq (onSdk_inside (Removing.down p)) <| .seq (isProxied_inside c) <|
      .ite (.seq (dropPeer_inside _) <| .seq (dropConn_inside p) <| hend)
        (.seq (onSdk_inside (.modify fun s => Removing.wakeup s p)) <| hend)
  refine .ite ?_ (hrest _)
  cases c.peer with
  | none => exact hrest none
  | some q => exact .seq (deref_inside q) <| hrest (some q)

theorem removeConnect_inside (fd : ℕ) : Does (Inside R) (removeConnect fd) := by
  refine .get_bind fun w => ?_
  rcases w.sdk.connMap fd with _ | _ | p
  · exact .ret (onSdk_inside (Pruning.unregister fd))
  · exact .throw _
  · exact .ret (removeEntry_inside p)

theorem crbScan_inside : Does (Inside R) crbScan := crbScan_follows removeConnect_inside

end Removing

end HttpsTunnel.Sdk

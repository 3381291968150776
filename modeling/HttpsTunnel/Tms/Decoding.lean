import HttpsTunnel.Tms.Passive
import HttpsTunnel.Lib.Reads

/-! # Decoding in the tunnel server

What the handlers do to the decoders of the connections: a handler called on one connection may close
others and start agents, and it leaves the decoders of all others as they were (`Kept`).  Only
BEGIN_TRANSMIT changes the decoder it was called from, and only the forward branch for an agent leaves
bytes behind in the buffer.  With this the read loop decodes (`endpoint_lawful`). -/

namespace HttpsTunnel.Tms

open HttpsTunnel.Lib HttpsTunnel.Wire

/-! ### What stays -/

/-- The decoder of a connection just opened, or of one at a message boundary. -/
structure Desk.New (d : Desk) : Prop where
  status : d.status ≠ .hangup
  offset : d.offset = 0
  mode : d.cstate = .header ∧ d.still = hdrSize ∨ d.cstate = .forward ∧ d.still = buffSize

theorem agentConnect_new (fd : ℕ) (mem : Buff) : (agentConnect fd mem).desk.New :=
  ⟨by simp [Connect.desk, agentConnect], rfl, .inr ⟨rfl, rfl⟩⟩

theorem fresh_new (mem : Buff) (fd : ℕ) (now : Timeval) : ((Connect.fresh mem).accepted fd now).desk.New :=
  ⟨by simp [Connect.desk, Connect.fresh, Connect.accepted], rfl, .inl ⟨rfl, rfl⟩⟩

/-- From `s` to `s'` a connection is as it was or new, and one that is hung up is not registered. -/
structure Kept (s s' : Server) : Prop where
  conn : ∀ {p c'}, s'.conns p = some c' → (∃ c, s.conns p = some c ∧ c'.desk = c.desk) ∨ c'.desk.New
  hung : ∀ {fd p c'}, s'.connMap fd = some p → s'.conns p = some c' → c'.status = .hangup →
    s.connMap fd = some p ∧ (s'.epoll fd ≠ none → s.epoll fd ≠ none)

namespace Kept

variable {s s' s'' : Server} {p : Ptr} {c c' : Connect}

/-- A connection that is hung up was so before. -/
theorem hung_conn (h : Kept s s') (hc : s'.conns p = some c') (hs : c'.status = .hangup) :
    ∃ c, s.conns p = some c ∧ c'.desk = c.desk :=
  (h.conn hc).resolve_right fun hn => hn.status hs

theorem trans (h : Kept s s') (h' : Kept s' s'') : Kept s s'' where
  conn hc := by
    obtain ⟨c₁, hc₁, hd⟩ | hn := h'.conn hc
    · obtain ⟨c, hc, hd'⟩ | hn := h.conn hc₁
      · exact .inl ⟨c, hc, hd.trans hd'⟩
      · exact .inr (hd ▸ hn)
    · exact .inr hn
  hung hm hc hs := by
    obtain ⟨hm₁, he⟩ := h'.hung hm hc hs
    obtain ⟨c₁, hc₁, hd⟩ := h'.hung_conn hc hs
    have hs₁ : c₁.status = .hangup := (congrArg Desk.status hd).symm.trans hs
    obtain ⟨hm₀, he₀⟩ := h.hung hm₁ hc₁ hs₁
    exact ⟨hm₀, fun hne => he₀ (he hne)⟩

/-- Entries and registrations may go. -/
theorem of_le (hc : ∀ {p c}, s'.conns p = some c → s.conns p = some c)
    (hm : ∀ {fd p}, s'.connMap fd = some p → s.connMap fd = some p)
    (he : ∀ fd, s'.epoll fd ≠ none → s.epoll fd ≠ none) : Kept s s' where
  conn h := .inl ⟨_, hc h, rfl⟩
  hung h _ _ := ⟨hm h, he _⟩

theorem of_desk (hc : s.conns p = some c) (hd : c'.desk = c.desk) : Kept s (s.setConn p c') where
  conn {q d} hq := by
    obtain ⟨rfl, rfl⟩ | ⟨-, hq⟩ := update_some_eq hq
    · exact .inl ⟨c, hc, hd⟩
    · exact .inl ⟨d, hq, rfl⟩
  hung hm _ _ := ⟨hm, id⟩

end Kept

theorem update_ne_none {α : Type} {f : ℕ → Option α} {a : ℕ} (b : ℕ) (h : Function.update f a none b ≠ none) :
    f b ≠ none := by
  by_cases hb : b = a
  · simp [hb] at h
  · rwa [Function.update_of_ne hb] at h

theorem update_eq_some {α : Type} {f : ℕ → Option α} {a b : ℕ} {x : α}
    (h : Function.update f a none b = some x) : f b = some x := by
  by_cases hb : b = a
  · simp [hb] at h
  · rwa [Function.update_of_ne hb] at h

instance : Closing Kept where
  refl s := ⟨fun h => .inl ⟨_, h, rfl⟩, fun h _ _ => ⟨h, id⟩⟩
  trans _ _ _ := Kept.trans
  tables {s s'} h _ := by
    have hc : s'.conns = s.conns := congrArg Tables.conns h
    have hm : s'.connMap = s.connMap := congrArg Tables.connMap h
    have he : s'.epoll = s.epoll := congrArg Tables.epoll h
    exact .of_le (fun h => hc ▸ h) (fun h => hm ▸ h) fun _ h => he ▸ h
  desk := Kept.of_desk
  clear _ _ := .of_le id id fun _ => id
  unregister fd s := by
    simp only [removeEvent, wlp, wpe_bind, wpe_get]
    cases s.epoll fd with
    | none => exact .of_le id id fun _ => id
    | some m => exact .of_le id id fun b => update_ne_none b
  close fd s := by
    simp only [closeFd, wlp, wpe_bind, wpe_get, wpe_ite]
    exact ⟨fun _ => .of_le id id fun b => update_ne_none b, fun _ => .of_le id id fun _ => id⟩
  erase s fd := .of_le id (fun h => update_eq_some h) fun _ => id
  delete s p := .of_le (fun h => update_eq_some h) id fun _ => id
  pool s p := .of_le id id fun _ => id

/-! ### New agents -/

/-- The decoders, the table and the registrations are the same. -/
structure SameDesks (s s' : Server) : Prop where
  conns : ∀ p, (s'.conns p).map Connect.desk = (s.conns p).map Connect.desk
  connMap : s'.connMap = s.connMap
  epoll : s'.epoll = s.epoll

instance : Recycling SameDesks where
  refl _ := ⟨fun _ => rfl, rfl, rfl⟩
  trans _ _ _ h h' := ⟨fun p => (h'.conns p).trans (h.conns p), h'.connMap.trans h.connMap,
    h'.epoll.trans h.epoll⟩
  tables {s s'} h _ := by
    have hc : s'.conns = s.conns := congrArg Tables.conns h
    exact ⟨fun _ => by rw [hc], congrArg Tables.connMap h, congrArg Tables.epoll h⟩
  desk {s p c c'} hc hd := by
    refine ⟨fun q => ?_, rfl, rfl⟩
    by_cases hqp : q = p
    · subst hqp
      simp [Server.setConn, hc, hd]
    · simp [Server.setConn, hqp]
  clear _ _ := ⟨fun _ => rfl, rfl, rfl⟩

theorem SameDesks.desk {s s' : Server} {p : Ptr} {c : Connect} (h : SameDesks s s') (hc : s.conns p = some c) :
    ∃ c', s'.conns p = some c' ∧ c'.desk = c.desk := by
  have hp := h.conns p
  rw [hc, Option.map_some] at hp
  exact Option.map_eq_some_iff.mp hp

section Agents

variable {s : Server}

/-- A new connection, of a descriptor that leads to it. -/
theorem newConn_kept {fd : ℕ} {c : Connect} (hc : c.desk.New) :
    wlp (newConn fd c) (fun p s' => Kept s s' ∧ s'.conns p = some c ∧ s'.connMap fd = some p) s := by
  simp only [newConn, wlp, wpe_bind, wpe_get, wpe_set, wpe_pure]
  refine ⟨⟨fun {q d} hq => ?_, fun {fd' q d} hm hq hs => ?_⟩, Function.update_self .., Function.update_self ..⟩
  · by_cases hqn : q = s.nextConn
    · have hd : some c = some d := by simpa [Server.emit, Server.setMap, Server.setConn, hqn] using hq
      exact .inr (Option.some.inj hd ▸ hc)
    · exact .inl ⟨d, by simpa [Server.emit, Server.setMap, Server.setConn, hqn] using hq, rfl⟩
  · by_cases hqn : q = s.nextConn
    · have hd : some c = some d := by simpa [Server.emit, Server.setMap, Server.setConn, hqn] using hq
      exact absurd hs (Option.some.inj hd ▸ hc).status
    · have hne : fd' ≠ fd := by
        rintro rfl
        have hm' : some s.nextConn = some q := by simpa [Server.emit, Server.setMap, Server.setConn] using hm
        exact hqn (Option.some.inj hm').symm
      exact ⟨by simpa [Server.emit, Server.setMap, Server.setConn, hne] using hm, id⟩

theorem createAgentConn_kept :
    wlp createAgentConn (fun r s' => Kept s s' ∧ ∀ p, r = some p →
      ∃ c, s'.conns p = some c ∧ c.desk.New ∧ s'.connMap c.sockFd = some p) s := by
  simp only [createAgentConn, wlp, wpe_bind]
  refine wlp_mono (sockOpen_passive (R := Kept) s) ?_
  rintro (_ | fd) s₁ h₁
  · exact ⟨h₁, fun _ h => absurd h (by simp)⟩
  · simp only [wpe_bind, wpe_get]
    refine wlp_mono (newConn_kept (agentConnect_new fd s₁.mem)) ?_
    rintro p s₂ ⟨h₂, hc, hm⟩
    refine ⟨h₁.trans h₂, fun q hq => ?_⟩
    cases hq
    exact ⟨_, hc, agentConnect_new fd _, hm⟩

/-- A registration of a descriptor that leads to a connection that is not hung up. -/
theorem addEvent_kept {p : Ptr} {c : Connect} {fd : ℕ} (hm : s.connMap fd = some p) (hc : s.conns p = some c)
    (hs : c.status ≠ .hangup) (m : Mask) : wlp (addEvent fd m) (fun _ s' => Kept s s') s := by
  simp only [addEvent, wlp, wpe_bind, wpe_get]
  cases s.epoll fd with
  | some _ => exact Passive.tables rfl rfl
  | none =>
      refine ⟨fun h => .inl ⟨_, h, rfl⟩, fun {fd' q d} hm' hq hs' => ⟨hm', fun he => ?_⟩⟩
      have hne : fd' ≠ fd := by
        rintro rfl
        have hqp : p = q := Option.mem_unique hm hm'
        subst hqp
        have hd : c = d := Option.mem_unique hc hq
        exact hs (hd ▸ hs')
      have hold : Function.update s.epoll fd (some m) fd' = s.epoll fd' := Function.update_of_ne hne _ _
      exact hold ▸ he

theorem connectWebServer_kept (u : UserId) (t : Ptr) (ip port : ℕ) : Does Kept (connectWebServer u t ip port) := by
  intro s
  simp only [connectWebServer, wlp, wpe_bind]
  refine wlp_mono createAgentConn_kept ?_
  rintro (_ | a) s₁ ⟨h₁, hnew⟩
  · simp only [wpe_bind]
    exact wlp_mono (sendTmsMsg_does (R := Kept) t _ s₁) fun _ s₂ h₂ => h₁.trans h₂
  · obtain ⟨c, hc, hn, hm⟩ := hnew a rfl
    simp only [wpe_bind, wpe_deref, wpe_get, wpe_emit]
    refine ⟨fun _ => trivial, fun t' _ => ?_⟩
    refine wlp_mono (wlp_and (attachAgent_does (R := SameDesks) u t a port _)
      (attachAgent_does (R := Kept) u t a port _)) ?_
    rintro k s₂ ⟨hsame, h₂⟩
    refine ⟨fun _ => trivial, fun a' ha' => ?_⟩
    obtain ⟨c', hc', hd⟩ := hsame.desk (p := a) hc
    obtain rfl : c' = a' := Option.mem_unique hc' ha'
    have hfd : c'.sockFd = c.sockFd := congrArg Desk.fd hd
    have hst : c'.status ≠ .hangup := fun h => hn.status ((congrArg Desk.status hd).symm.trans h)
    have hm' : s₂.connMap c'.sockFd = some a := by
      rw [hsame.connMap, hfd]
      exact hm
    have hemit : Kept s₁ (s₁.emit (.connect a ip port u t (t'.scb.map s₁.scbs))) := Passive.tables rfl rfl
    refine wlp_mono (addEvent_kept hm' hc' hst _) fun _ s₃ h₃ => ?_
    refine wlp_mono (sendTmsMsg_does (R := Kept) t _ s₃) fun _ s₄ h₄ => ?_
    exact h₁.trans (hemit.trans (h₂.trans (h₃.trans h₄)))

instance : Opening Kept where
  connect := connectWebServer_kept

end Agents

/-! ### Messages -/

/-- From `s` to `s'` the decoders are kept, but for a switch of `p` to forward mode. -/
def KeptBut (p : Ptr) (s s' : Server) : Prop :=
  Kept s s' ∨ ∃ c, s.conns p = some c ∧ Kept (s.setConn p c.switchForw) s'

theorem KeptBut.trans {p : Ptr} {s s' s'' : Server} (h : KeptBut p s s') (h' : Kept s' s'') : KeptBut p s s'' := by
  obtain h | ⟨c, hc, h⟩ := h
  · exact .inl (h.trans h')
  · exact .inr ⟨c, hc, h.trans h'⟩

theorem handleBeginTransmit_keptBut (p : Ptr) : Does (KeptBut p) (handleBeginTransmit p) := by
  intro s
  have hrefl : KeptBut p s s := .inl (refl_of Kept s)
  simp only [handleBeginTransmit, wlp, wpe_bind, wpe_deref]
  refine ⟨fun _ => trivial, fun c hc => ?_⟩
  cases c.scb with
  | none => exact hrefl
  | some k =>
      simp only [wpe_bind, wpe_getScb, wpe_ite, wpe_modConn, wpe_pure]
      exact ⟨fun _ => ⟨fun _ => trivial, fun c' hc' => .inr ⟨c', hc', refl_of Kept _⟩⟩, fun _ => hrefl⟩

theorem handleRecvMsg_keptBut (p : Ptr) (msglen : ℕ) : Does (KeptBut p) (handleRecvMsg p msglen) := by
  intro s
  simp only [handleRecvMsg, wlp, wpe_bind, wpe_deref, wpe_emit, wpe_ite, wpe_pure]
  refine ⟨fun _ => trivial, fun c hc => ?_⟩
  have hemit : Kept s (s.emit (.msg p c msglen)) := Passive.tables rfl rfl
  refine ⟨fun _ => .inl hemit, fun _ => ?_⟩
  split
  · exact wlp_mono (handleLoginReq_opening (R := Kept) p _) fun _ _ h => .inl (hemit.trans h)
  · refine wlp_mono (handleBeginTransmit_keptBut p _) fun _ s' h => ?_
    obtain h | ⟨c', hc', h⟩ := h
    · exact .inl (hemit.trans h)
    · have hset : Kept (s.setConn p c'.switchForw) ((s.emit (.msg p c msglen)).setConn p c'.switchForw) :=
        Passive.tables rfl rfl
      exact .inr ⟨c', hc', hset.trans h⟩
  · exact wlp_mono (handleReadTokenRsp_closing (R := Kept) p _) fun _ _ h => .inl (hemit.trans h)
  · exact wlp_mono (handleTrafficReportRsp_does (R := Kept) p _) fun _ _ h => .inl (hemit.trans h)
  · exact .inl hemit

theorem onMsg_keptBut (p : Ptr) (length : ℕ) : Does (KeptBut p) (onMsg p length) := by
  intro s
  simp only [onMsg, wlp, wpe_bind, wpe_deref]
  refine ⟨fun _ => trivial, fun c _ => ?_⟩
  refine wlp_mono (handleRecvMsg_keptBut p c.dec.h s) fun _ s₁ h₁ => ?_
  exact wlp_mono (chargeMsg_passive (R := Kept) p length s₁) fun _ _ h₂ => h₁.trans h₂

/-- A connection after a handler that was called at a message boundary: it is at one, or in forward mode. -/
theorem KeptBut.cases {p : Ptr} {s s' : Server} {c c' : Connect} (h : KeptBut p s s') (hc : s.conns p = some c)
    (hc' : s'.conns p = some c') : c'.desk = c.desk ∨ c'.desk = c.switchForw.desk ∨ c'.desk.New := by
  obtain h | ⟨d, hd, h⟩ := h
  · obtain ⟨d, hd, he⟩ | hnew := h.conn hc'
    · obtain rfl : c = d := Option.mem_unique hc hd
      exact .inl he
    · exact .inr (.inr hnew)
  · obtain rfl : c = d := Option.mem_unique hc hd
    obtain ⟨d, hd, he⟩ | hnew := h.conn hc'
    · obtain rfl : c.switchForw = d := by simpa [Server.setConn] using hd
      exact .inr (.inl he)
    · exact .inr (.inr hnew)

/-! ### Forwarding -/

/-- From `s` to `s'` connection `p` is hung up: bytes stay in its buffer, and it is not registered. -/
structure HungUp (p : Ptr) (s s' : Server) : Prop where
  self : ∃ c c' n k, s.conns p = some c ∧ s'.conns p = some c' ∧
    c'.desk = { c.desk with status := .hangup, datalen := n, offset := k } ∧ s'.epoll c.sockFd = none
  others : ∀ q, q ≠ p → (s'.conns q).map Connect.desk = (s.conns q).map Connect.desk
  connMap : s'.connMap = s.connMap
  epoll : ∀ fd, s'.epoll fd ≠ none → s.epoll fd ≠ none

theorem HungUp.of_same {p : Ptr} {s s₁ s' : Server} (h : HungUp p s₁ s') (hs : SameDesks s s₁) : HungUp p s s' where
  self := by
    obtain ⟨c₁, c', n, k, hc₁, hc', hd, he⟩ := h.self
    have hp := hs.conns p
    rw [hc₁, Option.map_some] at hp
    obtain ⟨c, hc, hd'⟩ := Option.map_eq_some_iff.mp hp.symm
    have hfd : c.sockFd = c₁.sockFd := congrArg Desk.fd hd'
    exact ⟨c, c', n, k, hc, hc', by rw [hd, hd'], by rw [hfd, he]⟩
  others q hq := (h.others q hq).trans (hs.conns q)
  connMap := h.connMap.trans hs.connMap
  epoll fd hne := hs.epoll ▸ h.epoll fd hne

/-- What a handler of the forward branch does: nothing to the decoders, or it hangs `p` up and ends the
loop. -/
def PassesOn (p : Ptr) (s : Server) (r : Option ℤ) (s' : Server) : Prop :=
  SameDesks s s' ∨ r ≠ none ∧ HungUp p s s'

theorem removeEvent_none (fd : ℕ) (s : Server) :
    wlp (removeEvent fd) (fun _ s' => s'.conns = s.conns ∧ s'.connMap = s.connMap ∧ s'.epoll fd = none ∧
      ∀ fd', s'.epoll fd' ≠ none → s.epoll fd' ≠ none) s := by
  simp only [removeEvent, wlp, wpe_bind, wpe_get]
  cases he : s.epoll fd with
  | none => exact ⟨rfl, rfl, he, fun _ => id⟩
  | some m => exact ⟨rfl, rfl, Function.update_self .., fun b => update_ne_none b⟩

theorem hangUp_hungUp (p : Ptr) (wrote length : ℕ) (s : Server) :
    wlp (hangUp p wrote length) (fun r s' => r ≠ none ∧ HungUp p s s') s := by
  simp only [hangUp, wlp, wpe_bind, wpe_modConn, wpe_deref, wpe_ite, wpe_pure]
  refine ⟨fun _ => trivial, fun c hc => ⟨fun _ => trivial, fun c' hc' => ?_⟩⟩
  obtain rfl : { c with datalen := length - wrote, status := .hangup, dec := { c.dec with offset := wrote } } = c' := by
    simpa [Server.setConn] using hc'
  refine wlp_mono (removeEvent_none c.sockFd _) ?_
  rintro code s' ⟨hconns, hmap, hnone, hepoll⟩
  have hup : HungUp p s s' := by
    refine ⟨⟨c, _, length - wrote, wrote, hc, hconns ▸ hc', rfl, hnone⟩, fun q hq => ?_, hmap, hepoll⟩
    rw [hconns]
    simp [Server.setConn, hq]
  exact ⟨fun _ => ⟨by simp, hup⟩, fun _ => ⟨by simp, hup⟩⟩

theorem hangUp_passesOn {p : Ptr} {s s₁ : Server} (h : SameDesks s s₁) (wrote length : ℕ) :
    wlp (hangUp p wrote length) (fun r s' => PassesOn p s r s') s₁ :=
  wlp_mono (hangUp_hungUp p wrote length s₁) fun _ _ h' => .inr ⟨h'.1, h'.2.of_same h⟩

theorem forwardDown_passesOn (p : Ptr) (c : Connect) (k : ScbPtr) (t : Ptr) (length : ℕ) (s : Server) :
    wlp (forwardDown p c k t length) (fun r s' => PassesOn p s r s') s := by
  simp only [forwardDown, wlp, wpe_bind, wpe_deref]
  refine ⟨fun _ => trivial, fun tn _ => ?_⟩
  refine wlp_mono (sendRelay_passive (R := SameDesks) _ _ _ _ _ s) ?_
  rintro (_ | wrote) s₁ h₁
  · exact hangUp_passesOn h₁ 0 length
  · simp only [wpe_bind, wpe_nonNull, wpe_charge]
    refine ⟨fun _ => trivial, fun u _ => ?_⟩
    refine wlp_mono (recordTraffic_does (R := SameDesks) _ _ _ s₁) fun ret s₂ h₂ => ?_
    have h₂ := trans_of SameDesks h₁ h₂
    simp only [wpe_ite, wpe_bind, wpe_pure]
    refine ⟨fun _ => ?_, fun _ => ⟨fun _ => hangUp_passesOn h₂ wrote length, fun _ => .inl h₂⟩⟩
    exact wlp_mono (emitCutoff_passive (R := SameDesks) p t s₂) fun _ s₃ h₃ => .inl (trans_of SameDesks h₂ h₃)

theorem onForward_passesOn (p : Ptr) (length : ℕ) (s : Server) :
    wlp (onForward p length) (fun r s' => PassesOn p s r s') s := by
  simp only [onForward, emitFwd, wlp, wpe_bind, wpe_deref, wpe_get, wpe_emit]
  refine ⟨fun _ => trivial, fun c _ => ?_⟩
  generalize ho : Obs.fwd p c _ _ _ _ = o
  have h₁ : SameDesks s (s.emit o) := Passive.tables rfl rfl
  cases c.scb with
  | none => exact .inl h₁
  | some k =>
      simp only [wpe_bind, wpe_getScb]
      split
      · next t a _ _ =>
          split
          · refine wlp_mono (forwardDown_passesOn p c k t length _) fun r s' h => ?_
            obtain h | ⟨hr, h⟩ := h
            · exact .inl (trans_of SameDesks h₁ h)
            · exact .inr ⟨hr, h.of_same h₁⟩
          · exact wlp_mono (forwardUp_passive (R := SameDesks) p c k a length _)
              fun _ _ h => .inl (trans_of SameDesks h₁ h)
          · exact .inl h₁
      · simp only [wpe_bind, wpe_nonNull, wpe_pure]
        exact ⟨fun _ => trivial, fun _ _ => .inl h₁⟩

/-! ### The read loop -/

section Loop

variable {s : Server} {p : Ptr} {c : Connect}

theorem endpoint_put (hc : s.conns p = some c) (d : Decoder) (n : ℕ) :
    (endpoint p).put d ((endpoint p).onRead n s) = s.setConn p { c with dec := d } := by
  simp [endpoint, hc]

/-- **Decoding.**  The handlers of the tunnel server leave decoders alone, but for the switch to forward
mode. -/
theorem endpoint_lawful (p : Ptr) : Lawful (endpoint p) where
  view_put {s d₀} d hv := by
    obtain ⟨c, hc, -⟩ := Option.map_eq_some_iff.mp hv
    simp [endpoint, hc, Server.setConn]
  view_errno _ _ := rfl
  view_onRead _ _ := rfl
  onMsg {s d} hv hd n := by
    obtain ⟨c, hc, rfl⟩ := Option.map_eq_some_iff.mp hv
    refine wlp_mono (onMsg_keptBut p n s) fun _ s' h d' hd' => ?_
    obtain ⟨c', hc', rfl⟩ := Option.map_eq_some_iff.mp hd'
    obtain he | he | hnew := h.cases hc hc'
    · exact ⟨congrArg Desk.offset he, .inl ⟨congrArg Desk.cstate he, congrArg Desk.still he⟩⟩
    · exact ⟨congrArg Desk.offset he, .inr ⟨congrArg Desk.cstate he, congrArg Desk.still he⟩⟩
    · obtain ⟨hm, ho, hs⟩ := hd
      refine ⟨hnew.offset.trans ho.symm, ?_⟩
      obtain ⟨hm', hs'⟩ | h' := hnew.mode
      · exact .inl ⟨hm'.trans hm.symm, hs'.trans hs.symm⟩
      · exact .inr h'
  onForward {s d} hv hd n := by
    obtain ⟨c, hc, rfl⟩ := Option.map_eq_some_iff.mp hv
    refine wlp_mono (onForward_passesOn p n s) fun r s' h d' hd' => ?_
    obtain ⟨c', hc', rfl⟩ := Option.map_eq_some_iff.mp hd'
    obtain h | ⟨hr, h⟩ := h
    · obtain ⟨c₁, hc₁, he⟩ := h.desk hc
      obtain rfl : c₁ = c' := Option.mem_unique hc₁ hc'
      refine ⟨(congrArg Desk.cstate he).trans hd, fun _ hready _ => ?_⟩
      obtain ⟨ho, hs⟩ := hready hd
      exact ⟨(congrArg Desk.offset he).trans ho, (congrArg Desk.still he).trans hs⟩
    · obtain ⟨c₀, c₁, _, _, hc₀, hc₁, he, -⟩ := h.self
      obtain rfl : c₁ = c' := Option.mem_unique hc₁ hc'
      obtain rfl : c₀ = c := Option.mem_unique hc₀ hc
      exact ⟨(congrArg Desk.cstate he).trans hd, fun hnone => absurd hnone hr⟩

end Loop

end HttpsTunnel.Tms

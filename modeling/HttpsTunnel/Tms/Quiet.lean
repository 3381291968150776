import HttpsTunnel.Tms.Net
import HttpsTunnel.Tms.Passive

/-! # Programs the abstract view does not see

`Same` relates two states with the same abstract view.  The views of the basic updates, and
the functions of the server that leave the view alone: charging and reporting traffic,
sending messages, and all that only concerns the kernel's bookkeeping. -/

namespace HttpsTunnel.Tms

open HttpsTunnel.Lib HttpsTunnel.Wire

/-- Two states with the same abstract view. -/
def Same (s s' : Server) : Prop := s'.net = s.net

instance : Std.Refl Same := ⟨fun _ => rfl⟩

instance : IsTrans Server Same := ⟨fun _ _ _ h h' => Eq.trans h' h⟩

/-! ### Views of updates -/

section Views

variable (s : Server)

theorem net_setConn (p : Ptr) (c : Connect) : (s.setConn p c).net = s.net.setConn p c.node := by
  simp only [Server.net, Server.setConn, Net.setConn, Net.mk.injEq, and_self, and_true]
  funext q
  by_cases h : q = p <;> simp [h, Function.update]

theorem net_setScb (k : ScbPtr) (b : SCB) : (s.setScb k b).net = s.net.setBlock k b.block := by
  simp only [Server.net, Server.setScb, Net.setBlock, Net.mk.injEq, and_self, and_true, true_and]
  funext j
  by_cases h : j = k <;> simp [h, Function.update]

theorem net_setMap (fd : ℕ) (p : Option Ptr) : (s.setMap fd p).net = s.net.setTable fd p := rfl

theorem net_emit {o : Obs} (h : o.isKey = true) : (s.emit o).net = s.net.emit o := by
  simp [Server.net, Server.emit, Net.emit, h]

theorem net_emit_quiet {o : Obs} (h : o.isKey = false) : (s.emit o).net = s.net := by
  simp [Server.net, Server.emit, h]

variable {s}

theorem net_conns_of {p : Ptr} {c : Connect} (h : s.conns p = some c) :
    s.net.conns p = some c.node := by
  simp [Server.net, h]

theorem conns_of_net {p : Ptr} {n : Node} (h : s.net.conns p = some n) :
    ∃ c, s.conns p = some c ∧ c.node = n :=
  Option.map_eq_some_iff.mp h

theorem net_setConn_same {p : Ptr} {c c' : Connect} (h : s.conns p = some c)
    (hn : c'.node = c.node) : (s.setConn p c').net = s.net := by
  rw [net_setConn, hn, Net.setConn_self (net_conns_of h)]

theorem net_setScb_same {k : ScbPtr} {b : SCB} (h : b.block = (s.scbs k).block) :
    (s.setScb k b).net = s.net := by
  rw [net_setScb, h]
  exact Net.setBlock_self s.net k

theorem net_setUser_same {u : UserId} {v v' : User} (h : s.userMap u = some v)
    (ht : v'.scbTree = v.scbTree) : (s.setUser u v').net = s.net := by
  simp only [Server.net, Server.setUser, Net.mk.injEq, true_and, and_true]
  funext x
  by_cases hx : x = u <;> simp [hx, Function.update, h, ht]

end Views

/-! ### Basic operations -/

instance : Sending Same where
  traffic _ _ _ := net_setScb_same rfl
  user := net_setUser_same
  sent s _ _ := net_emit_quiet s rfl
  exit hc := net_setConn_same hc rfl
  kernel _ _ _ := rfl
  ctl s _ _ := net_emit_quiet s rfl
  report s _ := net_emit_quiet s rfl

theorem modConn_same {p : Ptr} {f : Connect → Connect} (h : ∀ c, (f c).node = c.node) :
    Does Same (modConn p f) :=
  fun _ => wpe_modConn.mpr ⟨fun _ => trivial, fun c hc => net_setConn_same hc (h c)⟩

theorem modScb_same {k : ScbPtr} {f : SCB → SCB} (h : ∀ b, (f b).block = b.block) :
    Does Same (modScb k f) :=
  fun _ => wpe_modScb.mpr (net_setScb_same (h _))

/-- Only an open socket that has not been shut down accepts bytes. -/
theorem sockSend_spec (fd : ℕ) (bs : List UInt8) (s : Server) :
    wlp (sockSend fd bs) (fun r s' => s'.net = s.net ∧ s'.conns = s.conns ∧
      ∀ n, r = some n → n ≤ bs.length ∧ fd ∈ s.openFds ∧ fd ∉ s.shutFds) s := by
  simp only [sockSend, wpe_bind, wpe_get, wpe_ite]
  refine ⟨fun _ => ⟨rfl, rfl, by simp⟩, fun ho => ⟨fun _ => ⟨rfl, rfl, by simp⟩, fun hs => ?_⟩⟩
  rw [not_not] at ho
  rcases s.sends with _ | ⟨m | e, rest⟩
  · exact ⟨rfl, rfl, fun n hn => by cases hn; exact ⟨le_rfl, ho, hs⟩⟩
  · exact ⟨rfl, rfl, fun n hn => by cases hn; exact ⟨min_le_right _ _, ho, hs⟩⟩
  · exact ⟨rfl, rfl, by simp⟩

instance : Unwatched Same := ⟨fun _ _ _ => rfl⟩

theorem newForwardId_same : Does Same newForwardId := fun _ => rfl

theorem fetchError_same (e : Event) : Does Same (fetchError e) := fetchError_of (fun _ _ _ => rfl) e

theorem load_same (s : Server) (e : Event) : (s.load e).net = s.net := rfl

end HttpsTunnel.Tms

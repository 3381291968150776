import Mathlib.Tactic

/-! # A relay with one pending region

A relay passes on what it reads.  The receiver may take less than it is offered: the rest stays
pending, and nothing more is read until it has been flushed.  A `Relay` is such a relay with its
history; that nothing is lost, repeated or reordered is a field of it, so that a program shown
to be in the state of a `Relay` after each of its steps is byte exact. -/

namespace HttpsTunnel.Lib

/-- What was read, what the receiver accepted, and what is pending. -/
structure Relay (α : Type) where
  read : List α
  sent : List α
  pending : List α
  exact : read = sent ++ pending

namespace Relay

variable {α : Type}

def start : Relay α := ⟨[], [], [], rfl⟩

/-- With nothing pending `bs` is read, and the first `n` of it are accepted. -/
def chunk (r : Relay α) (h : r.pending = []) (bs : List α) (n : ℕ) : Relay α where
  read := r.read ++ bs
  sent := r.sent ++ bs.take n
  pending := bs.drop n
  exact := by
    rw [r.exact, h, List.append_nil, List.append_assoc, List.take_append_drop]

/-- The first `n` of what is pending are accepted. -/
def flush (r : Relay α) (n : ℕ) : Relay α where
  read := r.read
  sent := r.sent ++ r.pending.take n
  pending := r.pending.drop n
  exact := by
    rw [r.exact, List.append_assoc, List.take_append_drop]

end Relay

end HttpsTunnel.Lib

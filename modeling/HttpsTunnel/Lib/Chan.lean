import Mathlib.Tactic

/-! # Channels between coroutines

A channel that only counts: `recv` takes an item or makes the caller wait, `send` adds one.  An item
that is sent while somebody waits is handed to the first who waits, and does not pass through the
buffer.  A caller has to yield only where it has to wait. -/

namespace HttpsTunnel.Lib

variable {κ : Type}

/-- A channel with room for `cap` items, of which `size` are in the buffer. -/
structure Chan (κ : Type) where
  cap : ℕ
  size : ℕ
  waiters : List κ
deriving Repr

/-- What becomes of a `send`. -/
inductive SendRes (κ : Type) where
  /-- The item was handed to a waiter, who can run again. -/
  | handed (k : κ)
  | buffered
  /-- The buffer is full: the sender has to wait. -/
  | blocks
deriving Repr

namespace Chan

variable (ch : Chan κ) (k : κ)

/-- `k` receives: whether there was an item. -/
def recv : Bool × Chan κ :=
  if 0 < ch.size then (true, { ch with size := ch.size - 1 })
  else (false, { ch with waiters := ch.waiters ++ [k] })

def send : SendRes κ × Chan κ :=
  match ch.waiters with
  | k :: ks => (.handed k, { ch with waiters := ks })
  | [] => if ch.size < ch.cap then (.buffered, { ch with size := ch.size + 1 }) else (.blocks, ch)

end Chan

end HttpsTunnel.Lib

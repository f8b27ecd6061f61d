import Chip8.Message
/-!
The queue between controllers and their emulator. It is bounded, and a frame takes a batch from its front that
ends with the first stop.
-/

namespace Chip8

structure Mailbox (γ : Type) where
  capacity : Nat
  /-- What waits, oldest first. -/
  pending : List (Message γ) := []

namespace Mailbox

variable {γ : Type}

def isFull (b : Mailbox γ) : Bool := b.capacity ≤ b.pending.length

def post (b : Mailbox γ) (m : Message γ) : Mailbox γ :=
  { b with pending := b.pending ++ [m] }

/-- Splits off at most `limit` messages, none behind the first stop. -/
def batch (limit : Nat) (pending : List (Message γ)) : List (Message γ) × List (Message γ) :=
  match limit, pending with
  | 0, ms => ([], ms)
  | _ + 1, [] => ([], [])
  | n + 1, m :: ms =>
    if m.isStop then ([m], ms)
    else
      let rest := batch n ms
      (m :: rest.1, rest.2)

end Mailbox

end Chip8

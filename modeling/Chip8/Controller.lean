import Chip8.Emulator.Basic
/-!
The controllers' end of an emulator. A message is refused for its own sake first, then because the emulator is
gone, then because the mailbox is full; one that is refused changes nothing.
-/

namespace Chip8

/-- What controllers hold on to: an emulator, or what it last published before it was dropped. -/
inductive Link (σ γ : Type) where
  | live (emulator : Emulator σ γ)
  | gone (last : Option Snapshot)

namespace Link

variable {σ γ : Type}

def trySend (l : Link σ γ) (m : Message γ) : Except Error (Link σ γ) :=
  match m.validate with
  | .error error => .error error
  | .ok () =>
    match l with
    | .gone _ => .error .disconnected
    | .live e =>
      if e.mailbox.isFull then .error .queueFull
      else .ok (.live { e with mailbox := e.mailbox.post m })

/-- Puts a message into the mailbox, or has to wait for room in it. -/
def send (l : Link σ γ) (m : Message γ) : Except Error (Option (Link σ γ)) :=
  match l.trySend m with
  | .ok l => .ok (some l)
  | .error .queueFull => .ok none
  | .error error => .error error

def snapshot : Link σ γ → Option Snapshot
  | .live e => e.published
  | .gone last => last

def drop (l : Link σ γ) : Link σ γ := .gone l.snapshot

end Link

end Chip8

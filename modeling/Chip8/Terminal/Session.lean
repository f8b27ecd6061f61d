import Chip8.Controller
import Chip8.Terminal.Command
/-!
The user's end of an emulator: a link to it, and whether the user has paused it. Commands become messages.
-/

namespace Chip8.Terminal

structure Session (σ γ : Type) where
  link : Link σ γ
  paused : Bool := false

inductive Reply where
  | proceed
  /-- The user has quit, or the emulator is gone. -/
  | finish
  | failed (error : Error)
  /-- The mailbox is full. -/
  | waiting
  deriving DecidableEq, Repr

namespace Session

variable {σ γ : Type}

def send (s : Session σ γ) (m : Message γ) (sent : Reply) : Reply × Session σ γ :=
  match s.link.send m with
  | .ok (some link) => (sent, { s with link := link })
  | .ok none => (.waiting, s)
  | .error .disconnected => (.finish, s)
  | .error error => (.failed error, s)

/-- Carries out a command. The pause flag changes even if the emulator is gone. -/
def handle (s : Session σ γ) : Command → Reply × Session σ γ
  | .press key => s.send (.setKey key true) .proceed
  | .release key => s.send (.setKey key false) .proceed
  | .togglePause =>
    { s with paused := !s.paused }.send (if s.paused then .resume else .pause) .proceed
  | .quit => s.send .stop .finish

end Session

end Chip8.Terminal

import Chip8.Emulator.Basic
/-!
What can be done to an emulator from outside: loading and resetting, pausing and stopping, changing memory and
keys, and applying messages.
-/

namespace Chip8.Emulator

variable {σ γ : Type} [Host σ γ]

/-- Puts the machine back to the start and ends a halt. Memory, counters and settings stay. -/
def reset (e : Emulator σ γ) : Emulator σ γ :=
  { e with machine := e.machine.reset, meter := e.meter.reset, halt := none }.sound
    e.machine.sound.reset.2

def loadRom (e : Emulator σ γ) (rom : List UInt8) : Except Error (Emulator σ γ) :=
  match checkRom rom with
  | .ok () => .ok { e with machine := e.machine.loadRom rom, rom := rom }.reset
  | .error error => .error error

def setMemory (e : Emulator σ γ) (address : UInt16) (data : List UInt8) : Emulator σ γ :=
  { e with machine := { e.machine with memory := e.machine.memory.poke address data } }

def setKey (e : Emulator σ γ) (key : UInt8) (down : Bool) : Emulator σ γ :=
  { e with machine := { e.machine with keypad := e.machine.keypad.set key down } }

def setIpf (e : Emulator σ γ) (ipf : Nat) : Emulator σ γ := { e with ipf := ipf }

def pause (e : Emulator σ γ) : Emulator σ γ :=
  if e.paused then e
  else { e with paused := true, meter := e.meter.pause }.sound e.machine.sound.pause

def resume (e : Emulator σ γ) : Emulator σ γ :=
  if e.paused then { e with paused := false, meter := e.meter.resume }.sound e.machine.sound.resume
  else e

def stop (e : Emulator σ γ) : Emulator σ γ := { e with halt := some .stopped }

/-- Carries out a message. A program that is too large is ignored. -/
def apply (e : Emulator σ γ) : Message γ → Emulator σ γ
  | .pause => e.pause
  | .resume => e.resume
  | .swapRom rom => (e.loadRom rom).toOption.getD e
  | .setIpf ipf => e.setIpf ipf
  | .setMemory address data => e.setMemory address data
  | .setKey key down => e.setKey key down
  | .stop => e.stop
  | .custom payload => e.notify (.custom payload)

def drain (e : Emulator σ γ) : Emulator σ γ :=
  let due := Mailbox.batch e.batchLimit e.mailbox.pending
  due.1.foldl apply { e with mailbox := { e.mailbox with pending := due.2 } }

end Chip8.Emulator

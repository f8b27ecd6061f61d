import Chip8.FrameMeter
import Chip8.Host
import Chip8.Machine.Step
import Chip8.Mailbox
/-!
The emulator: a machine with its program, the state of the frame loop, the mailbox and the snapshot that it
shares with its controllers, and the host that listens to it.
-/

namespace Chip8

inductive Halt where
  | stopped
  /-- The host stopped it in front of an instruction. -/
  | aborted
  | fault (error : Error)
  deriving DecidableEq, Repr

structure Snapshot where
  screen : Screen
  pc : UInt16
  opcode : Opcode
  ipf : Nat
  rom : List UInt8
  paused : Bool
  halted : Bool
  drawCount : Nat
  cycles : Nat
  deriving DecidableEq

namespace Snapshot

def romSize (s : Snapshot) : Nat := s.rom.length

end Snapshot

structure Emulator (σ γ : Type) where
  machine : Machine
  rom : List UInt8 := []
  ipf : Nat
  /-- Messages applied at the start of a frame, at most. -/
  batchLimit : Nat
  paused : Bool := true
  halt : Option Halt := none
  drawCount : Nat := 0
  meter : FrameMeter := { paused := true }
  mailbox : Mailbox γ
  published : Option Snapshot := none
  host : σ

namespace Emulator

variable {σ γ : Type}

/-- A paused emulator without a program. Its own pause waits in the mailbox, so that nothing runs before a
controller resumes it. The key is for a configuration that names no seed. -/
def create (font : Font) (host : σ) (config : Config) (key : ChaCha.Key) : Emulator σ γ where
  machine :=
    { memory := .ofFont font
      random := (config.seed.map Random.ofSeed).getD { key := key }
      dialect := config.dialect }
  ipf := config.ipf
  batchLimit := config.messagesPerFrame
  mailbox := { capacity := max config.queueCapacity 1, pending := [.pause] }
  host := host

def halted (e : Emulator σ γ) : Bool := e.halt.isSome

def snapshot (e : Emulator σ γ) : Snapshot where
  screen := e.machine.screen
  pc := e.machine.pc
  opcode := e.machine.opcode
  ipf := e.ipf
  rom := e.rom
  paused := e.paused
  halted := e.halted
  drawCount := e.drawCount
  cycles := e.machine.cycles

variable [Host σ γ]

def notify (e : Emulator σ γ) (event : Event γ) : Emulator σ γ :=
  { e with host := Host.notify e.host event }

def sound (e : Emulator σ γ) : Option Tone → Emulator σ γ
  | none => e
  | some t => e.notify (.tone t)

end Emulator

end Chip8

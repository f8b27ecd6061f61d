import Chip8.Proofs.Emulator.Frame

/-! What a message makes of an emulator, part by part. One case analysis over the messages says it for all of them. -/

namespace Chip8

namespace Message

variable {γ : Type}

def pausedAfter (p : Bool) : Message γ → Bool
  | .pause => true
  | .resume => false
  | _ => p

/-- A program of which there is no room in memory does not end a halt. -/
def haltAfter (halt : Option Halt) : Message γ → Option Halt
  | .swapRom rom => if rom.length ≤ maxRomSize then none else halt
  | .stop => some .stopped
  | _ => halt

def machineAfter (n : Machine) : Message γ → Machine
  | .swapRom rom => if rom.length ≤ maxRomSize then (n.loadRom rom).reset else n
  | .setMemory address data => { n with memory := n.memory.poke address data }
  | .setKey key down => { n with keypad := n.keypad.set key down }
  | _ => n

lemma foldl_pausedAfter_of_forall {ms : List (Message γ)} {p : Bool} (h : ∀ m ∈ ms, m.pausedAfter p = p) :
    ms.foldl pausedAfter p = p := by
  induction ms with
  | nil => rfl
  | cons m ms ih =>
    rw [List.foldl_cons, h m List.mem_cons_self]
    exact ih fun n hn => h n (List.mem_cons_of_mem m hn)

end Message

namespace Emulator

variable {σ γ : Type}

structure Applies (m : Message γ) (e f : Emulator σ γ) : Prop where
  machine : f.machine = m.machineAfter e.machine
  paused : f.paused = m.pausedAfter e.paused
  halt : f.halt = m.haltAfter e.halt
  drawCount : f.drawCount = e.drawCount
  batchLimit : f.batchLimit = e.batchLimit
  mailbox : f.mailbox = e.mailbox
  published : f.published = e.published

variable [Host σ γ]

lemma apply_applies (e : Emulator σ γ) (m : Message γ) : Applies m e (e.apply m) := by
  cases m with
  | pause =>
    rw [apply, pause]
    cases hp : e.paused with
    | true => exact ⟨rfl, hp, rfl, rfl, rfl, rfl, rfl⟩
    | false =>
      simp only [Bool.false_eq_true, if_false, sound_eq]
      exact ⟨rfl, rfl, rfl, rfl, rfl, rfl, rfl⟩
  | resume =>
    rw [apply, resume]
    cases hp : e.paused with
    | true =>
      simp only [if_true, sound_eq]
      exact ⟨rfl, rfl, rfl, rfl, rfl, rfl, rfl⟩
    | false => exact ⟨rfl, hp, rfl, rfl, rfl, rfl, rfl⟩
  | swapRom rom =>
    simp only [apply, loadRom, checkRom, reset, sound_eq]
    by_cases hr : rom.length ≤ maxRomSize
    · simp only [if_pos hr]
      exact ⟨(if_pos hr).symm, rfl, (if_pos hr).symm, rfl, rfl, rfl, rfl⟩
    · simp only [if_neg hr]
      exact ⟨(if_neg hr).symm, rfl, (if_neg hr).symm, rfl, rfl, rfl, rfl⟩
  | _ => exact ⟨rfl, rfl, rfl, rfl, rfl, rfl, rfl⟩

end Emulator

end Chip8

import Chip8.Proofs.Emulator.Twins

/-! A new program learns nothing of the one before. Two emulators whose pasts have nothing in common but the settings
and the low end of memory cannot be told apart once they have loaded the same program. -/

namespace Chip8

namespace Emulator

variable {σ τ γ : Type}

structure SameSettings (e : Emulator σ γ) (f : Emulator τ γ) : Prop where
  dialect : f.machine.dialect = e.machine.dialect
  random : f.machine.random = e.machine.random
  ipf : f.ipf = e.ipf
  batchLimit : f.batchLimit = e.batchLimit
  paused : f.paused = e.paused
  mailbox : f.mailbox = e.mailbox
  low : ∀ a : UInt16, a.toNat < romStart.toNat → f.machine.memory.read a = e.machine.memory.read a

/-- The low end of memory is that of `e`; all else is the program or as at the start. -/
structure Renewed (rom : List UInt8) (e e' : Emulator σ γ) : Prop where
  memory : ∀ a : UInt16, e'.machine.memory.read a =
    if a.toNat < romStart.toNat then e.machine.memory.read a else rom[a.toNat - romStart.toNat]?.getD 0
  registers : e'.machine.registers = { cells := Vector.replicate 16 0 }
  index : e'.machine.index = 0
  pc : e'.machine.pc = romStart
  stack : e'.machine.stack = .empty
  screen : e'.machine.screen = .blank
  keypad : e'.machine.keypad = .idle
  delay : e'.machine.delay.count = 0
  sound : e'.machine.sound.count = 0
  halt : e'.halt = none
  rom : e'.rom = rom

variable [Host σ γ]

/-- What an emulator becomes that loads a program of which there is room in memory. -/
def renew (e : Emulator σ γ) (rom : List UInt8) : Emulator σ γ :=
  { e with machine := e.machine.loadRom rom, rom := rom }.reset

lemma loadRom_of_le (e : Emulator σ γ) {rom : List UInt8} (h : rom.length ≤ maxRomSize) :
    e.loadRom rom = .ok (e.renew rom) := by
  rw [loadRom, checkRom, if_pos h]
  rfl

lemma loadRom_of_lt (e : Emulator σ γ) {rom : List UInt8} (h : maxRomSize < rom.length) :
    e.loadRom rom = .error (.romTooLarge rom.length maxRomSize) := by
  rw [loadRom, checkRom, if_neg (Nat.not_le.2 h)]

lemma renew_renewed (e : Emulator σ γ) {rom : List UInt8} (h : rom.length ≤ maxRomSize) :
    Renewed rom e (e.renew rom) := by
  have hm : (e.renew rom).machine = (e.machine.loadRom rom).reset := by
    rw [renew, reset, sound_eq]
  constructor
  case memory =>
    intro a
    have hs : memorySize = maxRomSize + romStart.toNat := rfl
    have hr : (e.renew rom).machine.memory = e.machine.memory.loadRom rom := congrArg Machine.memory hm
    rw [hr, Memory.read_loadRom]
    by_cases hl : a.toNat < romStart.toNat
    · rw [if_pos (.inl hl), if_pos hl]
    · rw [if_neg hl]
      by_cases hz : memorySize ≤ a.toNat
      · rw [if_pos (.inr hz), Memory.read_of_size_le _ hz, List.getElem?_eq_none (by omega)]
        rfl
      · rw [if_neg (not_or.2 ⟨hl, hz⟩)]
  case halt | rom => rw [renew, reset, sound_eq]
  all_goals
    rw [hm]
    rfl

variable [Host τ γ]

lemma renew_twins {e : Emulator σ γ} {f : Emulator τ γ} (h : SameSettings e f) (he : Permissive e.host)
    (hf : Permissive f.host) (rom : List UInt8) :
    Twins BothPermissive (f.machine.cycles - e.machine.cycles) (f.drawCount - e.drawCount)
      (e.renew rom) (f.renew rom) := by
  have hl : f.machine.memory.loadRom rom = e.machine.memory.loadRom rom := Memory.loadRom_congr h.low rom
  have hm : (f.machine.loadRom rom).reset = (e.machine.loadRom rom).reset.recount f.machine.cycles := by
    simp only [Machine.reset, Machine.loadRom, Machine.recount, hl, h.dialect, h.random]
  have hh : BothPermissive (e.renew rom).host (f.renew rom).host := by
    constructor
    · apply sound_permissive
      exact he
    · apply sound_permissive
      exact hf
  simp only [renew, reset, sound_eq, hm] at hh ⊢
  refine ⟨⟨rfl, ?_, ?_, rfl, h.ipf, h.batchLimit, rfl, hh⟩, h.paused, h.mailbox⟩
  · simp only [Machine.recount, Machine.reset, Machine.loadRom]
    omega
  · simp only
    omega

theorem rom_swap_forgets {e : Emulator σ γ} {f : Emulator τ γ} (h : SameSettings e f)
    (he : Permissive e.host) (hf : Permissive f.host) (rom : List UInt8) :
    (rom.length ≤ maxRomSize → ∃ e' f', e.loadRom rom = .ok e' ∧ f.loadRom rom = .ok f' ∧
      Renewed rom e e' ∧ Renewed rom f f' ∧
      ∀ as : List (Action γ), (∀ a ∈ as, a.Remote) →
        collect outcomes f' as = collect outcomes e' as ∧
        Twins BothPermissive (f.machine.cycles - e.machine.cycles) (f.drawCount - e.drawCount)
          (e'.run as) (f'.run as)) ∧
    (maxRomSize < rom.length →
      e.loadRom rom = .error (.romTooLarge rom.length maxRomSize) ∧ e.act (.operate (.swapRom rom)) = e) := by
  constructor
  · intro hr
    refine ⟨e.renew rom, f.renew rom, e.loadRom_of_le hr, f.loadRom_of_le hr, e.renew_renewed hr,
      f.renew_renewed hr, ?_⟩
    intro as ha
    exact (renew_twins h he hf rom).run bothPermissive_accord ha
  · intro hr
    have hl := e.loadRom_of_lt hr
    refine ⟨hl, ?_⟩
    rw [act, apply, hl]
    rfl

/-- A past that leaves bytes in memory, a running sound timer and a key behind, and then a halt. -/
def past : List (Action Unit) :=
  [.operate (.setMemory 0x300 [0x60, 0x05]), .execute (.loadByte 3 5), .execute (.setSound 3),
    .execute (.loadIndex 0x345), .operate (.setKey 7 false), .operate .stop]

lemma sameSettings_past (e : Emulator Silence Unit) : SameSettings e (e.run past) := by
  simp only [past, run, List.foldl_cons, List.foldl_nil, act, apply, setMemory, setKey, stop, execute,
    Machine.accepts, Machine.execute, Machine.quiet, Machine.setReg, take, sound_eq, if_true]
  refine ⟨rfl, rfl, rfl, rfl, rfl, rfl, fun a ha => ?_⟩
  have hl : ¬ (0x300 : UInt16).toNat ≤ a.toNat := Nat.not_le.2 (Nat.lt_trans ha (by decide))
  exact (Memory.read_poke ..).trans (if_neg fun hc => hl hc.1)

theorem rom_swap_forgets_past :
    let e : Emulator Silence Unit := create .standard Silence.mk {} (Vector.replicate 8 0)
    let f := e.run past
    let as : List (Action Unit) := [.send .resume, .frame, .trySend (.swapRom []), .frame]
    SameSettings e f ∧ Permissive e.host ∧ Permissive f.host ∧ (∀ a ∈ as, a.Remote) ∧
      ∃ e' f', e.loadRom [0x12, 0x00] = .ok e' ∧ f.loadRom [0x12, 0x00] = .ok f' ∧
        Renewed [0x12, 0x00] e e' ∧ Renewed [0x12, 0x00] f f' ∧
        collect outcomes f' as = collect outcomes e' as ∧
        Twins BothPermissive (f.machine.cycles - e.machine.cycles) (f.drawCount - e.drawCount)
          (e'.run as) (f'.run as) := by
  intro e f as
  have hs : SameSettings e f := sameSettings_past e
  have hp (h : Silence) : Permissive h := fun _ _ _ _ => rfl
  have ha : ∀ a ∈ as, a.Remote := by simp [as, Action.Remote]
  obtain ⟨e', f', he, hf, hre, hrf, hrun⟩ := (rom_swap_forgets hs (hp _) (hp _) [0x12, 0x00]).1 (by decide)
  exact ⟨hs, hp _, hp _, ha, e', f', he, hf, hre, hrf, hrun as ha⟩

end Emulator

end Chip8

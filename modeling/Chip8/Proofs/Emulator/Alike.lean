import Chip8.Proofs.Emulator.Run
import Chip8.Proofs.Host
import Chip8.Proofs.Machine.Clock

/-! Two emulators side by side that execute the same instructions. Their hosts may be of different kinds, and what
counts cycles and frames may stand at different numbers. -/

namespace Chip8.Emulator

variable {σ τ γ : Type}

lemma sound_permissive [Host σ γ] {e : Emulator σ γ} (h : Permissive e.host) (t : Option Tone) :
    Permissive (e.sound t).host := by
  cases t with
  | none => exact h
  | some t => exact h.notify (.tone t)

/-- Nothing is said about being paused nor about what waits in the mailbox. -/
structure Alike (H : σ → τ → Prop) (c d : Int) (e : Emulator σ γ) (f : Emulator τ γ) : Prop where
  machine : f.machine = e.machine.recount f.machine.cycles
  cycles : (f.machine.cycles : Int) = e.machine.cycles + c
  drawCount : (f.drawCount : Int) = e.drawCount + d
  rom : f.rom = e.rom
  ipf : f.ipf = e.ipf
  batchLimit : f.batchLimit = e.batchLimit
  halt : f.halt = e.halt
  host : H e.host f.host

variable {H : σ → τ → Prop} {c d : Int} {e : Emulator σ γ} {f : Emulator τ γ}

lemma Alike.timer (h : Alike H c d e f) : f.machine.sound = e.machine.sound := by
  rw [h.machine]
  rfl

lemma Alike.screen (h : Alike H c d e f) : f.machine.screen = e.machine.screen := by
  rw [h.machine]
  rfl

lemma Alike.setControl (h : Alike H c d e f) (p q : Bool) (u v : FrameMeter) (a b : Mailbox γ)
    (s t : Option Snapshot) :
    Alike H c d { e with paused := p, meter := u, mailbox := a, published := s }
      { f with paused := q, meter := v, mailbox := b, published := t } :=
  ⟨h.machine, h.cycles, h.drawCount, h.rom, h.ipf, h.batchLimit, h.halt, h.host⟩

lemma Alike.setHalt (h : Alike H c d e f) (halt : Option Halt) :
    Alike H c d { e with halt := halt } { f with halt := halt } :=
  ⟨h.machine, h.cycles, h.drawCount, h.rom, h.ipf, h.batchLimit, rfl, h.host⟩

lemma Alike.update (h : Alike H c d e f) {g : Machine → Machine}
    (hg : ∀ m n, g (m.recount n) = (g m).recount n) :
    Alike H c d { e with machine := g e.machine } { f with machine := g f.machine } := by
  have hc (m : Machine) : (g m).cycles = m.cycles := by
    have hm := congrArg Machine.cycles (hg m m.cycles)
    exact hm
  have hm : g f.machine = (g e.machine).recount (g f.machine).cycles := by
    rw [hc, ← hg, ← h.machine]
  refine ⟨hm, ?_, h.drawCount, h.rom, h.ipf, h.batchLimit, h.halt, h.host⟩
  simp only [hc]
  exact h.cycles

variable [Host σ γ] [Host τ γ]

section

variable (hT : Tuned H)

include hT

lemma Alike.sound (h : Alike H c d e f) (t : Option Tone) : Alike H c d (e.sound t) (f.sound t) := by
  cases t with
  | none => exact h
  | some t => exact ⟨h.machine, h.cycles, h.drawCount, h.rom, h.ipf, h.batchLimit, h.halt, hT t h.host⟩

lemma Alike.windUp (h : Alike H c d e f) : Alike H c d e.windUp f.windUp := by
  have hs := h.timer
  have hw := h.update (g := fun m => { m with
    delay := m.delay.decrement
    sound := m.sound.decrement.1
    keypad := m.keypad.forget }) fun _ _ => rfl
  simp only [Emulator.windUp, hs] at hw ⊢
  exact hw.sound hT _

lemma Alike.reset (h : Alike H c d e f) : Alike H c d e.reset f.reset := by
  have hs := h.timer
  have hm := (h.update (g := Machine.reset) fun _ _ => rfl).setHalt none
  have hr := hm.setControl e.paused f.paused e.meter.reset f.meter.reset e.mailbox f.mailbox e.published f.published
  simp only [Emulator.reset, hs]
  exact hr.sound hT _

lemma Alike.operate (h : Alike H c d e f) {m : Message γ} (hm : m = .pause ∨ m = .resume → f.paused = e.paused)
    (hc : ∀ payload, m ≠ .custom payload) :
    Alike H c d (e.apply m) (f.apply m) := by
  have hs := h.timer
  cases m with
  | pause =>
    simp only [Emulator.apply, Emulator.pause, hm (.inl rfl), hs]
    cases e.paused with
    | true => exact h
    | false => exact (h.setControl ..).sound hT _
  | resume =>
    simp only [Emulator.apply, Emulator.resume, hm (.inr rfl), hs]
    cases e.paused with
    | true => exact (h.setControl ..).sound hT _
    | false => exact h
  | swapRom rom =>
    simp only [Emulator.apply, loadRom]
    cases checkRom rom with
    | error error => exact h
    | ok u =>
      have hl := h.update (g := (Machine.loadRom · rom)) fun _ _ => rfl
      have hr : Alike H c d { e with machine := e.machine.loadRom rom, rom := rom }
          { f with machine := f.machine.loadRom rom, rom := rom } :=
        ⟨hl.machine, hl.cycles, hl.drawCount, rfl, hl.ipf, hl.batchLimit, hl.halt, hl.host⟩
      exact hr.reset hT
  | setIpf ipf => exact ⟨h.machine, h.cycles, h.drawCount, h.rom, rfl, h.batchLimit, h.halt, h.host⟩
  | setMemory address data =>
    exact h.update (g := fun m => { m with memory := m.memory.poke address data }) fun _ _ => rfl
  | setKey key down =>
    exact h.update (g := fun m => { m with keypad := m.keypad.set key down }) fun _ _ => rfl
  | stop => exact h.setHalt _
  | custom payload => exact absurd rfl (hc payload)

end

lemma Alike.announce {K : σ → τ → Prop} (hs : Shown H K) (h : Alike H c d e f) :
    Alike K c d e.announce f.announce := by
  have hd := h.drawCount
  have hn : K e.announce.host f.announce.host := by
    simp only [Emulator.announce, Emulator.notify, h.screen]
    exact hs e.drawCount f.drawCount e.machine.screen h.host
  refine ⟨h.machine, h.cycles, ?_, h.rom, h.ipf, h.batchLimit, h.halt, hn⟩
  simp only [Emulator.announce, Emulator.notify]
  omega

section

variable (hH : Accord H)

include hH

lemma Alike.notify (h : Alike H c d e f) (event : Event γ) (n : Nat) :
    Alike H c d (e.notify event) (f.notify (event.redate n)) :=
  ⟨h.machine, h.cycles, h.drawCount, h.rom, h.ipf, h.batchLimit, h.halt, hH.notify event n h.host⟩

lemma Alike.preview (h : Alike H c d e f) : Alike H c d e.preview f.preview := by
  have hp : f.preview =
      f.notify ((Event.decode e.machine.pc e.machine.opcode e.drawCount).redate f.drawCount) := by
    rw [Emulator.preview, h.machine]
    rfl
  rw [hp]
  exact h.notify hH _ _

lemma Alike.aborts (h : Alike H c d e f) : f.aborts = e.aborts := by
  have ho : f.machine.pc = e.machine.pc ∧ f.machine.opcode = e.machine.opcode := by
    rw [h.machine]
    exact ⟨rfl, rfl⟩
  rw [Emulator.aborts, Emulator.aborts, ho.1, ho.2]
  exact hH.stopsAt _ _ _ _ (h.preview hH).host

lemma Alike.cycle (h : Alike H c d e f) : f.cycle.1 = e.cycle.1 ∧ Alike H c d e.cycle.2 f.cycle.2 := by
  have hs : f.machine.step = _ := (congrArg Machine.step h.machine).trans (Machine.step_recount _ _)
  have hr := h.cycles
  simp only [Emulator.cycle, hs]
  cases he : e.machine.step with
  | error error =>
    have hf := (h.update (g := Machine.fetched) fun _ _ => rfl).setHalt (some (.fault error))
    exact ⟨rfl, hf⟩
  | ok s =>
    have hc : s.machine.cycles = e.machine.cycles + 1 := congrArg Clock.cycles (Machine.clock_of_step he)
    have ha : Alike H c d { e with machine := s.machine }
        { f with machine := s.machine.recount (f.machine.cycles + 1) } := by
      refine ⟨rfl, ?_, h.drawCount, h.rom, h.ipf, h.batchLimit, h.halt, h.host⟩
      simp only [Machine.recount, hc]
      omega
    exact ⟨rfl, ha.sound hH.tuned s.tone⟩

lemma Alike.executeBatch (n : Nat) (h : Alike H c d e f) :
    Alike H c d (executeBatch n e) (executeBatch n f) := by
  induction n generalizing e f with
  | zero => exact h
  | succ n ih =>
    obtain ⟨hr, hn⟩ := (h.preview hH).cycle hH
    simp only [Emulator.executeBatch, h.aborts hH]
    cases e.aborts with
    | true => exact (h.preview hH).setHalt _
    | false =>
      cases he : e.preview.cycle with
      | mk result next =>
        cases hf : f.preview.cycle with
        | mk result' next' =>
          rw [he, hf] at hr hn
          cases hr
          cases result with
          | error error => exact hn
          | ok i =>
            cases hi : i.isDraw with
            | true => simpa [hi] using hn
            | false => simpa [hi] using ih hn

lemma Alike.apply (h : Alike H c d e f) (m : Message γ) (hm : m = .pause ∨ m = .resume → f.paused = e.paused) :
    Alike H c d (e.apply m) (f.apply m) := by
  cases m with
  | custom payload => exact h.notify hH (.custom payload) 0
  | _ => exact h.operate hH.tuned hm nofun

end

lemma Alike.perform_of_none {K : σ → τ → Prop} (hs : Shown H K) (hK : Accord K) (h : Alike H c d e f)
    (hp : f.paused = e.paused) (he : e.halt = none) :
    f.perform.1 = e.perform.1 ∧ Alike K c d e.perform.2 f.perform.2 := by
  have ha := h.announce hs
  cases hq : e.paused with
  | true =>
    rw [perform_of_paused he hq, perform_of_paused (h.halt.trans he) (hp.trans hq)]
    exact ⟨rfl, ha⟩
  | false =>
    have hb := ha.executeBatch hK e.ipf
    rw [perform_of_running he hq, perform_of_running (h.halt.trans he) (hp.trans hq), h.ipf, hb.halt]
    cases (Emulator.executeBatch e.ipf e.announce).halt with
    | some halt => exact ⟨rfl, hb⟩
    | none => exact ⟨rfl, hb.windUp hK.tuned⟩

lemma Alike.perform (hH : Accord H) (h : Alike H c d e f) (hp : f.paused = e.paused) :
    f.perform.1 = e.perform.1 ∧ Alike H c d e.perform.2 f.perform.2 := by
  cases he : e.halt with
  | some halt =>
    rw [perform_of_halt he, perform_of_halt (h.halt.trans he)]
    exact ⟨rfl, h⟩
  | none => exact h.perform_of_none hH.shown hH hp he

end Chip8.Emulator

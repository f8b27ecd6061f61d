import Chip8.Proofs.Emulator.Ending

/-! A frame executes as many plain cycles as its budget, a draw, the host or a fault allows. -/

namespace Chip8

/-- A machine at the end of a frame: both timers one less, but not below zero, and no key released. -/
def Machine.rested (m : Machine) : Machine :=
  { m with
    delay := ⟨UInt8.ofNat (m.delay.count.toNat - 1)⟩
    sound := ⟨UInt8.ofNat (m.sound.count.toNat - 1)⟩
    keypad := { m.keypad with lastReleased := none } }

namespace Emulator

variable {σ γ : Type} [Host σ γ]

lemma sub_one_eq (v : UInt8) (h : v ≠ 0) : v - 1 = UInt8.ofNat (v.toNat - 1) := by
  have hv : 1 ≤ v.toNat := Nat.pos_of_ne_zero fun h0 => h (UInt8.toNat_inj.1 h0)
  apply UInt8.toNat_inj.1
  rw [UInt8.toNat_sub_of_le v 1 (UInt8.le_iff_toNat_le.2 hv), UInt8.toNat_ofNat']
  have hlt := v.toNat_lt
  simp
  omega

lemma windUp_machine (e : Emulator σ γ) : e.windUp.machine = e.machine.rested := by
  have hd : e.machine.delay.decrement = ⟨UInt8.ofNat (e.machine.delay.count.toNat - 1)⟩ := by
    cases e.machine.delay with
    | mk v => by_cases h : v = 0 <;> simp [DelayTimer.decrement, h, sub_one_eq]
  have hs : e.machine.sound.decrement.1 = ⟨UInt8.ofNat (e.machine.sound.count.toNat - 1)⟩ := by
    cases e.machine.sound with
    | mk v => by_cases h : v = 0 <;> simp [SoundTimer.decrement, h, sub_one_eq]
  simp only [windUp, sound_eq, hd, hs]
  rfl

def Ended (t : Emulator σ γ) (done : Outcome × Emulator σ γ) : Ending → Prop
  | .budget | .draw =>
    done.1 = .running ∧ done.2.halt = none ∧ done.2.machine = t.machine.rested
  | .abort =>
    done.1 = .halted ∧ done.2.halt = some .aborted ∧ done.2.machine = t.machine
  | .fault error =>
    t.cycle.1 = .error error ∧ done.1 = .fault error ∧ done.2.halt = some (.fault error) ∧
      done.2.machine = { t.machine with pc := t.machine.pc + 2 }

structure Unrolls (s : Emulator σ γ) (done : Outcome × Emulator σ γ) (k : Nat) (why : Ending)
    (t : Emulator σ γ) : Prop where
  ends : s.announce.ending s.ipf k = some why
  least : ∀ j < k, s.announce.ending s.ipf j = none
  cycled : s.cycles k = (k, none, t)
  ended : Ended t done why
  drawCount : done.2.drawCount = s.drawCount + 1
  told : done.2.host =
    (.draw s.drawCount s.machine.screen :: s.announce.batchEvents k why).foldl Host.notify s.host
  undrawn : ∀ event ∈ s.announce.batchEvents k why, ¬ event.isDraw
  cycles : done.2.machine.cycles = s.machine.cycles + k
  within : k ≤ s.ipf

def settle (b : Emulator σ γ) : Ending → Outcome × Emulator σ γ
  | .budget | .draw => (.running, b.windUp)
  | .abort => (.halted, { b.preview with halt := some .aborted })
  | .fault error =>
    (.fault error, { b.preview with machine := b.machine.fetched, halt := some (.fault error) })

lemma perform_eq_settle {s b : Emulator σ γ} {why : Ending} (hh : s.halt = none) (hp : s.paused = false)
    (hb : executeBatch s.ipf s.announce = b.conclude why) (hbh : b.halt = none)
    (hf : ∀ error, why = .fault error → b.cycle.1 = .error error) : s.perform = b.settle why := by
  rw [perform_of_running hh hp, hb]
  cases why with
  | budget | draw =>
    simp only [conclude, hbh]
    rfl
  | abort => rfl
  | fault error =>
    have hc := cycle_of_error ((cycle_preview b).trans (hf error rfl))
    simp only [conclude, round, hc]
    rfl

lemma settle_drawCount (b : Emulator σ γ) (why : Ending) : (b.settle why).2.drawCount = b.drawCount := by
  cases why with
  | budget | draw => simp only [settle, windUp, sound_eq]
  | abort | fault => rfl

lemma settle_cycles (b : Emulator σ γ) (why : Ending) :
    (b.settle why).2.machine.cycles = b.machine.cycles := by
  cases why with
  | budget | draw => simp only [settle, windUp_machine, Machine.rested]
  | abort | fault => rfl

lemma settle_host (b : Emulator σ γ) (why : Ending) :
    (b.settle why).2.host = (b.endingEvents why).foldl Host.notify b.host := by
  cases why with
  | budget | draw => exact sound_host _ _
  | abort | fault => rfl

lemma settle_ended {b t : Emulator σ γ} (why : Ending) (hm : t.machine = b.machine) (hbh : b.halt = none)
    (hf : ∀ error, why = .fault error → b.cycle.1 = .error error) : Ended t (b.settle why) why := by
  cases why with
  | budget | draw =>
    refine ⟨rfl, ?_, ?_⟩
    · simp only [settle, windUp, sound_eq, hbh]
    · rw [hm]
      exact windUp_machine b
  | abort => exact ⟨rfl, rfl, hm.symm⟩
  | fault error =>
    refine ⟨(cycle_congr hm).1.trans (hf error rfl), rfl, rfl, ?_⟩
    rw [hm]
    rfl

lemma Ended.publish {t : Emulator σ γ} {done : Outcome × Emulator σ γ} {why : Ending} (h : Ended t done why) :
    Ended t (done.1, done.2.publish) why := by
  cases why <;> exact h

theorem frame_unrolls (e : Emulator σ γ) (hh : e.drain.halt = none) (hp : e.drain.paused = false) :
    ∃ k why t, Unrolls e.drain e.frame k why t := by
  obtain ⟨k, why, hk, hj, hle, hb⟩ := executeBatch_eq_conclude e.drain.ipf e.drain.announce
  have hok : ∀ j < k, ∃ i, (round^[j] e.drain.announce).cycle.1 = .ok i :=
    fun j hlt => cycle_ok_of_ending (hj j hlt)
  obtain ⟨t, ht, hmt⟩ := cycles_of_rounds k (e := e.drain) (f := e.drain.announce) rfl hok
  obtain ⟨hbh, hbd⟩ := rounds_keep k hok
  have hf : ∀ error, why = .fault error → (round^[k] e.drain.announce).cycle.1 = .error error := by
    rintro error rfl
    exact cycle_error_of_ending hk
  have hs := perform_eq_settle hh hp hb (hbh.trans hh) hf
  have hframe : e.frame = (((round^[k] e.drain.announce).settle why).1,
      ((round^[k] e.drain.announce).settle why).2.publish) := by
    rw [← hs]
    rfl
  refine ⟨k, why, t, hk, hj, ht, ?_, ?_, ?_, ?_, ?_, hle⟩
  · rw [hframe]
    exact (settle_ended why hmt (hbh.trans hh) hf).publish
  · rw [hframe]
    exact (settle_drawCount _ why).trans hbd
  · rw [hframe]
    have hhost := settle_host (round^[k] e.drain.announce) why
    rw [rounds_host, ← List.foldl_append] at hhost
    exact hhost
  · exact batchEvents_undrawn _ k why
  · rw [hframe, ← cycles_machine ht, hmt]
    exact settle_cycles _ why

/-- A jump and a draw, loaded and started by messages that wait. -/
def drawing : Emulator Silence Unit :=
  { (create .standard {} {} (Vector.replicate 8 0) : Emulator Silence Unit) with
    mailbox := { capacity := 64, pending := [.pause, .swapRom [0x12, 0x02, 0xD0, 0x05], .resume] } }

theorem frame_unrolls_drawing :
    (drawing.drain.halt = none ∧ drawing.drain.paused = false) ∧
      ∃ k why t, Unrolls drawing.drain drawing.frame k why t :=
  ⟨⟨rfl, rfl⟩, frame_unrolls drawing rfl rfl⟩

end Emulator

end Chip8

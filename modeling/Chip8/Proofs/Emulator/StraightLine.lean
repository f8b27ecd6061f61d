import Chip8.Proofs.Emulator.Assembly
import Chip8.Proofs.Emulator.Recorder
import Chip8.Proofs.Machine.Footprint

/-! Straight-line code. An instruction that goes on to the next one does the same wherever it stands and whenever it is
executed. A program of such instructions may be fetched or given directly, as long as it leaves its own bytes alone. -/

namespace Chip8

namespace Instruction

/-- Whether control passes to the instruction behind, whatever the machine. -/
def straight : Instruction → Bool
  | ret | jump _ | call _ | jumpOffset _ => false
  | skipEqByte .. | skipNeByte .. | skipEq .. | skipNe .. | skipPressed _ | skipReleased _ => false
  | awaitKey _ => false
  | _ => true

/-- The number of bytes that an instruction stores from the index on. -/
def stored : Instruction → Nat
  | storeDecimal _ => 3
  | storeRegisters x => x.toNat + 1
  | _ => 0

lemma lt_stored_of_writes {d : Dialect} {base a : UInt16} {i : Instruction} (h : i.Writes d base (.memory a)) :
    ∃ k < i.stored, a = base + UInt16.ofNat k := by
  cases h with
  | storeDecimal hk => exact ⟨_, Nat.lt_succ_of_le hk, rfl⟩
  | storeRegisters hk => exact ⟨_, Nat.lt_succ_of_le hk, rfl⟩

end Instruction

namespace Machine

def moved (m : Machine) (pc : UInt16) (cycles : Nat) : Machine := { m with pc := pc, cycles := cycles }

/-- An instruction stores nothing in the `size` bytes from the start of the program on. -/
def Spares (m : Machine) (size : Nat) (i : Instruction) : Prop :=
  ∀ k < i.stored, (m.index + UInt16.ofNat k).toNat < romStart.toNat ∨
    romStart.toNat + size ≤ (m.index + UInt16.ofNat k).toNat

instance (m : Machine) (size : Nat) (i : Instruction) : Decidable (m.Spares size i) :=
  inferInstanceAs (Decidable (∀ k < i.stored, _))

variable {m : Machine} {i : Instruction} {r : Effect}

lemma setLogic_moved (m : Machine) (pc : UInt16) (cycles : Nat) (x v : UInt8) :
    (m.moved pc cycles).setLogic x v = (m.setLogic x v).moved pc cycles := by
  have hd : (m.moved pc cycles).dialect = m.dialect := rfl
  rw [setLogic, setLogic, hd]
  cases m.dialect.logicResetsVf <;> rfl

lemma advanceIndex_moved (m : Machine) (pc : UInt16) (cycles : Nat) (x : UInt8) :
    (m.moved pc cycles).advanceIndex x = (m.advanceIndex x).moved pc cycles := by
  have hd : (m.moved pc cycles).dialect = m.dialect := rfl
  rw [advanceIndex, advanceIndex, hd]
  cases m.dialect.memoryAdvancesIndex <;> rfl

lemma execute_moved (hs : i.straight) (m : Machine) (pc : UInt16) (cycles : Nat) :
    (m.moved pc cycles).execute i =
      (m.execute i).map fun r => { r with machine := r.machine.moved pc cycles } := by
  cases i with
  | ret | jump | call | jumpOffset | skipEqByte | skipNeByte | skipEq | skipNe | skipPressed | skipReleased
  | awaitKey => cases hs
  | bitOr | bitAnd | bitXor =>
    simp only [execute, setLogic_moved]
    rfl
  | storeRegisters x =>
    have hm : (m.moved pc cycles).store ((m.moved pc cycles).registers.upTo x) =
      (m.store (m.registers.upTo x)).moved pc cycles := rfl
    simp only [execute, hm, advanceIndex_moved]
    rfl
  | loadRegisters x =>
    have hm : { m.moved pc cycles with
        registers := (m.moved pc cycles).registers.setMany 0 ((m.moved pc cycles).block (x.toNat + 1)) } =
      { m with registers := m.registers.setMany 0 (m.block (x.toNat + 1)) }.moved pc cycles := rfl
    simp only [execute, hm, advanceIndex_moved]
    rfl
  | _ => rfl

lemma execute_of_straight (hs : i.straight) (m : Machine) : ∃ r, m.execute i = .ok r := by
  cases i with
  | ret | call => cases hs
  | _ => exact ⟨_, rfl⟩

lemma accepts_of_straight (hs : i.straight) (hr : i.InRange) (m : Machine) : m.accepts i := by
  cases i with
  | draw x y height =>
    have hh : height.toNat < 16 := hr.2.2
    exact decide_eq_true (UInt8.le_iff_toNat_le.2 (Nat.le_of_lt hh))
  | jumpOffset => cases hs
  | _ => rfl

lemma read_of_spares {size : Nat} (h : m.Spares size i) (hr : m.execute i = .ok r) {a : UInt16}
    (hl : romStart.toNat ≤ a.toNat) (hu : a.toNat < romStart.toNat + size) :
    r.machine.memory.read a = m.memory.read a := by
  refine execute_same (p := .memory a) hr fun hw => ?_
  obtain ⟨k, hk, rfl⟩ := Instruction.lt_stored_of_writes hw
  have hout := h k hk
  omega

end Machine

open Instruction

lemma romAddress_succ (k : Nat) : romAddress (k + 1) = romAddress k + 2 := UInt16.ofNat_add _ 2

namespace Emulator

variable {σ γ : Type}

def moved (e : Emulator σ γ) (pc : UInt16) (cycles : Nat) : Emulator σ γ :=
  { e with machine := e.machine.moved pc cycles }

variable [Host σ γ]

/-- Cycles that succeed, each with the instruction that it executes. -/
inductive Fetches : Emulator σ γ → List Instruction → Emulator σ γ → Prop
  | nil {e} : Fetches e [] e
  | cons {e f g i is} : e.cycle = (.ok i, f) → Fetches f is g → Fetches e (i :: is) g

/-- Of instructions that are given directly none stores anything in the `size` bytes from the start of the program
on. -/
def Spares (size : Nat) (e : Emulator σ γ) : List Instruction → Prop
  | [] => True
  | i :: is => e.machine.Spares size i ∧ Spares size (e.execute i).2 is

instance decidableSpares (size : Nat) (e : Emulator σ γ) : (is : List Instruction) → Decidable (e.Spares size is)
  | [] => inferInstanceAs (Decidable True)
  | i :: is =>
    have := decidableSpares size (e.execute i).2 is
    inferInstanceAs (Decidable (_ ∧ _))

variable {e f : Emulator σ γ} {i : Instruction} {pc : UInt16}

omit [Host σ γ] in
lemma moved_self (hp : e.machine.pc = pc) : e.moved pc e.machine.cycles = e := by
  subst hp
  rfl

lemma take_moved (e : Emulator σ γ) (r : Effect) (pc : UInt16) (c d : Nat) (p : UInt16) :
    (e.moved p c).take { r with machine := r.machine.moved pc d } = (e.take r).moved pc d := by
  simp only [take, sound_eq]
  rfl

lemma execute_done {r : Effect} (hs : i.straight) (hr : i.InRange) (hx : e.machine.execute i = .ok r) :
    e.execute i = (.done, e.take r) := by
  rw [execute, if_pos (Machine.accepts_of_straight hs hr _), hx]

lemma cycle_moved {r : Effect} (hs : i.straight) (hx : e.machine.execute i = .ok r)
    (hd : decode (e.machine.memory.opcode pc) = some i) (c : Nat) :
    (e.moved pc c).cycle = (.ok i, (e.take r).moved (pc + 2) (c + 1)) := by
  have ho : (e.machine.moved pc c).opcode = e.machine.memory.opcode pc := rfl
  have hf : (e.machine.moved pc c).fetched = e.machine.moved (pc + 2) c := rfl
  have hstep : (e.machine.moved pc c).step = .ok
      { machine := r.machine.moved (pc + 2) (c + 1), tone := r.tone, instruction := i } := by
    simp only [Machine.step, ho, hd, hf, Machine.execute_moved hs, hx]
    rfl
  rw [cycle, show (e.moved pc c).machine = e.machine.moved pc c from rfl, hstep]
  exact congrArg (Prod.mk _) (take_moved e r ..)

/-- The words of the instructions stand in memory from the `k`-th word of the program on. -/
def Holds (e : Emulator σ γ) (k : Nat) (is : List Instruction) : Prop :=
  ∀ j (hj : j < is.length), e.machine.memory.opcode (romAddress (k + j)) = is[j].encode

omit [Host σ γ] in
lemma Holds.head {k : Nat} {is : List Instruction} (h : e.Holds k (i :: is)) :
    e.machine.memory.opcode (romAddress k) = i.encode :=
  h 0 (Nat.succ_pos _)

/-- What is still to be executed stays in memory when the first instruction has been. -/
lemma Holds.tail {r : Effect} {k n : Nat} {is : List Instruction} (h : e.Holds k (i :: is))
    (hx : e.machine.execute i = .ok r) (hspare : e.machine.Spares (2 * n) i) (hn : k + (is.length + 1) ≤ n)
    (hmax : n ≤ 1792) : (e.take r).Holds (k + 1) is := by
  intro j hj
  have hs : romStart.toNat = 512 := rfl
  have ha : (romAddress (k + 1 + j)).toNat = romStart.toNat + 2 * (k + 1 + j) := toNat_romAddress (by omega)
  have hb : (romAddress (k + 1 + j) + 1).toNat = romStart.toNat + 2 * (k + 1 + j) + 1 := by
    rw [UInt16.toNat_add, ha, UInt16.toNat_one]
    omega
  have hm : (e.take r).machine = r.machine := by rw [take, sound_eq]
  have hsame : r.machine.memory.opcode (romAddress (k + 1 + j)) =
      e.machine.memory.opcode (romAddress (k + 1 + j)) := by
    rw [Memory.opcode, Memory.opcode, Machine.read_of_spares hspare hx (by omega) (by omega),
      Machine.read_of_spares hspare hx (by omega) (by omega)]
  rw [hm, hsame, Nat.add_assoc, Nat.add_comm 1]
  exact h (j + 1) (Nat.succ_lt_succ hj)

lemma fetches_of_holds {is : List Instruction} {k n c : Nat} (hi : ∀ i ∈ is, i.InRange ∧ i.straight)
    (hh : e.Holds k is) (hspare : e.Spares (2 * n) is) (hn : k + is.length ≤ n) (hmax : n ≤ 1792) :
    (e.executeAll is).1 = .done ∧
      Fetches (e.moved (romAddress k) c) is
        ((e.executeAll is).2.moved (romAddress (k + is.length)) (c + is.length)) := by
  induction is generalizing e k c with
  | nil => exact ⟨rfl, .nil⟩
  | cons i is ih =>
    obtain ⟨hr, hs⟩ := hi i List.mem_cons_self
    obtain ⟨r, hx⟩ := Machine.execute_of_straight hs e.machine
    have hgiven := execute_done hs hr hx
    have hd : decode (e.machine.memory.opcode (romAddress k)) = some i := by
      rw [hh.head]
      exact decode_encode hr
    have hfetched := cycle_moved hs hx hd c
    rw [← romAddress_succ] at hfetched
    rw [List.length_cons] at hn
    have hrest : (e.take r).Spares (2 * n) is := by
      have hlater := hspare.2
      rwa [hgiven] at hlater
    obtain ⟨hdone, hfetches⟩ := ih (c := c + 1) (fun j hj => hi j (List.mem_cons_of_mem i hj))
      (hh.tail hx hspare.1 hn hmax) hrest (by omega)
    simp only [executeAll, hgiven, List.length_cons]
    refine ⟨hdone, .cons hfetched ?_⟩
    rwa [Nat.add_right_comm k, Nat.add_right_comm c] at hfetches

lemma holds_renew (e : Emulator σ γ) {is : List Instruction} (hl : is.length ≤ 1792) :
    (e.renew (assemble is)).Holds 0 is := by
  have hm : (e.renew (assemble is)).machine.memory = e.machine.memory.loadRom (assemble is) := by
    rw [renew, reset, sound_eq]
    rfl
  intro j hj
  rw [hm, Nat.zero_add, Memory.opcode_loadRom_assemble _ hl hj]

lemma executeAll_append (e : Emulator σ γ) (is js : List Instruction) :
    e.executeAll (is ++ js) =
      match e.executeAll is with
      | (.done, f) => f.executeAll js
      | stuck => stuck := by
  induction is generalizing e with
  | nil => rfl
  | cons i is ih =>
    rw [List.cons_append, executeAll, executeAll]
    cases hx : e.execute i with
    | mk verdict f =>
      cases verdict with
      | done => exact ih f
      | failed error | refused => rfl

/-- Instructions that go straight on and spare the program come to the same, fetched or given. -/
theorem fetched_as_given (e : Emulator σ γ) :
    (∀ is : List Instruction, is.length ≤ 1792 → (∀ i ∈ is, i.InRange ∧ i.straight) →
      ∃ f, e.loadRom (assemble is) = .ok f ∧
        (f.Spares (2 * is.length) is → (f.executeAll is).1 = .done ∧
          Fetches f is ((f.executeAll is).2.moved (romAddress is.length) (f.machine.cycles + is.length)))) ∧
      ∀ is js : List Instruction, e.executeAll (is ++ js) =
        match e.executeAll is with
        | (.done, f) => f.executeAll js
        | stuck => stuck := by
  refine ⟨fun is hl hi => ?_, executeAll_append e⟩
  have hr : (assemble is).length ≤ maxRomSize := by
    rw [length_assemble, show maxRomSize = 2 * 1792 from rfl]
    omega
  refine ⟨e.renew (assemble is), e.loadRom_of_le hr, fun hspare => ?_⟩
  obtain ⟨hdone, hfetches⟩ := fetches_of_holds (c := (e.renew (assemble is)).machine.cycles) hi
    (e.holds_renew hl) hspare (Nat.le_of_eq (Nat.zero_add _)) hl
  have hpc : (e.renew (assemble is)).machine.pc = romAddress 0 := (e.renew_renewed hr).pc
  rw [moved_self hpc, Nat.zero_add] at hfetches
  exact ⟨hdone, hfetches⟩

/-- Four registers stored behind the program, a tone, a random word and a draw, in two parts. -/
theorem fetched_as_given_sounding :
    let e : Emulator (Recorder Silence Unit) Unit :=
      create .standard { host := Silence.mk } { seed := some 7 } (Vector.replicate 8 0)
    let first : List Instruction := [.loadByte 0 5, .loadIndex 0x300, .storeRegisters 3, .setSound 0]
    let second : List Instruction := [.storeDecimal 0, .random 1 0xFF, .draw 0 1 5]
    (first ++ second).length ≤ 1792 ∧ (∀ i ∈ first ++ second, i.InRange ∧ i.straight) ∧
      ∃ f, e.loadRom (assemble (first ++ second)) = .ok f ∧ f.Spares (2 * 7) (first ++ second) ∧
        (f.executeAll (first ++ second)).1 = .done ∧
        Fetches f (first ++ second)
          ((f.executeAll (first ++ second)).2.moved (romAddress 7) (f.machine.cycles + 7)) ∧
        f.executeAll (first ++ second) = (f.executeAll first).2.executeAll second ∧
        (f.executeAll first).2.host.heard.filterMap Event.toTone = [.on] := by
  intro e first second
  have hl : (first ++ second).length ≤ 1792 := by decide
  have hi : ∀ i ∈ first ++ second, i.InRange ∧ i.straight := by simp [first, second, InRange, straight]
  obtain ⟨f, hf, hboth⟩ := (fetched_as_given e).1 (first ++ second) hl hi
  have hload : e.loadRom (assemble (first ++ second)) = .ok (e.renew (assemble (first ++ second))) :=
    e.loadRom_of_le (by decide)
  obtain rfl : f = e.renew (assemble (first ++ second)) := Except.ok.inj (hf.symm.trans hload)
  have hspare : (e.renew (assemble (first ++ second))).Spares (2 * 7) (first ++ second) := by decide +kernel
  obtain ⟨hdone, hfetches⟩ := hboth hspare
  have hfirst : ((e.renew (assemble (first ++ second))).executeAll first).1 = .done := by decide +kernel
  have hpair : (e.renew (assemble (first ++ second))).executeAll first =
      (.done, ((e.renew (assemble (first ++ second))).executeAll first).2) := Prod.ext hfirst rfl
  have happend := (fetched_as_given (e.renew (assemble (first ++ second)))).2 first second
  rw [hpair] at happend
  exact ⟨hl, hi, _, hload, hspare, hdone, hfetches, happend, by decide +kernel⟩

end Emulator

end Chip8

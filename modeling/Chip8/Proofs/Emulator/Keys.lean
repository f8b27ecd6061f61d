import Chip8.Proofs.Emulator.Dormancy
import Chip8.Proofs.Machine.Footprint

/-! What becomes of the keypad. No instruction touches it: keys are set by messages and by the owner, and a frame that
runs to its end forgets the key released last. -/

namespace Chip8

lemma Machine.execute_keypad {m : Machine} {i : Instruction} {r : Effect} (h : m.execute i = .ok r) :
    r.machine.keypad = m.keypad :=
  execute_same (p := .keypad) h nofun

namespace Message

variable {γ : Type}

/-- Whether a key is down behind a message. -/
def pressedAfter (key : UInt8) (down : Bool) : Message γ → Bool
  | .setKey k b => if k = key ∧ k.toNat < Keypad.size then b else down
  | .swapRom rom => if rom.length ≤ maxRomSize then false else down
  | _ => down

lemma pressed_idle (key : UInt8) : Keypad.idle.pressed key = false := by
  rw [Keypad.idle, Keypad.pressed, Vector.getElem?_replicate]
  split <;> rfl

lemma pressed_keypadAfter (key : UInt8) (k : Keypad) (m : Message γ) :
    (keypadAfter k m).pressed key = pressedAfter key (k.pressed key) m := by
  cases m with
  | setKey other down => exact k.pressed_set other key down
  | swapRom rom =>
    simp only [keypadAfter, pressedAfter]
    split
    · exact pressed_idle key
    · rfl
  | _ => rfl

lemma pressed_foldl (key : UInt8) (ms : List (Message γ)) (k : Keypad) :
    (ms.foldl keypadAfter k).pressed key = ms.foldl (pressedAfter key) (k.pressed key) := by
  induction ms generalizing k with
  | nil => rfl
  | cons m ms ih => rw [List.foldl_cons, ih, pressed_keypadAfter, List.foldl_cons]

end Message

namespace Emulator

variable {σ γ : Type} [Host σ γ]

lemma apply_keypad (e : Emulator σ γ) (m : Message γ) :
    (e.apply m).machine.keypad = m.keypadAfter e.machine.keypad := by
  rw [(apply_applies e m).machine]
  cases m with
  | swapRom rom =>
    rw [Message.machineAfter, Message.keypadAfter]
    split <;> rfl
  | _ => rfl

lemma foldl_keypad (ms : List (Message γ)) (e : Emulator σ γ) :
    (ms.foldl apply e).machine.keypad = ms.foldl Message.keypadAfter e.machine.keypad := by
  induction ms generalizing e with
  | nil => rfl
  | cons m ms ih => rw [List.foldl_cons, ih, apply_keypad, List.foldl_cons]

lemma drain_keypad (e : Emulator σ γ) :
    e.drain.machine.keypad = (e.applied .frame).foldl Message.keypadAfter e.machine.keypad := by
  rw [drain_eq_foldl, foldl_keypad]

lemma cycle_keypad (e : Emulator σ γ) : e.cycle.2.machine.keypad = e.machine.keypad := by
  cases hc : e.cycle.1 with
  | error error =>
    rw [cycle_of_error hc]
    rfl
  | ok i =>
    obtain ⟨r, -, hr, hn⟩ := cycle_of_ok hc
    rw [hn, sound_eq]
    have hk : r.machine.keypad = e.machine.fetched.keypad := Machine.execute_keypad hr
    exact hk

lemma execute_keypad (e : Emulator σ γ) (i : Instruction) : (e.execute i).2.machine.keypad = e.machine.keypad := by
  obtain he | ⟨r, hr, he⟩ := execute_cases e i
  · rw [he]
  · rw [he, sound_eq]
    exact Machine.execute_keypad hr

lemma batch_keypad (n : Nat) (e : Emulator σ γ) :
    (∀ x ∈ attempts n e, x.machine.keypad = e.machine.keypad) ∧
      (executeBatch n e).machine.keypad = e.machine.keypad := by
  induction n generalizing e with
  | zero => exact ⟨List.forall_mem_nil _, rfl⟩
  | succ n ih =>
    have hk := cycle_keypad e.preview
    simp only [attempts, executeBatch]
    by_cases ha : e.aborts
    · rw [if_pos ha, if_pos ha]
      exact ⟨List.forall_mem_nil _, rfl⟩
    · rw [if_neg ha, if_neg ha, List.forall_mem_cons]
      cases hc : e.preview.cycle with
      | mk result next =>
        have hn : next.machine.keypad = e.machine.keypad := by
          rw [hc] at hk
          exact hk
        cases result with
        | error error => exact ⟨⟨rfl, List.forall_mem_nil _⟩, hn⟩
        | ok i =>
          simp only
          by_cases hi : i.isDraw
          · rw [if_pos hi, if_pos hi]
            exact ⟨⟨rfl, List.forall_mem_nil _⟩, hn⟩
          · rw [if_neg hi, if_neg hi, ← hn]
            exact ⟨⟨hn.symm, (ih next).1⟩, (ih next).2⟩

lemma performed_keypad (e : Emulator σ γ) : ∀ x ∈ e.performed, x.machine.keypad = e.machine.keypad := by
  rw [performed]
  split
  · exact (batch_keypad e.ipf e.announce).1
  · exact List.forall_mem_nil _

lemma perform_keypad (e : Emulator σ γ) :
    e.perform.2.machine.keypad =
      if e.perform.1 = .running then e.machine.keypad.forget else e.machine.keypad := by
  have hn (halt : Halt) : Outcome.ofHalt halt ≠ .running := by cases halt <;> exact nofun
  cases hh : e.halt with
  | some halt => rw [perform_of_halt hh, if_neg (hn halt)]
  | none =>
    cases hp : e.paused with
    | true =>
      rw [perform_of_paused hh hp, if_neg nofun]
      rfl
    | false =>
      have hb := (batch_keypad e.ipf e.announce).2
      rw [perform_of_running hh hp]
      cases (executeBatch e.ipf e.announce).halt with
      | some halt =>
        rw [if_neg (hn halt)]
        exact hb
      | none =>
        rw [if_pos rfl, windUp, sound_eq]
        exact congrArg Keypad.forget hb

lemma pressed_act (key : UInt8) {a : Action γ} (ha : a.Remote) (e : Emulator σ γ) :
    (e.act a).machine.keypad.pressed key =
      (e.applied a).foldl (Message.pressedAfter key) (e.machine.keypad.pressed key) := by
  cases a with
  | trySend m | send m =>
    exact submission_keeps (P := fun f => f.machine.keypad.pressed key = e.machine.keypad.pressed key)
      (fun _ _ h => h) rfl rfl
  | frame =>
    have hf (k : Keypad) : k.forget.pressed key = k.pressed key := rfl
    have hk : (e.act .frame).machine.keypad = e.drain.perform.2.machine.keypad := rfl
    rw [hk, perform_keypad, ← Message.pressed_foldl, ← drain_keypad]
    split
    · exact hf _
    · rfl
  | _ => exact ha.elim

end Emulator

end Chip8

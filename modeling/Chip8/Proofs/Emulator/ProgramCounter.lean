import Chip8.Proofs.Emulator.Run
import Chip8.Proofs.Machine.Bounds

/-! Control stays in bounds whatever the program does to itself, as long as no cycle is asked for once the machine
has halted and no instruction is given directly. -/

namespace Chip8.Emulator

variable {σ γ : Type}

/-- A machine that has failed may be one fetch ahead of one that has not. -/
structure Secure (e : Emulator σ γ) : Prop where
  pc_le : e.machine.pc.toNat ≤ 0x1100
  running_pc_le : e.halt = none → e.machine.pc.toNat ≤ 0x10FE
  stack_le : ∀ a ∈ e.machine.stack.toList, a.toNat ≤ 0x1001

def Supervised (e : Emulator σ γ) : Action γ → Prop
  | .execute _ => False
  | .cycle => e.halt = none
  | _ => True

lemma Secure.confined {e : Emulator σ γ} (h : Secure e) (hh : e.halt = none) : e.machine.Confined :=
  ⟨h.running_pc_le hh, h.stack_le⟩

lemma secure_of_confined {e : Emulator σ γ} (h : e.machine.Confined) : Secure e :=
  ⟨Nat.le_trans h.pc_le (by decide), fun _ => h.pc_le, h.stack_le⟩

lemma Secure.of_same {e f : Emulator σ γ} (h : Secure e) (hp : f.machine.pc = e.machine.pc)
    (hs : f.machine.stack = e.machine.stack) (hh : f.halt = none → e.halt = none) : Secure f :=
  ⟨hp ▸ h.pc_le, fun hf => hp ▸ h.running_pc_le (hh hf), hs ▸ h.stack_le⟩

lemma create_secure (font : Font) (host : σ) (config : Config) (key : ChaCha.Key) :
    Secure (create font host config key : Emulator σ γ) :=
  secure_of_confined ⟨show romStart.toNat ≤ 0x10FE by decide, nofun⟩

variable [Host σ γ]

lemma reset_secure (e : Emulator σ γ) : Secure e.reset := by
  have hm : e.reset.machine = e.machine.reset := by rw [reset, sound_eq]
  apply secure_of_confined
  rw [hm]
  exact ⟨show romStart.toNat ≤ 0x10FE by decide, nofun⟩

lemma Secure.apply {e : Emulator σ γ} (h : Secure e) (m : Message γ) : Secure (e.apply m) := by
  cases m with
  | pause =>
    simp only [Emulator.apply, pause, sound_eq]
    split <;> exact h.of_same rfl rfl id
  | resume =>
    simp only [Emulator.apply, resume, sound_eq]
    split <;> exact h.of_same rfl rfl id
  | swapRom rom =>
    simp only [Emulator.apply, loadRom]
    cases checkRom rom with
    | error error => exact h
    | ok u => exact reset_secure _
  | stop => exact h.of_same rfl rfl nofun
  | _ => exact h.of_same rfl rfl id

lemma Secure.cycle {e : Emulator σ γ} (h : Secure e) (hh : e.halt = none) : Secure e.cycle.2 := by
  have hc := h.confined hh
  cases hr : e.cycle.1 with
  | error error =>
    rw [cycle_of_error hr]
    have hf := Machine.fetched_pc hc.pc_le
    have hp := hc.pc_le
    exact ⟨by simp only; omega, nofun, hc.stack_le⟩
  | ok i =>
    obtain ⟨r, hd, he, hn⟩ := cycle_of_ok hr
    have hm : r.machine.Confined := hc.executes hd (Machine.execute_executes he)
    rw [hn, sound_eq]
    exact secure_of_confined ⟨hm.pc_le, hm.stack_le⟩

def Guarded (xs : List (Emulator σ γ)) (e : Emulator σ γ) : Prop :=
  (∀ x ∈ xs, x.halt = none ∧ x.machine.Confined) ∧ Secure e

lemma Guarded.snoc {xs : List (Emulator σ γ)} {e : Emulator σ γ} (h : Guarded xs e) (hh : e.halt = none) :
    Guarded (xs ++ [e]) e.cycle.2 := by
  have he : e.halt = none ∧ e.machine.Confined := ⟨hh, h.2.confined hh⟩
  exact ⟨List.forall_mem_append.2 ⟨h.1, List.forall_mem_singleton.2 he⟩, h.2.cycle hh⟩

lemma guarded_invariant : FrameInvariant (Guarded : List (Emulator σ γ) → Emulator σ γ → Prop) where
  apply m h := ⟨h.1, h.2.apply m⟩
  announce h := ⟨h.1, h.2.of_same rfl rfl id⟩
  abort h := ⟨h.1, h.2.of_same rfl rfl nofun⟩
  cycle hh _ h := Guarded.snoc (e := preview _) ⟨h.1, h.2.of_same rfl rfl id⟩ hh
  windUp h := by
    rw [windUp, sound_eq]
    exact ⟨h.1, h.2.of_same rfl rfl id⟩
  publish h := ⟨h.1, h.2.of_same rfl rfl id⟩

omit [Host σ γ] in
lemma Guarded.setMailbox {xs : List (Emulator σ γ)} (e : Emulator σ γ) (b : Mailbox γ) (h : Guarded xs e) :
    Guarded xs { e with mailbox := b } :=
  ⟨h.1, h.2.of_same rfl rfl id⟩

lemma Guarded.act {xs : List (Emulator σ γ)} {e : Emulator σ γ} {a : Action γ} (ha : Supervised e a)
    (h : Guarded xs e) : Guarded (xs ++ e.attempted a) (e.act a) := by
  cases a with
  | trySend m | send m =>
    simp only [attempted, List.append_nil]
    exact submission_keeps Guarded.setMailbox rfl h
  | frame => exact guarded_invariant.frame (h.setMailbox e _)
  | cycle => exact h.snoc ha
  | execute i => exact ha.elim
  | reset =>
    simp only [attempted, List.append_nil]
    exact ⟨h.1, reset_secure e⟩
  | operate m =>
    simp only [attempted, List.append_nil]
    exact ⟨h.1, h.2.apply m⟩

lemma Guarded.run {xs : List (Emulator σ γ)} {e : Emulator σ γ} {as : List (Action γ)}
    (ha : Permits Supervised e as) (h : Guarded xs e) : Guarded (xs ++ collect attempted e as) (e.run as) :=
  collect_induction (fun _ _ _ => Guarded.act) ha h

theorem supervised_run_secure (font : Font) (host : σ) (config : Config) (key : ChaCha.Key)
    (as : List (Action γ)) (h : Permits Supervised (create font host config key) as) :
    Secure ((create font host config key).run as) ∧
      ∀ x ∈ collect attempted (create font host config key) as, x.halt = none ∧ x.machine.SafeCycle := by
  have hi : Guarded [] (create font host config key : Emulator σ γ) :=
    ⟨List.forall_mem_nil _, create_secure font host config key⟩
  obtain ⟨hx, he⟩ := hi.run h
  refine ⟨he, ?_⟩
  intro x hm
  obtain ⟨hh, hc⟩ := hx x hm
  exact ⟨hh, hc.safeCycle⟩

/-- A program that calls itself, run by hand and then by a frame. -/
def calling : List (Action Unit) :=
  [.operate (.swapRom [0x22, 0x00]), .send .resume, .cycle, .frame]

theorem supervised_run_secure_calling :
    Permits Supervised (create .standard Silence.mk {} (Vector.replicate 8 0)) calling ∧
      Secure ((create .standard Silence.mk {} (Vector.replicate 8 0)).run calling) ∧
      ∀ x ∈ collect attempted (create .standard Silence.mk {} (Vector.replicate 8 0)) calling,
        x.halt = none ∧ x.machine.SafeCycle := by
  have h : Permits Supervised (create .standard Silence.mk {} (Vector.replicate 8 0)) calling :=
    ⟨trivial, trivial, rfl, trivial, trivial⟩
  exact ⟨h, supervised_run_secure _ _ _ _ _ h⟩

end Chip8.Emulator

import Chip8.Proofs.Emulator.Alike
import Chip8.Proofs.Emulator.Drain
import Chip8.Proofs.Machine.Course

/-! The split into frames does not change the computation. Frames of any length take the machine along one course of
cycles, as long as no instruction looks at what goes on between them. -/

namespace Chip8.Emulator

open Machine (Concur Reached reached_refl)

variable {σ γ : Type} [Host σ γ]

inductive Tracks (m : Machine) (e : Emulator σ γ) : Prop where
  | running (halt : e.halt = none) (reached : Reached m e.machine)
  | failed {n : Machine} {error : Error} (reached : Reached m n) (fails : n.step = .error error)
      (halt : e.halt = some (.fault error)) (concur : Concur n.fetched e.machine)
      (cycles : e.machine.cycles = n.cycles)

/-- An emulator that nothing but a fault stops, and the cycles attempted on the way to it. -/
structure Paced (m : Machine) (xs : List (Emulator σ γ)) (e : Emulator σ γ) : Prop where
  permissive : Permissive e.host
  tracks : Tracks m e
  attempts : ∀ x ∈ xs, Reached m x.machine

def Clockless (xs : List (Emulator σ γ)) : Prop := ∀ x ∈ xs, ¬ x.machine.ReadsClock

instance (xs : List (Emulator σ γ)) : Decidable (Clockless xs) :=
  inferInstanceAs (Decidable (∀ x ∈ xs, ¬ x.machine.ReadsClock))

variable {m : Machine} {xs : List (Emulator σ γ)} {e : Emulator σ γ}

omit [Host σ γ] in
lemma Tracks.reached (h : Tracks m e) (hh : e.halt = none) : Reached m e.machine := by
  cases h with
  | running _ hr => exact hr
  | failed _ _ hf =>
    rw [hh] at hf
    cases hf

omit [Host σ γ] in
lemma Tracks.congr {f : Emulator σ γ} (h : Tracks m e) (hh : f.halt = e.halt) (hm : Concur e.machine f.machine)
    (hc : f.machine.cycles = e.machine.cycles) : Tracks m f := by
  cases h with
  | running hn hr => exact .running (hh.trans hn) (hr.of_concur hm hc)
  | failed hr hs hf hn he => exact .failed hr hs (hh.trans hf) (hn.trans hm) (hc.trans he)

lemma not_aborts (h : Permissive e.host) : e.aborts = false := h [.decode ..] ..

lemma permissive_cycle (h : Permissive e.host) : Permissive e.cycle.2.host := by
  cases hc : e.cycle.1 with
  | error error =>
    rw [cycle_of_error hc]
    exact h
  | ok i =>
    obtain ⟨r, -, -, hn⟩ := cycle_of_ok hc
    rw [hn]
    exact sound_permissive (e := { e with machine := r.machine.counted }) h r.tone

lemma permissive_windUp (h : Permissive e.host) : Permissive e.windUp.host := by
  rw [windUp]
  apply sound_permissive
  exact h

lemma tracks_cycle (hh : e.halt = none) (hr : Reached m e.machine) (hc : ¬ e.machine.ReadsClock) :
    Tracks m e.cycle.2 := by
  rw [cycle]
  cases hs : e.machine.step with
  | error error => exact .failed hr hs rfl (.refl e.machine.fetched) rfl
  | ok s =>
    simp only [take, sound_eq]
    exact .running hh (hr.step hc hs)

lemma paced_batch (m : Machine) : BatchInvariant fun (xs : List (Emulator σ γ)) e => Clockless xs → Paced m xs e where
  announce h hx := by
    obtain ⟨hp, ht, ha⟩ := h hx
    exact ⟨hp.notify _, ht.congr rfl (.refl _) rfl, ha⟩
  abort {xs e} hab h hx := by
    rw [not_aborts (h hx).permissive] at hab
    cases hab
  cycle {xs e} hh _ h hx := by
    have hleft : Clockless xs := fun x hm => hx x (List.mem_append_left _ hm)
    have hlast : ¬ e.preview.machine.ReadsClock := hx _ (List.mem_append_right _ (List.mem_singleton.2 rfl))
    obtain ⟨hp, ht, ha⟩ := h hleft
    refine ⟨permissive_cycle (hp.notify _), tracks_cycle (e := e.preview) hh (ht.reached hh) hlast, fun x hm => ?_⟩
    rcases List.mem_append.1 hm with hm | hm
    · exact ha x hm
    · rw [List.mem_singleton.1 hm]
      exact ht.reached hh
  windUp h hx := by
    obtain ⟨hp, ht, ha⟩ := h hx
    refine ⟨permissive_windUp hp, ?_, ha⟩
    rw [Emulator.windUp, sound_eq]
    exact ht.congr rfl ⟨rfl, rfl, rfl, rfl, rfl, rfl, rfl, rfl, rfl⟩ rfl

/-- Nothing is asked of an emulator that runs at `n` instructions a frame. -/
structure Undisturbed (n : Nat) (e : Emulator σ γ) : Prop where
  paused : e.paused = false
  pending : e.mailbox.pending = []
  ipf : e.ipf = n

lemma Undisturbed.frame {n : Nat} (h : Undisturbed n e) : Undisturbed n e.frame.2 := by
  have hc := sameControls_perform e.drain
  rw [drain_of_pending_nil h.pending] at hc
  rw [Emulator.frame, drain_of_pending_nil h.pending]
  exact ⟨hc.paused.trans h.paused, (congrArg Mailbox.pending hc.mailbox).trans h.pending, hc.ipf.trans h.ipf⟩

lemma paced_run {n : Nat} (k : Nat) (hu : Undisturbed n e) (h : Clockless xs → Paced m xs e) :
    Undisturbed n (e.run (List.replicate k .frame)) ∧
      (Clockless (xs ++ collect attempted e (List.replicate k .frame)) →
        Paced m (xs ++ collect attempted e (List.replicate k .frame)) (e.run (List.replicate k .frame))) := by
  have ha : Permits (fun _ => (· = .frame)) e (List.replicate k .frame) :=
    permits_of_forall fun _ => List.eq_of_mem_replicate
  refine collect_induction (P := fun xs e => Undisturbed n e ∧ (Clockless xs → Paced m xs e)) ?_ ha ⟨hu, h⟩
  rintro xs e _ rfl ⟨hu, h⟩
  refine ⟨hu.frame, fun hx => ?_⟩
  have hd : e.drain = e := drain_of_pending_nil hu.pending
  simp only [attempted, act, frame, hd] at hx ⊢
  obtain ⟨hp, ht, hr⟩ := (paced_batch m).perform h hx
  exact ⟨hp, ht.congr rfl (.refl _) rfl, hr⟩

/-- The emulator after `k` frames of at most `n` instructions. -/
def after (n k : Nat) (e : Emulator σ γ) : Emulator σ γ := (e.setIpf n).run (List.replicate k .frame)

def tried (n k : Nat) (e : Emulator σ γ) : List (Emulator σ γ) :=
  collect attempted (e.setIpf n) (List.replicate k .frame)

/-- The same but for the clock, except that a fault leaves the program counter behind the instruction. -/
inductive Meet (a b : Emulator σ γ) : Prop where
  | level (halt : b.halt = a.halt) (concur : Concur a.machine b.machine)
  | behind {error : Error} (first : a.halt = none) (second : b.halt = some (.fault error))
      (concur : Concur a.machine.fetched b.machine)
  | ahead {error : Error} (first : a.halt = some (.fault error)) (second : b.halt = none)
      (concur : Concur b.machine.fetched a.machine)

/-- Cycles succeed up to the number of `c` and not beyond. The one that is attempted there fails. -/
structure FailsAt (error : Error) (c : Nat) (xs : List (Emulator σ γ)) (e : Emulator σ γ) : Prop where
  cycles_le : e.machine.cycles ≤ c
  lt_of_ok : ∀ x ∈ xs, ∀ i, x.cycle.1 = .ok i → x.machine.cycles < c
  fails : ∀ x ∈ xs, x.machine.cycles = c → x.cycle.1 = .error error
  next : e.machine.cycles = c → e.frame.1 = .fault error

omit [Host σ γ] in
lemma Tracks.meet {a b : Emulator σ γ} (ha : Tracks m a) (hb : Tracks m b)
    (hc : a.machine.cycles = b.machine.cycles) : Meet a b := by
  cases ha with
  | running hh hr =>
    cases hb with
    | running hh' hr' => exact .level (hh'.trans hh.symm) (hr.unique hr' hc.symm)
    | failed hr' hs hh' hm hc' =>
      exact .behind hh hh' ((hr.unique hr' (hc'.symm.trans hc.symm)).fetched.trans hm)
  | failed hr hs hh hm hc' =>
    cases hb with
    | running hh' hr' => exact .ahead hh hh' ((hr'.unique hr (hc'.symm.trans hc)).fetched.trans hm)
    | failed hr' hs' hh' hm' hc'' =>
      have hn := hr.unique hr' (hc''.symm.trans (hc.symm.trans hc'))
      have he := hn.step_error hs
      rw [hs'] at he
      cases he
      exact .level (hh'.trans hh.symm) (hm.symm.trans (hn.fetched.trans hm'))

lemma cycle_of_step_error {error : Error} (h : e.machine.step = .error error) :
    e.cycle = (.error error, { e with machine := e.machine.fetched, halt := some (.fault error) }) := by
  rw [cycle, h]

lemma Undisturbed.frame_fault {n : Nat} {error : Error} (hu : Undisturbed n e) (hn : 1 ≤ n) (hh : e.halt = none)
    (hp : Permissive e.host) (hs : e.machine.step = .error error) : e.frame.1 = .fault error := by
  obtain ⟨k, rfl⟩ := Nat.exists_eq_add_one.2 hn
  have ha : e.announce.aborts = false := not_aborts (hp.notify _)
  have hc := cycle_of_step_error (e := e.announce.preview) hs
  have hb : (executeBatch (k + 1) e.announce).halt = some (.fault error) := by
    simp only [executeBatch, ha, hc, Bool.false_eq_true, if_false]
  rw [Emulator.frame, drain_of_pending_nil hu.pending, perform_of_running hh hu.paused, hu.ipf, hb]
  rfl

lemma Undisturbed.frame_halted {n : Nat} {error : Error} (hu : Undisturbed n e)
    (hh : e.halt = some (.fault error)) : e.frame.1 = .fault error := by
  rw [Emulator.frame, drain_of_pending_nil hu.pending, perform_of_halt hh]
  rfl

lemma Paced.failsAt {n : Nat} {p : Machine} {error : Error} (h : Paced m xs e) (hu : Undisturbed n e) (hn : 1 ≤ n)
    (hr : Reached m p) (hs : p.step = .error error) : FailsAt error p.cycles xs e := by
  obtain ⟨hp, ht, ha⟩ := h
  have hfails {x : Emulator σ γ} (hx : Reached m x.machine) (hc : x.machine.cycles = p.cycles) :
      x.machine.step = .error error := (hr.unique hx hc).step_error hs
  constructor
  case cycles_le =>
    cases ht with
    | running _ hr' => exact hr.le_of_error hs hr'
    | failed hr' _ _ _ hc => exact hc ▸ hr.le_of_error hs hr'
  case lt_of_ok =>
    intro x hx i hi
    refine Nat.lt_of_le_of_ne (hr.le_of_error hs (ha x hx)) fun hc => ?_
    rw [cycle_of_step_error (hfails (ha x hx) hc)] at hi
    cases hi
  case fails =>
    intro x hx hc
    rw [cycle_of_step_error (hfails (ha x hx) hc)]
  case next =>
    -- Either the fault is still ahead, and then the first cycle of the frame comes to it, or it has halted the run.
    intro hc
    cases ht with
    | running hh hr' => exact hu.frame_fault hn hh hp (hfails hr' hc)
    | failed hr' hs' hh _ hc' =>
      have he := (hr.unique hr' (hc'.symm.trans hc)).step_error hs
      rw [hs'] at he
      cases he
      exact hu.frame_halted hh

theorem split_unseen (hp : e.paused = false) (hh : e.halt = none) (hq : e.mailbox.pending = [])
    (hs : Permissive e.host) {n₁ n₂ k₁ k₂ : Nat} (hn : 1 ≤ n₂) (h₁ : Clockless (tried n₁ k₁ e))
    (h₂ : Clockless (tried n₂ k₂ e)) :
    ((after n₁ k₁ e).machine.cycles = (after n₂ k₂ e).machine.cycles → Meet (after n₁ k₁ e) (after n₂ k₂ e)) ∧
      ∀ error, (after n₁ k₁ e).halt = some (.fault error) →
        FailsAt error (after n₁ k₁ e).machine.cycles (tried n₂ k₂ e) (after n₂ k₂ e) := by
  have hrun (n k : Nat) : Undisturbed n (after n k e) ∧ (Clockless (tried n k e) →
      Paced e.machine (tried n k e) (after n k e)) :=
    @paced_run _ _ _ e.machine [] (e.setIpf n) n k ⟨hp, hq, rfl⟩
      fun _ => ⟨hs, .running hh (reached_refl e.machine), by simp⟩
  obtain ⟨-, hp₁⟩ := hrun n₁ k₁
  obtain ⟨hu, hp₂⟩ := hrun n₂ k₂
  refine ⟨(hp₁ h₁).tracks.meet (hp₂ h₂).tracks, fun error hf => ?_⟩
  cases (hp₁ h₁).tracks with
  | running hn' =>
    rw [hf] at hn'
    cases hn'
  | failed hr hs' hh' _ hc =>
    rw [hf] at hh'
    cases hh'
    rw [hc]
    exact (hp₂ h₂).failsAt hu hn hr hs'

/-- A program that adds after a draw and then fails, by single instructions and by up to four of them. -/
theorem split_unseen_drawing :
    let e := alone [0x60, 0x05, 0xD0, 0x01, 0x70, 0x01, 0xFF, 0xFF]
    e.paused = false ∧ e.halt = none ∧ e.mailbox.pending = [] ∧ Permissive e.host ∧ Clockless (tried 1 4 e) ∧
      Clockless (tried 4 2 e) ∧ (after 1 4 e).machine.cycles = (after 4 2 e).machine.cycles ∧
      (after 1 4 e).halt = some (.fault (.unknownOpcode 0xFFFF 0x206)) ∧ Meet (after 1 4 e) (after 4 2 e) ∧
      FailsAt (.unknownOpcode 0xFFFF 0x206) (after 1 4 e).machine.cycles (tried 4 2 e) (after 4 2 e) := by
  intro e
  have hs : Permissive e.host := fun _ _ _ _ => rfl
  obtain ⟨h₁, h₂, hc, hf⟩ : Clockless (tried 1 4 e) ∧ Clockless (tried 4 2 e) ∧
      (after 1 4 e).machine.cycles = (after 4 2 e).machine.cycles ∧
      (after 1 4 e).halt = some (.fault (.unknownOpcode 0xFFFF 0x206)) := by decide +kernel
  obtain ⟨hmeet, hfails⟩ := split_unseen (e := e) rfl rfl rfl hs (by decide) h₁ h₂
  exact ⟨rfl, rfl, rfl, hs, h₁, h₂, hc, hf, hmeet hc, hfails _ hf⟩

/-- At the same number of cycles only one of the two has come to the fault. -/
theorem pc_apart_at_fault :
    let e := alone [0x60, 0x01, 0xFF, 0xFF]
    e.paused = false ∧ e.halt = none ∧ e.mailbox.pending = [] ∧ Permissive e.host ∧ Clockless (tried 1 1 e) ∧
      Clockless (tried 2 1 e) ∧ (after 1 1 e).machine.cycles = (after 2 1 e).machine.cycles ∧
      (after 1 1 e).machine.pc = 0x202 ∧ (after 2 1 e).machine.pc = 0x204 := by
  intro e
  exact ⟨rfl, rfl, rfl, fun _ _ _ _ => rfl, by decide +kernel⟩

end Chip8.Emulator

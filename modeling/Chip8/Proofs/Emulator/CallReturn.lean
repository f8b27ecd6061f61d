import Chip8.Proofs.Emulator.Drain
import Chip8.Proofs.Machine.Execute
import Mathlib.Logic.Function.Iterate

/-! Calls that come home. What lies on the stack below a call stays there as long as the stack is not lower than the
call has left it, so that the return which goes below finds the address behind the call. -/

namespace Chip8

namespace Machine

variable {m n : Machine} {i : Instruction} {below : List UInt16}

lemma Flow.stack_cases (h : Flow m n i) :
    (i = .ret ∧ m.stack.toList = n.pc :: n.stack.toList) ∨ n.stack.toList = m.pc :: m.stack.toList ∨
      n.stack = m.stack := by
  cases h with
  | ret hp => exact .inl ⟨rfl, CallStack.toList_of_pop hp⟩
  | call hp _ => exact .inr (.inl (CallStack.toList_of_push hp))
  | jump hs _ | jumpOffset hs _ | skip hs _ | wait hs _ | pass hs _ => exact .inr (.inr hs)

lemma Flow.keeps_below (h : Flow m n i) (hb : below <:+ m.stack.toList) (hd : below.length ≤ n.stack.depth) :
    below <:+ n.stack.toList := by
  rcases h.stack_cases with ⟨-, hp⟩ | hp | hs
  · rw [hp] at hb
    rcases List.suffix_cons_iff.1 hb with he | hb
    · rw [he, List.length_cons, CallStack.length_toList] at hd
      omega
    · exact hb
  · rw [hp]
    exact hb.trans (List.suffix_cons ..)
  · rw [hs]
    exact hb

lemma Flow.goes_below {address : UInt16} (h : Flow m n i) (hb : address :: below <:+ m.stack.toList)
    (hd : n.stack.depth = below.length) : i = .ret ∧ n.pc = address ∧ n.stack.toList = below := by
  have hle := hb.length_le
  have hn := n.stack.length_toList
  rw [List.length_cons] at hle
  rcases h.stack_cases with ⟨hi, hp⟩ | hp | hs
  · rw [hp] at hb hle
    have he := hb.eq_of_length (by rw [List.length_cons, List.length_cons]; omega)
    cases he
    exact ⟨hi, rfl, rfl⟩
  · rw [hp, List.length_cons] at hn
    omega
  · rw [← hs] at hle
    omega

lemma toList_of_execute_call {target : UInt16} {r : Effect} (h : m.execute (.call target) = .ok r) :
    r.machine.stack.toList = m.pc :: m.stack.toList := by
  simp only [execute] at h
  split at h
  · rename_i hp
    cases h
    exact CallStack.toList_of_push hp
  · cases h

end Machine

namespace Emulator

variable {σ γ : Type} [Host σ γ]

/-- The first `n` cycles of a run succeed. `i k` is the instruction that is executed in `s k`. -/
def Cycles (s : Nat → Emulator σ γ) (i : Nat → Instruction) (n : Nat) : Prop :=
  ∀ k < n, (s k).cycle = (.ok (i k), s (k + 1))

variable {e f : Emulator σ γ} {i : Instruction}

lemma cycle_eq_ok (h : e.cycle = (.ok i, f)) :
    ∃ r, e.machine.fetched.execute i = .ok r ∧ f.machine = r.machine.counted := by
  obtain ⟨r, -, hr, hn⟩ := cycle_of_ok (congrArg Prod.fst h)
  rw [h, sound_eq] at hn
  exact ⟨r, hr, congrArg Emulator.machine hn⟩

lemma cycle_keeps_below {below : List UInt16} (h : e.cycle = (.ok i, f)) (hb : below <:+ e.machine.stack.toList)
    (hd : below.length ≤ f.machine.stack.depth) : below <:+ f.machine.stack.toList := by
  obtain ⟨r, hr, hm⟩ := cycle_eq_ok h
  rw [hm] at hd ⊢
  exact (Machine.execute_executes hr).flow.keeps_below hb hd

lemma cycle_goes_below {below : List UInt16} {address : UInt16} (h : e.cycle = (.ok i, f))
    (hb : address :: below <:+ e.machine.stack.toList) (hd : f.machine.stack.depth = below.length) :
    i = .ret ∧ f.machine.pc = address ∧ f.machine.stack.toList = below := by
  obtain ⟨r, hr, hm⟩ := cycle_eq_ok h
  rw [hm] at hd ⊢
  exact (Machine.execute_executes hr).flow.goes_below hb hd

lemma cycle_calls {target : UInt16} (h : e.cycle = (.ok (.call target), f)) :
    f.machine.stack.toList = (e.machine.pc + 2) :: e.machine.stack.toList := by
  obtain ⟨r, hr, hm⟩ := cycle_eq_ok h
  rw [hm]
  exact Machine.toList_of_execute_call hr

variable {s : Nat → Emulator σ γ} {is : Nat → Instruction} {n : Nat}

lemma Cycles.keeps_below {below : List UInt16} (run : Cycles s is n)
    (hb : below <:+ (s 0).machine.stack.toList) (hd : ∀ k ≤ n, below.length ≤ (s k).machine.stack.depth) :
    below <:+ (s n).machine.stack.toList := by
  induction n with
  | zero => exact hb
  | succ n ih =>
    have hn := ih (fun k hk => run k (Nat.lt_succ_of_lt hk)) fun k hk => hd k (Nat.le_succ_of_le hk)
    exact cycle_keeps_below (run n (Nat.lt_succ_self n)) hn (hd (n + 1) (Nat.le_refl _))

theorem call_comes_home (run : Cycles s is (n + 2)) {target : UInt16} (hc : is 0 = .call target)
    (hd : ∀ k, 1 ≤ k → k ≤ n + 1 → (s 0).machine.stack.toList.length + 1 ≤ (s k).machine.stack.depth)
    (hl : (s (n + 2)).machine.stack.depth = (s 0).machine.stack.toList.length) :
    is (n + 1) = .ret ∧ (s (n + 2)).machine.pc = (s 0).machine.pc + 2 ∧
      (s (n + 2)).machine.stack.toList = (s 0).machine.stack.toList := by
  have hfirst : (s 0).cycle = (.ok (.call target), s 1) := hc ▸ run 0 (Nat.succ_pos _)
  -- The cycles between the call and the last one, which begin in `s 1`.
  have hbetween : Cycles (fun k => s (k + 1)) (fun k => is (k + 1)) n :=
    fun k hk => run (k + 1) (by omega)
  have hb : ((s 0).machine.pc + 2) :: (s 0).machine.stack.toList <:+ (s (n + 1)).machine.stack.toList :=
    hbetween.keeps_below (cycle_calls hfirst ▸ List.suffix_refl _)
      fun k hk => hd (k + 1) (Nat.le_add_left ..) (Nat.succ_le_succ hk)
  exact cycle_goes_below (run (n + 1) (Nat.lt_succ_self _)) hb hl

/-- A routine that calls another one twice. -/
def nested : Nat → Emulator Silence Unit := fun k =>
  (fun e => e.cycle.2)^[k] (alone [0x22, 0x06, 0, 0, 0, 0, 0x22, 0x0C, 0x22, 0x0C, 0x00, 0xEE, 0x00, 0xEE])

theorem call_comes_home_nested :
    let is : Nat → Instruction :=
      fun k => [.call 0x206, .call 0x20C, .ret, .call 0x20C, .ret, .ret].getD k .clear
    Cycles nested is (4 + 2) ∧ is 0 = .call 0x206 ∧
      (∀ k, 1 ≤ k → k ≤ 4 + 1 → (nested 0).machine.stack.toList.length + 1 ≤ (nested k).machine.stack.depth) ∧
      (nested (4 + 2)).machine.stack.depth = (nested 0).machine.stack.toList.length ∧
      is (4 + 1) = .ret ∧ (nested (4 + 2)).machine.pc = (nested 0).machine.pc + 2 ∧
      (nested (4 + 2)).machine.stack.toList = (nested 0).machine.stack.toList := by
  intro is
  obtain ⟨hi, hd, hl⟩ : (∀ k < 4 + 2, (nested k).cycle.1.toOption = some (is k)) ∧
      (∀ k < 4 + 2, 1 ≤ k → (nested 0).machine.stack.toList.length + 1 ≤ (nested k).machine.stack.depth) ∧
      (nested (4 + 2)).machine.stack.depth = (nested 0).machine.stack.toList.length := by decide +kernel
  have run : Cycles nested is (4 + 2) := by
    intro k hk
    refine Prod.ext (eq_ok_of_toOption (hi k hk)) ?_
    rw [nested, nested, Function.iterate_succ_apply']
  have hd' : ∀ k, 1 ≤ k → k ≤ 4 + 1 →
      (nested 0).machine.stack.toList.length + 1 ≤ (nested k).machine.stack.depth :=
    fun k h1 hk => hd k (Nat.lt_succ_of_le hk) h1
  exact ⟨run, rfl, hd', hl, call_comes_home run rfl hd' hl⟩

end Emulator

end Chip8

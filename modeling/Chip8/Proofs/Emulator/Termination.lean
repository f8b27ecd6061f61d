import Chip8.Proofs.Emulator.Halting

/-! A stop in the mailbox ends a run. Each frame before the one that comes to it takes as many messages as a frame can
take, so that the number of messages in front of the stop bounds the number of frames, whatever the program does. -/

namespace Chip8

def Halt.result : Halt → Except Error Unit
  | .stopped | .aborted => .ok ()
  | .fault error => .error error

namespace Emulator

variable {σ γ : Type} [Host σ γ] {e last t : Emulator σ γ} {k n : Nat} {r : Except Error Unit}

lemma runWithin_succ_of_halt {halt : Halt} (hh : e.frame.2.halt = some halt) (n : Nat) :
    e.runWithin (n + 1) = (some halt.result, e.frame.2) := by
  have hf := frame_outcome e
  rw [hh] at hf
  have he : e.frame = (.ofHalt halt, e.frame.2) := Prod.ext hf rfl
  rw [runWithin, he]
  cases halt <;> rfl

lemma runWithin_succ_of_going (hh : e.frame.2.halt = none) (n : Nat) :
    e.runWithin (n + 1) = e.frame.2.runWithin n := by
  have hf := frame_outcome e
  rw [hh] at hf
  have he : e.frame = (if e.frame.2.paused then .paused else .running, e.frame.2) := Prod.ext hf rfl
  rw [runWithin, he]
  cases e.frame.2.paused <;> rfl

lemma halt_of_runWithin (h : e.runWithin n = (some r, t)) : ∃ halt, t.halt = some halt ∧ r = halt.result := by
  induction n generalizing e with
  | zero => cases h
  | succ n ih =>
    cases hh : e.frame.2.halt with
    | some halt =>
      rw [runWithin_succ_of_halt hh] at h
      cases h
      exact ⟨halt, hh, rfl⟩
    | none =>
      rw [runWithin_succ_of_going hh] at h
      exact ih h

lemma runWithin_induction {P : Emulator σ γ → Prop} (step : ∀ e, P e → P e.frame.2) (h : P e) (n : Nat) :
    P (e.runWithin n).2 := by
  induction n generalizing e with
  | zero => exact h
  | succ n ih =>
    cases hh : e.frame.2.halt with
    | some halt =>
      rw [runWithin_succ_of_halt hh]
      exact step e h
    | none =>
      rw [runWithin_succ_of_going hh]
      exact ih (step e h)

lemma runWithin_mono {m : Nat} (h : e.runWithin n = (some r, t)) (hn : n ≤ m) : e.runWithin m = (some r, t) := by
  induction n generalizing e m with
  | zero => cases h
  | succ n ih =>
    obtain ⟨m, rfl⟩ := Nat.exists_eq_add_one.2 (Nat.zero_lt_of_lt hn)
    cases hh : e.frame.2.halt with
    | some halt =>
      rw [runWithin_succ_of_halt hh] at h ⊢
      exact h
    | none =>
      rw [runWithin_succ_of_going hh] at h ⊢
      exact ih h (Nat.le_of_succ_le_succ hn)

/-- A run that goes on for `k` frames, to `last`, and ends with the next one, however many it may take. -/
structure EndsBehind (k : Nat) (e last : Emulator σ γ) (r : Except Error Unit) (t : Emulator σ γ) : Prop where
  ongoing : e.runWithin k = (none, last)
  ends : ∀ n, k < n → e.runWithin n = (some r, t)

lemma endsBehind_of_halt {halt : Halt} (hh : e.frame.2.halt = some halt) :
    EndsBehind 0 e e halt.result e.frame.2 := by
  refine ⟨rfl, fun n hn => ?_⟩
  obtain ⟨n, rfl⟩ := Nat.exists_eq_add_one.2 hn
  exact runWithin_succ_of_halt hh n

lemma EndsBehind.cons (hh : e.frame.2.halt = none) (h : EndsBehind k e.frame.2 last r t) :
    EndsBehind (k + 1) e last r t := by
  refine ⟨(runWithin_succ_of_going hh k).trans h.ongoing, fun n hn => ?_⟩
  obtain ⟨n, rfl⟩ := Nat.exists_eq_add_one.2 (Nat.zero_lt_of_lt hn)
  rw [runWithin_succ_of_going hh]
  exact h.ends n (Nat.lt_of_succ_lt_succ hn)

/-- The last frame comes to the stop and takes no message behind it. -/
structure Stops (behind : List (Message γ)) (last : Emulator σ γ) (r : Except Error Unit) (t : Emulator σ γ) :
    Prop where
  result : r = .ok ()
  halt : t.halt = some .stopped
  attempted : last.attempted .frame = []
  drained : t = last.drain.publish
  pending : t.mailbox.pending = behind

variable {before behind : List (Message γ)}

lemma frame_stops (hq : e.mailbox.pending = before ++ .stop :: behind) (hb : ∀ m ∈ before, m.isStop = false)
    (hl : before.length < e.batchLimit) :
    EndsBehind 0 e e (.ok ()) e.frame.2 ∧ Stops behind e (.ok ()) e.frame.2 := by
  have hdue : Mailbox.due e.batchLimit e.mailbox.pending = (before ++ [Message.stop]).length := by
    rw [hq, Mailbox.due_of_stop hb, List.length_append, List.length_singleton]
    omega
  have hsplit : e.mailbox.pending = before ++ [.stop] ++ behind := by rw [hq, List.append_assoc]; rfl
  have ha : e.applied .frame = before ++ [.stop] := by
    rw [applied_frame, hdue, hsplit, List.take_left]
  have hp : e.frame.2.mailbox.pending = behind := by
    rw [(frame_pending e).1, hdue, hsplit, List.drop_left]
  have hd := drain_of_stop ha
  obtain ⟨hf, hx⟩ := frame_of_halted hd
  have hh : e.frame.2.halt = some .stopped := by
    rw [hf]
    exact hd
  exact ⟨endsBehind_of_halt hh, rfl, hh, hx, congrArg Prod.snd hf, hp⟩

lemma frame_approaches (hq : e.mailbox.pending = before ++ .stop :: behind)
    (hb : ∀ m ∈ before, m.isStop = false) (hl : e.batchLimit ≤ before.length) :
    e.frame.2.mailbox.pending = before.drop e.batchLimit ++ .stop :: behind := by
  have hd : Mailbox.due e.batchLimit e.mailbox.pending = e.batchLimit := by
    rw [hq, Mailbox.due_of_stop hb]
    omega
  rw [(frame_pending e).1, hd, hq, List.drop_append_of_le_length hl]

lemma run_reaches_stop (hl : 1 ≤ e.batchLimit) (hq : e.mailbox.pending = before ++ .stop :: behind)
    (hb : ∀ m ∈ before, m.isStop = false) :
    ∃ k last r t, EndsBehind k e last r t ∧ k ≤ before.length / e.batchLimit ∧
      (k = before.length / e.batchLimit → Stops behind last r t) := by
  -- A frame that does not end the run takes `batchLimit` messages, so that the quotient is one less for the rest.
  generalize hn : before.length / e.batchLimit = q
  induction q generalizing e before with
  | zero =>
    obtain ⟨he, hs⟩ := frame_stops hq hb (by simpa [Nat.div_eq_zero_iff, Nat.ne_of_gt hl] using hn)
    exact ⟨0, e, .ok (), e.frame.2, he, Nat.le_refl 0, fun _ => hs⟩
  | succ q ih =>
    have hle : e.batchLimit ≤ before.length := by
      refine Nat.le_of_not_lt fun hlt => ?_
      rw [Nat.div_eq_of_lt hlt] at hn
      cases hn
    cases hh : e.frame.2.halt with
    | some halt => exact ⟨0, e, halt.result, e.frame.2, endsBehind_of_halt hh, Nat.zero_le _, nofun⟩
    | none =>
      have hlimit := (frame_pending e).2
      have hrest : (before.drop e.batchLimit).length / e.frame.2.batchLimit = q := by
        rw [Nat.div_eq_sub_div hl hle] at hn
        rw [hlimit, List.length_drop]
        exact Nat.succ.inj hn
      obtain ⟨k, last, r, t, he, hk, hs⟩ := ih (hlimit ▸ hl) (frame_approaches hq hb hle)
        (fun m hm => hb m (List.mem_of_mem_drop hm)) hrest
      exact ⟨k + 1, last, r, t, he.cons hh, Nat.succ_le_succ hk, fun hkq => hs (Nat.succ.inj hkq)⟩

theorem stop_ends_run (e : Emulator σ γ) :
    (∀ before behind, e.mailbox.pending = before ++ .stop :: behind → (∀ m ∈ before, m.isStop = false) →
      1 ≤ e.batchLimit → ∃ k last r t, EndsBehind k e last r t ∧ k + 1 ≤ before.length / e.batchLimit + 1 ∧
        (k + 1 = before.length / e.batchLimit + 1 → Stops behind last r t)) ∧
      ∀ n r t, e.runWithin n = (some r, t) →
        (r = .ok () ↔ t.halt = some .stopped ∨ t.halt = some .aborted) ∧
          ∀ error, r = .error error ↔ t.halt = some (.fault error) := by
  constructor
  · intro before behind hq hb hl
    obtain ⟨k, last, r, t, he, hk, hs⟩ := run_reaches_stop hl hq hb
    exact ⟨k, last, r, t, he, Nat.succ_le_succ hk, fun hkq => hs (Nat.succ.inj hkq)⟩
  · intro n r t h
    obtain ⟨halt, hh, rfl⟩ := halt_of_runWithin h
    rw [hh]
    cases halt <;> simp [Halt.result, eq_comm]

/-- A jump to itself, two messages to a frame, and a program swapped in front of the stop. Where that program fails,
the run ends a frame earlier and not at the stop. -/
theorem stop_ends_run_queued :
    let before (rom : List UInt8) : List (Message Unit) := [.setIpf 1, .pause, .resume, .swapRom rom, .pause]
    let queue (rom : List UInt8) : Emulator Silence Unit :=
      { alone [0x12, 0x00] with
        batchLimit := 2
        mailbox := { capacity := 8, pending := before rom ++ .stop :: [.resume] } }
    (∃ last t, EndsBehind 2 (queue [0x12, 0x00]) last (.ok ()) t ∧ Stops [.resume] last (.ok ()) t) ∧
      ∃ t, (queue [0xFF, 0xFF]).runWithin 2 = (some (.error (.unknownOpcode 0xFFFF 0x200)), t) := by
  intro before queue
  constructor
  · have hb : ∀ m ∈ before [0x12, 0x00], m.isStop = false := by simp [before, Message.isStop]
    have hgoing : ((queue [0x12, 0x00]).runWithin 2).1 = none := by decide +kernel
    have hq : (before [0x12, 0x00]).length / (queue [0x12, 0x00]).batchLimit = 2 := by decide
    obtain ⟨k, last, r, t, he, hk, hs⟩ := (stop_ends_run (queue [0x12, 0x00])).1 _ _ rfl hb (by decide)
    rw [hq] at hk hs
    obtain rfl : k = 2 := by
      refine Nat.le_antisymm (Nat.le_of_succ_le_succ hk) (Nat.le_of_not_lt fun hlt => ?_)
      rw [he.ends 2 hlt] at hgoing
      cases hgoing
    have hstops := hs rfl
    obtain rfl := hstops.result
    exact ⟨last, t, he, hstops⟩
  · obtain ⟨hends, hh⟩ : ((queue [0xFF, 0xFF]).runWithin 2).1.isSome = true ∧
        ((queue [0xFF, 0xFF]).runWithin 2).2.halt = some (.fault (.unknownOpcode 0xFFFF 0x200)) := by
      decide +kernel
    obtain ⟨r, hr⟩ := Option.isSome_iff_exists.1 hends
    obtain ⟨-, hfault⟩ := (stop_ends_run (queue [0xFF, 0xFF])).2 2 r _ (Prod.ext hr rfl)
    exact ⟨_, Prod.ext (hr.trans (congrArg some ((hfault _).2 hh))) rfl⟩

end Emulator

end Chip8

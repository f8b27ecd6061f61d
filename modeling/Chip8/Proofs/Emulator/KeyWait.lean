import Chip8.Proofs.Emulator.FrameCycles
import Chip8.Proofs.Emulator.Keys
import Chip8.Proofs.Emulator.Pace

/-! Waiting for a key. The wait is an instruction that goes back to itself, and it ends by a key that is released in
sight: since the last frame that ran to its end, and since the last reset or change of program. -/

namespace Chip8

/-- What bears on the key released last. -/
inductive KeyNote where
  | released (key : UInt8)
  | forgot
  deriving DecidableEq

namespace KeyNote

def sight (keys : List UInt8) : KeyNote → List UInt8
  | released key => keys ++ [key]
  | forgot => []

/-- The keys released since the last time that all were forgotten. -/
def inSight (notes : List KeyNote) : List UInt8 := notes.foldl sight []

def key? : KeyNote → Option UInt8
  | released key => some key
  | forgot => none

lemma foldl_sight {notes : List KeyNote} (h : .forgot ∉ notes) (keys : List UInt8) :
    notes.foldl sight keys = keys ++ notes.filterMap key? := by
  induction notes generalizing keys with
  | nil => exact (List.append_nil keys).symm
  | cons note notes ih =>
    obtain ⟨hne, hrest⟩ := not_or.1 (mt List.mem_cons.2 h)
    rw [List.foldl_cons, ih hrest]
    cases note with
    | released key => exact List.append_assoc ..
    | forgot => exact absurd rfl hne

lemma inSight_append (notes more : List KeyNote) : inSight (notes ++ more) = more.foldl sight (inSight notes) :=
  List.foldl_append

end KeyNote

def Message.notes {γ : Type} : Message γ → List KeyNote
  | .setKey key down => if key.toNat < Keypad.size ∧ down = false then [.released key] else []
  | .swapRom rom => if rom.length ≤ maxRomSize then [.forgot] else []
  | _ => []

lemma Message.lastReleased_keypadAfter {γ : Type} {k : Keypad} {keys : List UInt8}
    (h : k.lastReleased = keys.getLast?) (m : Message γ) :
    (m.keypadAfter k).lastReleased = (m.notes.foldl KeyNote.sight keys).getLast? := by
  cases m with
  | setKey key down =>
    rw [keypadAfter, Keypad.lastReleased_set, notes]
    split
    · exact List.getLast?_concat.symm
    · exact h
  | swapRom rom =>
    rw [keypadAfter, notes]
    split
    · rfl
    · exact h
  | _ => exact h

lemma Message.lastReleased_foldl {γ : Type} {k : Keypad} {keys : List UInt8}
    (h : k.lastReleased = keys.getLast?) (ms : List (Message γ)) :
    (ms.foldl keypadAfter k).lastReleased = ((ms.flatMap notes).foldl KeyNote.sight keys).getLast? := by
  induction ms generalizing k keys with
  | nil => exact h
  | cons m ms ih =>
    rw [List.foldl_cons, List.flatMap_cons, List.foldl_append]
    exact ih (lastReleased_keypadAfter h m)

namespace Emulator

variable {σ γ : Type} [Host σ γ]

/-- What an action does about keys; a frame forgets them at its end, and only if it runs to it. -/
def notes (e : Emulator σ γ) : Action γ → List KeyNote
  | .frame => (e.applied .frame).flatMap Message.notes ++ if e.frame.1 = .running then [.forgot] else []
  | .reset => [.forgot]
  | .operate m => m.notes
  | _ => []

lemma lastReleased_drain {e : Emulator σ γ} {keys : List UInt8} (h : e.machine.keypad.lastReleased = keys.getLast?) :
    e.drain.machine.keypad.lastReleased =
      (((e.applied .frame).flatMap Message.notes).foldl KeyNote.sight keys).getLast? := by
  rw [drain_keypad]
  exact Message.lastReleased_foldl h _

lemma lastReleased_act {e : Emulator σ γ} {keys : List UInt8} (h : e.machine.keypad.lastReleased = keys.getLast?)
    (a : Action γ) :
    (e.act a).machine.keypad.lastReleased = ((e.notes a).foldl KeyNote.sight keys).getLast? := by
  cases a with
  | trySend m | send m =>
    exact submission_keeps (P := fun f => f.machine.keypad.lastReleased = keys.getLast?) (fun _ _ h => h) rfl h
  | frame =>
    have hk : (e.act .frame).machine.keypad = e.drain.perform.2.machine.keypad := rfl
    have ho : e.frame.1 = e.drain.perform.1 := rfl
    rw [hk, perform_keypad, notes, ho, List.foldl_append]
    split
    · rfl
    · exact lastReleased_drain h
  | cycle =>
    rw [act, cycle_keypad]
    exact h
  | execute i =>
    rw [act, execute_keypad]
    exact h
  | reset =>
    rw [act, reset, sound_eq]
    rfl
  | operate m =>
    rw [act, apply_keypad]
    exact Message.lastReleased_keypadAfter h m

lemma lastReleased_run (font : Font) (host : σ) (config : Config) (key : ChaCha.Key) (as : List (Action γ)) :
    ((create font host config key).run as).machine.keypad.lastReleased =
      (KeyNote.inSight (collect notes (create font host config key) as)).getLast? := by
  have ha : Permits (fun _ _ => True) (create font host config key : Emulator σ γ) as :=
    permits_of_forall fun _ _ => trivial
  have hfirst : (create font host config key : Emulator σ γ).machine.keypad.lastReleased =
      (KeyNote.inSight []).getLast? := rfl
  refine collect_induction (f := notes)
    (P := fun ns e => e.machine.keypad.lastReleased = (KeyNote.inSight ns).getLast?) ?_ ha hfirst
  intro ns e a _ h
  rw [KeyNote.inSight_append]
  exact lastReleased_act h a

/-- How a wait for a key fares in `x`, where `keys` have been released in sight. -/
structure Served (keys : List UInt8) (r : UInt8) (x : Emulator σ γ) : Prop where
  succeeds : x.cycle.1 = .ok (.awaitKey r)
  passes : x.cycle.2.machine.pc = x.machine.pc + 2 ↔ keys ≠ []
  takes : ∀ key, keys.getLast? = some key → x.cycle.2 = { x with
    machine := { x.machine with
      registers := x.machine.registers.set r key
      pc := x.machine.pc + 2
      cycles := x.machine.cycles + 1 } }
  stays : keys = [] → x.cycle.2 = { x with machine := { x.machine with cycles := x.machine.cycles + 1 } }

lemma cycle_awaitKey {x : Emulator σ γ} {r : UInt8} (h : Instruction.decode x.machine.opcode = some (.awaitKey r)) :
    x.cycle = (.ok (.awaitKey r), { x with machine := (x.machine.fetched.awaitKey r).counted }) := by
  simp only [cycle, Machine.step, h]
  rfl

lemma awaitKey_of_some {m : Machine} {key : UInt8} (h : m.keypad.lastReleased = some key) (r : UInt8) :
    m.fetched.awaitKey r = { m with registers := m.registers.set r key, pc := m.pc + 2 } := by
  have hk : m.fetched.keypad.lastReleased = some key := h
  rw [Machine.awaitKey, hk]
  rfl

lemma awaitKey_of_none {m : Machine} (h : m.keypad.lastReleased = none) (r : UInt8) : m.fetched.awaitKey r = m := by
  have hk : m.fetched.keypad.lastReleased = none := h
  have hpc : m.fetched.here = m.pc := UInt16.add_sub_cancel m.pc 2
  rw [Machine.awaitKey, hk]
  simp only [hpc]
  rfl

lemma served {x : Emulator σ γ} {keys : List UInt8} (h : x.machine.keypad.lastReleased = keys.getLast?) {r : UInt8}
    (hd : Instruction.decode x.machine.opcode = some (.awaitKey r)) : Served keys r x := by
  have hc := cycle_awaitKey hd
  have htakes (key : UInt8) (hk : keys.getLast? = some key) : x.cycle.2 = { x with
      machine := { x.machine with
        registers := x.machine.registers.set r key
        pc := x.machine.pc + 2
        cycles := x.machine.cycles + 1 } } := by
    rw [hc, awaitKey_of_some (h.trans hk)]
    rfl
  have hstays (hk : keys = []) :
      x.cycle.2 = { x with machine := { x.machine with cycles := x.machine.cycles + 1 } } := by
    rw [hk] at h
    rw [hc, awaitKey_of_none h]
    rfl
  refine ⟨congrArg Prod.fst hc, ⟨fun hp hk => ?_, fun hk => ?_⟩, htakes, hstays⟩
  · rw [hstays hk] at hp
    exact absurd (UInt16.left_eq_add.1 hp) (by decide)
  · rw [htakes _ (List.getLast?_eq_some_getLast hk)]

lemma rested_of_none {m : Machine} (h : m.keypad.lastReleased = none) : m.rested = { m with
    delay := ⟨UInt8.ofNat (m.delay.count.toNat - 1)⟩
    sound := ⟨UInt8.ofNat (m.sound.count.toNat - 1)⟩ } := by
  have hidle : { m.keypad with lastReleased := none } = m.keypad := by rw [← h]
  rw [Machine.rested, hidle]

/-- Up to `n` instructions a frame, the first of them a wait for a key with no key in sight. -/
structure Waiting (n : Nat) (r : UInt8) (e : Emulator σ γ) : Prop extends Undisturbed n e where
  halt : e.halt = none
  permissive : Permissive e.host
  waits : Instruction.decode e.machine.opcode = some (.awaitKey r)
  unseen : e.machine.keypad.lastReleased = none

lemma waiting_batch {e : Emulator σ γ} {r : UInt8} (n : Nat) (hp : Permissive e.host)
    (hd : Instruction.decode e.machine.opcode = some (.awaitKey r)) (hk : e.machine.keypad.lastReleased = none) :
    ∃ host, Permissive host ∧ executeBatch n e = { e with
      machine := { e.machine with cycles := e.machine.cycles + n }
      host := host } := by
  induction n generalizing e with
  | zero => exact ⟨e.host, hp, rfl⟩
  | succ n ih =>
    have hc := cycle_awaitKey (x := e.preview) hd
    rw [awaitKey_of_none (m := e.preview.machine) hk] at hc
    obtain ⟨host, hh, hb⟩ := ih (e := { e.preview with machine := e.machine.counted }) (hp.notify _) hd hk
    refine ⟨host, hh, ?_⟩
    rw [executeBatch, if_neg (by simp [not_aborts hp]), hc]
    refine hb.trans ?_
    simp only [Machine.counted, Nat.add_assoc, Nat.add_comm 1 n]
    rfl

lemma Waiting.frame {n : Nat} {r : UInt8} {e : Emulator σ γ} (h : Waiting n r e) :
    e.frame.1 = .running ∧ Waiting n r e.frame.2 ∧ e.frame.2.machine = { e.machine with
      cycles := e.machine.cycles + n
      delay := ⟨UInt8.ofNat (e.machine.delay.count.toNat - 1)⟩
      sound := ⟨UInt8.ofNat (e.machine.sound.count.toNat - 1)⟩ } := by
  obtain ⟨host, hh, hb⟩ := waiting_batch (e := e.announce) e.ipf (h.permissive.notify _) h.waits h.unseen
  have hnone : (executeBatch e.ipf e.announce).halt = none := by
    rw [hb]
    exact h.halt
  have hf : e.frame = (.running, (executeBatch e.ipf e.announce).windUp.publish) := by
    rw [Emulator.frame, drain_of_pending_nil h.pending, perform_of_running h.halt h.paused, hnone]
  have hm : e.frame.2.machine = { e.machine with
      cycles := e.machine.cycles + n
      delay := ⟨UInt8.ofNat (e.machine.delay.count.toNat - 1)⟩
      sound := ⟨UInt8.ofNat (e.machine.sound.count.toNat - 1)⟩ } := by
    rw [hf, ← h.ipf]
    refine (windUp_machine _).trans ?_
    rw [hb]
    exact rested_of_none h.unseen
  refine ⟨by rw [hf], ⟨h.toUndisturbed.frame, ?_, ?_, ?_, ?_⟩, hm⟩
  · rw [hf, publish, windUp, sound_eq]
    exact hnone
  · rw [hf, hb]
    exact permissive_windUp hh
  · rw [hm]
    exact h.waits
  · rw [hm]
    exact h.unseen

lemma Waiting.frames {n : Nat} {r : UInt8} {e : Emulator σ γ} (h : Waiting n r e) (k : Nat) :
    collect outcomes e (List.replicate k .frame) = List.replicate k .running ∧
      (e.run (List.replicate k .frame)).machine = { e.machine with
        cycles := e.machine.cycles + k * n
        delay := ⟨UInt8.ofNat (e.machine.delay.count.toNat - k)⟩
        sound := ⟨UInt8.ofNat (e.machine.sound.count.toNat - k)⟩ } := by
  induction k generalizing e with
  | zero => simp [collect, run]
  | succ k ih =>
    obtain ⟨ho, hw, hm⟩ := h.frame
    obtain ⟨hos, hms⟩ := ih hw
    have hcycles : e.machine.cycles + n + k * n = e.machine.cycles + (k + 1) * n := by
      rw [Nat.succ_mul]
      omega
    have hcount (v : UInt8) : (UInt8.ofNat (v.toNat - 1)).toNat - k = v.toNat - (k + 1) := by
      have hv := v.toNat_lt
      rw [UInt8.toNat_ofNat_of_lt' (Nat.lt_of_le_of_lt (Nat.sub_le ..) hv)]
      omega
    rw [hm] at hms
    simp only [hcycles, hcount] at hms
    refine ⟨?_, hms⟩
    rw [List.replicate_succ, List.replicate_succ, collect, ← hos, ← ho]
    rfl

/-- A wait for a key takes the last key released in sight, messages of its own frame included, or goes back to itself
where there is none: then it keeps a machine that nothing disturbs for as long as frames are given to it. Keys stay in
sight until they are forgotten, and a frame that runs to its end forgets all. -/
theorem release_ends_wait (font : Font) (host : σ) (config : Config) (key : ChaCha.Key) (as : List (Action γ)) :
    let first : Emulator σ γ := create font host config key
    let e := first.run as
    let past := collect notes first as
    e.machine.keypad.lastReleased = (KeyNote.inSight past).getLast? ∧
      (∀ x ∈ e.attempted .frame, ∀ r, Instruction.decode x.machine.opcode = some (.awaitKey r) →
        Served (KeyNote.inSight (past ++ (e.applied .frame).flatMap Message.notes)) r x) ∧
      (∀ n r, Undisturbed n e → e.halt = none → Permissive e.host →
        Instruction.decode e.machine.opcode = some (.awaitKey r) → KeyNote.inSight past = [] →
        ∀ k, collect outcomes e (List.replicate k .frame) = List.replicate k .running ∧
          (e.run (List.replicate k .frame)).machine = { e.machine with
            cycles := e.machine.cycles + k * n
            delay := ⟨UInt8.ofNat (e.machine.delay.count.toNat - k)⟩
            sound := ⟨UInt8.ofNat (e.machine.sound.count.toNat - k)⟩ }) ∧
      (∀ bs, .forgot ∉ collect notes e bs → KeyNote.inSight (collect notes first (as ++ bs)) =
        KeyNote.inSight past ++ (collect notes e bs).filterMap KeyNote.key?) ∧
      (e.frame.1 = .running → KeyNote.inSight (collect notes first (as ++ [.frame])) = [] ∧
        e.frame.2.machine.keypad.lastReleased = none) := by
  intro first e past
  have hlast : e.machine.keypad.lastReleased = (KeyNote.inSight past).getLast? :=
    lastReleased_run font host config key as
  refine ⟨hlast, fun x hx r hd => ?_, fun n r hu hh hs hd hnone k => ?_, fun bs hbs => ?_, fun ho => ?_⟩
  · -- Every cycle of the frame sees the keypad as the messages have left it.
    have hk : x.machine.keypad = e.drain.machine.keypad := performed_keypad e.drain x hx
    refine served ?_ hd
    rw [hk, lastReleased_drain hlast, KeyNote.inSight_append]
  · have hunseen : e.machine.keypad.lastReleased = none := by
      rw [hlast, hnone]
      rfl
    have hw : Waiting n r e := ⟨hu, hh, hs, hd, hunseen⟩
    exact hw.frames k
  · rw [collect_append, KeyNote.inSight_append, KeyNote.foldl_sight hbs]
  · have hforgot : KeyNote.inSight (collect notes first (as ++ [.frame])) = [] := by
      have hn : e.notes .frame = (e.applied .frame).flatMap Message.notes ++ [.forgot] := by
        rw [notes, if_pos ho]
      have hc : collect notes first (as ++ [.frame]) = past ++ (e.notes .frame ++ []) := collect_append notes first as _
      rw [hc, List.append_nil, hn, ← List.append_assoc, KeyNote.inSight_append]
      rfl
    refine ⟨hforgot, ?_⟩
    have hframe := lastReleased_run (γ := γ) font host config key (as ++ [.frame])
    rw [hforgot, run_append] at hframe
    exact hframe

/-- A wait at the start of a program; `B` is released while the emulator is paused. -/
theorem release_ends_wait_paused :
    let first : Emulator Silence Unit := create .standard Silence.mk { ipf := 2 } (Vector.replicate 8 0)
    let as : List (Action Unit) := [.operate (.swapRom [0xF1, 0x0A, 0x12, 0x02]), .frame, .operate .resume, .frame]
    let bs : List (Action Unit) := [.operate .pause, .send (.setKey 0xB false), .frame, .operate .resume]
    (Undisturbed 2 (first.run as) ∧ (first.run as).halt = none ∧ Permissive (first.run as).host ∧
        Instruction.decode (first.run as).machine.opcode = some (.awaitKey 1) ∧
        KeyNote.inSight (collect notes first as) = [] ∧
        collect outcomes (first.run as) (List.replicate 3 .frame) = List.replicate 3 .running ∧
        ((first.run as).run (List.replicate 3 .frame)).machine.cycles = (first.run as).machine.cycles + 3 * 2) ∧
      (.forgot ∉ collect notes (first.run as) bs ∧ KeyNote.inSight (collect notes first (as ++ bs)) = [0xB] ∧
        (first.run (as ++ bs)).machine.keypad.lastReleased = some 0xB) ∧
      (∃ x ∈ (first.run (as ++ bs)).attempted .frame,
        Instruction.decode x.machine.opcode = some (.awaitKey 1) ∧ Served [0xB] 1 x) ∧
      (first.run (as ++ bs)).frame.1 = .running ∧
      (first.run (as ++ bs)).frame.2.machine.keypad.lastReleased = none := by
  intro first as bs
  have hfirst : create .standard Silence.mk { ipf := 2 } (Vector.replicate 8 0) = first := rfl
  obtain ⟨-, -, hwaits, hstays, -⟩ := release_ends_wait (γ := Unit) .standard Silence.mk { ipf := 2 }
    (Vector.replicate 8 0) as
  obtain ⟨hlast, hserved, -, -, hforgets⟩ := release_ends_wait (γ := Unit) .standard Silence.mk { ipf := 2 }
    (Vector.replicate 8 0) (as ++ bs)
  rw [hfirst] at hwaits hstays hlast hserved hforgets
  have hs : Permissive (first.run as).host := fun _ _ _ _ => rfl
  obtain ⟨hp, hq, hn, hh, hd, hnone⟩ : (first.run as).paused = false ∧ (first.run as).mailbox.pending = [] ∧
      (first.run as).ipf = 2 ∧ (first.run as).halt = none ∧
      Instruction.decode (first.run as).machine.opcode = some (.awaitKey 1) ∧
      KeyNote.inSight (collect notes first as) = [] := by decide +kernel
  obtain ⟨hkept, hheard⟩ : .forgot ∉ collect notes (first.run as) bs ∧
      (collect notes (first.run as) bs).filterMap KeyNote.key? = [0xB] := by decide +kernel
  obtain ⟨hdrained, hrunning, hhead⟩ : ((first.run (as ++ bs)).applied .frame).flatMap Message.notes = [] ∧
      (first.run (as ++ bs)).frame.1 = .running ∧
      ((first.run (as ++ bs)).attempted .frame).head?.map (fun x => Instruction.decode x.machine.opcode) =
        some (some (.awaitKey 1)) := by decide +kernel
  obtain ⟨x, hx, hwait⟩ := Option.map_eq_some_iff.1 hhead
  have hsight : KeyNote.inSight (collect notes first (as ++ bs)) = [0xB] := by
    rw [hstays bs hkept, hnone, hheard]
    rfl
  have hserves := hserved x (List.mem_of_head? hx) 1 hwait
  rw [hsight] at hlast
  rw [hdrained, List.append_nil, hsight] at hserves
  have hu : Undisturbed 2 (first.run as) := ⟨hp, hq, hn⟩
  obtain ⟨ho, hm⟩ := hwaits 2 1 hu hh hs hd hnone 3
  exact ⟨⟨hu, hh, hs, hd, hnone, ho, congrArg Machine.cycles hm⟩, ⟨hkept, hsight, hlast⟩,
    ⟨x, List.mem_of_head? hx, hwait, hserves⟩, hrunning, (hforgets hrunning).2⟩

end Emulator

end Chip8

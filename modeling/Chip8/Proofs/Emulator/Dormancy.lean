import Chip8.Proofs.Emulator.Halting
import Chip8.Proofs.Emulator.RomSwap
import Chip8.Proofs.Emulator.Rounds

/-! An emulator that has halted sleeps until it is given a new program. Messages still edit its memory, its keys and
its settings, but nothing is executed or shown, and a stop among them is all that changes why it has halted. -/

namespace Chip8

variable {σ γ : Type}

/-- A screen is shown and an instruction announced by the frame loop alone. -/
def Event.fromLoop : Event γ → Bool
  | .draw .. | .decode .. => true
  | .tone _ | .custom _ => false

namespace Message

/-- A program of which there is no room in memory is ignored. -/
def swaps : Message γ → Bool
  | .swapRom rom => rom.length ≤ maxRomSize
  | _ => false

def memoryAfter (m : Memory) : Message γ → Memory
  | .swapRom rom => if rom.length ≤ maxRomSize then m.loadRom rom else m
  | .setMemory address data => m.poke address data
  | _ => m

def keypadAfter (k : Keypad) : Message γ → Keypad
  | .swapRom rom => if rom.length ≤ maxRomSize then .idle else k
  | .setKey key down => k.set key down
  | _ => k

def ipfAfter (n : Nat) : Message γ → Nat
  | .setIpf ipf => ipf
  | _ => n

end Message

namespace Emulator

variable [Host σ γ]

/-- What messages that swap no program leave of an emulator. -/
structure Edited (ms : List (Message γ)) (e f : Emulator σ γ) : Prop where
  machine : f.machine = { e.machine with
    memory := ms.foldl Message.memoryAfter e.machine.memory
    keypad := ms.foldl Message.keypadAfter e.machine.keypad }
  rom : f.rom = e.rom
  ipf : f.ipf = ms.foldl Message.ipfAfter e.ipf
  paused : f.paused = ms.foldl Message.pausedAfter e.paused
  drawCount : f.drawCount = e.drawCount
  halt : f.halt = if ms.any Message.isStop then some .stopped else e.halt
  told : ∃ events : List (Event γ), (∀ event ∈ events, event.fromLoop = false) ∧
    f.host = events.foldl Host.notify e.host

variable {ms ns : List (Message γ)} {e f g : Emulator σ γ}

lemma edited_refl (e : Emulator σ γ) : Edited [] e e :=
  ⟨rfl, rfl, rfl, rfl, rfl, rfl, [], List.forall_mem_nil _, rfl⟩

namespace Edited

lemma setControl (h : Edited ms e f) (b : Mailbox γ) (s : Option Snapshot) :
    Edited ms e { f with mailbox := b, published := s } :=
  ⟨h.machine, h.rom, h.ipf, h.paused, h.drawCount, h.halt, h.told⟩

lemma sound (h : Edited ms e f) (t : Option Tone) : Edited ms e (f.sound t) := by
  obtain ⟨events, he, hf⟩ := h.told
  have htold : ∀ event ∈ events ++ toneEvents t, event.fromLoop = false := by
    refine List.forall_mem_append.2 ⟨he, fun event hm => ?_⟩
    obtain ⟨tone, -, rfl⟩ := List.mem_map.1 hm
    rfl
  have hhost : (f.sound t).host = (events ++ toneEvents t).foldl Host.notify e.host := by
    rw [sound_host, hf, List.foldl_append]
  rw [sound_eq] at hhost ⊢
  exact ⟨h.machine, h.rom, h.ipf, h.paused, h.drawCount, h.halt, events ++ toneEvents t, htold, hhost⟩

lemma trans (h : Edited ms e f) (h' : Edited ns f g) : Edited (ms ++ ns) e g := by
  obtain ⟨events, he, hf⟩ := h.told
  obtain ⟨events', he', hg⟩ := h'.told
  refine ⟨?_, h'.rom.trans h.rom, ?_, ?_, h'.drawCount.trans h.drawCount, ?_, events ++ events',
    List.forall_mem_append.2 ⟨he, he'⟩, ?_⟩
  · rw [h'.machine, h.machine, List.foldl_append, List.foldl_append]
  · rw [h'.ipf, h.ipf, List.foldl_append]
  · rw [h'.paused, h.paused, List.foldl_append]
  · rw [h'.halt, h.halt, List.any_append]
    cases ms.any Message.isStop <;> cases ns.any Message.isStop <;> rfl
  · rw [hg, hf, List.foldl_append]

lemma halted {halt : Halt} (h : Edited ms e f) (hh : e.halt = some halt) : ∃ halt', f.halt = some halt' := by
  rw [h.halt, hh]
  cases ms.any Message.isStop with
  | false => exact ⟨halt, rfl⟩
  | true => exact ⟨.stopped, rfl⟩

end Edited

lemma edited_apply {m : Message γ} (hm : m.swaps = false) (e : Emulator σ γ) : Edited [m] e (e.apply m) := by
  have hnone : ∀ event ∈ ([] : List (Event γ)), event.fromLoop = false := List.forall_mem_nil _
  cases m with
  | pause =>
    cases hp : e.paused with
    | true =>
      simp only [apply, pause, hp, if_true]
      exact ⟨rfl, rfl, rfl, hp, rfl, rfl, [], hnone, rfl⟩
    | false =>
      have hs : Edited [.pause] e { e with paused := true, meter := e.meter.pause } :=
        ⟨rfl, rfl, rfl, rfl, rfl, rfl, [], hnone, rfl⟩
      simp only [apply, pause, hp, Bool.false_eq_true, if_false]
      exact hs.sound _
  | resume =>
    cases hp : e.paused with
    | true =>
      have hs : Edited [.resume] e { e with paused := false, meter := e.meter.resume } :=
        ⟨rfl, rfl, rfl, rfl, rfl, rfl, [], hnone, rfl⟩
      simp only [apply, resume, hp, if_true]
      exact hs.sound _
    | false =>
      simp only [apply, resume, hp, Bool.false_eq_true, if_false]
      exact ⟨rfl, rfl, rfl, hp, rfl, rfl, [], hnone, rfl⟩
  | swapRom rom =>
    have hr : ¬ rom.length ≤ maxRomSize := of_decide_eq_false hm
    have ha : e.apply (.swapRom rom) = e := by
      rw [apply, e.loadRom_of_lt (Nat.not_le.1 hr)]
      rfl
    rw [ha]
    refine ⟨?_, rfl, rfl, rfl, rfl, rfl, [], hnone, rfl⟩
    simp only [List.foldl_cons, List.foldl_nil, Message.memoryAfter, Message.keypadAfter, if_neg hr]
  | custom payload => exact ⟨rfl, rfl, rfl, rfl, rfl, rfl, [.custom payload], by simp [Event.fromLoop], rfl⟩
  | _ => exact ⟨rfl, rfl, rfl, rfl, rfl, rfl, [], hnone, rfl⟩

lemma edited_foldl (hm : ∀ m ∈ ms, m.swaps = false) (e : Emulator σ γ) : Edited ms e (ms.foldl apply e) := by
  induction ms generalizing e with
  | nil => exact edited_refl e
  | cons m ms ih =>
    have hrest : ∀ n ∈ ms, n.swaps = false := fun n hn => hm n (List.mem_cons_of_mem m hn)
    exact (edited_apply (hm m List.mem_cons_self) e).trans (ih hrest (e.apply m))

lemma edited_drain (hm : ∀ m ∈ e.applied .frame, m.swaps = false) : Edited (e.applied .frame) e e.drain := by
  rw [drain_eq_foldl]
  exact ((edited_refl e).setControl _ e.published).trans (edited_foldl hm _)

variable {halt : Halt} {as : List (Action γ)}

lemma act_of_halted {a : Action γ} (hh : e.halt = some halt) (ha : a.Remote)
    (hm : ∀ m ∈ e.applied a, m.swaps = false) : e.attempted a = [] ∧ Edited (e.applied a) e (e.act a) := by
  cases a with
  | trySend m | send m =>
    refine ⟨rfl, submission_keeps (P := Edited [] e) (m := m) ?_ rfl (edited_refl e)⟩
    exact fun f b h => h.setControl b f.published
  | frame =>
    have hd := edited_drain hm
    obtain ⟨halt', hh'⟩ := hd.halted hh
    obtain ⟨hf, hx⟩ := frame_of_halted hh'
    refine ⟨hx, ?_⟩
    rw [act, hf]
    exact hd.setControl e.drain.mailbox _
  | _ => exact ha.elim

lemma run_of_halted (hh : e.halt = some halt) (ha : ∀ a ∈ as, a.Remote)
    (hm : ∀ m ∈ collect applied e as, m.swaps = false) :
    collect attempted e as = [] ∧ Edited (collect applied e as) e (e.run as) := by
  induction as generalizing e halt with
  | nil => exact ⟨rfl, edited_refl e⟩
  | cons a as ih =>
    rw [collect] at hm
    obtain ⟨hfirst, hrest⟩ := List.forall_mem_append.1 hm
    obtain ⟨hx, hs⟩ := act_of_halted hh (ha a List.mem_cons_self) hfirst
    obtain ⟨halt', hh'⟩ := hs.halted hh
    obtain ⟨hxs, hr⟩ := ih hh' (fun b hb => ha b (List.mem_cons_of_mem a hb)) hrest
    refine ⟨?_, hs.trans hr⟩
    rw [collect, hx, hxs]
    rfl

/-- A run of a halted emulator and the frame behind it, none of which swaps the program. -/
structure Dormant (halt : Halt) (e : Emulator σ γ) (as : List (Action γ)) : Prop where
  attempted : collect attempted e (as ++ [.frame]) = []
  edited : Edited (collect applied e (as ++ [.frame])) e (e.run (as ++ [.frame]))
  outcome : (e.run as).frame.1 =
    if (collect applied e (as ++ [.frame])).any Message.isStop then .halted else .ofHalt halt

lemma dormant_of_halted (hh : e.halt = some halt) (ha : ∀ a ∈ as, a.Remote)
    (hm : ∀ m ∈ collect applied e (as ++ [.frame]), m.swaps = false) : Dormant halt e as := by
  have hframe : ∀ a ∈ as ++ [.frame], a.Remote :=
    List.forall_mem_append.2 ⟨ha, List.forall_mem_singleton.2 trivial⟩
  obtain ⟨hx, hr⟩ := run_of_halted hh hframe hm
  have ho := frame_outcome (e.run as)
  have hlast : e.run (as ++ [.frame]) = (e.run as).frame.2 := run_append e as [.frame]
  rw [← hlast, hr.halt, hh] at ho
  refine ⟨hx, hr, ho.trans ?_⟩
  cases (collect applied e (as ++ [.frame])).any Message.isStop <;> rfl

/-- An emulator as a frame has it when the messages are taken and none of them is applied yet. -/
def taken (e : Emulator σ γ) : Emulator σ γ :=
  { e with mailbox := { e.mailbox with pending := (Mailbox.batch e.batchLimit e.mailbox.pending).2 } }

/-- A frame that loads a program into what `old` is by then. It goes on with the fresh machine and what the
messages behind the program make of it, as if nothing had halted. -/
structure Revived (rom : List UInt8) (behind : List (Message γ)) (old fresh e : Emulator σ γ) : Prop where
  loaded : old.loadRom rom = .ok fresh
  renewed : Renewed rom old fresh
  drain : e.drain = behind.foldl apply fresh
  halt : e.drain.halt = none
  paused : e.drain.paused = true → e.frame = (.paused, e.drain.announce.publish)
  running : e.drain.paused = false → e.frame =
    match (executeBatch e.drain.ipf e.drain.announce).halt with
    | some halt => (.ofHalt halt, (executeBatch e.drain.ipf e.drain.announce).publish)
    | none => (.running, (executeBatch e.drain.ipf e.drain.announce).windUp.publish)
  forgets : ∀ halt, { e with halt := halt }.frame = e.frame

variable {rom : List UInt8} {before behind : List (Message γ)}

lemma drain_of_swap (h : e.applied .frame = before ++ .swapRom rom :: behind) (hr : rom.length ≤ maxRomSize) :
    e.drain = behind.foldl apply ((before.foldl apply e.taken).renew rom) := by
  rw [drain_eq_foldl, h, List.foldl_append, List.foldl_cons, apply, loadRom_of_le _ hr]
  rfl

lemma apply_setHalt (e : Emulator σ γ) (halt : Option Halt) (m : Message γ) :
    ∃ halt', { e with halt := halt }.apply m = { e.apply m with halt := halt' } := by
  cases m with
  | pause =>
    refine ⟨halt, ?_⟩
    simp only [apply, pause, sound_eq]
    split <;> rfl
  | resume =>
    refine ⟨halt, ?_⟩
    simp only [apply, resume, sound_eq]
    split <;> rfl
  | swapRom rom =>
    simp only [apply, loadRom, reset, sound_eq]
    cases checkRom rom with
    | error error => exact ⟨halt, rfl⟩
    | ok u => exact ⟨none, rfl⟩
  | stop => exact ⟨some .stopped, rfl⟩
  | _ => exact ⟨halt, rfl⟩

lemma foldl_setHalt (ms : List (Message γ)) (e : Emulator σ γ) (halt : Option Halt) :
    ∃ halt', ms.foldl apply { e with halt := halt } = { ms.foldl apply e with halt := halt' } := by
  induction ms generalizing e halt with
  | nil => exact ⟨halt, rfl⟩
  | cons m ms ih =>
    obtain ⟨halt', h⟩ := apply_setHalt e halt m
    rw [List.foldl_cons, h]
    exact ih (e.apply m) halt'

lemma drain_forgets (h : e.applied .frame = before ++ .swapRom rom :: behind) (hr : rom.length ≤ maxRomSize)
    (halt : Option Halt) : { e with halt := halt }.drain = e.drain := by
  have h' : { e with halt := halt }.applied .frame = before ++ .swapRom rom :: behind := by
    rw [← h, applied_frame, applied_frame]
  obtain ⟨halt', hb⟩ := foldl_setHalt before e.taken halt
  have ht : { e with halt := halt }.taken = { e.taken with halt := halt } := rfl
  rw [drain_of_swap h' hr, drain_of_swap h hr, ht, hb]
  rfl

lemma revived_of_swap (h : e.applied .frame = before ++ .swapRom rom :: behind) (hr : rom.length ≤ maxRomSize)
    (hs : ∀ m ∈ behind, m.isStop = false) :
    Revived rom behind (before.foldl apply e.taken) ((before.foldl apply e.taken).renew rom) e := by
  have hn := renew_renewed (before.foldl apply e.taken) hr
  have hd := drain_of_swap h hr
  have hh : e.drain.halt = none := by
    rw [hd]
    exact halt_foldl hn.halt hs
  refine ⟨loadRom_of_le _ hr, hn, hd, hh, fun hp => ?_, fun hp => ?_, fun halt => ?_⟩
  · rw [frame, perform_of_paused hh hp]
  · rw [frame, perform_of_running hh hp]
    cases (executeBatch e.drain.ipf e.drain.announce).halt <;> rfl
  · rw [frame, frame, drain_forgets h hr halt]

theorem halt_sticky (hh : e.halt = some halt) (ha : ∀ a ∈ as, a.Remote) :
    ((∀ m ∈ collect applied e (as ++ [.frame]), m.swaps = false) → Dormant halt e as) ∧
      (∀ before rom behind, (e.run as).applied .frame = before ++ .swapRom rom :: behind →
        rom.length ≤ maxRomSize → (∀ m ∈ behind, m.isStop = false) →
        ∃ fresh, Revived rom behind (before.foldl apply (e.run as).taken) fresh (e.run as)) ∧
      ∀ before, (e.run as).applied .frame = before ++ [.stop] →
        (e.run as).frame.1 = .halted ∧ (e.run as).frame.2.halt = some .stopped ∧
          (e.run as).attempted .frame = [] := by
  refine ⟨dormant_of_halted hh ha, fun before rom behind h hr hs => ⟨_, revived_of_swap h hr hs⟩, ?_⟩
  intro before h
  have hd := drain_of_stop h
  obtain ⟨hf, hx⟩ := frame_of_halted hd
  rw [hf]
  exact ⟨rfl, hd, hx⟩

/-- A program that fails at once, edited, swapped for a jump to itself, and stopped behind such a swap. -/
theorem halt_sticky_failing :
    let e := (alone [0xFF, 0xFF]).frame.2
    let fault := Halt.fault (.unknownOpcode 0xFFFF 0x200)
    let editing : List (Action Unit) := [.send (.setKey 3 true), .frame, .trySend (.setMemory 0x300 [7])]
    let waking : List (Action Unit) := [.send (.setIpf 2), .send (.swapRom [0x12, 0x00]), .trySend .resume]
    let stopping : List (Action Unit) := [.send (.swapRom [0x12, 0x00]), .send .stop]
    e.halt = some fault ∧ (∀ a ∈ editing, a.Remote) ∧ (∀ a ∈ waking, a.Remote) ∧ (∀ a ∈ stopping, a.Remote) ∧
      (∀ m ∈ collect applied e (editing ++ [.frame]), m.swaps = false) ∧ Dormant fault e editing ∧
      (e.run waking).applied .frame = [.setIpf 2] ++ .swapRom [0x12, 0x00] :: [.resume] ∧
      (∃ fresh, Revived [0x12, 0x00] [.resume] ([.setIpf 2].foldl apply (e.run waking).taken) fresh
        (e.run waking)) ∧
      (e.run stopping).applied .frame = [.swapRom [0x12, 0x00]] ++ [.stop] ∧
      (e.run stopping).frame.1 = .halted ∧ (e.run stopping).frame.2.halt = some .stopped ∧
      (e.run stopping).attempted .frame = [] := by
  intro e fault editing waking stopping
  have he : ∀ a ∈ editing, a.Remote := by simp [editing, Action.Remote]
  have hw : ∀ a ∈ waking, a.Remote := by simp [waking, Action.Remote]
  have hs : ∀ a ∈ stopping, a.Remote := by simp [stopping, Action.Remote]
  obtain ⟨hh, hm, hwaked, hstopped⟩ : e.halt = some fault ∧
      (∀ m ∈ collect applied e (editing ++ [.frame]), m.swaps = false) ∧
      (e.run waking).applied .frame = [.setIpf 2] ++ .swapRom [0x12, 0x00] :: [.resume] ∧
      (e.run stopping).applied .frame = [.swapRom [0x12, 0x00]] ++ [.stop] := by decide +kernel
  have hd := (halt_sticky hh he).1 hm
  have hr := (halt_sticky hh hw).2.1 _ _ _ hwaked (by decide) (by simp [Message.isStop])
  exact ⟨hh, he, hw, hs, hm, hd, hwaked, hr, hstopped, (halt_sticky hh hs).2.2 _ hstopped⟩

end Emulator

end Chip8

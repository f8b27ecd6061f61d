import Chip8.Proofs.Emulator.Keys
import Chip8.Proofs.Emulator.Recorder
import Chip8.Proofs.Emulator.Submission
import Mathlib.Data.List.DropRight

/-! What the messages of a frame leave behind. For each part of an emulator it is the last message that sets it, and a
swap sets most parts to what they are at the start. -/

namespace Chip8

def Event.payload? {γ : Type} : Event γ → Option γ
  | .custom payload => some payload
  | _ => none

namespace Message

variable {γ α : Type}

def pause? : Message γ → Option Bool
  | .pause => some true
  | .resume => some false
  | _ => none

def ipf? : Message γ → Option Nat
  | .setIpf ipf => some ipf
  | _ => none

def rom? : Message γ → Option (List UInt8)
  | .swapRom rom => some rom
  | _ => none

def latch? (key : UInt8) : Message γ → Option Bool
  | .setKey other down => if other = key then some down else none
  | _ => none

def released? : Message γ → Option UInt8
  | .setKey key false => some key
  | _ => none

/-- The byte that a message writes at an address. A block does not wrap around. -/
def written? (a : UInt16) : Message γ → Option UInt8
  | .setMemory address data => if address ≤ a then data[a.toNat - address.toNat]? else none
  | _ => none

def payload? : Message γ → Option γ
  | .custom payload => some payload
  | _ => none

def last? (f : Message γ → Option α) (ms : List (Message γ)) : Option α := (ms.filterMap f).getLast?

/-- The messages behind the last swap. -/
def sinceSwap (ms : List (Message γ)) : List (Message γ) := ms.rtakeWhile fun m => m.rom?.isNone

lemma last?_concat (f : Message γ → Option α) (ms : List (Message γ)) (m : Message γ) :
    last? f (ms ++ [m]) = (f m).or (last? f ms) := by
  rw [last?, List.filterMap_append, List.getLast?_append]
  cases hf : f m with
  | none => rw [List.filterMap_cons_none hf, List.filterMap_nil, List.getLast?_nil, last?]
  | some v =>
    rw [List.filterMap_cons_some hf, List.filterMap_nil, List.getLast?_singleton]
    rfl

lemma last?_map {β : Type} (f : Message γ → Option α) (g : α → β) (ms : List (Message γ)) :
    last? (fun m => (f m).map g) ms = (last? f ms).map g := by
  rw [last?, last?, ← List.getLast?_map, List.map_filterMap]

lemma sinceSwap_concat_none {m : Message γ} (h : m.rom? = none) (ms : List (Message γ)) :
    sinceSwap (ms ++ [m]) = sinceSwap ms ++ [m] :=
  List.rtakeWhile_concat_pos _ _ _ (congrArg Option.isNone h)

lemma sinceSwap_concat_some {m : Message γ} {rom : List UInt8} (h : m.rom? = some rom) (ms : List (Message γ)) :
    sinceSwap (ms ++ [m]) = [] :=
  List.rtakeWhile_concat_neg _ _ _ (by simp [h])

end Message

namespace Mailbox

/-- A frame takes a stop as its last message or not at all. -/
lemma batch_stop {γ : Type} (limit : Nat) (ms : List (Message γ)) :
    (∀ m ∈ (batch limit ms).1, m.isStop = false) ∨ ∃ init, (batch limit ms).1 = init ++ [.stop] := by
  induction limit generalizing ms with
  | zero => exact .inl (List.forall_mem_nil _)
  | succ n ih =>
    cases ms with
    | nil => exact .inl (List.forall_mem_nil _)
    | cons m ms =>
      cases hm : m.isStop with
      | true =>
        cases m with
        | stop => exact .inr ⟨[], rfl⟩
        | _ => cases hm
      | false =>
        simp only [batch, hm, Bool.false_eq_true, if_false]
        obtain h | ⟨init, h⟩ := ih ms
        · exact .inl (List.forall_mem_cons.2 ⟨hm, h⟩)
        · exact .inr ⟨m :: init, congrArg (m :: ·) h⟩

end Mailbox

/-- The registers, the stack, the screen and the timers are as at the start of a program. -/
def Machine.fromStart (n : Machine) : Machine :=
  { n with
    registers := { cells := Vector.replicate 16 0 }
    index := 0
    pc := 0x200
    stack := .empty
    screen := .blank
    delay := ⟨0⟩
    sound := ⟨0⟩ }

/-- One machine is another but for its memory and its keypad. -/
def Machine.Beside (n k : Machine) : Prop := k = { n with memory := k.memory, keypad := k.keypad }

namespace Emulator

open Message

variable {σ γ α : Type} [Host σ γ]

/-- A host has been told the payloads, each of them once and in their order, and besides them at most tones. -/
def Hears (payloads : List γ) (h k : σ) : Prop :=
  ∃ events : List (Event γ), k = events.foldl Host.notify h ∧ events.filterMap Event.payload? = payloads ∧
    ∀ event ∈ events, event.payload?.isNone → ∃ t, event = .tone t

/-- What messages make of `e`, part by part. -/
structure LeftBehind (ms : List (Message γ)) (e f : Emulator σ γ) : Prop where
  paused : f.paused = (last? pause? ms).getD e.paused
  ipf : f.ipf = (last? ipf? ms).getD e.ipf
  rom : f.rom = (last? rom? ms).getD e.rom
  pressed : ∀ key, f.machine.keypad.pressed key =
    (last? (latch? key) (sinceSwap ms)).getD ((last? rom? ms).elim (e.machine.keypad.pressed key) fun _ => false)
  lastReleased : f.machine.keypad.lastReleased =
    (last? released? (sinceSwap ms)).or ((last? rom? ms).elim e.machine.keypad.lastReleased fun _ => none)
  low : ∀ a < romStart, f.machine.memory.read a = (last? (written? a) ms).getD (e.machine.memory.read a)
  program : ∀ a, romStart ≤ a → a.toNat < memorySize → f.machine.memory.read a =
    (last? (written? a) (sinceSwap ms)).getD
      ((last? rom? ms).elim (e.machine.memory.read a) fun rom => rom[a.toNat - romStart.toNat]?.getD 0)
  machine : ((last? rom? ms).elim e.machine fun _ => e.machine.fromStart).Beside f.machine
  halt : f.halt =
    if ms.getLast?.any Message.isStop then some .stopped else (last? rom? ms).elim e.halt fun _ => none
  customs : Hears (ms.filterMap payload?) e.host f.host

section

variable {f : Message γ → Option α} {v : Emulator σ γ → α} {ms : List (Message γ)}

lemma view_foldl (h : ∀ m ∈ ms, ∀ e, v (e.apply m) = (f m).getD (v e)) (e : Emulator σ γ) :
    v (ms.foldl apply e) = (last? f ms).getD (v e) := by
  induction ms using List.reverseRecOn with
  | nil => rfl
  | append_singleton ms m ih =>
    have hm := h m (List.mem_append_right ms (List.mem_singleton_self m))
    have hs := ih fun n hn => h n (List.mem_append_left [m] hn)
    rw [List.foldl_append, List.foldl_cons, List.foldl_nil, hm, hs, last?_concat, Option.getD_or]

/-- What is set in front of a swap is lost with it, so that only the messages behind the last one count. -/
lemma view_foldl_sinceSwap {renewed : List UInt8 → α}
    (h : ∀ m ∈ ms, ∀ e, v (e.apply m) = m.rom?.elim ((f m).getD (v e)) renewed) (e : Emulator σ γ) :
    v (ms.foldl apply e) = (last? f (sinceSwap ms)).getD ((last? rom? ms).elim (v e) renewed) := by
  induction ms using List.reverseRecOn with
  | nil => rfl
  | append_singleton ms m ih =>
    have hm := h m (List.mem_append_right ms (List.mem_singleton_self m))
    have hs := ih fun n hn => h n (List.mem_append_left [m] hn)
    rw [List.foldl_append, List.foldl_cons, List.foldl_nil, hm, hs, last?_concat rom?]
    cases hr : m.rom? with
    | none =>
      rw [sinceSwap_concat_none hr, last?_concat, Option.getD_or]
      rfl
    | some rom =>
      rw [sinceSwap_concat_some hr]
      rfl

end

variable {ms : List (Message γ)} {m : Message γ}

lemma apply_paused (e : Emulator σ γ) (m : Message γ) : (e.apply m).paused = m.pause?.getD e.paused := by
  rw [(apply_applies e m).paused]
  cases m <;> rfl

lemma apply_ipf (e : Emulator σ γ) (m : Message γ) : (e.apply m).ipf = m.ipf?.getD e.ipf := by
  cases m with
  | pause | resume =>
    simp only [apply, pause, resume, sound_eq]
    split <;> rfl
  | swapRom rom =>
    simp only [apply, loadRom, checkRom, reset, sound_eq]
    split <;> rfl
  | _ => rfl

lemma apply_rom (hv : m.validate = .ok ()) (e : Emulator σ γ) : (e.apply m).rom = m.rom?.getD e.rom := by
  cases m with
  | pause | resume =>
    simp only [apply, pause, resume, sound_eq]
    split <;> rfl
  | swapRom rom =>
    rw [apply, e.loadRom_of_le (length_le_of_validate hv)]
    exact (e.renew_renewed (length_le_of_validate hv)).rom
  | _ => rfl

lemma machineAfter_swapRom {rom : List UInt8} (hv : (swapRom rom : Message γ).validate = .ok ()) (n : Machine) :
    (swapRom rom : Message γ).machineAfter n = (n.loadRom rom).reset :=
  if_pos (length_le_of_validate hv)

lemma apply_pressed (key : UInt8) (hv : m.validate = .ok ()) (e : Emulator σ γ) :
    (e.apply m).machine.keypad.pressed key =
      m.rom?.elim ((m.latch? key).getD (e.machine.keypad.pressed key)) fun _ => false := by
  rw [apply_keypad, pressed_keypadAfter]
  cases m with
  | swapRom rom => exact if_pos (length_le_of_validate hv)
  | setKey other down =>
    have hk := key_lt_of_validate hv
    rw [pressedAfter, latch?]
    by_cases ho : other = key
    · rw [if_pos ⟨ho, hk⟩, if_pos ho]
      rfl
    · rw [if_neg fun h => ho h.1, if_neg ho]
      rfl
  | _ => rfl

lemma apply_lastReleased (hv : m.validate = .ok ()) (e : Emulator σ γ) :
    (e.apply m).machine.keypad.lastReleased =
      m.rom?.elim ((m.released?.map some).getD e.machine.keypad.lastReleased) fun _ => none := by
  rw [apply_keypad]
  cases m with
  | swapRom rom => exact congrArg Keypad.lastReleased (if_pos (length_le_of_validate hv))
  | setKey key down =>
    have hk := key_lt_of_validate hv
    refine (Keypad.lastReleased_set ..).trans ?_
    cases down <;> simp [rom?, released?, hk]
  | _ => rfl

lemma read_poke_written {a address : UInt16} (ha : a.toNat < memorySize) (μ : Memory) (data : List UInt8) :
    (μ.poke address data).read a = (written? a (.setMemory address data : Message γ)).getD (μ.read a) := by
  rw [Memory.read_poke, written?]
  by_cases hl : address ≤ a
  · have hl' := UInt16.le_iff_toNat_le.1 hl
    rw [if_pos hl]
    by_cases hd : a.toNat < address.toNat + data.length
    · rw [if_pos ⟨hl', ha, hd⟩, List.getElem?_eq_getElem (by omega)]
      rfl
    · rw [if_neg (by omega), List.getElem?_eq_none (by omega)]
      rfl
  · have hl' := mt UInt16.le_iff_toNat_le.2 hl
    rw [if_neg hl, if_neg (by omega)]
    rfl

lemma apply_low {a : UInt16} (ha : a < romStart) (hv : m.validate = .ok ()) (e : Emulator σ γ) :
    (e.apply m).machine.memory.read a = (m.written? a).getD (e.machine.memory.read a) := by
  have hl : a.toNat < romStart.toNat := UInt16.lt_iff_toNat_lt.1 ha
  rw [(apply_applies e m).machine]
  cases m with
  | swapRom rom =>
    rw [machineAfter_swapRom hv]
    exact (Memory.read_loadRom ..).trans (if_pos (.inl hl))
  | setMemory address data => exact read_poke_written (Nat.lt_trans hl (by decide)) _ _
  | _ => rfl

lemma apply_program {a : UInt16} (hl : romStart ≤ a) (ha : a.toNat < memorySize) (hv : m.validate = .ok ())
    (e : Emulator σ γ) :
    (e.apply m).machine.memory.read a =
      m.rom?.elim ((m.written? a).getD (e.machine.memory.read a)) fun rom =>
        rom[a.toNat - romStart.toNat]?.getD 0 := by
  have hl' := UInt16.le_iff_toNat_le.1 hl
  rw [(apply_applies e m).machine]
  cases m with
  | swapRom rom =>
    rw [machineAfter_swapRom hv]
    exact (Memory.read_loadRom ..).trans (if_neg (by omega))
  | setMemory address data => exact read_poke_written ha _ _
  | _ => rfl

lemma beside_machineAfter {n k : Machine} (h : n.Beside k) (hv : m.validate = .ok ()) :
    (m.rom?.elim n fun _ => n.fromStart).Beside (m.machineAfter k) := by
  rw [Machine.Beside] at h
  cases m with
  | swapRom rom =>
    rw [machineAfter_swapRom hv, h]
    rfl
  | setMemory | setKey =>
    rw [Message.machineAfter, h]
    rfl
  | _ => exact h

lemma foldl_beside (hv : ∀ m ∈ ms, m.validate = .ok ()) (e : Emulator σ γ) :
    ((last? rom? ms).elim e.machine fun _ => e.machine.fromStart).Beside (ms.foldl apply e).machine := by
  induction ms using List.reverseRecOn with
  | nil => rfl
  | append_singleton ms m ih =>
    have hm := hv m (List.mem_append_right ms (List.mem_singleton_self m))
    have hs := beside_machineAfter (ih fun n hn => hv n (List.mem_append_left [m] hn)) hm
    rw [List.foldl_append, List.foldl_cons, List.foldl_nil, (apply_applies _ m).machine, last?_concat]
    -- To start over twice is to start over once.
    revert hs
    cases m.rom? <;> cases last? rom? ms <;> exact id

lemma apply_halt (hv : m.validate = .ok ()) (hs : m.isStop = false) (e : Emulator σ γ) :
    (e.apply m).halt = m.rom?.elim e.halt fun _ => none := by
  rw [(apply_applies e m).halt]
  cases m with
  | swapRom rom => exact if_pos (length_le_of_validate hv)
  | stop => cases hs
  | _ => rfl

lemma foldl_halt (hv : ∀ m ∈ ms, m.validate = .ok ())
    (hs : (∀ m ∈ ms, m.isStop = false) ∨ ∃ init, ms = init ++ [.stop]) (e : Emulator σ γ) :
    (ms.foldl apply e).halt =
      if ms.getLast?.any Message.isStop then some .stopped else (last? rom? ms).elim e.halt fun _ => none := by
  obtain hs | ⟨init, rfl⟩ := hs
  · have hn : ¬ ms.getLast?.any Message.isStop := by
      rw [Option.any_eq_true]
      rintro ⟨m, hm, hstop⟩
      exact absurd hstop (by simp [hs m (List.mem_of_getLast? hm)])
    have hnone : last? (fun _ : Message γ => (none : Option (Option Halt))) (sinceSwap ms) = none := by
      simp [last?]
    rw [if_neg hn, view_foldl_sinceSwap (f := fun _ => none) (v := halt) (fun m hm e => apply_halt (hv m hm) (hs m hm) e) e, hnone]
    rfl
  · rw [List.foldl_append, List.getLast?_concat]
    rfl

lemma hears_refl (h : σ) : Hears [] h h := ⟨[], rfl, rfl, List.forall_mem_nil _⟩

lemma Hears.trans {ps qs : List γ} {h k l : σ} (hp : Hears ps h k) (hq : Hears qs k l) : Hears (ps ++ qs) h l := by
  obtain ⟨xs, rfl, rfl, hx⟩ := hp
  obtain ⟨ys, rfl, rfl, hy⟩ := hq
  exact ⟨xs ++ ys, List.foldl_append.symm, List.filterMap_append, List.forall_mem_append.2 ⟨hx, hy⟩⟩

lemma hears_sound (e : Emulator σ γ) (t : Option Tone) : Hears [] e.host (e.sound t).host := by
  cases t with
  | none => exact hears_refl e.host
  | some t => exact ⟨[.tone t], rfl, rfl, List.forall_mem_singleton.2 fun _ => ⟨t, rfl⟩⟩

lemma apply_hears (e : Emulator σ γ) (m : Message γ) : Hears m.payload?.toList e.host (e.apply m).host := by
  cases m with
  | pause =>
    rw [apply, pause]
    split
    · exact hears_refl e.host
    · exact hears_sound _ _
  | resume =>
    rw [apply, resume]
    split
    · exact hears_sound _ _
    · exact hears_refl e.host
  | swapRom rom =>
    rw [apply, loadRom]
    cases checkRom rom with
    | error error => exact hears_refl e.host
    | ok u => exact hears_sound _ _
  | custom payload =>
    exact ⟨[.custom payload], rfl, rfl, List.forall_mem_singleton.2 fun hp => absurd hp Bool.false_ne_true⟩
  | _ => exact hears_refl e.host

lemma foldl_hears (ms : List (Message γ)) (e : Emulator σ γ) :
    Hears (ms.filterMap payload?) e.host (ms.foldl apply e).host := by
  induction ms generalizing e with
  | nil => exact hears_refl e.host
  | cons m ms ih =>
    have hs := (apply_hears e m).trans (ih (e.apply m))
    have hp : (m :: ms).filterMap payload? = m.payload?.toList ++ ms.filterMap payload? := by
      rw [List.filterMap_cons]
      cases m.payload? <;> rfl
    rw [hp]
    exact hs

lemma heard_foldl (r : Recorder σ γ) (events : List (Event γ)) :
    (events.foldl Host.notify r).heard = r.heard ++ events := by
  induction events generalizing r with
  | nil => exact (List.append_nil _).symm
  | cons event events ih =>
    rw [List.foldl_cons, ih]
    exact List.append_assoc ..

lemma Hears.heard {ps : List γ} {r s : Recorder σ γ} (h : Hears ps r s) :
    s.heard.filterMap Event.payload? = r.heard.filterMap Event.payload? ++ ps := by
  obtain ⟨events, rfl, rfl, -⟩ := h
  rw [heard_foldl, List.filterMap_append]

theorem drain_last_wins (e : Emulator σ γ)
    (hv : ∀ m ∈ (Mailbox.batch e.batchLimit e.mailbox.pending).1, m.validate = .ok ()) :
    LeftBehind (Mailbox.batch e.batchLimit e.mailbox.pending).1 e e.drain := by
  have hs := Mailbox.batch_stop e.batchLimit e.mailbox.pending
  rw [drain]
  generalize (Mailbox.batch e.batchLimit e.mailbox.pending).1 = ms at hv hs ⊢
  constructor
  case paused => exact view_foldl (fun m _ e => apply_paused e m) _
  case ipf => exact view_foldl (fun m _ e => apply_ipf e m) _
  case rom => exact view_foldl (fun m hm e => apply_rom (hv m hm) e) _
  case pressed =>
    intro key
    exact view_foldl_sinceSwap (v := fun e => e.machine.keypad.pressed key)
      (fun m hm e => apply_pressed key (hv m hm) e) _
  case lastReleased =>
    have hr := view_foldl_sinceSwap (v := fun e => e.machine.keypad.lastReleased)
      (fun m hm e => apply_lastReleased (hv m hm) e) { e with
        mailbox := { e.mailbox with pending := (Mailbox.batch e.batchLimit e.mailbox.pending).2 } }
    refine hr.trans ?_
    rw [last?_map]
    cases last? released? (sinceSwap ms) <;> rfl
  case low =>
    intro a ha
    exact view_foldl (v := fun e => e.machine.memory.read a) (fun m hm e => apply_low ha (hv m hm) e) _
  case program =>
    intro a hl ha
    exact view_foldl_sinceSwap (v := fun e => e.machine.memory.read a)
      (fun m hm e => apply_program hl ha (hv m hm) e) _
  case machine => exact foldl_beside hv _
  case halt => exact foldl_halt hv hs _
  case customs => exact foldl_hears ms _

/-- Two programs, blocks that overlap and lie across the start of the program, keys before and behind the last swap, and
a stop with something behind it. -/
theorem drain_last_wins_stopped :
    let ms : List (Message Unit) :=
      [.setMemory 0x1FE [1, 2, 3, 4], .setKey 3 false, .setKey 4 true, .setIpf 3, .custom (), .swapRom [0x12, 0x00],
        .resume, .swapRom [0x12, 0x34, 0x56], .setMemory 0x1FF [5, 6], .setMemory 0x200 [7], .setMemory 0xFFF [8, 9],
        .setKey 5 false, .custom (), .pause, .stop]
    let first : Emulator (Recorder Silence Unit) Unit :=
      create .standard { host := Silence.mk } {} (Vector.replicate 8 0)
    let e := { first with mailbox := { capacity := 16, pending := ms ++ [.resume] } }
    (Mailbox.batch e.batchLimit e.mailbox.pending).1 = ms ∧ (∀ m ∈ ms, m.validate = .ok ()) ∧
      LeftBehind ms e e.drain ∧ e.drain.paused = true ∧ e.drain.ipf = 3 ∧ e.drain.rom = [0x12, 0x34, 0x56] ∧
      [3, 4, 5].map e.drain.machine.keypad.pressed = [false, false, false] ∧
      e.drain.machine.keypad.lastReleased = some 5 ∧
      [0x1FE, 0x1FF].map e.drain.machine.memory.read = [1, 5] ∧
      [0x200, 0x201, 0x202, 0x203, 0xFFF].map e.drain.machine.memory.read = [7, 0x34, 0x56, 0, 8] ∧
      e.drain.halt = some .stopped ∧ e.drain.host.heard.filterMap Event.payload? = [(), ()] := by
  intro ms first e
  have hb : (Mailbox.batch e.batchLimit e.mailbox.pending).1 = ms := rfl
  have hv : ∀ m ∈ ms, m.validate = .ok () := by
    simp only [ms, List.forall_mem_cons]
    exact ⟨rfl, rfl, rfl, rfl, rfl, rfl, rfl, rfl, rfl, rfl, rfl, rfl, rfl, rfl, rfl, List.forall_mem_nil _⟩
  have h : LeftBehind ms e e.drain := drain_last_wins e hv
  refine ⟨hb, hv, h, h.paused, h.ipf, h.rom, ?_, h.lastReleased, ?_, ?_, h.halt, h.customs.heard⟩
  · exact List.map_congr_left fun key _ => h.pressed key
  · have hlow : ∀ a ∈ ([0x1FE, 0x1FF] : List UInt16), a < romStart := by simp [romStart]
    rw [List.map_congr_left fun a ha => h.low a (hlow a ha)]
    decide
  · have hprogram : ∀ a ∈ ([0x200, 0x201, 0x202, 0x203, 0xFFF] : List UInt16),
        romStart ≤ a ∧ a.toNat < memorySize := by simp [romStart, memorySize]
    rw [List.map_congr_left fun a ha => h.program a (hprogram a ha).1 (hprogram a ha).2]
    decide

end Emulator

end Chip8

import Chip8.Proofs.Emulator.Keys
import Chip8.Proofs.Terminal.Session

/-! Keys held down by the user and keys of the machine. Presses and expiries become commands, which are sent in the
order in which they came up and then wait in the mailbox. -/

namespace Chip8.Terminal

open Emulator

lemma hexDigit?_lt {c : Char} {key : UInt8} (h : hexDigit? c = some key) : key.toNat < Keypad.size := by
  have hdigit (first last : Char) (base : Nat) (hc : first ≤ c ∧ c ≤ last)
      (hb : last.toNat - first.toNat + base < Keypad.size) :
      (UInt8.ofNat (c.toNat - first.toNat + base)).toNat < Keypad.size := by
    have hle : c.toNat ≤ last.toNat := hc.2
    rw [UInt8.toNat_ofNat']
    exact Nat.lt_of_le_of_lt (Nat.mod_le _ _) (by omega)
  simp only [hexDigit?] at h
  split at h
  · cases h
    rw [← Nat.add_zero (c.toNat - '0'.toNat)]
    exact hdigit '0' '9' 0 ‹_› (by decide)
  · split at h
    · cases h
      exact hdigit 'a' 'f' 10 ‹_› (by decide)
    · split at h
      · cases h
        exact hdigit 'A' 'F' 10 ‹_› (by decide)
      · cases h

namespace Command

def down? (key : UInt8) : Command → Option Bool
  | press k => if k = key then some true else none
  | release k => if k = key then some false else none
  | _ => none

def OnKeypad : Command → Prop
  | press key | release key => key.toNat < Keypad.size
  | _ => True

variable {γ : Type} {c : Command}

lemma validate_message (hc : c.OnKeypad) (paused : Bool) : (c.message paused : Message γ).validate = .ok () := by
  cases c with
  | press key | release key => exact if_pos hc
  | togglePause => cases paused <;> rfl
  | quit => rfl

lemma pressedAfter_message (hc : c.OnKeypad) (paused : Bool) (key : UInt8) (down : Bool) :
    (c.message paused : Message γ).pressedAfter key down = (c.down? key).getD down := by
  cases c with
  | press k | release k =>
    have hk : k = key ∧ k.toNat < Keypad.size ↔ k = key := and_iff_left hc
    simp only [message, Message.pressedAfter, down?, hk]
    split <;> rfl
  | togglePause => cases paused <;> rfl
  | quit => rfl

end Command

/-- The presses and releases of a key among commands; a press is `true`. -/
def turns (key : UInt8) (cs : List Command) : List Bool := cs.filterMap (Command.down? key)

lemma turns_append (key : UInt8) (cs ds : List Command) : turns key (cs ++ ds) = turns key cs ++ turns key ds :=
  List.filterMap_append

lemma turns_cons (key : UInt8) (c : Command) (cs : List Command) :
    turns key (c :: cs) = (c.down? key).toList ++ turns key cs := by
  rw [turns, List.filterMap_cons]
  cases c.down? key <;> rfl

lemma last_append (xs ys : List Bool) (b : Bool) :
    (xs ++ ys).getLast?.getD b = ys.getLast?.getD (xs.getLast?.getD b) := by
  rw [List.getLast?_append]
  cases ys.getLast? <;> rfl

/-- Every element changes what was before, which is `down` in front of the first. -/
def Alternating (down : Bool) : List Bool → Prop
  | [] => True
  | b :: bs => b = !down ∧ Alternating b bs

lemma last_change (old new : Bool) : (if new = old then [] else [new]).getLast?.getD old = new := by
  split
  · exact Eq.symm ‹_›
  · rfl

lemma Alternating.change {old new : Bool} {bs : List Bool} (h : Alternating new bs) :
    Alternating old ((if new = old then [] else [new]) ++ bs) := by
  split
  · rwa [List.nil_append, ← ‹new = old›]
  · exact ⟨Bool.eq_not.2 ‹_›, h⟩

lemma binding_cases {event : KeyEvent} {c : Command} (h : event.binding = some c) :
    (∃ key, c = .press key ∧ key.toNat < Keypad.size) ∨ c = .togglePause ∨ c = .quit := by
  simp only [KeyEvent.binding] at h
  cases hcode : event.code with
  | char letter =>
    simp only [hcode] at h
    split at h
    · exact .inr (.inr (Option.some.inj h).symm)
    · split at h
      · exact .inr (.inr (Option.some.inj h).symm)
      · split at h
        · exact .inr (.inl (Option.some.inj h).symm)
        · obtain ⟨key, hk, rfl⟩ := Option.map_eq_some_iff.1 h
          exact .inl ⟨key, rfl, hexDigit?_lt hk⟩
  | escape =>
    simp only [hcode] at h
    exact .inr (.inr (Option.some.inj h).symm)
  | other =>
    simp only [hcode] at h
    cases h

namespace KeyBuffer

def keys (b : KeyBuffer) : List UInt8 := b.held.map HeldKey.key

/-- No key is held twice, nor one that is not on the keypad. -/
structure Sound (b : KeyBuffer) : Prop where
  nodup : b.keys.Nodup
  onKeypad : ∀ key ∈ b.keys, key.toNat < Keypad.size

lemma holds_iff {b : KeyBuffer} {key : UInt8} : b.holds key = true ↔ key ∈ b.keys := by
  rw [← List.contains_iff_mem, keys, ← List.any_beq', List.any_map]
  rfl

lemma keys_press (b : KeyBuffer) (key : UInt8) (now : Nat) :
    (b.press key now).2.keys = b.keys.erase key ++ [key] := by
  simp only [press, keys, List.map_append, List.map_cons, List.map_nil, List.erase_eq_eraseP', List.eraseP_map]
  rfl

lemma holds_press (b : KeyBuffer) (key other : UInt8) (now : Nat) :
    (b.press key now).2.holds other = if other = key then true else b.holds other := by
  rw [Bool.eq_iff_iff, holds_iff, keys_press, List.mem_append, List.mem_singleton]
  by_cases ho : other = key
  · simp [ho]
  · simp [ho, holds_iff, List.mem_erase_of_ne ho]

lemma keys_expire (b : KeyBuffer) (now : Nat) : (b.expire now).1 ++ (b.expire now).2.keys = b.keys := by
  simp only [expire, keys, ← List.map_append, List.takeWhile_append_dropWhile]

variable {b : KeyBuffer}

lemma nodup_press (hb : b.keys.Nodup) (key : UInt8) (now : Nat) : (b.press key now).2.keys.Nodup := by
  rw [keys_press]
  refine List.nodup_append.2 ⟨hb.erase key, by simp, ?_⟩
  rintro other ho _ hk rfl
  rw [List.mem_singleton] at hk
  exact (hb.mem_erase_iff.1 ho).1 hk

lemma nodup_expire (hb : b.keys.Nodup) (now : Nat) : (b.expire now).2.keys.Nodup := by
  rw [← b.keys_expire now] at hb
  exact (List.nodup_append.1 hb).2.1

lemma sound_press (hb : b.Sound) {key : UInt8} (hk : key.toNat < Keypad.size) (now : Nat) :
    (b.press key now).2.Sound := by
  refine ⟨nodup_press hb.nodup key now, fun other ho => ?_⟩
  rw [keys_press, List.mem_append, List.mem_singleton] at ho
  obtain ho | rfl := ho
  · exact hb.onKeypad other (List.mem_of_mem_erase ho)
  · exact hk

lemma sound_expire (hb : b.Sound) (now : Nat) : (b.expire now).2.Sound := by
  refine ⟨nodup_expire hb.nodup now, fun key hm => hb.onKeypad key ?_⟩
  rw [← b.keys_expire now]
  exact List.mem_append_right _ hm

/-- An event presses a key of the keypad, or it leaves the buffer alone and tells nothing about keys. -/
lemma command_cases (b : KeyBuffer) (event : KeyEvent) (now : Nat) :
    (∃ key, key.toNat < Keypad.size ∧
        b.command event now = (if b.holds key then none else some (.press key), (b.press key now).2)) ∨
      ∃ c : Option Command, b.command event now = (c, b) ∧ (c = none ∨ c = some .togglePause ∨ c = some .quit) := by
  cases hb : event.binding with
  | none => exact .inr ⟨none, by rw [command, hb], .inl rfl⟩
  | some c =>
    obtain ⟨key, rfl, hk⟩ | rfl | rfl := binding_cases hb
    · refine .inl ⟨key, hk, ?_⟩
      rw [command, hb]
      cases hh : b.holds key <;> simp [press, hh]
    · exact .inr ⟨_, by rw [command, hb], .inr (.inl rfl)⟩
    · exact .inr ⟨_, by rw [command, hb], .inr (.inr rfl)⟩

end KeyBuffer

/-- What happens at the user's end and to the emulator: key events and polls for expiries, each with a reading of the
clock, the next command being sent, and frames. -/
inductive Input where
  | key (event : KeyEvent) (now : Nat)
  | poll (now : Nat)
  | send
  | frame
  deriving DecidableEq

namespace KeyBuffer

def respond (b : KeyBuffer) : Input → List Command × KeyBuffer
  | .key event now => ((b.command event now).1.toList, (b.command event now).2)
  | .poll now => b.releases now
  | .send | .frame => ([], b)

lemma turns_release (key : UInt8) (ks : List UInt8) :
    turns key (ks.map .release) = List.replicate (ks.count key) false := by
  induction ks with
  | nil => rfl
  | cons k ks ih =>
    rw [List.map_cons, turns, List.filterMap_cons, Command.down?, List.count_cons]
    by_cases hk : k = key
    · simp only [hk, if_pos, beq_self_eq_true]
      rw [List.replicate_succ, ← ih]
      rfl
    · simp only [hk, if_neg, not_false_eq_true, beq_iff_eq, Nat.add_zero]
      exact ih

lemma turns_press (b : KeyBuffer) (k key : UInt8) (now : Nat) :
    turns key (if b.holds k then none else some (Command.press k)).toList =
      if (b.press k now).2.holds key = b.holds key then [] else [(b.press k now).2.holds key] := by
  simp only [holds_press]
  by_cases hk : key = k
  · subst hk
    cases b.holds key <;> simp [turns, Command.down?]
  · cases b.holds k <;> simp [turns, Command.down?, hk, Ne.symm hk]

variable {b : KeyBuffer}

lemma turns_releases (hb : b.keys.Nodup) (now : Nat) (key : UInt8) :
    turns key (b.releases now).1 =
      if (b.expire now).2.holds key = b.holds key then [] else [(b.expire now).2.holds key] := by
  have hk := b.keys_expire now
  obtain ⟨he, -, hdisjoint⟩ := List.nodup_append.1 (hk ▸ hb)
  have hheld : b.holds key = true ↔ key ∈ (b.expire now).1 ∨ key ∈ (b.expire now).2.keys := by
    rw [holds_iff, ← hk, List.mem_append]
  rw [releases, turns_release, he.count]
  -- A key is held once, so that one which expires is not among those that stay.
  by_cases hm : key ∈ (b.expire now).1
  · have hup : (b.expire now).2.holds key = false :=
      Bool.eq_false_iff.2 fun h => hdisjoint key hm key (holds_iff.1 h) rfl
    simp [hm, hup, hheld.2 (.inl hm)]
  · have hsame : (b.expire now).2.holds key = b.holds key := by
      rw [Bool.eq_iff_iff, hheld, holds_iff, or_iff_right hm]
    simp [hm, hsame]

lemma sound_respond (hb : b.Sound) (i : Input) : (b.respond i).2.Sound := by
  cases i with
  | key event now =>
    obtain ⟨key, hk, hc⟩ | ⟨c, hc, -⟩ := b.command_cases event now <;> rw [respond, hc]
    · exact sound_press hb hk now
    · exact hb
  | poll now => exact sound_expire hb now
  | _ => exact hb

lemma onKeypad_respond (hb : b.Sound) (i : Input) : ∀ c ∈ (b.respond i).1, c.OnKeypad := by
  intro c hm
  cases i with
  | key event now =>
    obtain ⟨key, hk, hc⟩ | ⟨d, hc, hd⟩ := b.command_cases event now <;>
      rw [respond, hc, Option.mem_toList] at hm
    · split at hm
      · cases hm
      · cases hm
        exact hk
    · obtain rfl | rfl | rfl := hd <;> cases hm <;> trivial
  | poll now =>
    obtain ⟨key, hk, rfl⟩ := List.mem_map.1 hm
    exact hb.onKeypad key (b.keys_expire now ▸ List.mem_append_left _ hk)
  | _ => cases hm

/-- The commands tell just whether a key has come to be held or ceased to be. -/
lemma turns_respond (hb : b.Sound) (i : Input) (key : UInt8) :
    turns key (b.respond i).1 =
      if (b.respond i).2.holds key = b.holds key then [] else [(b.respond i).2.holds key] := by
  cases i with
  | key event now =>
    obtain ⟨k, -, hc⟩ | ⟨c, hc, hd⟩ := b.command_cases event now <;> rw [respond, hc]
    · exact b.turns_press k key now
    · obtain rfl | rfl | rfl := hd <;> simp [turns, Command.down?]
  | poll now => exact turns_releases hb.nodup now key
  | send | frame => simp [respond, turns]

end KeyBuffer

/-- The user's end as a whole: the keys held, the commands that have come up and are yet to be sent, and the session. -/
structure Console (σ γ : Type) where
  buffer : KeyBuffer
  unsent : List Command := []
  session : Session σ γ

namespace Console

variable {σ γ : Type}

/-- Whether a key of the machine will be down once the emulator has applied what waits. -/
def keyOutlook (key : UInt8) (e : Emulator σ γ) : Bool :=
  e.ahead (·.machine.keypad.pressed key) (Message.pressedAfter key)

/-- A key is held just if the machine's is down, once what is yet to be sent and what waits have been applied. -/
structure Consistent (c : Console σ γ) : Prop where
  sound : c.buffer.Sound
  onKeypad : ∀ command ∈ c.unsent, command.OnKeypad
  agrees : ∃ e p, c.session = ⟨.live e, p⟩ ∧
    ∀ key, (turns key c.unsent).getLast?.getD (keyOutlook key e) = c.buffer.holds key

def untouched (timeout : Nat) (s : Session σ γ) : Console σ γ := { buffer := { timeout := timeout }, session := s }

def respond (c : Console σ γ) (i : Input) : Console σ γ :=
  { c with buffer := (c.buffer.respond i).2, unsent := c.unsent ++ (c.buffer.respond i).1 }

variable {c : Console σ γ}

lemma Consistent.respond (hc : c.Consistent) (i : Input) : (c.respond i).Consistent := by
  obtain ⟨e, p, hs, ha⟩ := hc.agrees
  refine ⟨KeyBuffer.sound_respond hc.sound i, fun command hm => ?_, e, p, hs, fun key => ?_⟩
  · obtain hm | hm := List.mem_append.1 hm
    · exact hc.onKeypad command hm
    · exact KeyBuffer.onKeypad_respond hc.sound i command hm
  · rw [Console.respond, turns_append, last_append, ha, KeyBuffer.turns_respond hc.sound, last_change]

variable {font : Font} {host : σ} {config : Config} {seed : ChaCha.Key} {rom : List UInt8} {s : Session σ γ}

variable [Host σ γ]

def step (c : Console σ γ) : Input → Console σ γ
  | .send =>
    match c.unsent with
    | [] => c
    | command :: rest => { c with unsent := rest, session := c.session.turn (.command command) }
  | .frame => { c with session := c.session.turn .frame }
  | i => c.respond i

def run (c : Console σ γ) (is : List Input) : Console σ γ := is.foldl step c

def commands (c : Console σ γ) : List Input → List Command
  | [] => []
  | i :: is => (c.buffer.respond i).1 ++ commands (c.step i) is

/-- There is room for every command that is sent. -/
def Unhindered (c : Console σ γ) : List Input → Prop
  | [] => True
  | i :: is => (i = .send → c.unsent ≠ [] → c.session.crowded = false) ∧ Unhindered (c.step i) is

instance decidableUnhindered (c : Console σ γ) : (is : List Input) → Decidable (c.Unhindered is)
  | [] => inferInstanceAs (Decidable True)
  | i :: is =>
    have := decidableUnhindered (c.step i) is
    inferInstanceAs (Decidable (_ ∧ _))

lemma keyOutlook_send {e : Emulator σ γ} {command : Command} (hc : command.OnKeypad)
    (hroom : e.mailbox.isFull = false) (paused : Bool) (key : UInt8) :
    keyOutlook key (e.act (.send (command.message paused))) = (command.down? key).getD (keyOutlook key e) := by
  calc keyOutlook key (e.act (.send (command.message paused)))
      = (e.accepted (.send (command.message paused))).foldl (Message.pressedAfter key) (keyOutlook key e) :=
        ahead_act (pressed_act key (a := .send _) trivial e)
    _ = (command.down? key).getD (keyOutlook key e) := by
        rw [accepted_send (Command.validate_message hc paused) hroom]
        exact Command.pressedAfter_message hc paused key _

lemma keyOutlook_frame (e : Emulator σ γ) (key : UInt8) : keyOutlook key (e.act .frame) = keyOutlook key e :=
  ahead_act (pressed_act key (a := .frame) trivial e)

lemma step_buffer (c : Console σ γ) (i : Input) : (c.step i).buffer = (c.buffer.respond i).2 := by
  cases i with
  | send =>
    rw [step]
    cases c.unsent <;> rfl
  | _ => rfl

lemma Consistent.step (hc : c.Consistent) {i : Input}
    (hr : i = .send → c.unsent ≠ [] → c.session.crowded = false) : (c.step i).Consistent := by
  cases i with
  | key event now => exact hc.respond (.key event now)
  | poll now => exact hc.respond (.poll now)
  | frame =>
    obtain ⟨e, p, hs, ha⟩ := hc.agrees
    refine ⟨hc.sound, hc.onKeypad, e.act .frame, p, ?_, fun key => ?_⟩
    · rw [Console.step, hs]
      exact Session.turn_live e p .frame
    · rw [keyOutlook_frame]
      exact ha key
  | send =>
    obtain ⟨buffer, unsent, session⟩ := c
    cases unsent with
    | nil => exact hc
    | cons command rest =>
      -- The command goes from the front of what is unsent to the end of the mailbox, and counts the same there.
      obtain ⟨e, p, rfl, ha⟩ := hc.agrees
      have hon := hc.onKeypad command List.mem_cons_self
      refine ⟨hc.sound, fun other hm => hc.onKeypad other (List.mem_cons_of_mem command hm), _, _,
        Session.turn_live e p (.command command), fun key => ?_⟩
      have hk := ha key
      rw [turns_cons, last_append] at hk
      rw [Turn.action, keyOutlook_send hon (hr rfl (List.cons_ne_nil command rest))]
      cases hd : command.down? key <;> rw [hd] at hk <;> exact hk

lemma Consistent.run (hc : c.Consistent) {is : List Input} (hu : c.Unhindered is) :
    (c.run is).Consistent ∧ ∀ key, Alternating (c.buffer.holds key) (turns key (c.commands is)) := by
  induction is generalizing c with
  | nil => exact ⟨hc, fun key => trivial⟩
  | cons i is ih =>
    obtain ⟨hlast, hturns⟩ := ih (hc.step hu.1) hu.2
    refine ⟨hlast, fun key => ?_⟩
    have hrest := hturns key
    rw [step_buffer] at hrest
    rw [commands, turns_append, KeyBuffer.turns_respond hc.sound]
    exact hrest.change

end Console

end Chip8.Terminal

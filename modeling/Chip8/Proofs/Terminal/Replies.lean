import Chip8.Proofs.Emulator.Submission
import Chip8.Proofs.Terminal.HeldKeys

/-! Replies to commands. The only command that fails names a key that there is not, and the user's keys give none, so
that the user goes on until he quits or the emulator is gone. -/

namespace Chip8.Terminal

variable {σ γ : Type}

lemma Command.validate_message_eq_error_iff (c : Command) (paused : Bool) (error : Error) :
    (c.message paused : Message γ).validate = .error error ↔
      ∃ key, (c = .press key ∨ c = .release key) ∧ Keypad.size ≤ key.toNat ∧ error = .invalidKey key := by
  cases c with
  | press key | release key =>
    simp only [message, Message.validate, checkKey]
    by_cases hk : key.toNat < Keypad.size
    · simp [hk, Nat.not_le.2 hk]
    · simp [hk, Nat.not_lt.1 hk, eq_comm]
  | togglePause => cases paused <;> simp [message, Message.validate]
  | quit => simp [message, Message.validate]

namespace Session

variable {s : Session σ γ} {m : Message γ} {c : Command} {error : Error}

def connected (s : Session σ γ) : Bool :=
  match s.link with
  | .live _ => true
  | .gone _ => false

lemma send_of_invalid (h : m.validate = .error error) (s : Session σ γ) (sent : Reply) :
    s.send m sent = (.failed error, s) := by
  have hi := Message.isInvalid_of_validate h
  simp only [send, Link.send, Link.trySend, h]
  cases error with
  | romTooLarge | invalidKey => rfl
  | _ => cases hi

lemma send_of_valid (h : m.validate = .ok ()) (s : Session σ γ) (sent : Reply) :
    (s.send m sent).1 = if s.crowded then .waiting else if s.connected then sent else .finish := by
  obtain ⟨link, paused⟩ := s
  cases link with
  | gone last =>
    simp only [send, Link.send, Link.trySend, h]
    rfl
  | live e =>
    simp only [send, Link.send, Link.trySend, h, crowded, connected]
    cases e.mailbox.isFull <;> rfl

/-- Every command is a message that is sent. -/
lemma handle_eq (s : Session σ γ) (c : Command) :
    s.handle c = { s with paused := c.flag s.paused }.send (c.message s.paused)
      (if c = Command.quit then .finish else .proceed) := by
  cases c <;> rfl

lemma handle_of_valid (h : (c.message s.paused : Message γ).validate = .ok ()) :
    (s.handle c).1 =
      if s.crowded then .waiting else if c ≠ .quit ∧ s.connected then .proceed else .finish := by
  have hcrowded : ({ s with paused := c.flag s.paused } : Session σ γ).crowded = s.crowded := rfl
  have hconnected : ({ s with paused := c.flag s.paused } : Session σ γ).connected = s.connected := rfl
  rw [handle_eq, send_of_valid h, hcrowded, hconnected]
  by_cases hq : c = .quit
  · simp [hq]
  · simp [hq]

lemma handle_of_invalid (h : (c.message s.paused : Message γ).validate = .error error) :
    s.handle c = (.failed error, s) := by
  obtain ⟨key, hc, -⟩ := (Command.validate_message_eq_error_iff ..).1 h
  rw [handle_eq, send_of_invalid h]
  -- A press or a release does not turn the pause flag.
  obtain rfl | rfl := hc <;> rfl

lemma handle_eq_failed_iff :
    (s.handle c).1 = .failed error ↔ (c.message s.paused : Message γ).validate = .error error := by
  cases hv : (c.message s.paused : Message γ).validate with
  | error error' => rw [handle_of_invalid hv, Reply.failed.injEq, Except.error.injEq]
  | ok u =>
    rw [handle_of_valid hv]
    split
    · simp
    · split <;> simp

end Session

namespace Console

variable [Host σ γ]

lemma onKeypad_commands {c : Console σ γ} (hc : c.buffer.Sound) (is : List Input) :
    ∀ command ∈ c.commands is, command.OnKeypad := by
  induction is generalizing c with
  | nil => exact List.forall_mem_nil _
  | cons i is ih =>
    have hnext : (c.step i).buffer.Sound := by
      rw [step_buffer]
      exact KeyBuffer.sound_respond hc i
    exact List.forall_mem_append.2 ⟨KeyBuffer.onKeypad_respond hc i, ih hnext⟩

/-- What comes up at the user's end never fails, whatever has become of the emulator by the time it is sent. -/
theorem input_never_fails (s : Session σ γ) (timeout : Nat) (is : List Input) :
    (∀ c ∈ (untouched timeout s).commands is, c.OnKeypad ∧ ∀ t : Session σ γ,
      (∀ error, (t.handle c).1 ≠ .failed error) ∧
        (t.crowded = false → (t.handle c).1 = if c ≠ .quit ∧ t.connected then .proceed else .finish)) ∧
      ∀ (t : Session σ γ) (c : Command) (error : Error),
        ((t.handle c).1 = .failed error ↔
          ∃ key, (c = .press key ∨ c = .release key) ∧ Keypad.size ≤ key.toNat ∧ error = .invalidKey key) ∧
        ((t.handle c).1 = .failed error → (t.handle c).2 = t) := by
  refine ⟨fun c hc => ?_, fun t c error => ⟨?_, fun h => ?_⟩⟩
  · have hon := onKeypad_commands (c := untouched timeout s) ⟨List.nodup_nil, nofun⟩ is c hc
    refine ⟨hon, fun t => ?_⟩
    have hvalid : (c.message t.paused : Message γ).validate = .ok () := Command.validate_message hon t.paused
    refine ⟨fun error => ?_, fun hroom => ?_⟩
    · rw [Ne, Session.handle_eq_failed_iff, hvalid]
      exact nofun
    · rw [Session.handle_of_valid hvalid, hroom, if_neg Bool.false_ne_true]
  · exact Session.handle_eq_failed_iff.trans (Command.validate_message_eq_error_iff c t.paused error)
  · rw [Session.handle_of_invalid (Session.handle_eq_failed_iff.1 h)]

/-- A key is typed and expires, the user quits, and the emulator is dropped at some time. -/
theorem input_never_fails_dropped :
    let first : Session Silence Unit := .opened .standard Silence.mk {} (Vector.replicate 8 0)
    let gone : Session Silence Unit := { first with link := first.link.drop }
    let typing : List Input := [.key ⟨.char 'A', true⟩ 0, .poll 300, .key ⟨.char 'c', true⟩ 310]
    (untouched 250 first).commands typing = [.press 0xA, .release 0xA, .quit] ∧
      first.crowded = false ∧ (first.handle (.release 0xA)).1 = .proceed ∧
      gone.crowded = false ∧ (gone.handle (.release 0xA)).1 = .finish ∧
      (gone.handle (.press 0x10)).1 = .failed (.invalidKey 0x10) ∧ (gone.handle (.press 0x10)).2 = gone := by
  intro first gone typing
  obtain ⟨hinput, hcommand⟩ := input_never_fails first 250 typing
  have hall : (untouched 250 first).commands typing = [.press 0xA, .release 0xA, .quit] := by decide +kernel
  obtain ⟨-, hrelease⟩ := hinput (.release 0xA) (by simp [hall])
  have hfailed : (gone.handle (.press 0x10)).1 = .failed (.invalidKey 0x10) :=
    (hcommand gone (.press 0x10) (.invalidKey 0x10)).1.2 ⟨0x10, .inl rfl, by decide, rfl⟩
  exact ⟨hall, rfl, ((hrelease first).2 rfl).trans (if_pos ⟨nofun, rfl⟩), rfl,
    ((hrelease gone).2 rfl).trans (if_neg nofun), hfailed, (hcommand gone (.press 0x10) _).2 hfailed⟩

end Console

end Chip8.Terminal

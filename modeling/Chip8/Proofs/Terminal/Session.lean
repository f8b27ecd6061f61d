import Chip8.Proofs.Emulator.Drain
import Chip8.Terminal.Session

/-! Runs of a session with its emulator. Commands wait in the mailbox while the user's end goes by them at once, so that
the two agree about what the emulator comes to when the mailbox is drained, and about what it is when nothing waits. -/

namespace Chip8

namespace Emulator

variable {σ γ β : Type}

/-- What `v` comes to as the messages that wait are applied, each of which changes it by `g`. -/
def ahead (v : Emulator σ γ → β) (g : β → Message γ → β) (e : Emulator σ γ) : β :=
  e.mailbox.pending.foldl g (v e)

lemma ahead_of_pending_nil {e : Emulator σ γ} (v : Emulator σ γ → β) (g : β → Message γ → β)
    (h : e.mailbox.pending = []) : e.ahead v g = v e := by
  rw [ahead, h]
  rfl

lemma accepted_send {e : Emulator σ γ} {m : Message γ} (hm : m.validate = .ok ()) (hr : e.mailbox.isFull = false) :
    e.accepted (.send m) = [m] := by
  simp only [accepted, Link.send, Link.trySend, hm, hr]
  rfl

variable [Host σ γ]

lemma ahead_act {v : Emulator σ γ → β} {g : β → Message γ → β} {e : Emulator σ γ} {a : Action γ}
    (h : v (e.act a) = (e.applied a).foldl g (v e)) :
    (e.act a).ahead v g = (e.accepted a).foldl g (e.ahead v g) := by
  calc (e.act a).ahead v g
      = (e.applied a ++ (e.act a).mailbox.pending).foldl g (v e) := by rw [ahead, h, List.foldl_append]
    _ = (e.accepted a).foldl g (e.ahead v g) := by rw [act_conserves, List.foldl_append, ahead]

end Emulator

namespace Terminal

open Emulator

variable {σ γ : Type}

/-- What happens to a session: the user's commands, programs that are sent along, and frames of the emulator. -/
inductive Turn where
  | command (c : Command)
  | loadRom (rom : List UInt8)
  | frame
  deriving DecidableEq

def Command.message (paused : Bool) : Command → Message γ
  | .press key => .setKey key true
  | .release key => .setKey key false
  | .togglePause => if paused then .resume else .pause
  | .quit => .stop

def Command.flag (paused : Bool) : Command → Bool
  | .togglePause => !paused
  | _ => paused

namespace Turn

def action (paused : Bool) : Turn → Action γ
  | command c => .send (c.message paused)
  | loadRom rom => .send (.swapRom rom)
  | frame => .frame

def flag (paused : Bool) : Turn → Bool
  | command c => c.flag paused
  | _ => paused

lemma remote_action (paused : Bool) (t : Turn) : (t.action paused : Action γ).Remote := by
  cases t <;> trivial

end Turn

namespace Session

variable {e : Emulator σ γ} {p : Bool} {font : Font} {host : σ} {config : Config} {key : ChaCha.Key}
  {rom : List UInt8} {s : Session σ γ}

def opened (font : Font) (host : σ) (config : Config) (key : ChaCha.Key) : Session σ γ :=
  { link := .live (create font host config key) }

/-- A program is accepted and the emulator told to go on, which leads to `t`. -/
def Starts (s : Session σ γ) (rom : List UInt8) (t : Session σ γ) : Prop :=
  ∃ loaded, s.send (.swapRom rom) .proceed = (.proceed, loaded) ∧ loaded.send .resume .proceed = (.proceed, t)

lemma posted_of_proceed {m : Message γ} {t : Session σ γ}
    (h : (⟨.live e, p⟩ : Session σ γ).send m .proceed = (.proceed, t)) :
    t = ⟨.live { e with mailbox := e.mailbox.post m }, p⟩ := by
  simp only [send, Link.send, Link.trySend] at h
  cases hv : m.validate with
  | error error =>
    rw [hv] at h
    cases error <;> cases h
  | ok u =>
    rw [hv] at h
    cases hf : e.mailbox.isFull <;> simp only [hf] at h <;> cases h
    rfl

lemma Starts.eq (h : (opened font host config key).Starts rom s) :
    s = ⟨.live { (create font host config key : Emulator σ γ) with
      mailbox := { capacity := max config.queueCapacity 1, pending := [.pause, .swapRom rom, .resume] } }, false⟩ := by
  obtain ⟨loaded, hload, hresume⟩ := h
  obtain rfl := posted_of_proceed hload
  exact posted_of_proceed hresume

def crowded (s : Session σ γ) : Bool :=
  match s.link with
  | .live e => e.mailbox.isFull
  | .gone _ => false

variable [Host σ γ]

def turn (s : Session σ γ) : Turn → Session σ γ
  | .command c => (s.handle c).2
  | .loadRom rom => (s.send (.swapRom rom) .proceed).2
  | .frame =>
    match s.link with
    | .live e => { s with link := .live e.frame.2 }
    | .gone _ => s

def run (s : Session σ γ) (ts : List Turn) : Session σ γ := ts.foldl turn s

/-- There is room for whatever is sent. -/
def Unhindered (s : Session σ γ) : List Turn → Prop
  | [] => True
  | t :: ts => (t = .frame ∨ s.crowded = false) ∧ Unhindered (s.turn t) ts

instance decidableUnhindered (s : Session σ γ) : (ts : List Turn) → Decidable (s.Unhindered ts)
  | [] => inferInstanceAs (Decidable True)
  | t :: ts =>
    have := decidableUnhindered (s.turn t) ts
    inferInstanceAs (Decidable (_ ∧ _))

lemma send_live (e : Emulator σ γ) (p : Bool) (m : Message γ) (sent : Reply) :
    ((⟨.live e, p⟩ : Session σ γ).send m sent).2 = ⟨.live (e.act (.send m)), p⟩ := by
  simp only [send, act, Link.send, Link.trySend]
  cases m.validate with
  | error error => cases error <;> rfl
  | ok u => cases e.mailbox.isFull <;> rfl

lemma turn_live (e : Emulator σ γ) (p : Bool) (t : Turn) :
    (⟨.live e, p⟩ : Session σ γ).turn t = ⟨.live (e.act (t.action p)), t.flag p⟩ := by
  cases t with
  | command c => cases c <;> exact send_live ..
  | loadRom rom => exact send_live ..
  | frame => rfl

/-- Whether the emulator will be paused once it has applied what waits. -/
def outlook (e : Emulator σ γ) : Bool := e.ahead Emulator.paused Message.pausedAfter

lemma outlook_turn {t : Turn} (ht : t = .frame ∨ e.mailbox.isFull = false) :
    outlook (e.act (t.action p)) = if t = .command .togglePause then t.flag p else outlook e := by
  have ha : outlook (e.act (t.action p)) = (e.accepted (t.action p)).foldl Message.pausedAfter (outlook e) :=
    ahead_act (paused_act (t.remote_action p) e)
  have hnone {m : Message γ} (hn : ∀ b, m.pausedAfter b = b) :
      (e.accepted (.send m)).foldl Message.pausedAfter (outlook e) = outlook e := by
    obtain ⟨hm, -⟩ | ⟨hm, -⟩ := act_submission (e := e) (a := .send m) rfl
    · rw [hm]
      exact hn _
    · rw [hm]
      rfl
  rw [ha]
  cases t with
  | frame => rfl
  | loadRom rom => exact hnone fun _ => rfl
  | command c =>
    cases c with
    | togglePause =>
      have hroom := ht.resolve_left nofun
      cases p with
      | true =>
        rw [Turn.action, Command.message, if_pos rfl, accepted_send rfl hroom]
        rfl
      | false =>
        rw [Turn.action, Command.message, if_neg nofun, accepted_send rfl hroom]
        rfl
    | _ => exact hnone fun _ => rfl

lemma run_live {ts : List Turn} (hu : (⟨.live e, p⟩ : Session σ γ).Unhindered ts) :
    ∃ f q, (⟨.live e, p⟩ : Session σ γ).run ts = ⟨.live f, q⟩ ∧
      outlook f = (if .command .togglePause ∈ ts then q else outlook e) ∧
      (.command .togglePause ∉ ts → q = p) := by
  induction ts generalizing e p with
  | nil => exact ⟨e, p, rfl, rfl, fun _ => rfl⟩
  | cons t ts ih =>
    have hnext := outlook_turn (p := p) hu.1
    have hrest := hu.2
    rw [turn_live] at hrest
    obtain ⟨f, q, hrun, hlook, hkept⟩ := ih hrest
    refine ⟨f, q, ?_, ?_, fun hn => ?_⟩
    · rw [← hrun, ← turn_live]
      rfl
    · -- The last toggle decides: it is further on, or here, or there is none.
      by_cases hlater : .command .togglePause ∈ ts
      · rw [hlook, if_pos hlater, if_pos (List.mem_cons_of_mem t hlater)]
      · rw [hlook, if_neg hlater, hnext, hkept hlater]
        simp only [List.mem_cons, hlater, or_false, eq_comm]
    · obtain ⟨hne, hlater⟩ := not_or.1 (mt List.mem_cons.2 hn)
      rw [hkept hlater]
      cases t with
      | command c =>
        cases c with
        | togglePause => exact absurd rfl hne
        | _ => rfl
      | _ => rfl

/-- Whenever nothing waits, the emulator is paused just if the session's flag says so: from the start where the
emulator was told to go on, and otherwise from the first toggle on, in front of which it is paused. -/
theorem pause_flag_follows (font : Font) (host : σ) (config : Config) (key : ChaCha.Key) :
    (∀ rom (s : Session σ γ) ts, (opened font host config key).Starts rom s → s.Unhindered ts →
      ∃ e, (s.run ts).link = .live e ∧ (e.mailbox.pending = [] → e.paused = (s.run ts).paused)) ∧
    ∀ ts, (opened font host config key : Session σ γ).Unhindered ts →
      ∃ e, ((opened font host config key).run ts).link = .live e ∧
        (e.mailbox.pending = [] → e.paused =
          if .command .togglePause ∈ ts then ((opened font host config key).run ts).paused else true) := by
  constructor
  · intro rom s ts hs hu
    rw [hs.eq] at hu ⊢
    obtain ⟨f, q, hrun, hlook, hkept⟩ := run_live hu
    refine ⟨f, by rw [hrun], fun hq => ?_⟩
    rw [outlook, ahead_of_pending_nil _ _ hq] at hlook
    rw [hlook, hrun]
    split
    · rfl
    · exact (hkept ‹_›).symm
  · intro ts hu
    obtain ⟨f, q, hrun, hlook, -⟩ := run_live hu
    refine ⟨f, by rw [opened, hrun], fun hq => ?_⟩
    rw [outlook, ahead_of_pending_nil _ _ hq] at hlook
    rw [hlook, opened, hrun]
    rfl

/-- Two messages to a frame, with a key that is refused, a stop that cuts a frame short and a second program. -/
theorem pause_flag_follows_toggles :
    let first : Session Silence Unit :=
      opened .standard Silence.mk { queueCapacity := 5, messagesPerFrame := 2 } (Vector.replicate 8 0)
    let toggled : List Turn :=
      [.command (.press 0x20), .frame, .command .togglePause, .command .quit, .frame, .loadRom [0x12, 0x00], .frame,
        .frame]
    let twice : List Turn := [.command .togglePause, .frame, .frame, .command .togglePause, .frame]
    (∃ s, first.Starts [0x60, 0x05] s ∧ s.Unhindered toggled ∧ (s.run toggled).paused = true ∧
      ∃ e, (s.run toggled).link = .live e ∧ e.mailbox.pending = [] ∧ e.paused = true) ∧
    (first.Unhindered [.frame] ∧
      ∃ e, (first.run [.frame]).link = .live e ∧ e.mailbox.pending = [] ∧ e.paused = true) ∧
    first.Unhindered twice ∧ (first.run twice).paused = false ∧
      ∃ e, (first.run twice).link = .live e ∧ e.mailbox.pending = [] ∧ e.paused = false := by
  intro first toggled twice
  obtain ⟨hstarted, hopened⟩ := pause_flag_follows (γ := Unit) .standard Silence.mk
    { queueCapacity := 5, messagesPerFrame := 2 } (Vector.replicate 8 0)
  have hfresh (ts : List Turn) (hu : first.Unhindered ts) : ∃ e, (first.run ts).link = .live e ∧
      (e.mailbox.pending = [] →
        e.paused = if .command .togglePause ∈ ts then (first.run ts).paused else true) := hopened ts hu
  let e := alone []
  refine ⟨?_, ?_, ?_⟩
  · let loaded := (first.send (.swapRom [0x60, 0x05]) .proceed).2
    let s := (loaded.send .resume .proceed).2
    have hs : first.Starts [0x60, 0x05] s := ⟨loaded, rfl, rfl⟩
    have hu : s.Unhindered toggled := by decide +kernel
    have hflag : (s.run toggled).paused = true := by decide +kernel
    have hidle : (e.behind (s.run toggled).link).mailbox.pending = [] := by decide +kernel
    obtain ⟨f, hf, hp⟩ := hstarted _ s toggled hs hu
    rw [hf] at hidle
    exact ⟨s, hs, hu, hflag, f, hf, hidle, (hp hidle).trans hflag⟩
  · have hu : first.Unhindered [.frame] := by decide +kernel
    have hidle : (e.behind (first.run [.frame]).link).mailbox.pending = [] := by decide +kernel
    obtain ⟨f, hf, hp⟩ := hfresh [.frame] hu
    rw [hf] at hidle
    exact ⟨hu, f, hf, hidle, hp hidle⟩
  · have hu : first.Unhindered twice := by decide +kernel
    have hflag : (first.run twice).paused = false := by decide +kernel
    have hidle : (e.behind (first.run twice).link).mailbox.pending = [] := by decide +kernel
    obtain ⟨f, hf, hp⟩ := hfresh twice hu
    rw [hf] at hidle
    exact ⟨hu, hflag, f, hf, hidle, (hp hidle).trans hflag⟩

end Session

end Terminal

end Chip8

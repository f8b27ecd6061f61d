import Chip8.Proofs.Emulator.Alike
import Chip8.Proofs.Emulator.Drain

/-! Emulators that are alike and are given the same messages, now and later. -/

namespace Chip8.Emulator

variable {σ τ γ : Type}

structure Twins (H : σ → τ → Prop) (c d : Int) (e : Emulator σ γ) (f : Emulator τ γ) : Prop
    extends Alike H c d e f where
  paused : f.paused = e.paused
  mailbox : f.mailbox = e.mailbox

def outcomes [Host σ γ] (e : Emulator σ γ) : Action γ → List Outcome
  | .frame => [e.frame.1]
  | _ => []

lemma accepted_congr {e : Emulator σ γ} {f : Emulator τ γ} (h : f.mailbox = e.mailbox) (a : Action γ) :
    f.accepted a = e.accepted a := by
  cases a with
  | trySend m | send m =>
    simp only [accepted, Link.send, Link.trySend, h]
    cases m.validate with
    | error error => cases error <;> rfl
    | ok u => cases e.mailbox.isFull <;> rfl
  | _ => rfl

variable {H : σ → τ → Prop} {c d : Int} {e : Emulator σ γ} {f : Emulator τ γ}

lemma Twins.post (h : Twins H c d e f) (b : Mailbox γ) :
    Twins H c d { e with mailbox := b } { f with mailbox := b } :=
  ⟨h.setControl .., h.paused, rfl⟩

variable [Host σ γ] [Host τ γ] (hH : Accord H)

include hH

lemma Twins.apply (h : Twins H c d e f) (m : Message γ) : Twins H c d (e.apply m) (f.apply m) := by
  refine ⟨h.toAlike.apply hH m fun _ => h.paused, ?_, ?_⟩
  · rw [(apply_applies e m).paused, (apply_applies f m).paused, h.paused]
  · rw [(apply_sameInbox e m).1, (apply_sameInbox f m).1, h.mailbox]

lemma Twins.foldl_apply (h : Twins H c d e f) (ms : List (Message γ)) :
    Twins H c d (ms.foldl Emulator.apply e) (ms.foldl Emulator.apply f) := by
  induction ms generalizing e f with
  | nil => exact h
  | cons m ms ih => exact ih (h.apply hH m)

lemma Twins.drain (h : Twins H c d e f) : Twins H c d e.drain f.drain := by
  have hb : Mailbox.batch f.batchLimit e.mailbox.pending = Mailbox.batch e.batchLimit e.mailbox.pending := by
    rw [h.batchLimit]
  simp only [Emulator.drain, h.mailbox, hb]
  exact (h.post _).foldl_apply hH _

lemma Twins.frame (h : Twins H c d e f) : f.frame.1 = e.frame.1 ∧ Twins H c d e.frame.2 f.frame.2 := by
  have hd := h.drain hH
  obtain ⟨ho, ha⟩ := hd.toAlike.perform hH hd.paused
  have he := sameControls_perform e.drain
  have hf := sameControls_perform f.drain
  refine ⟨ho, ha.setControl .., ?_, ?_⟩
  · exact hf.paused.trans (hd.paused.trans he.paused.symm)
  · exact hf.mailbox.trans (hd.mailbox.trans he.mailbox.symm)

lemma Twins.act {a : Action γ} (ha : a.Remote) (h : Twins H c d e f) :
    f.outcomes a = e.outcomes a ∧ Twins H c d (e.act a) (f.act a) := by
  have hsubmit {m : Message γ} (hm : a.message = some m) : Twins H c d (e.act a) (f.act a) := by
    have hacc := accepted_congr h.mailbox a
    obtain ⟨he, -, hen⟩ | ⟨he, hen⟩ := act_submission (e := e) hm <;>
      obtain ⟨hf, -, hfn⟩ | ⟨hf, hfn⟩ := act_submission (e := f) hm
    · rw [hen, hfn, h.mailbox]
      exact h.post _
    · rw [he, hf] at hacc
      cases hacc
    · rw [he, hf] at hacc
      cases hacc
    · rw [hen, hfn]
      exact h
  cases a with
  | trySend m | send m => exact ⟨rfl, hsubmit rfl⟩
  | frame =>
    obtain ⟨ho, hn⟩ := h.frame hH
    exact ⟨congrArg ([·]) ho, hn⟩
  | _ => exact ha.elim

lemma Twins.run {as : List (Action γ)} (ha : ∀ a ∈ as, a.Remote) (h : Twins H c d e f) :
    collect outcomes f as = collect outcomes e as ∧ Twins H c d (e.run as) (f.run as) := by
  induction as generalizing e f with
  | nil => exact ⟨rfl, h⟩
  | cons a as ih =>
    obtain ⟨ho, hn⟩ := h.act hH (ha a List.mem_cons_self)
    obtain ⟨hos, hrest⟩ := ih (fun b hb => ha b (List.mem_cons_of_mem a hb)) hn
    refine ⟨?_, hrest⟩
    rw [collect, collect, ho, hos]

end Chip8.Emulator

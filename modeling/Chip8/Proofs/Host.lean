import Chip8.Host
import Mathlib.Tactic.Lemma

/-! Hosts that answer alike. An emulator learns of its host only by being stopped, so that two hosts that stop it at
the same instructions are one to it. -/

namespace Chip8

namespace Event

variable {γ : Type}

def redate (n : Nat) : Event γ → Event γ
  | decode pc opcode _ => decode pc opcode n
  | draw _ screen => draw n screen
  | event => event

def withdraw : List (Event γ) → List (Event γ)
  | draw _ _ :: log => log
  | log => log

/-- The log grows at its head. A screen takes the place of one that no instruction and no payload came after, and neither
tones nor draw counts are put down. -/
def note (log : List (Event γ)) : Event γ → List (Event γ)
  | decode pc opcode _ => decode pc opcode 0 :: log
  | draw _ screen => draw 0 screen :: withdraw log
  | custom payload => custom payload :: log
  | tone _ => log

def digest (events : List (Event γ)) : List (Event γ) := events.foldl note []

lemma note_redate (log : List (Event γ)) (event : Event γ) (n : Nat) : note log (event.redate n) = note log event := by
  cases event <;> rfl

lemma digest_concat (events : List (Event γ)) (event : Event γ) :
    digest (events ++ [event]) = note (digest events) event := List.foldl_append

end Event

variable {σ τ γ : Type} [Host σ γ] [Host τ γ]

/-- Hosts that answer alike as long as they are told alike, whatever the draw counts. -/
structure Accord (H : σ → τ → Prop) : Prop where
  notify : ∀ {h k} (event : Event γ) (n : Nat), H h k → H (Host.notify h event) (Host.notify k (event.redate n))
  stopsAt : ∀ {h k} (pc : UInt16) (opcode : Opcode) (m n : Nat), H h k →
    Host.stopsAt k pc opcode n = Host.stopsAt h pc opcode m

/-- A tone that both hosts are told of keeps them related. -/
def Tuned (H : σ → τ → Prop) : Prop :=
  ∀ {h k} (t : Tone), H h k → H (Host.notify h (.tone t)) (Host.notify k (.tone t))

/-- A screen that both hosts are shown takes them from `H` to `K`. -/
def Shown (H K : σ → τ → Prop) : Prop :=
  ∀ {h k} (m n : Nat) (s : Screen), H h k → K (Host.notify h (.draw m s)) (Host.notify k (.draw n s))

lemma Accord.tuned {H : σ → τ → Prop} (hH : Accord H) : Tuned H := fun t => hH.notify (.tone t) 0

lemma Accord.shown {H : σ → τ → Prop} (hH : Accord H) : Shown H H := fun m n s => hH.notify (.draw m s) n

/-- Whatever the host is told, it lets the emulator go on. -/
def Permissive (h : σ) : Prop :=
  ∀ (events : List (Event γ)) (pc : UInt16) (opcode : Opcode) (n : Nat),
    Host.stopsAt (events.foldl Host.notify h) pc opcode n = false

def BothPermissive (h : σ) (k : τ) : Prop := Permissive h ∧ Permissive k

lemma Permissive.notify {h : σ} (hp : Permissive h) (event : Event γ) : Permissive (Host.notify h event) :=
  fun events => hp (event :: events)

lemma bothPermissive_accord : Accord (BothPermissive : σ → τ → Prop) where
  notify event n := fun ⟨hh, hk⟩ => ⟨hh.notify event, hk.notify (event.redate n)⟩
  stopsAt pc opcode m n := fun ⟨hh, hk⟩ => (hk [] pc opcode n).trans (hh [] pc opcode m).symm

/-- The answers of the host hang only on what `view` shows of the events that it is told of. -/
def AnswersBy (view : List (Event γ) → List (Event γ)) (h : σ) : Prop :=
  ∀ xs ys : List (Event γ), view xs = view ys → ∀ (pc : UInt16) (opcode : Opcode) (m n : Nat),
    Host.stopsAt (ys.foldl Host.notify h) pc opcode n = Host.stopsAt (xs.foldl Host.notify h) pc opcode m

/-- The answers of the host hang on no draw count. -/
def Undated (h : σ) : Prop := AnswersBy (List.map (Event.redate 0)) h

/-- The answers of the host hang on the instructions and payloads that it is told of, and for each of these and for the
answer itself on the screen that it was shown last: on no draw count, so on no number of draws, on no screen that gave
way to another before it came to matter, and on no tone. -/
def Heedless (h : σ) : Prop := AnswersBy Event.digest h

/-- Two hosts that `h` has become by events of which `view` shows the same. -/
def Became (view : List (Event γ) → List (Event γ)) (h k l : σ) : Prop :=
  ∃ xs ys : List (Event γ), view xs = view ys ∧ k = xs.foldl Host.notify h ∧ l = ys.foldl Host.notify h

def Told (h : σ) : σ → σ → Prop := Became Event.digest h

/-- Two hosts that will have been told the same once both are shown the same screen. -/
def Expectant (h : σ) : σ → σ → Prop := Became (Event.withdraw ∘ Event.digest) h

lemma Became.next {view later : List (Event γ) → List (Event γ)} {h k l : σ} (hb : Became view h k l)
    (es fs : List (Event γ)) (hv : ∀ xs ys, view xs = view ys → later (xs ++ es) = later (ys ++ fs)) :
    Became later h (es.foldl Host.notify k) (fs.foldl Host.notify l) := by
  obtain ⟨xs, ys, hxy, rfl, rfl⟩ := hb
  exact ⟨xs ++ es, ys ++ fs, hv xs ys hxy, List.foldl_append.symm, List.foldl_append.symm⟩

lemma Heedless.accord {h : σ} (hd : Heedless h) : Accord (Told h) where
  notify event n hb := by
    refine hb.next [event] [event.redate n] fun xs ys hxy => ?_
    rw [Event.digest_concat, Event.digest_concat, Event.note_redate, hxy]
  stopsAt pc opcode m n := by
    rintro ⟨xs, ys, hxy, rfl, rfl⟩
    exact hd xs ys hxy pc opcode m n

lemma expectant_refl (h : σ) : Expectant h h h := ⟨[], [], rfl, rfl, rfl⟩

lemma Expectant.right {h k l : σ} (he : Expectant h k l) {event : Event γ}
    (hw : ∀ log, Event.withdraw (Event.note log event) = Event.withdraw log) :
    Expectant h k (Host.notify l event) := by
  refine he.next [] [event] fun xs ys hxy => ?_
  rw [List.append_nil, Function.comp_apply, Function.comp_apply, Event.digest_concat, hw]
  exact hxy

lemma expectant_tuned (h : σ) : Tuned (Expectant h) := by
  intro k l t he
  refine he.next [.tone t] [.tone t] fun xs ys hxy => ?_
  rw [Function.comp_apply, Function.comp_apply, Event.digest_concat, Event.digest_concat]
  exact hxy

lemma expectant_shown (h : σ) : Shown (Expectant h) (Told h) := by
  intro k l m n s he
  refine he.next [.draw m s] [.draw n s] fun xs ys hxy => ?_
  rw [Event.digest_concat, Event.digest_concat]
  exact congrArg (Event.draw 0 s :: ·) hxy

end Chip8

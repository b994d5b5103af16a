/-
**Repetition without a bound**

A process goes from state to state until a step gives a result instead.  It may also go on forever, and
no computation can tell in advance.  The process is therefore repeated as a partial function, whose
missing value stands for the result that never comes.  What is kept of each state on the way is that
its results are results of the first state; so whatever the repetition answers is right by its type.

Main definitions:

* `Repetition.within` — the result of a process within a number of steps;
* `Repetition.run?` — the result of a process, if it ever comes.

Main results:

* `Repetition.run?_eq_some_iff` — **the repetition has exactly the results that come within some number
  of steps**.
-/

set_option relaxedAutoImplicit false
set_option autoImplicit false

namespace ClauseForest.Repetition

variable {α β : Type}

/-- The result of a process within a number of steps, if it comes by then. -/
def within (step : α → α ⊕ β) : Nat → α → Option β
  | 0, _ => none
  | n + 1, a =>
    match step a with
    | .inl next => within step n next
    | .inr result => some result

/-- A result that a process has within some number of steps. -/
abbrev Result (step : α → α ⊕ β) (start : α) : Type :=
  { result : β // ∃ n, within step n start = some result }

/-- A state on the way of a process. -/
structure Waypoint (step : α → α ⊕ β) (start : α) where
  state : α
  /-- The results of the state are results of the first one. -/
  sound : ∀ n result, within step n state = some result → ∃ m, within step m start = some result

/-- The first state of a process. -/
def Waypoint.first (step : α → α ⊕ β) (start : α) : Waypoint step start := ⟨start, fun n _ h => ⟨n, h⟩⟩

theorem Waypoint.sound_of_inl {step : α → α ⊕ β} {start a : α} (w : Waypoint step start)
    (h : step w.state = .inl a) (n : Nat) (result : β) (hn : within step n a = some result) :
    ∃ m, within step m start = some result :=
  w.sound (n + 1) result (by rw [within, h]; exact hn)

theorem Waypoint.sound_of_inr {step : α → α ⊕ β} {start : α} {b : β} (w : Waypoint step start)
    (h : step w.state = .inr b) : ∃ m, within step m start = some b :=
  w.sound 1 b (by rw [within, h])

/-- The next state on the way, or the result. -/
def Waypoint.next {step : α → α ⊕ β} {start : α} (w : Waypoint step start) :
    Waypoint step start ⊕ Option (Result step start) :=
  match h : step w.state with
  | .inl a => .inl ⟨a, w.sound_of_inl h⟩
  | .inr b => .inr (some ⟨b, w.sound_of_inr h⟩)

/-- The result of a process from a state on the way, if it ever comes. -/
def Waypoint.result? {step : α → α ⊕ β} {start : α} (w : Waypoint step start) :
    Option (Result step start) :=
  (repeatM (m := Option) (fun w => some (Waypoint.next w)) w).join

/-- The result of a process, if it ever comes. -/
def run? (step : α → α ⊕ β) (start : α) : Option β :=
  (Waypoint.first step start).result?.map Subtype.val

/-! ### Results -/

theorem Waypoint.result?_eq {step : α → α ⊕ β} {start : α} (w : Waypoint step start) :
    w.result? = match w.next with
      | .inl next => next.result?
      | .inr result => result := by
  unfold Waypoint.result?
  rw [repeatM_eq_of_monadTail]
  simp only [repeatM.body, Option.bind_eq_bind, Option.bind_some]
  cases w.next <;> rfl

theorem Waypoint.next_of_inl {step : α → α ⊕ β} {start a : α} {w : Waypoint step start}
    (h : step w.state = .inl a) : w.next = .inl ⟨a, w.sound_of_inl h⟩ := by
  unfold Waypoint.next
  split <;> rename_i h' <;> cases h.symm.trans h'
  rfl

theorem Waypoint.next_of_inr {step : α → α ⊕ β} {start : α} {b : β} {w : Waypoint step start}
    (h : step w.state = .inr b) : w.next = .inr (some ⟨b, w.sound_of_inr h⟩) := by
  unfold Waypoint.next
  split <;> rename_i h' <;> cases h.symm.trans h'
  rfl

/-- A result within some number of steps is found. -/
theorem Waypoint.map_result? {step : α → α ⊕ β} {start : α} {n : Nat} {result : β}
    (w : Waypoint step start) (h : within step n w.state = some result) :
    w.result?.map Subtype.val = some result := by
  induction n generalizing w with
  | zero => exact absurd h (by simp [within])
  | succ n ih =>
    rw [within] at h
    rw [Waypoint.result?_eq]
    cases hs : step w.state with
    | inl a =>
      rw [hs] at h
      rw [Waypoint.next_of_inl hs]
      exact ih ⟨a, _⟩ h
    | inr b =>
      rw [hs] at h
      rw [Waypoint.next_of_inr hs]
      exact h

/-- The repetition has exactly the results that come within some number of steps. -/
theorem run?_eq_some_iff {step : α → α ⊕ β} {start : α} {result : β} :
    run? step start = some result ↔ ∃ n, within step n start = some result := by
  constructor
  · intro h
    obtain ⟨found, -, rfl⟩ := Option.map_eq_some_iff.mp h
    exact found.property
  · rintro ⟨n, h⟩
    exact Waypoint.map_result? _ h

end ClauseForest.Repetition

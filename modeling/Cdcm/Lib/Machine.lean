import Mathlib

/-!
# Runs of a partial step function

A machine is a step function that may abort.  A run applies it to a list of
events; a guard restricts the steps a run may take, so that a statement about
runs whose steps all meet a condition is a statement about guarded runs.
-/

namespace Cdcm.Machine

variable {σ ε : Type}

/-- Runs from `start` all of whose steps the guard admits. -/
inductive Run (step : σ → ε → Option σ) (guard : σ → ε → Prop) (start : σ) :
    List ε → σ → Prop where
  | nil : Run step guard start [] start
  | snoc {events : List ε} {state : σ} {event : ε} {next : σ} :
      Run step guard start events state → guard state event →
      step state event = some next →
      Run step guard start (events ++ [event]) next

/-- The guard that admits every step. -/
def Unguarded (_ : σ) (_ : ε) : Prop := True

instance (state : σ) (event : ε) : Decidable (Unguarded state event) :=
  inferInstanceAs (Decidable True)

namespace Run

variable {step : σ → ε → Option σ} {guard : σ → ε → Prop} {start : σ}

/-- What holds initially and is preserved by every admitted step holds along
every run. -/
theorem invariant (inv : σ → Prop) (initial : inv start)
    (preserved : ∀ state event next, inv state → guard state event →
      step state event = some next → inv next)
    {events : List ε} {state : σ} (run : Run step guard start events state) :
    inv state := by
  induction run with
  | nil => exact initial
  | snoc _ admitted stepped ih => exact preserved _ _ _ ih admitted stepped

/-- The invariant rule for properties that also speak about the events so far. -/
theorem history (inv : List ε → σ → Prop) (initial : inv [] start)
    (preserved : ∀ events state event next, inv events state →
      guard state event → step state event = some next →
      inv (events ++ [event]) next)
    {events : List ε} {state : σ} (run : Run step guard start events state) :
    inv events state := by
  induction run with
  | nil => exact initial
  | snoc _ admitted stepped ih => exact preserved _ _ _ _ ih admitted stepped

/-- Put one admitted step in front of a run. -/
theorem cons {event : ε} {second : σ} (admitted : guard start event)
    (stepped : step start event = some second) {events : List ε} {state : σ}
    (run : Run step guard second events state) :
    Run step guard start (event :: events) state := by
  induction run with
  | nil =>
      have first : Run step guard start ([] ++ [event]) second :=
        .snoc .nil admitted stepped
      exact first
  | @snoc events _ last _ _ guarded next ih =>
      have longer : Run step guard start ((event :: events) ++ [last]) _ :=
        .snoc ih guarded next
      exact longer

/-- A run from the last state of another one continues it. -/
theorem append {events more : List ε} {state final : σ}
    (run : Run step guard start events state) (rest : Run step guard state more final) :
    Run step guard start (events ++ more) final := by
  induction rest with
  | nil => rwa [List.append_nil]
  | snoc _ admitted stepped ih =>
      rw [← List.append_assoc]
      exact .snoc ih admitted stepped

/-- A run of a machine that carries out the steps of another one is a run of that one. -/
theorem project {σ' ε' : Type} {step' : σ' → ε' → Option σ'} {guard' : σ' → ε' → Prop}
    (view : σ → σ') (read : ε → ε')
    (each : ∀ events state event next, Run step guard start events state →
      guard state event → step state event = some next →
      guard' (view state) (read event) ∧ step' (view state) (read event) = some (view next))
    {events : List ε} {state : σ} (run : Run step guard start events state) :
    Run step' guard' (view start) (events.map read) (view state) := by
  induction run with
  | nil => exact .nil
  | snoc run admitted stepped ih =>
      obtain ⟨admits, carries⟩ := each _ _ _ _ run admitted stepped
      rw [List.map_append]
      exact .snoc ih admits carries

/-- The last step of a run. -/
theorem last {events : List ε} {event : ε} {final : σ}
    (run : Run step guard start (events ++ [event]) final) :
    ∃ state, Run step guard start events state ∧ guard state event ∧
      step state event = some final := by
  generalize whole : events ++ [event] = all at run
  cases run with
  | nil => simp at whole
  | @snoc _ state _ _ run admitted stepped =>
      obtain ⟨rfl, same⟩ := List.append_inj' whole rfl
      obtain rfl := (List.cons.inj same).1
      exact ⟨state, run, admitted, stepped⟩

/-- Any step of a run, with the run in front of it. -/
theorem split {before after : List ε} {event : ε} {final : σ}
    (run : Run step guard start (before ++ event :: after) final) :
    ∃ state next, Run step guard start before state ∧ guard state event ∧
      step state event = some next := by
  induction after using List.reverseRecOn generalizing final with
  | nil =>
      obtain ⟨state, run, admitted, stepped⟩ := last run
      exact ⟨state, final, run, admitted, stepped⟩
  | append_singleton after lastEvent ih =>
      rw [← List.cons_append, ← List.append_assoc] at run
      obtain ⟨_, shorter, _⟩ := last run
      exact ih shorter

end Run

/-! ## What the steps of a run emit -/

section Emitted

variable {α τ : Type} (step : σ → ε → Option σ) (emit : σ → ε → List τ)

/-- What the steps of an execution emit, one after the other. -/
def emitted : σ → List ε → List τ
  | _, [] => []
  | state, event :: events => emit state event ++
      match step state event with
      | some next => emitted next events
      | none => []

variable {step emit} {guard : σ → ε → Prop} {start : σ}

/-- Behind a run, the steps that follow emit what they emit from its last state on. -/
theorem Run.emitted_append {events : List ε} {state : σ}
    (run : Run step guard start events state) (more : List ε) :
    emitted step emit start (events ++ more) =
      emitted step emit start events ++ emitted step emit state more := by
  induction run generalizing more with
  | nil => rfl
  | snoc _ _ stepped ih =>
      rw [List.append_assoc, List.singleton_append, ih, ih, List.append_assoc]
      congr 1
      simp [emitted, stepped]

/-- What is seen of a state follows what the steps emit, when every step of a run
does so. -/
theorem Run.follows_emitted {view : σ → α} {follow : α → τ → α}
    (each : ∀ events state event next, Run step guard start events state →
      guard state event → step state event = some next →
      view next = (emit state event).foldl follow (view state))
    {events : List ε} {state : σ} (run : Run step guard start events state) :
    view state = (emitted step emit start events).foldl follow (view start) := by
  induction run with
  | nil => rfl
  | snoc run admitted stepped ih =>
      rw [run.emitted_append, List.foldl_append, ← ih, each _ _ _ _ run admitted stepped]
      simp [emitted, stepped]

end Emitted

/-! ## Executing runs -/

section Exec

variable (step : σ → ε → Option σ) (guard : σ → ε → Prop)
  [∀ state event, Decidable (guard state event)]

/-- Execute a list of events, stopping at a step that the guard rejects. -/
def exec : σ → List ε → Option σ
  | state, [] => some state
  | state, event :: events =>
      if guard state event then
        (step state event).bind fun next => exec next events
      else none

variable {step guard}

/-- An execution is a run. -/
theorem Run.of_exec {start final : σ} {events : List ε}
    (executed : exec step guard start events = some final) :
    Run step guard start events final := by
  induction events generalizing start with
  | nil =>
      obtain rfl := Option.some.inj executed
      exact .nil
  | cons event events ih =>
      rw [exec] at executed
      split at executed
      next admitted =>
        obtain ⟨next, stepped, rest⟩ := Option.bind_eq_some_iff.mp executed
        exact .cons admitted stepped (ih rest)
      next => contradiction

/-- An execution whose final state passes a check gives a run to such a state. -/
theorem Run.exists_of_exec {start : σ} {events : List ε} (check : σ → Bool)
    (passes : (exec step guard start events).any check = true) :
    ∃ final, Run step guard start events final ∧ check final = true := by
  cases executed : exec step guard start events with
  | none => simp [executed] at passes
  | some final => exact ⟨final, .of_exec executed, by simpa [executed] using passes⟩

end Exec

/-! ## Runs without an end -/

/-- A run that goes on for ever: the states and the events of all times. -/
structure Forever (step : σ → ε → Option σ) (start : σ) where
  state : Nat → σ
  event : Nat → ε
  starts : state 0 = start
  steps : ∀ time, step (state time) (event time) = some (state (time + 1))

namespace Forever

variable {step : σ → ε → Option σ} {start : σ}

/-- What holds initially and is preserved by every step holds for ever. -/
theorem invariant (forever : Forever step start) (inv : σ → Prop) (initial : inv start)
    (preserved : ∀ state event next, inv state → step state event = some next → inv next)
    (time : Nat) : inv (forever.state time) := by
  induction time with
  | zero => rwa [forever.starts]
  | succ time ih => exact preserved _ _ _ ih (forever.steps time)

/-- What can always take the step that is chosen for it goes on for ever. -/
theorem exists_of_progress (inv : σ → Prop) (initial : inv start) (choose : Nat → σ → ε)
    (progress : ∀ time state, inv state →
      ∃ next, step state (choose time state) = some next ∧ inv next) :
    ∃ forever : Forever step start, ∀ time,
      forever.event time = choose time (forever.state time) ∧ inv (forever.state time) := by
  choose advance steps keeps using progress
  let states : Nat → { state // inv state } := fun time =>
    Nat.rec ⟨start, initial⟩
      (fun time state => ⟨advance time state.1 state.2, keeps time state.1 state.2⟩) time
  exact ⟨⟨fun time => (states time).1, fun time => choose time (states time).1, rfl,
    fun time => steps time (states time).1 (states time).2⟩,
    fun time => ⟨rfl, (states time).2⟩⟩

end Forever

end Cdcm.Machine

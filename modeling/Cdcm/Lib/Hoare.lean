import Mathlib

/-!
# Programs with a state and errors

A program changes a state, and returns a value or stops for a reason; what it did to the
state before it stopped is kept.  A triple says in which states a program may start and
what then holds when it returns and when it stops, with one rule for each way to compose
programs.
-/

namespace Cdcm.Hoare

variable {ε σ α β : Type}

/-- From a state of `pre`, a program returns as `post` says or stops as `stop` says. -/
def Triple (pre : σ → Prop) (program : EStateM ε σ α) (post : α → σ → Prop)
    (stop : ε → σ → Prop) : Prop :=
  ∀ state, pre state →
    match program.run state with
    | .ok value next => post value next
    | .error reason next => stop reason next

/-- A loop `for(i = first; i <= limit; i++)` over local variables. The limit is computed
again before each turn, and after `turns` turns the loop is left. -/
def forUpTo (limit : β → EStateM ε σ Nat) (body : Nat → β → EStateM ε σ β) :
    Nat → Nat → β → EStateM ε σ β
  | 0, _, locals => pure locals
  | turns + 1, first, locals => do
      let last ← limit locals
      if first ≤ last then do
        let locals ← body first locals
        forUpTo limit body turns (first + 1) locals
      else pure locals

/-- A program that returns is left for the rest. -/
theorem run_bind {program : EStateM ε σ α} {rest : α → EStateM ε σ β} {state next : σ}
    {value : α} (ran : program.run state = .ok value next) :
    (program >>= rest).run state = (rest value).run next := by
  change EStateM.bind program rest state = rest value next
  rw [EStateM.bind]
  rw [EStateM.run] at ran
  rw [ran]

namespace Triple

variable {pre : σ → Prop} {post : α → σ → Prop} {stop : ε → σ → Prop}

theorem pure {value : α} (holds : ∀ state, pre state → post value state) :
    Triple pre (Pure.pure value) post stop :=
  holds

theorem throw {reason : ε} (holds : ∀ state, pre state → stop reason state) :
    Triple pre (MonadExcept.throw reason : EStateM ε σ α) post stop :=
  holds

/-- What holds behind the first program holds in front of the second. -/
theorem bind {program : EStateM ε σ α} {rest : α → EStateM ε σ β} {Q : α → σ → Prop}
    {post : β → σ → Prop} (first : Triple pre program Q stop)
    (second : ∀ value, Triple (Q value) (rest value) post stop) :
    Triple pre (program >>= rest) post stop := by
  intro state holds
  have ran := first state holds
  change match EStateM.bind program rest state with
    | .ok value next => post value next
    | .error reason next => stop reason next
  simp only [EStateM.bind, EStateM.run] at ran ⊢
  cases result : program state with
  | ok value next =>
      rw [result] at ran
      exact second value next ran
  | error reason next =>
      rw [result] at ran
      exact ran

theorem consequence {program : EStateM ε σ α} {stronger : σ → Prop}
    {strongerPost : α → σ → Prop} {strongerStop : ε → σ → Prop}
    (triple : Triple stronger program strongerPost strongerStop)
    (weaken : ∀ state, pre state → stronger state)
    (returns : ∀ value state, strongerPost value state → post value state)
    (stops : ∀ reason state, strongerStop reason state → stop reason state) :
    Triple pre program post stop := by
  intro state holds
  have ran := triple state (weaken state holds)
  cases result : program.run state with
  | ok value next =>
      rw [result] at ran
      exact returns value next ran
  | error reason next =>
      rw [result] at ran
      exact stops reason next ran

/-- A fact that does not speak about the state can be used for the whole program. -/
theorem of_fact {fact : Prop} {program : EStateM ε σ α}
    (triple : fact → Triple pre program post stop) :
    Triple (fun state => fact ∧ pre state) program post stop :=
  fun state ⟨holds, start⟩ => triple holds state start

theorem ite {condition : Prop} [Decidable condition] {yes no : EStateM ε σ α}
    (holds : condition → Triple pre yes post stop)
    (fails : ¬ condition → Triple pre no post stop) :
    Triple pre (if condition then yes else no) post stop := by
  split
  · next condition => exact holds condition
  · next condition => exact fails condition

/-- What every turn preserves holds behind the loop. -/
theorem forUpTo {limit : β → EStateM ε σ Nat} {body : Nat → β → EStateM ε σ β}
    (inv : β → σ → Prop)
    (limits : ∀ locals, Triple (inv locals) (limit locals) (fun _ => inv locals) stop)
    (turn : ∀ index locals, Triple (inv locals) (body index locals) inv stop)
    (turns first : Nat) (locals : β) :
    Triple (inv locals) (forUpTo limit body turns first locals) inv stop := by
  induction turns generalizing first locals with
  | zero => exact pure fun state holds => holds
  | succ turns ih =>
      apply bind (limits locals)
      intro last
      apply ite
      · intro _
        apply bind (turn first locals)
        intro next
        exact ih (first + 1) next
      · intro _
        exact pure fun state holds => holds

/-- A loop with a limit that stays makes all its turns, when it may make that many. -/
theorem forUpTo_all {limit : β → EStateM ε σ Nat} {body : Nat → β → EStateM ε σ β}
    (last : Nat) (inv : Nat → β → σ → Prop)
    (limits : ∀ index locals, Triple (inv index locals) (limit locals)
      (fun result state => result = last ∧ inv index locals state) stop)
    (turn : ∀ index locals, index ≤ last →
      Triple (inv index locals) (body index locals) (inv (index + 1)) stop)
    {turns first : Nat} (enough : last < first + turns) (within : first ≤ last + 1)
    (locals : β) :
    Triple (inv first locals) (Hoare.forUpTo limit body turns first locals)
      (inv (last + 1)) stop := by
  induction turns generalizing first locals with
  | zero =>
      obtain rfl : first = last + 1 := by omega
      exact pure fun state holds => holds
  | succ turns ih =>
      apply bind (limits first locals)
      intro result
      apply of_fact
      rintro rfl
      apply ite
      · intro within
        apply bind (turn first locals within)
        intro next
        exact ih (by omega) (by omega) next
      · intro beyond
        obtain rfl : first = result + 1 := by omega
        exact pure fun state holds => holds

end Triple

end Cdcm.Hoare

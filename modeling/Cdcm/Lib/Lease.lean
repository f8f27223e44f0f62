import Mathlib

/-!
# Leases

Something that is held until it is given back or runs out: it is granted up to some
expiry, renewed by use, revoked, and swept away by a sweep that finds it expired.
Whether it is held, and up to when, can be read off its history.
-/

namespace Cdcm.Lease

/-- What may happen to a lease.  A sweep ends it when its expiry is gone. -/
inductive Event (τ : Type) where
  | grant (expiry : τ)
  | renew (expiry : τ)
  | revoke
  | sweep (gone : τ → Bool)

variable {τ : Type}

/-- The expiry of a lease, if it is held, after an event. -/
def step (held : Option τ) : Event τ → Option τ
  | .grant expiry => some expiry
  | .renew expiry => held.map fun _ => expiry
  | .revoke => none
  | .sweep gone => held.filter fun expiry => !gone expiry

/-- The lease behind a history. -/
def run (held : Option τ) (history : List (Event τ)) : Option τ :=
  history.foldl step held

@[simp] theorem run_nil (held : Option τ) : run held [] = held := rfl

@[simp] theorem run_cons (held : Option τ) (event : Event τ) (history : List (Event τ)) :
    run held (event :: history) = run (step held event) history := rfl

@[simp] theorem run_append (held : Option τ) (front back : List (Event τ)) :
    run held (front ++ back) = run (run held front) back :=
  List.foldl_append

/-! ## Reading a history -/

/-- The expiry of a held lease after an event that keeps it. -/
def Event.latest (expiry : τ) : Event τ → τ
  | .renew next => next
  | .grant _ | .revoke | .sweep _ => expiry

/-- An event neither ends a lease with this expiry nor grants it anew. -/
def Event.Keeps (expiry : τ) : Event τ → Prop
  | .renew _ => True
  | .grant _ | .revoke => False
  | .sweep gone => gone expiry = false

/-- The expiry of a lease that all events keep: that of its last renewal. -/
def latest (expiry : τ) (history : List (Event τ)) : τ :=
  history.foldl Event.latest expiry

/-- A lease with this expiry at first lasts through a history. -/
def Lasts (expiry : τ) (history : List (Event τ)) : Prop :=
  ∀ front event back, history = front ++ event :: back → event.Keeps (latest expiry front)

/-- A lease was granted at some time in a history and has lasted since. -/
def Granted (history : List (Event τ)) (expiry : τ) : Prop :=
  ∃ before first since, history = before ++ .grant first :: since ∧
    Lasts first since ∧ latest first since = expiry

variable {history : List (Event τ)} {event : Event τ} {expiry : τ}

theorem lasts_nil : Lasts expiry ([] : List (Event τ)) := by
  intro front event back split
  simp at split

theorem lasts_snoc :
    Lasts expiry (history ++ [event]) ↔
      Lasts expiry history ∧ event.Keeps (latest expiry history) := by
  constructor
  · intro lasts
    constructor
    · intro front earlier back split
      exact lasts front earlier (back ++ [event]) (by rw [split]; simp)
    · exact lasts history event [] rfl
  · rintro ⟨lasts, keeps⟩ front earlier back split
    induction back using List.reverseRecOn with
    | nil =>
        obtain ⟨rfl, same⟩ := List.append_inj' split rfl
        obtain rfl := (List.cons.inj same).1
        exact keeps
    | append_singleton back last _ =>
        rw [← List.cons_append, ← List.append_assoc] at split
        obtain ⟨shorter, _⟩ := List.append_inj' split rfl
        exact lasts front earlier back shorter

theorem latest_snoc :
    latest expiry (history ++ [event]) = event.latest (latest expiry history) := by
  simp [latest]

/-- Behind a grant, a lease is the granted one. -/
theorem granted_snoc_grant {first : τ} :
    Granted (history ++ [.grant first]) expiry ↔ first = expiry := by
  constructor
  · rintro ⟨before, earlier, since, split, lasts, isLatest⟩
    induction since using List.reverseRecOn with
    | nil =>
        obtain ⟨_, same⟩ := List.append_inj' split rfl
        obtain rfl := Event.grant.inj (List.cons.inj same).1
        exact isLatest
    | append_singleton since last _ =>
        rw [← List.cons_append, ← List.append_assoc] at split
        obtain ⟨_, same⟩ := List.append_inj' split rfl
        obtain rfl := (List.cons.inj same).1
        exact ((lasts_snoc.mp lasts).2).elim
  · rintro rfl
    exact ⟨history, first, [], rfl, lasts_nil, rfl⟩

/-- Behind any other event, it was granted earlier and is kept. -/
theorem granted_snoc (noGrant : ∀ first, event ≠ .grant first) :
    Granted (history ++ [event]) expiry ↔
      ∃ old, Granted history old ∧ event.Keeps old ∧ event.latest old = expiry := by
  constructor
  · rintro ⟨before, first, since, split, lasts, isLatest⟩
    induction since using List.reverseRecOn with
    | nil =>
        obtain ⟨_, same⟩ := List.append_inj' split rfl
        exact absurd (List.cons.inj same).1 (noGrant first)
    | append_singleton since last _ =>
        rw [← List.cons_append, ← List.append_assoc] at split
        obtain ⟨shorter, same⟩ := List.append_inj' split rfl
        obtain rfl := (List.cons.inj same).1
        obtain ⟨lasts, keeps⟩ := lasts_snoc.mp lasts
        exact ⟨_, ⟨before, first, since, shorter, lasts, rfl⟩, keeps, latest_snoc ▸ isLatest⟩
  · rintro ⟨_, ⟨before, first, since, rfl, lasts, rfl⟩, keeps, isLatest⟩
    exact ⟨before, first, since ++ [event], by simp, lasts_snoc.mpr ⟨lasts, keeps⟩,
      latest_snoc.trans isLatest⟩

/-- A lease is held exactly if it was granted and has lasted since, up to the expiry
of its last renewal. -/
theorem run_eq_some_iff :
    run none history = some expiry ↔ Granted history expiry := by
  induction history using List.reverseRecOn generalizing expiry with
  | nil =>
      constructor
      · intro held
        cases held
      · rintro ⟨before, first, since, split, _⟩
        simp at split
  | append_singleton history event ih =>
      rw [run_append, run_cons, run_nil]
      cases event with
      | grant first => rw [granted_snoc_grant, step, Option.some.injEq]
      | renew next =>
          rw [granted_snoc (by simp), step, Option.map_eq_some_iff]
          simp only [ih, Event.Keeps, Event.latest, true_and]
      | revoke =>
          rw [granted_snoc (by simp)]
          simp [step, Event.Keeps]
      | sweep gone =>
          rw [granted_snoc (by simp), step, Option.filter_eq_some_iff, ih]
          simp [Event.Keeps, Event.latest, and_comm]

/-- A lease is held exactly if some grant has lasted. -/
theorem isSome_run_iff :
    (run none history).isSome = true ↔ ∃ expiry, Granted history expiry := by
  simp only [Option.isSome_iff_exists, run_eq_some_iff]

end Cdcm.Lease

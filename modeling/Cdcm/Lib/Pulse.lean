import Mathlib

/-!
# Signs of life on a channel

What is on its way on a channel, the oldest first, with the times at which it was sent.
Some of it is a sign that its sender lives.  If each message follows a sign soon enough,
and none is underway for too long, then the receiver never waits long for the next sign.
-/

namespace Cdcm.Pulse

variable {α : Type} (isSign : α → Bool)

/-- When the last sign was given: on the channel, or in front of it. -/
def lastSign (heard : Int) : List (α × Int) → Int
  | [] => heard
  | item :: rest => lastSign (if isSign item.1 then item.2 else heard) rest

/-- Everything on the channel was sent soon after the last sign in front of it. -/
def Paced (gap heard : Int) : List (α × Int) → Prop
  | [] => True
  | item :: rest => item.2 ≤ heard + gap ∧ Paced gap (if isSign item.1 then item.2 else heard) rest

/-- What is sent at one time. -/
def stampAll (time : Int) (sent : List α) : List (α × Int) :=
  sent.map fun message => (message, time)

variable {isSign} {gap heard time : Int} {items later : List (α × Int)} {sent : List α}

@[simp] theorem map_fst_stampAll (time : Int) (sent : List α) :
    (stampAll time sent).map Prod.fst = sent := by
  simp [stampAll, Function.comp_def]

theorem mem_stampAll {item : α × Int} (member : item ∈ stampAll time sent) :
    item.1 ∈ sent ∧ item.2 = time := by
  obtain ⟨message, isSent, rfl⟩ := List.mem_map.mp member
  exact ⟨isSent, rfl⟩

theorem lastSign_append :
    lastSign isSign heard (items ++ later) =
      lastSign isSign (lastSign isSign heard items) later := by
  induction items generalizing heard with
  | nil => rfl
  | cons item items ih => exact ih

theorem paced_append :
    Paced isSign gap heard (items ++ later) ↔
      Paced isSign gap heard items ∧ Paced isSign gap (lastSign isSign heard items) later := by
  induction items generalizing heard with
  | nil => simp [Paced, lastSign]
  | cons item items ih =>
      rw [List.cons_append, Paced, Paced, ih, lastSign, and_assoc]

/-- Among messages of one time, a sign moves the last one there. -/
theorem lastSign_stampAll :
    lastSign isSign heard (stampAll time sent) = if sent.any isSign then time else heard := by
  induction sent generalizing heard with
  | nil => rfl
  | cons message sent ih =>
      rw [stampAll, List.map_cons, lastSign, ← stampAll, ih, List.any_cons]
      cases isSign message <;> simp

theorem paced_stampAll (soon : time ≤ heard + gap) (nonneg : 0 ≤ gap) :
    Paced isSign gap heard (stampAll time sent) := by
  induction sent generalizing heard with
  | nil => trivial
  | cons message sent ih =>
      refine ⟨soon, ih ?_⟩
      split
      · exact le_add_of_nonneg_right nonneg
      · exact soon

/-- The last sign is not later than the present. -/
theorem lastSign_le (past : heard ≤ time) (allPast : ∀ item ∈ items, item.2 ≤ time) :
    lastSign isSign heard items ≤ time := by
  induction items generalizing heard with
  | nil => exact past
  | cons item items ih =>
      obtain ⟨itemPast, restPast⟩ := List.forall_mem_cons.mp allPast
      refine ih ?_ restPast
      split
      · exact itemPast
      · exact past

/-- The receiver waits at most for the gap and the latency: either something is underway,
or the sender itself has not been silent for longer than the gap. -/
theorem Paced.waits {latency : Int} (paced : Paced isSign gap heard items) (nonneg : 0 ≤ latency)
    (fresh : ∀ item ∈ items, time ≤ item.2 + latency) (alive : items = [] → time ≤ heard + gap) :
    time ≤ heard + gap + latency := by
  cases items with
  | nil =>
      have soon := alive rfl
      omega
  | cons item items =>
      have soon := paced.1
      have isFresh := fresh item List.mem_cons_self
      omega

end Cdcm.Pulse

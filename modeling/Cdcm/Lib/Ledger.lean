import Mathlib

/-!
# Amounts at places

What is handed around between places and never made or destroyed on the way: a function
gives the amount at each place, all but finitely many of which are zero, and a total that
these amounts add up to.  A step that changes one place changes the total by as much.
-/

namespace Cdcm.Ledger

variable {ι M : Type} [AddCommMonoid M]

/-- The amounts at the places add up to the total. -/
def Holds (places : ι → M) (total : M) : Prop :=
  ∃ amounts : ι →₀ M, ⇑amounts = places ∧ amounts.degree = total

variable {places next : ι → M} {total : M}

/-- Nothing is anywhere at first. -/
theorem holds_zero : Holds (fun _ : ι => (0 : M)) 0 := ⟨0, rfl, map_zero _⟩

/-- The amounts have one total only. -/
theorem Holds.unique {other : M} (holds : Holds places total) (also : Holds places other) :
    total = other := by
  obtain ⟨amounts, rfl, rfl⟩ := holds
  obtain ⟨amounts', same, rfl⟩ := also
  rw [DFunLike.coe_injective same]

/-- A step changes one place: the amounts at the others, which stay, are the rest of the
total before and behind it. -/
theorem Holds.change (holds : Holds places total) (next : ι → M) (place : ι)
    (others : ∀ other, other ≠ place → next other = places other) :
    ∃ rest, total = places place + rest ∧ Holds next (next place + rest) := by
  classical
  obtain ⟨amounts, rfl, rfl⟩ := holds
  refine ⟨(amounts.erase place).degree, ?_, .single place (next place) + amounts.erase place,
    ?_, ?_⟩
  · rw [← Finsupp.degree_single place (amounts place), ← map_add, Finsupp.single_add_erase]
  · funext other
    by_cases same : other = place
    · rw [same, Finsupp.add_apply, Finsupp.single_eq_same, Finsupp.erase_same, add_zero]
    · rw [Finsupp.add_apply, Finsupp.single_eq_of_ne same, Finsupp.erase_ne same, zero_add,
        others other same]
  · rw [map_add, Finsupp.degree_single]

/-- A place that nothing happens to can be anyone. -/
theorem Holds.of_same (holds : Holds places total) (same : ∀ other, next other = places other) :
    Holds next total := by
  obtain rfl : next = places := funext same
  exact holds

/-- What arrives at a place arrives in the total. -/
theorem Holds.add (holds : Holds places total) (place : ι) (amount : M)
    (here : next place = places place + amount)
    (others : ∀ other, other ≠ place → next other = places other) :
    Holds next (total + amount) := by
  obtain ⟨rest, rfl, changed⟩ := holds.change next place others
  rwa [here, add_right_comm] at changed

/-- With nothing at any place, there is no total. -/
theorem Holds.total_eq_zero (holds : Holds places total) (empty : ∀ place, places place = 0) :
    total = 0 :=
  (holds.of_same fun place => (empty place).symm).unique holds_zero

end Cdcm.Ledger

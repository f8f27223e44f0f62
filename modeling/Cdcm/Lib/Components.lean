import Mathlib

/-!
# Components between separators

The non-empty parts of a list between the occurrences of a separator, as in paths.  They
do not depend on separators that stand at an end of the list or next to one another.
-/

namespace Cdcm.Components

variable {α : Type} [DecidableEq α] {separator : α}

/-- The non-empty parts between separators. -/
def components (separator : α) (whole : List α) : List (List α) :=
  (whole.splitOn separator).filter fun part => part ≠ []

@[simp] theorem components_nil : components separator [] = [] := by
  simp [components]

/-- A separator divides the components. -/
theorem components_append_cons (before after : List α) :
    components separator (before ++ separator :: after) =
      components separator before ++ components separator after := by
  rw [components, List.splitOn_append_cons_self, List.filter_append]
  rfl

@[simp] theorem components_separator_cons (after : List α) :
    components separator (separator :: after) = components separator after := by
  have divided := @components_append_cons _ _ separator [] after
  simpa using divided

@[simp] theorem components_append_separator (before : List α) :
    components separator (before ++ [separator]) = components separator before := by
  have divided := @components_append_cons _ _ separator before []
  simpa using divided

/-- A list without separators is its only component. -/
theorem components_of_not_mem {part : List α} (nonempty : part ≠ [])
    (free : separator ∉ part) : components separator part = [part] := by
  simp [components, List.splitOn_eq_singleton free, nonempty]

/-- Induction from one separator to the next. -/
theorem induction_on_separators {motive : List α → Prop} (separator : α)
    (free : ∀ part, separator ∉ part → motive part)
    (divided : ∀ before after, separator ∉ before → motive after →
      motive (before ++ separator :: after)) (whole : List α) : motive whole := by
  induction size : whole.length using Nat.strong_induction_on generalizing whole with
  | _ size ih =>
    by_cases member : separator ∈ whole
    · obtain ⟨before, after, rfl, fresh⟩ := List.eq_append_cons_of_mem member
      refine divided before after fresh (ih after.length ?_ after rfl)
      simp only [List.length_append, List.length_cons] at size
      omega
    · exact free whole member

/-- No component has a separator. -/
theorem separator_not_mem {whole part : List α}
    (member : part ∈ components separator whole) : separator ∉ part := by
  induction whole using induction_on_separators separator with
  | free whole fresh =>
      rw [components, List.splitOn_eq_singleton fresh] at member
      obtain rfl := List.mem_singleton.mp (List.mem_of_mem_filter member)
      exact fresh
  | divided before after fresh ih =>
      rw [components_append_cons, List.mem_append] at member
      cases member with
      | inl member =>
          rw [components, List.splitOn_eq_singleton fresh] at member
          obtain rfl := List.mem_singleton.mp (List.mem_of_mem_filter member)
          exact fresh
      | inr member => exact ih member

/-- There is no component exactly when there are only separators. -/
theorem components_eq_nil_iff {whole : List α} :
    components separator whole = [] ↔ ∀ element ∈ whole, element = separator := by
  induction whole using induction_on_separators separator with
  | free whole fresh =>
      cases whole with
      | nil => simp
      | cons first rest =>
          rw [components_of_not_mem (List.cons_ne_nil first rest) fresh]
          simp only [List.cons_ne_nil, false_iff]
          intro all
          exact fresh (all first List.mem_cons_self ▸ List.mem_cons_self)
  | divided before after fresh ih =>
      rw [components_append_cons, List.append_eq_nil_iff, ih]
      cases before with
      | nil => simp
      | cons first rest =>
          rw [components_of_not_mem (List.cons_ne_nil first rest) fresh]
          simp only [List.cons_ne_nil, false_and, false_iff]
          intro all
          have same := all first (by simp)
          exact fresh (same ▸ List.mem_cons_self)

/-! ## Redundant separators -/

/-- The longer list has one more separator, at an end or beside another separator. -/
inductive Padded (separator : α) : List α → List α → Prop where
  | first (after : List α) : Padded separator after (separator :: after)
  | last (before : List α) : Padded separator before (before ++ [separator])
  | middle (before after : List α) :
      Padded separator (before ++ separator :: after) (before ++ separator :: separator :: after)

/-- Redundant separators do not change the components. -/
theorem Padded.components_eq {shorter longer : List α} (padded : Padded separator shorter longer) :
    components separator shorter = components separator longer := by
  cases padded with
  | first after => simp
  | last before => simp
  | middle before after => simp [components_append_cons]

/-- Inserting and removing redundant separators does not change the components. -/
theorem components_eq_of_eqvGen {left right : List α}
    (same : Relation.EqvGen (Padded separator) left right) :
    components separator left = components separator right := by
  induction same with
  | rel _ _ padded => exact padded.components_eq
  | refl => rfl
  | symm _ _ _ ih => exact ih.symm
  | trans _ _ _ _ _ first second => exact first.trans second

end Cdcm.Components

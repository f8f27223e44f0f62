import Mathlib

/-!
# Patterns with lazy repetitions

A pattern is a sequence of symbol classes, each of them read once or repeated
as few times as possible.  Matching backtracks as ECMAScript does: a lazy
repetition tries what follows it before it takes another symbol.
-/

namespace Cdcm.Regex

universe u v

variable {α : Type u} {β : Type v}

/-- An item of a pattern. -/
inductive Item (α : Type u) where
  | one (accepts : α → Bool)
  | lazily (accepts : α → Bool)

/-- The items are matched one after the other. -/
abbrev Pattern (α : Type u) := List (Item α)

/-- Take symbols of a class, as few as let the rest match. -/
def lazily (accepts : α → Bool) (rest : List α → Option β) : List α → Option β
  | [] => rest []
  | symbol :: input =>
      match rest (symbol :: input) with
      | some result => some result
      | none => if accepts symbol then lazily accepts rest input else none

/-- What stands behind a match at the front of the input. -/
def behind : Pattern α → List α → Option (List α)
  | [], input => some input
  | .one _ :: _, [] => none
  | .one accepts :: pattern, symbol :: input =>
      if accepts symbol then behind pattern input else none
  | .lazily accepts :: pattern, input => lazily accepts (behind pattern) input

/-- Replace from left to right; the symbols of a match are skipped. -/
def replaceFrom (pattern : Pattern α) (new : List α) : Nat → List α → List α
  | _, [] => []
  | skipped + 1, _ :: input => replaceFrom pattern new skipped input
  | 0, symbol :: input =>
      match behind pattern (symbol :: input) with
      | none => symbol :: replaceFrom pattern new 0 input
      | some rest =>
          new ++ replaceFrom pattern new (input.length - rest.length) input

/-- Replace every match of a pattern that matches no empty text. -/
def replaceAll (pattern : Pattern α) (new : List α) (input : List α) : List α :=
  replaceFrom pattern new 0 input

/-- The number of symbols of the shortest match. -/
def shortest : Pattern α → Nat
  | [] => 0
  | .one _ :: pattern => shortest pattern + 1
  | .lazily _ :: pattern => shortest pattern

/-- No match starts in a text in front of another one. -/
def Dull (pattern : Pattern α) (front rest : List α) : Prop :=
  ∀ before symbol after, front = before ++ symbol :: after →
    behind pattern (symbol :: (after ++ rest)) = none

section Matching

variable {accepts : α → Bool} {pattern : Pattern α} {input rest : List α} {symbol : α}

@[simp] theorem behind_nil (input : List α) : behind [] input = some input := rfl

@[simp] theorem behind_one_nil : behind (.one accepts :: pattern) [] = none := rfl

@[simp] theorem behind_one (symbol : α) (input : List α) :
    behind (.one accepts :: pattern) (symbol :: input) =
      if accepts symbol then behind pattern input else none := rfl

@[simp] theorem behind_lazily (input : List α) :
    behind (.lazily accepts :: pattern) input =
      lazily accepts (behind pattern) input := rfl

@[simp] theorem lazily_nil (rest : List α → Option β) :
    lazily accepts rest [] = rest [] := rfl

/-- The repetition ends where the rest matches. -/
theorem lazily_of_some {rest : List α → Option β} {result : β}
    (matched : rest input = some result) : lazily accepts rest input = some result := by
  cases input with
  | nil => exact matched
  | cons symbol input => simp [lazily, matched]

/-- Where the rest does not match, a symbol of the class is taken. -/
theorem lazily_of_none {rest : List α → Option β}
    (mismatched : rest (symbol :: input) = none) :
    lazily accepts rest (symbol :: input) =
      if accepts symbol then lazily accepts rest input else none := by
  simp [lazily, mismatched]

/-- A repetition ends behind some symbols of its class. -/
theorem lazily_split {rest : List α → Option β} {result : β}
    (matched : lazily accepts rest input = some result) :
    ∃ taken left, input = taken ++ left ∧ (∀ symbol ∈ taken, accepts symbol) ∧
      rest left = some result := by
  induction input with
  | nil => exact ⟨[], [], rfl, by simp, matched⟩
  | cons symbol input induction =>
      cases direct : rest (symbol :: input) with
      | some found =>
          rw [lazily_of_some direct] at matched
          exact ⟨[], symbol :: input, rfl, by simp, direct.trans matched⟩
      | none =>
          rw [lazily_of_none direct] at matched
          split at matched
          next accepted =>
            obtain ⟨taken, left, split, every, found⟩ := induction matched
            refine ⟨symbol :: taken, left, by simp [split], ?_, found⟩
            simpa [accepted] using every
          next => cases matched

/-- A match starts the input and is as long as its shortest form, at least. -/
theorem behind_split (matched : behind pattern input = some rest) :
    ∃ taken, input = taken ++ rest ∧ shortest pattern ≤ taken.length := by
  induction pattern generalizing input with
  | nil =>
      rw [behind_nil, Option.some.injEq] at matched
      exact ⟨[], matched, Nat.le_refl _⟩
  | cons item pattern induction =>
      cases item with
      | one accepts =>
          cases input with
          | nil => simp at matched
          | cons symbol input =>
              rw [behind_one] at matched
              split at matched
              next =>
                obtain ⟨taken, split, enough⟩ := induction matched
                refine ⟨symbol :: taken, by simp [split], ?_⟩
                simpa [shortest] using enough
              next => cases matched
      | lazily accepts =>
          rw [behind_lazily] at matched
          obtain ⟨front, left, split, -, found⟩ := lazily_split matched
          obtain ⟨taken, split', enough⟩ := induction found
          refine ⟨front ++ taken, by simp [split, split'], ?_⟩
          simp only [shortest, List.length_append]
          omega

/-- A repetition that matches some input matches it with more behind it. -/
theorem lazily_append {rest : List α → Option β} (more : List α)
    (grows : ∀ left, (rest left).isSome → (rest (left ++ more)).isSome)
    (matched : (lazily accepts rest input).isSome) :
    (lazily accepts rest (input ++ more)).isSome := by
  have direct : ∀ left, (rest left).isSome → (lazily accepts rest left).isSome := by
    intro left found
    obtain ⟨result, equal⟩ := Option.isSome_iff_exists.mp found
    rw [lazily_of_some equal, Option.isSome_some]
  induction input with
  | nil => exact direct _ (grows [] matched)
  | cons symbol input induction =>
      cases found : rest (symbol :: input) with
      | some result => exact direct _ (grows _ (by simp [found]))
      | none =>
          rw [lazily_of_none found] at matched
          split at matched
          next accepted =>
            cases found' : rest (symbol :: (input ++ more)) with
            | some result => exact direct _ (by simp [found'])
            | none =>
                rw [List.cons_append, lazily_of_none found', if_pos accepted]
                exact induction matched
          next => cases matched

/-- What matches still matches with more behind it. -/
theorem behind_append (more : List α) (matched : (behind pattern input).isSome) :
    (behind pattern (input ++ more)).isSome := by
  induction pattern generalizing input with
  | nil => rfl
  | cons item pattern induction =>
      cases item with
      | one accepts =>
          cases input with
          | nil => cases matched
          | cons symbol input =>
              rw [behind_one] at matched
              rw [List.cons_append, behind_one]
              split at matched
              next accepted =>
                rw [if_pos accepted]
                exact induction matched
              next => cases matched
      | lazily accepts =>
          apply lazily_append more _ matched
          intro left found
          exact induction found

/-- A text without match does not get one by being cut. -/
theorem behind_of_prefix (cut : input <+: rest) (mismatched : behind pattern rest = none) :
    behind pattern input = none := by
  obtain ⟨more, rfl⟩ := cut
  cases matched : behind pattern input with
  | none => rfl
  | some left =>
      have still : (behind pattern (input ++ more)).isSome := behind_append more (by simp [matched])
      rw [mismatched] at still
      cases still

end Matching

namespace Dull

variable {pattern : Pattern α} {front middle rest : List α}

/-- Two dull texts make a dull text. -/
theorem append (dull : Dull pattern front (middle ++ rest)) (dull' : Dull pattern middle rest) :
    Dull pattern (front ++ middle) rest := by
  intro before symbol after split
  rcases List.append_eq_append_iff.mp split with ⟨common, left, right⟩ | ⟨common, left, right⟩
  · exact dull' common symbol after right
  · cases common with
    | nil =>
        rw [List.nil_append] at right
        exact dull' [] symbol after right.symm
    | cons symbol' common =>
        rw [List.cons_append, List.cons.injEq] at right
        have started := dull before symbol common (by rw [left, right.1])
        rwa [right.2, List.append_assoc]

/-- A cut text stays dull. -/
theorem take (dull : Dull pattern front rest) (room : Nat) :
    Dull pattern (front.take room) (rest.take (room - front.length)) := by
  intro before symbol after split
  have whole : front = before ++ symbol :: (after ++ front.drop room) := by
    calc
      front = front.take room ++ front.drop room := (List.take_append_drop room front).symm
      _ = before ++ symbol :: (after ++ front.drop room) := by rw [split]; simp
  apply behind_of_prefix _ (dull before symbol _ whole)
  rw [List.prefix_cons_inj, List.append_assoc, List.prefix_append_right_inj]
  by_cases fits : front.length ≤ room
  · rw [List.drop_of_length_le fits, List.nil_append]
    exact List.take_prefix _ _
  · rw [Nat.sub_eq_zero_of_le (by omega), List.take_zero]
    exact List.nil_prefix

end Dull

section Delimited

variable [DecidableEq α] {accepts : α → Bool} {pattern : Pattern α} {mark : α}

/-- A repetition in front of a symbol passes the symbols that differ from it. -/
theorem lazily_before {skipped : List α} (rest : List α)
    (accepted : ∀ symbol ∈ skipped, accepts symbol) (free : mark ∉ skipped) :
    lazily accepts (behind (.one (· = mark) :: pattern)) (skipped ++ rest) =
      lazily accepts (behind (.one (· = mark) :: pattern)) rest := by
  induction skipped with
  | nil => rfl
  | cons symbol skipped induction =>
      rw [List.forall_mem_cons] at accepted
      rw [List.mem_cons, not_or] at free
      have different : symbol ≠ mark := fun equal => free.1 equal.symm
      rw [List.cons_append, lazily_of_none (by simp [different]), if_pos accepted.1]
      exact induction accepted.2 free.2

/-- A repetition of a class without the symbol behind it ends at that symbol. -/
theorem lazily_at (rest : List α) (outside : accepts mark = false) :
    lazily accepts (behind (.one (· = mark) :: pattern)) (mark :: rest) =
      behind pattern rest := by
  have direct : behind (.one (· = mark) :: pattern) (mark :: rest) = behind pattern rest := by
    simp
  cases found : behind pattern rest with
  | some result => exact lazily_of_some (direct.trans found)
  | none => rw [lazily_of_none (direct.trans found), outside, if_neg Bool.false_ne_true]

end Delimited

section Replacing

variable {pattern : Pattern α} {new : List α}

@[simp] theorem replaceAll_nil : replaceAll pattern new [] = [] := rfl

theorem replaceFrom_length (taken rest : List α) :
    replaceFrom pattern new taken.length (taken ++ rest) = replaceAll pattern new rest := by
  induction taken with
  | nil => rfl
  | cons symbol taken induction => exact induction

/-- A match is replaced, and the search goes on behind it. -/
theorem replaceAll_of_some {input rest : List α} (nonempty : 0 < shortest pattern)
    (matched : behind pattern input = some rest) :
    replaceAll pattern new input = new ++ replaceAll pattern new rest := by
  obtain ⟨taken, split, enough⟩ := behind_split matched
  cases taken with
  | nil => simp only [List.length_nil] at enough; omega
  | cons symbol taken =>
      rw [List.cons_append] at split
      subst split
      have gone : (taken ++ rest).length - rest.length = taken.length := by simp
      simp only [replaceAll, replaceFrom, matched, gone]
      rw [replaceFrom_length, replaceAll]

/-- A symbol at which no match starts is kept. -/
theorem replaceAll_of_none {symbol : α} {input : List α}
    (mismatched : behind pattern (symbol :: input) = none) :
    replaceAll pattern new (symbol :: input) = symbol :: replaceAll pattern new input := by
  simp [replaceAll, replaceFrom, mismatched]

/-- Text in which no match starts is kept. -/
theorem replaceAll_append {front rest : List α} (dull : Dull pattern front rest) :
    replaceAll pattern new (front ++ rest) = front ++ replaceAll pattern new rest := by
  induction front with
  | nil => rfl
  | cons symbol front induction =>
      rw [List.cons_append, replaceAll_of_none (dull [] symbol front rfl)]
      rw [induction fun before symbol' after split => ?_, List.cons_append]
      exact dull (symbol :: before) symbol' after (by simp [split])

/-- Of a cut text, the part in which no match starts is kept. -/
theorem replaceAll_take {front rest : List α} (dull : Dull pattern front rest) (room : Nat) :
    replaceAll pattern new ((front ++ rest).take room) =
      front.take room ++ replaceAll pattern new (rest.take (room - front.length)) := by
  rw [List.take_append, replaceAll_append (dull.take room)]

/-- Replacing brings in no symbols but those of the new text. -/
theorem mem_replaceAll (nonempty : 0 < shortest pattern) {symbol : α} {input : List α}
    (member : symbol ∈ replaceAll pattern new input) : symbol ∈ new ∨ symbol ∈ input := by
  induction size : input.length using Nat.strong_induction_on generalizing input with
  | _ size induction =>
      subst size
      cases input with
      | nil => simp at member
      | cons head input =>
          cases matched : behind pattern (head :: input) with
          | none =>
              rw [replaceAll_of_none matched, List.mem_cons] at member
              rcases member with rfl | member
              · exact .inr (by simp)
              · exact (induction _ (by simp) member rfl).imp_right (List.mem_cons_of_mem _)
          | some rest =>
              rw [replaceAll_of_some nonempty matched, List.mem_append] at member
              rcases member with member | member
              · exact .inl member
              · obtain ⟨taken, split, enough⟩ := behind_split matched
                have lengths := congrArg List.length split
                rw [List.length_append] at lengths
                apply (induction rest.length (by omega) member rfl).imp_right
                intro inRest
                rw [split]
                exact List.mem_append_right taken inRest

/-- Replacing by something no longer than the shortest match lengthens nothing. -/
theorem replaceAll_length_le (short : new.length ≤ shortest pattern)
    (nonempty : 0 < shortest pattern) (input : List α) :
    (replaceAll pattern new input).length ≤ input.length := by
  induction size : input.length using Nat.strong_induction_on generalizing input with
  | _ size induction =>
      subst size
      cases input with
      | nil => rfl
      | cons symbol input =>
          cases matched : behind pattern (symbol :: input) with
          | none =>
              rw [replaceAll_of_none matched]
              have shorter := induction input.length (by simp) input rfl
              simpa using shorter
          | some rest =>
              rw [replaceAll_of_some nonempty matched]
              obtain ⟨taken, split, enough⟩ := behind_split matched
              have lengths := congrArg List.length split
              rw [List.length_append] at lengths
              have shorter := induction rest.length (by omega) rest rfl
              rw [List.length_append]
              omega

end Replacing

end Cdcm.Regex

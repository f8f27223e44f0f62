import Cdcm.Lib.Regex
import Mathlib.Computability.Language

/-!
# Patterns with wildcards and alternatives

A pattern reads single symbols, any number of symbols, and one of several alternatives.
Its language says which words it describes.  Its run reads a word from the left and takes
the first way in which an alternative matches for good; it finds only words of the
language, and all of them where an alternative can match in one way only.
-/

namespace Cdcm.Glob

open Regex

universe u

/-- A pattern, with what comes behind its first item: a symbol of a class, any symbols, or
one alternative in front of the rest, with the other alternatives. -/
inductive Pattern (σ : Type u) where
  | done
  | one (accepts : σ → Bool) (rest : Pattern σ)
  | any (rest : Pattern σ)
  | branch (first rest other : Pattern σ)
  | fail

namespace Pattern

variable {σ : Type u}

/-- The words of one symbol of a class. -/
def single (accepts : σ → Bool) : Language σ :=
  {word | ∃ symbol, accepts symbol ∧ word = [symbol]}

/-- The words that a pattern describes. -/
def language : Pattern σ → Language σ
  | .done => 1
  | .one accepts rest => single accepts * rest.language
  | .any rest => ⊤ * rest.language
  | .branch first rest other => first.language * rest.language + other.language
  | .fail => 0

/-- Read a word. A `part` may leave symbols behind, and what is left is the result. -/
def run (part : Bool) : Pattern σ → List σ → Option (List σ)
  | .done, input => if part ∨ input.isEmpty then some input else none
  | .one _ _, [] => none
  | .one accepts rest, symbol :: input => if accepts symbol then rest.run part input else none
  | .any rest, input => lazily (fun _ => true) (rest.run part) input
  | .branch first rest other, input =>
      ((first.run true input).bind (rest.run part)).or (other.run part input)
  | .fail, _ => none

/-- No word is a proper beginning of another one. -/
def PrefixFree (words : Language σ) : Prop :=
  ∀ word ∈ words, ∀ longer ∈ words, word <+: longer → word = longer

/-- An alternative can match in one way only. -/
def Rigid : Pattern σ → Prop
  | .done | .fail => True
  | .one _ rest | .any rest => rest.Rigid
  | .branch first rest other =>
      first.Rigid ∧ PrefixFree first.language ∧ rest.Rigid ∧ other.Rigid

/-- The length of the words, where they all have the same one. -/
def fixedLength : Pattern σ → Option Nat
  | .done => some 0
  | .one _ rest => rest.fixedLength.map (· + 1)
  | .branch first rest .fail => do return (← first.fixedLength) + (← rest.fixedLength)
  | .branch first rest other => do
      let length := (← first.fixedLength) + (← rest.fixedLength)
      if other.fixedLength = some length then some length else none
  | .any _ | .fail => none

/-- Each alternative has words of one length. -/
def Uniform : Pattern σ → Bool
  | .done | .fail => true
  | .one _ rest | .any rest => rest.Uniform
  | .branch first rest other => first.fixedLength.isSome && rest.Uniform && other.Uniform

section Language

variable {accepts : σ → Bool} {first rest other pattern : Pattern σ} {word input left : List σ}
  {symbol : σ} {part : Bool}

@[simp] theorem mem_language_done : word ∈ (done : Pattern σ).language ↔ word = [] :=
  Language.mem_one word

@[simp] theorem nil_mem_language_one : [] ∉ (one accepts rest).language := by
  rintro ⟨_, ⟨_, _, rfl⟩, _, _, split⟩
  cases split

@[simp] theorem cons_mem_language_one :
    symbol :: word ∈ (one accepts rest).language ↔ accepts symbol ∧ word ∈ rest.language := by
  constructor
  · rintro ⟨_, ⟨_, accepted, rfl⟩, behind, member, split⟩
    obtain ⟨rfl, rfl⟩ := List.cons.inj split
    exact ⟨accepted, member⟩
  · rintro ⟨accepted, member⟩
    exact ⟨[symbol], ⟨symbol, accepted, rfl⟩, word, member, rfl⟩

theorem mem_language_any :
    word ∈ (any rest).language ↔ ∃ taken, ∃ behind ∈ rest.language, word = taken ++ behind := by
  constructor
  · rintro ⟨taken, -, behind, member, rfl⟩
    exact ⟨taken, behind, member, rfl⟩
  · rintro ⟨taken, behind, member, rfl⟩
    exact ⟨taken, Set.mem_univ taken, behind, member, rfl⟩

theorem mem_language_branch : word ∈ (branch first rest other).language ↔
    (∃ front ∈ first.language, ∃ behind ∈ rest.language, word = front ++ behind) ∨
      word ∈ other.language := by
  refine or_congr ⟨?_, ?_⟩ Iff.rfl
  · rintro ⟨front, isFront, behind, isBehind, rfl⟩
    exact ⟨front, isFront, behind, isBehind, rfl⟩
  · rintro ⟨front, isFront, behind, isBehind, rfl⟩
    exact ⟨front, isFront, behind, isBehind, rfl⟩

@[simp] theorem not_mem_language_fail : word ∉ (fail : Pattern σ).language :=
  Language.notMem_zero word

/-- A fixed length belongs to all words, and to all parts of an alternative. -/
theorem fixedLength_branch {length : Nat}
    (fixed : (branch first rest other).fixedLength = some length) :
    ∃ front behind, first.fixedLength = some front ∧ rest.fixedLength = some behind ∧
      front + behind = length ∧ (other = .fail ∨ other.fixedLength = some length) := by
  cases other with
  | fail =>
      simp only [fixedLength, Option.bind_eq_bind, Option.bind_eq_some_iff] at fixed
      obtain ⟨front, isFront, behind, isBehind, same⟩ := fixed
      exact ⟨front, behind, isFront, isBehind, Option.some.inj same, .inl rfl⟩
  | done | one | any | branch =>
      simp only [fixedLength, Option.bind_eq_bind, Option.bind_eq_some_iff] at fixed
      obtain ⟨front, isFront, behind, isBehind, same⟩ := fixed
      obtain ⟨alike, same⟩ := Option.ite_none_right_eq_some.mp same
      obtain rfl := Option.some.inj same
      exact ⟨front, behind, isFront, isBehind, rfl, .inr alike⟩

theorem length_of_fixedLength {length : Nat} (fixed : pattern.fixedLength = some length)
    (member : word ∈ pattern.language) : word.length = length := by
  induction pattern generalizing word length with
  | done =>
      obtain rfl := Option.some.inj fixed
      rw [mem_language_done.mp member, List.length_nil]
  | one accepts rest ih =>
      obtain ⟨behind, isBehind, rfl⟩ := Option.map_eq_some_iff.mp fixed
      cases word with
      | nil => exact absurd member nil_mem_language_one
      | cons symbol word =>
          rw [List.length_cons, ih isBehind (cons_mem_language_one.mp member).2]
  | any | fail => cases fixed
  | branch first rest other ihFirst ihRest ihOther =>
      obtain ⟨front, behind, isFront, isBehind, rfl, alike⟩ := fixedLength_branch fixed
      rcases mem_language_branch.mp member with ⟨start, isStart, last, isLast, rfl⟩ | isOther
      · rw [List.length_append, ihFirst isFront isStart, ihRest isBehind isLast]
      · rcases alike with rfl | alike
        · exact absurd isOther not_mem_language_fail
        · exact ihOther alike isOther

/-- Words of one length are no proper beginnings of each other. -/
theorem prefixFree_of_fixedLength {length : Nat} (fixed : pattern.fixedLength = some length) :
    PrefixFree pattern.language := by
  intro word member longer member' isPrefix
  exact isPrefix.eq_of_length
    ((length_of_fixedLength fixed member).trans (length_of_fixedLength fixed member').symm)

theorem rigid_of_fixedLength {length : Nat} (fixed : pattern.fixedLength = some length) :
    pattern.Rigid := by
  induction pattern generalizing length with
  | done | fail => trivial
  | one accepts rest ih =>
      obtain ⟨behind, isBehind, -⟩ := Option.map_eq_some_iff.mp fixed
      exact ih isBehind
  | any => cases fixed
  | branch first rest other ihFirst ihRest ihOther =>
      obtain ⟨front, behind, isFront, isBehind, -, alike⟩ := fixedLength_branch fixed
      refine ⟨ihFirst isFront, prefixFree_of_fixedLength isFront, ihRest isBehind, ?_⟩
      rcases alike with rfl | alike
      · trivial
      · exact ihOther alike

/-- Alternatives with words of one length each can match in one way only. -/
theorem Uniform.rigid (uniform : pattern.Uniform) : pattern.Rigid := by
  induction pattern with
  | done | fail => trivial
  | one accepts rest ih => exact ih uniform
  | any rest ih => exact ih uniform
  | branch first rest other _ ihRest ihOther =>
      simp only [Uniform, Bool.and_eq_true] at uniform
      obtain ⟨front, isFront⟩ := Option.isSome_iff_exists.mp uniform.1.1
      exact ⟨rigid_of_fixedLength isFront, prefixFree_of_fixedLength isFront,
        ihRest uniform.1.2, ihOther uniform.2⟩

end Language

section Run

variable {accepts : σ → Bool} {first rest other pattern : Pattern σ} {word input left : List σ}
  {symbol : σ} {part : Bool}

@[simp] theorem run_done_nil : (done : Pattern σ).run part [] = some [] := by
  simp [run]

@[simp] theorem run_done_cons :
    (done : Pattern σ).run part (symbol :: input) =
      if part then some (symbol :: input) else none := by
  simp [run]

@[simp] theorem run_one_nil : (one accepts rest).run part [] = none := rfl

@[simp] theorem run_one_cons : (one accepts rest).run part (symbol :: input) =
    if accepts symbol then rest.run part input else none := rfl

@[simp] theorem run_any_nil : (any rest).run part [] = rest.run part [] := rfl

theorem run_any_cons : (any rest).run part (symbol :: input) =
    (rest.run part (symbol :: input)).or ((any rest).run part input) := by
  rw [run]
  cases found : rest.run part (symbol :: input) with
  | some left => rw [lazily_of_some found, Option.some_or]
  | none => rw [lazily_of_none found, if_pos rfl, Option.none_or, run]

theorem run_branch : (branch first rest other).run part input =
    ((first.run true input).bind (rest.run part)).or (other.run part input) := rfl

@[simp] theorem run_fail : (fail : Pattern σ).run part input = none := rfl

/-- What is read is a word of the language, and nothing is left of a whole input. -/
theorem run_sound (found : pattern.run part input = some left) :
    (∃ word ∈ pattern.language, input = word ++ left) ∧ (part = false → left = []) := by
  induction pattern generalizing part input left with
  | done =>
      rw [run] at found
      split at found
      next ends =>
        obtain rfl := Option.some.inj found
        refine ⟨⟨[], mem_language_done.mpr rfl, rfl⟩, fun whole => ?_⟩
        simpa [whole] using ends
      next => cases found
  | one accepts rest ih =>
      cases input with
      | nil => cases found
      | cons symbol input =>
          rw [run_one_cons] at found
          split at found
          next accepted =>
            obtain ⟨⟨word, member, rfl⟩, ends⟩ := ih found
            exact ⟨⟨symbol :: word, cons_mem_language_one.mpr ⟨accepted, member⟩, rfl⟩, ends⟩
          next => cases found
  | any rest ih =>
      obtain ⟨taken, behind, rfl, -, found⟩ := lazily_split found
      obtain ⟨⟨word, member, rfl⟩, ends⟩ := ih found
      refine ⟨⟨taken ++ word, mem_language_any.mpr ⟨taken, word, member, rfl⟩, ?_⟩, ends⟩
      rw [List.append_assoc]
  | branch first rest other ihFirst ihRest ihOther =>
      rw [run_branch] at found
      rcases Option.or_eq_some_iff.mp found with both | ⟨-, found⟩
      · obtain ⟨middle, isFirst, isRest⟩ := Option.bind_eq_some_iff.mp both
        obtain ⟨⟨front, isFront, rfl⟩, -⟩ := ihFirst isFirst
        obtain ⟨⟨word, member, rfl⟩, ends⟩ := ihRest isRest
        refine ⟨⟨front ++ word, mem_language_branch.mpr (.inl ⟨front, isFront, word, member, rfl⟩),
          ?_⟩, ends⟩
        rw [List.append_assoc]
      · obtain ⟨⟨word, member, split⟩, ends⟩ := ihOther found
        exact ⟨⟨word, mem_language_branch.mpr (.inr member), split⟩, ends⟩
  | fail => cases found

/-- What is left is no longer than the input. -/
theorem length_run_le (found : pattern.run part input = some left) :
    left.length ≤ input.length := by
  obtain ⟨⟨word, -, rfl⟩, -⟩ := run_sound found
  rw [List.length_append]
  exact Nat.le_add_left _ _

/-- A rigid pattern finds every word of its language. -/
theorem run_complete (rigid : pattern.Rigid) (member : word ∈ pattern.language)
    (ends : part = true ∨ left = []) : (pattern.run part (word ++ left)).isSome := by
  induction pattern generalizing part word left with
  | done =>
      obtain rfl := mem_language_done.mp member
      rcases ends with rfl | rfl <;> simp [run]
  | one accepts rest ih =>
      cases word with
      | nil => exact absurd member nil_mem_language_one
      | cons symbol word =>
          obtain ⟨accepted, member⟩ := cons_mem_language_one.mp member
          rw [List.cons_append, run_one_cons, if_pos accepted]
          exact ih rigid member ends
  | any rest ih =>
      obtain ⟨taken, behind, isBehind, rfl⟩ := mem_language_any.mp member
      have found := ih rigid isBehind ends
      induction taken with
      | nil =>
          obtain ⟨result, found⟩ := Option.isSome_iff_exists.mp found
          rw [List.nil_append, run, lazily_of_some found, Option.isSome_some]
      | cons symbol taken further =>
          rw [List.cons_append, List.cons_append, run_any_cons, Option.isSome_or]
          rw [further (mem_language_any.mpr ⟨taken, behind, isBehind, rfl⟩), Bool.or_true]
  | branch first rest other ihFirst ihRest ihOther =>
      obtain ⟨rigidFirst, prefixFree, rigidRest, rigidOther⟩ := rigid
      rw [run_branch, Option.isSome_or, Bool.or_eq_true]
      rcases mem_language_branch.mp member with ⟨front, isFront, behind, isBehind, rfl⟩ | isOther
      · have found := @ihFirst front (behind ++ left) true rigidFirst isFront (.inl rfl)
        rw [← List.append_assoc] at found
        obtain ⟨middle, found⟩ := Option.isSome_iff_exists.mp found
        -- the run reads a word of the first alternative, and this is the only one
        obtain ⟨⟨read, isRead, split⟩, -⟩ := run_sound found
        have same : read = front := by
          rw [List.append_assoc] at split
          rcases List.append_eq_append_iff.mp split with ⟨more, longer, -⟩ | ⟨more, longer, -⟩
          · exact (prefixFree front isFront read isRead ⟨more, longer.symm⟩).symm
          · exact prefixFree read isRead front isFront ⟨more, longer.symm⟩
        rw [same, List.append_assoc, List.append_cancel_left_eq] at split
        left
        rw [found, Option.bind_some, ← split]
        exact ihRest rigidRest isBehind ends
      · exact .inr (ihOther rigidOther isOther ends)
  | fail => exact absurd member not_mem_language_fail

/-- A whole input is found only if it is a word of the language, and a rigid pattern finds
all its words. -/
theorem isSome_run_iff (rigid : pattern.Rigid) :
    (pattern.run false input).isSome ↔ input ∈ pattern.language := by
  constructor
  · intro found
    obtain ⟨left, found⟩ := Option.isSome_iff_exists.mp found
    obtain ⟨⟨word, member, rfl⟩, ends⟩ := run_sound found
    rwa [ends rfl, List.append_nil]
  · intro member
    have found := @run_complete _ _ _ [] false rigid member (.inr rfl)
    rwa [List.append_nil] at found

end Run

end Pattern

end Cdcm.Glob

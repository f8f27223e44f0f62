import Cdcm.Logger.LogEvent
import Cdcm.Protocol.JsonGrammar

/-!
# Where the password pattern matches

The pattern knows nothing of JSON.  In front of the closing quote of a string it
matches where the string ends in `password` behind a quote, opening or escaped,
and a colon and another quote follow.
-/

namespace Cdcm.Logger

open Regex Json

/-- What `log_event` makes of a sensitive message. -/
abbrev redact (message : ByteString) : ByteString :=
  replaceAll passwordPattern replacement message

/-- A colon and an opening quote come next. -/
def ValueBehind (rest : ByteString) : Prop :=
  ∃ before after value, rest = before ++ 58 :: (after ++ 34 :: value) ∧
    (∀ byte ∈ before, isSpace byte) ∧ ∀ byte ∈ after, isSpace byte

/-- A string whose closing quote ends a text that the pattern asks for. -/
def EndsPlain (raw : ByteString) : Prop := 34 :: password <:+ 34 :: raw

instance (raw : ByteString) : Decidable (EndsPlain raw) :=
  inferInstanceAs (Decidable (_ <:+ _))

/-- The part of a value in front of its first quote. -/
def secret (raw : ByteString) : ByteString := raw.takeWhile fun byte => byte ≠ 34

/-- The part of a value that stands behind its first quote, the closing quote
included; nothing when the closing quote is the first one. -/
def exposed (raw : ByteString) : ByteString :=
  match raw.dropWhile fun byte => byte ≠ 34 with
  | [] => []
  | _ :: behind => behind ++ [34]

theorem quotedPassword_eq : quotedPassword = 34 :: (password ++ [34]) := by decide +kernel

theorem replacement_eq : replacement = quotedPassword ++ [58, 34, 34] := by decide +kernel

theorem password_quotable : Quotable password :=
  .of_plain (by decide +kernel)

theorem behind_literal (bytes : ByteString) (pattern : Pattern Byte) (rest : ByteString) :
    behind (literal bytes ++ pattern) (bytes ++ rest) = behind pattern rest := by
  induction bytes with
  | nil => rfl
  | cons byte bytes induction =>
      rw [literal, List.map_cons, List.cons_append, List.cons_append, behind_one]
      rw [if_pos (by simp)]
      exact induction

theorem literal_of_behind {bytes input rest : ByteString} {pattern : Pattern Byte}
    (matched : behind (literal bytes ++ pattern) input = some rest) :
    ∃ left, input = bytes ++ left ∧ behind pattern left = some rest := by
  induction bytes generalizing input with
  | nil => exact ⟨input, rfl, matched⟩
  | cons byte bytes induction =>
      cases input with
      | nil => simp [literal] at matched
      | cons symbol input =>
          rw [literal, List.map_cons, List.cons_append, behind_one] at matched
          split at matched
          next accepted =>
            obtain ⟨left, split, found⟩ := induction matched
            have equal : symbol = byte := by simpa using accepted
            exact ⟨left, by simp [split, equal], found⟩
          next => cases matched

theorem one_of_behind {mark : Byte} {input rest : ByteString} {pattern : Pattern Byte}
    (matched : behind (.one (· = mark) :: pattern) input = some rest) :
    ∃ left, input = mark :: left ∧ behind pattern left = some rest := by
  cases input with
  | nil => simp at matched
  | cons symbol input =>
      rw [behind_one] at matched
      split at matched
      next accepted =>
        have equal : symbol = mark := by simpa using accepted
        exact ⟨input, by rw [equal], matched⟩
      next => cases matched

/-- What a match looks like. -/
theorem shape_of_match {input rest : ByteString}
    (matched : behind passwordPattern input = some rest) :
    ∃ before after value, input =
        quotedPassword ++ (before ++ 58 :: (after ++ 34 :: (value ++ 34 :: rest))) ∧
      (∀ byte ∈ before, isSpace byte) ∧ ∀ byte ∈ after, isSpace byte := by
  obtain ⟨left, split, found⟩ := literal_of_behind matched
  obtain ⟨before, left, rfl, spaces, found⟩ := lazily_split found
  obtain ⟨left, rfl, found⟩ := one_of_behind found
  obtain ⟨after, left, rfl, spaces', found⟩ := lazily_split found
  obtain ⟨left, rfl, found⟩ := one_of_behind found
  obtain ⟨value, left, rfl, -, found⟩ := lazily_split found
  obtain ⟨left, rfl, ended⟩ := one_of_behind found
  rw [behind_nil, Option.some.injEq] at ended
  subst ended
  exact ⟨before, after, value, split, spaces, spaces'⟩

/-- A member with a plainly spelled key is matched up to the first quote in its value. -/
theorem match_of_shape {before after value : ByteString} (rest : ByteString)
    (spaces : ∀ byte ∈ before, isSpace byte) (spaces' : ∀ byte ∈ after, isSpace byte)
    (line : ∀ byte ∈ value, inLine byte) (free : 34 ∉ value) :
    behind passwordPattern
      (quotedPassword ++ (before ++ 58 :: (after ++ 34 :: (value ++ 34 :: rest)))) =
        some rest := by
  have noColon : (58 : Byte) ∉ before := fun member => absurd (spaces 58 member) (by decide)
  have noQuote : (34 : Byte) ∉ after := fun member => absurd (spaces' 34 member) (by decide)
  rw [passwordPattern, behind_literal]
  rw [behind_lazily, lazily_before _ spaces noColon, lazily_at _ (by decide)]
  rw [behind_lazily, lazily_before _ spaces' noQuote, lazily_at _ (by decide)]
  rw [behind_lazily, lazily_before _ line free]
  apply lazily_of_some
  simp

/-- A match has four quotes. -/
theorem quotes_of_match {input rest : ByteString}
    (matched : behind passwordPattern input = some rest) : 4 ≤ input.count 34 := by
  obtain ⟨before, after, value, split, -, -⟩ := shape_of_match matched
  have quotes : quotedPassword.count 34 = 2 := by decide +kernel
  subst split
  simp only [List.count_append, quotes]
  have colon : (58 :: (after ++ 34 :: (value ++ 34 :: rest))).count 34 =
      (after ++ 34 :: (value ++ 34 :: rest)).count 34 := List.count_cons_of_ne (by decide)
  simp only [colon, List.count_append, List.count_cons_self]
  omega

/-- With fewer quotes there is nothing to redact. -/
theorem redact_of_count {message : ByteString} (few : message.count 34 < 4) :
    redact message = message := by
  have dull : Dull passwordPattern message [] := by
    intro before symbol after split
    rw [List.append_nil]
    cases matched : behind passwordPattern (symbol :: after) with
    | none => rfl
    | some rest =>
        have enough := quotes_of_match matched
        subst split
        rw [List.count_append] at few
        omega
  have kept : redact (message ++ []) = message ++ redact [] := replaceAll_append dull
  simpa using kept

section Dullness

variable {front rest raw : ByteString}

/-- A match starts at a quote, in front of the rest of `password"`. -/
theorem quote_of_match {symbol : Byte} {after left : ByteString}
    (matched : behind passwordPattern (symbol :: after) = some left) :
    ∃ rest, symbol = 34 ∧ after = password ++ 34 :: rest ∧ ValueBehind rest := by
  obtain ⟨before, between, value, split, spaces, spaces'⟩ := shape_of_match matched
  rw [quotedPassword_eq, List.cons_append, List.append_assoc, List.cons.injEq] at split
  exact ⟨_, split.1, split.2, before, between, value ++ 34 :: left, rfl, spaces, spaces'⟩

theorem dull_of_not_match
    (never : ∀ before after rest', front = before ++ 34 :: after →
      after ++ rest = password ++ 34 :: rest' → ¬ ValueBehind rest') :
    Dull passwordPattern front rest := by
  intro before symbol after split
  cases matched : behind passwordPattern (symbol :: (after ++ rest)) with
  | none => rfl
  | some left =>
      obtain ⟨rest', quote, next, value⟩ := quote_of_match matched
      subst quote
      exact absurd value (never before after rest' split next)

/-- Bytes without quotes are dull. -/
theorem dull_of_plain (free : 34 ∉ front) : Dull passwordPattern front rest := by
  apply dull_of_not_match
  intro before after rest' split
  exact absurd (by simp [split]) free

/-- The rest of a string is dull in front of what is no value. -/
theorem dull_of_quotable (quotable : Quotable raw) (noLetter : rest.head? ≠ some 112)
    (noValue : 34 :: password <:+ raw → ¬ ValueBehind rest) :
    Dull passwordPattern (raw ++ [34]) rest := by
  apply dull_of_not_match
  intro before after rest' split next
  rcases List.eq_nil_or_concat after with empty | ⟨inside, last, equal⟩
  · subst empty
    rw [List.nil_append] at next
    exact absurd (by simp [next, password, text]) noLetter
  · rw [List.concat_eq_append] at equal
    subst equal
    rw [← List.cons_append, ← List.append_assoc] at split
    have ends := List.append_inj' split rfl
    have quotes : last = 34 := (List.cons.inj ends.2).1.symm
    have quotable' : Quotable inside := Quotable.behind (ends.1 ▸ quotable)
    rw [quotes, List.append_assoc] at next
    have same := quotable'.unique password_quotable next
    simp only [List.nil_append, List.append_eq] at same
    rw [← same.2]
    apply noValue
    rw [ends.1, same.1]
    exact List.suffix_append before _

/-- A string is dull in front of what is no value, and if its closing quote ends no
`"password"`, also in front of a value. -/
theorem dull_of_string (quotable : Quotable raw) (noLetter : rest.head? ≠ some 112)
    (noValue : EndsPlain raw → ¬ ValueBehind rest) : Dull passwordPattern (inQuotes raw) rest := by
  have inside : Dull passwordPattern (raw ++ [34]) rest :=
    dull_of_quotable quotable noLetter fun ends =>
      noValue (ends.trans (List.suffix_cons 34 raw))
  intro before symbol after split
  cases before with
  | nil =>
      rw [List.nil_append, inQuotes, List.cons.injEq] at split
      cases matched : behind passwordPattern (symbol :: (after ++ rest)) with
      | none => rfl
      | some left =>
          obtain ⟨rest', -, next, value⟩ := quote_of_match matched
          rw [← split.2, List.append_assoc] at next
          have same := quotable.unique password_quotable next
          have ends : EndsPlain raw := same.1 ▸ List.suffix_refl _
          rw [← same.2] at value
          exact absurd value (noValue ends)
  | cons head before =>
      rw [List.cons_append, inQuotes, List.cons.injEq] at split
      exact inside before symbol after split.2

/-- In front of a plainly spelled end of a key nothing is matched. -/
theorem dull_before {rest : ByteString} (quotable : Quotable raw)
    (split : inQuotes raw = front ++ quotedPassword) :
    Dull passwordPattern front (quotedPassword ++ rest) := by
  apply dull_of_not_match
  intro before after rest' inFront next value
  rw [inFront, quotedPassword_eq] at split
  have last : 34 :: raw = before ++ 34 :: (after ++ 34 :: password) := by
    have closed : (34 :: raw) ++ [34] = (before ++ 34 :: (after ++ 34 :: password)) ++ [34] := by
      simpa [inQuotes] using split
    exact List.append_cancel_right closed
  have quotable' : Quotable (after ++ 34 :: password) := by
    cases before with
    | nil => simpa [(List.cons.inj last).2] using quotable
    | cons head before =>
        rw [List.cons_append, List.cons.injEq] at last
        exact Quotable.behind (last.2 ▸ quotable)
  have ended : (after ++ 34 :: password) ++ 34 :: rest = password ++ 34 :: rest' := by
    simpa [quotedPassword_eq] using next
  have same : after ++ 34 :: password = password :=
    (quotable'.unique password_quotable ended).1
  have lengths := congrArg List.length same
  simp only [List.length_append, List.length_cons] at lengths
  omega

end Dullness

/-- White space is neither a quote nor a letter. -/
theorem plain_of_space {byte : Byte} (space : isSpace byte) : byte ≠ 34 ∧ byte ≠ 112 := by
  constructor <;>
  · intro equal
    subst equal
    exact absurd space (by decide)

section Members

variable {key before after value rest : ByteString}

/-- The bytes of a member up to the first quote in its value. -/
def covered (key before after value : ByteString) : ByteString :=
  memberHead key before after ++ (secret value ++ [34])

theorem secret_exposed (value : ByteString) :
    value ++ [34] = secret value ++ 34 :: exposed value := by
  have halves : value = secret value ++ value.dropWhile fun byte => byte ≠ 34 :=
    List.takeWhile_append_dropWhile.symm
  unfold exposed
  split
  next none =>
    rw [none, List.append_nil] at halves
    rw [← halves]
  next quote behind found =>
    have equal : quote = 34 := by
      have head := List.head?_dropWhile_not (fun byte : Byte => decide (byte ≠ 34)) value
      rw [found] at head
      simpa using head
    rw [found, equal] at halves
    calc
      value ++ [34] = (secret value ++ 34 :: behind) ++ [34] := by rw [← halves]
      _ = secret value ++ 34 :: (behind ++ [34]) := by simp

theorem covered_exposed (key before after value : ByteString) :
    memberHead key before after ++ (value ++ [34]) =
      covered key before after value ++ exposed value := by
  rw [secret_exposed, covered]
  simp

theorem quote_not_mem_secret (value : ByteString) : 34 ∉ secret value := by
  intro member
  simpa using List.mem_takeWhile_imp member

/-- What is exposed is the end of a string. -/
theorem exposed_cases (quotable : Quotable value) :
    exposed value = [] ∨ ∃ raw, Quotable raw ∧ exposed value = raw ++ [34] := by
  rcases List.eq_nil_or_concat (exposed value) with empty | ⟨raw, last, equal⟩
  · exact .inl empty
  · rw [List.concat_eq_append] at equal
    have split := secret_exposed value
    rw [equal, ← List.cons_append, ← List.append_assoc] at split
    have ends := List.append_inj' split rfl
    have quote : last = 34 := (List.cons.inj ends.2).1.symm
    have quotable' : Quotable raw := Quotable.behind (ends.1 ▸ quotable)
    exact .inr ⟨raw, quotable', quote ▸ equal⟩

/-- The exposed part of a value is dull. -/
theorem dull_exposed (quotable : Quotable value) (noLetter : rest.head? ≠ some 112)
    (noValue : ¬ ValueBehind rest) : Dull passwordPattern (exposed value) rest := by
  rcases exposed_cases quotable with empty | ⟨raw, quotable', equal⟩
  · rw [empty]
    intro before symbol after split
    simp at split
  · rw [equal]
    exact dull_of_quotable quotable' noLetter fun _ => noValue

/-- A member whose key does not end in `"password` is dull. -/
theorem dull_of_member (quotable : Quotable key) (quotable' : Quotable value)
    (spaces : ∀ byte ∈ before, isSpace byte) (spaces' : ∀ byte ∈ after, isSpace byte)
    (otherwise : ¬ EndsPlain key) (noLetter : rest.head? ≠ some 112)
    (noValue : ¬ ValueBehind rest) :
    Dull passwordPattern (memberHead key before after ++ (value ++ [34])) rest := by
  have regroup : memberHead key before after ++ (value ++ [34]) =
      inQuotes key ++ ((before ++ 58 :: after) ++ inQuotes value) := by
    simp [memberHead, inQuotes]
  have letters : ∀ byte ∈ before ++ 58 :: after, byte ≠ 34 ∧ byte ≠ 112 := by
    intro byte member
    rw [List.mem_append, List.mem_cons] at member
    rcases member with member | rfl | member
    · exact plain_of_space (spaces byte member)
    · decide
    · exact plain_of_space (spaces' byte member)
  have noLetter' : (before ++ 58 :: after ++ (inQuotes value ++ rest)).head? ≠ some 112 := by
    intro starts
    cases before with
    | nil => simp at starts
    | cons byte before =>
        have equal : byte = 112 := by simpa using starts
        exact (letters byte (by simp)).2 equal
  rw [regroup]
  apply Dull.append
  · rw [List.append_assoc]
    exact dull_of_string quotable noLetter' fun ends => absurd ends otherwise
  · apply Dull.append
    · exact dull_of_plain fun member => (letters 34 member).1 rfl
    · exact dull_of_string quotable' noLetter fun _ => noValue

/-- The closing quote of such a key ends a text that the pattern asks for. -/
theorem split_of_endsPlain (ends : EndsPlain key) :
    ∃ front, inQuotes key = front ++ quotedPassword := by
  obtain ⟨front, equal⟩ := ends
  refine ⟨front, ?_⟩
  rw [quotedPassword_eq, inQuotes, ← List.cons_append, ← equal]
  simp

variable {front : ByteString}

/-- The covered bytes of a member, from the plain spelling on. -/
def plainPart (before after value : ByteString) : ByteString :=
  quotedPassword ++ (before ++ 58 :: (after ++ 34 :: secret value))

theorem covered_eq (split : inQuotes key = front ++ quotedPassword) :
    covered key before after value = front ++ (plainPart before after value ++ [34]) := by
  rw [covered, memberHead, split]
  simp [plainPart]

/-- A member with a plainly ending key loses its value up to the first quote. -/
theorem redact_covered (quotable : Quotable key) (ends : EndsPlain key)
    (spaces : ∀ byte ∈ before, isSpace byte) (spaces' : ∀ byte ∈ after, isSpace byte)
    (line : ∀ byte ∈ value, inLine byte) :
    redact (covered key before after value ++ rest) =
      inQuotes key ++ [58, 34, 34] ++ redact rest := by
  obtain ⟨front, split⟩ := split_of_endsPlain ends
  have line' : ∀ byte ∈ secret value, inLine byte := fun byte member =>
    line byte ((List.takeWhile_prefix _).subset member)
  have matched := match_of_shape rest spaces spaces' line' (quote_not_mem_secret value)
  have shape : plainPart before after value ++ [34] ++ rest =
      quotedPassword ++ (before ++ 58 :: (after ++ 34 :: (secret value ++ 34 :: rest))) := by
    simp [plainPart]
  have replaced : redact (plainPart before after value ++ [34] ++ rest) =
      replacement ++ redact rest := by
    rw [shape]
    exact replaceAll_of_some shortest_pos matched
  have dull : Dull passwordPattern front (plainPart before after value ++ [34] ++ rest) := by
    rw [shape]
    exact dull_before quotable split
  rw [covered_eq split, List.append_assoc, redact, replaceAll_append dull]
  rw [← redact, replaced, replacement_eq, split]
  simp

/-- A member that is cut in front of the first quote in its value is kept. -/
theorem redact_uncovered (quotable : Quotable key) (ends : EndsPlain key)
    (spaces : ∀ byte ∈ before, isSpace byte) (spaces' : ∀ byte ∈ after, isSpace byte)
    {room : Nat} (cut : room < (covered key before after value).length) :
    redact ((covered key before after value).take room) =
      (covered key before after value).take room := by
  obtain ⟨front, split⟩ := split_of_endsPlain ends
  have dull : Dull passwordPattern front (plainPart before after value ++ [34]) := by
    have dull : Dull passwordPattern front
        (quotedPassword ++ (before ++ 58 :: (after ++ 34 :: secret value) ++ [34])) :=
      dull_before quotable split
    simpa [plainPart] using dull
  rw [covered_eq split, List.length_append, List.length_append] at cut
  rw [covered_eq split, redact, replaceAll_take dull]
  rw [@List.take_append _ front]
  congr 1
  have short : room - front.length ≤ (plainPart before after value).length := by
    simp only [List.length_singleton] at cut
    omega
  rw [List.take_append_of_le_length short]
  apply redact_of_count
  have fewer := (List.take_sublist (room - front.length)
    (plainPart before after value)).count_le 34
  have quotes : quotedPassword.count 34 = 2 := by decide +kernel
  have none : ∀ bytes : ByteString, (∀ byte ∈ bytes, isSpace byte) → bytes.count 34 = 0 := by
    intro bytes all
    exact List.count_eq_zero.mpr fun member => (plain_of_space (all 34 member)).1 rfl
  have nothing : (secret value).count 34 = 0 :=
    List.count_eq_zero.mpr (quote_not_mem_secret value)
  have total : (plainPart before after value).count 34 = 3 := by
    simp [plainPart, List.count_append, quotes, none before spaces, none after spaces', nothing]
  omega

end Members

end Cdcm.Logger

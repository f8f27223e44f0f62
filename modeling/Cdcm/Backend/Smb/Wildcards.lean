import Cdcm.Lib.Bytes
import Cdcm.Lib.Glob

/-!
# Matching with wildcards

The functions of `wildcards.hpp`, for the characters of any alphabet.  An iterator is what
it has in front of it: two iterators of one sequence are equal when the same items are
left, and an iterator with nothing left must not be dereferenced.
-/

namespace Cdcm.Wildcards

/-- `cards`, the characters with a meaning. -/
structure Cards (α : Type) where
  anything : α
  single : α
  escape : α
  setEnabled : Bool
  setOpen : α
  setClose : α
  setNot : α
  altEnabled : Bool
  altOpen : α
  altClose : α
  altOr : α

/-- `cards_type`. -/
inductive CardsType where
  | standard
  | extended
  deriving DecidableEq

/-- The constructor of `cards<char>` from a type, with the defaults of the members. -/
def Cards.char (type : CardsType) : Cards Byte where
  anything := 42
  single := 63
  escape := 92
  setEnabled := type = .extended
  setOpen := 91
  setClose := 93
  setNot := 33
  altEnabled := type = .extended
  altOpen := 40
  altClose := 41
  altOr := 124

/-- `cx::equal_to<void>` on characters. -/
def charEqualTo (lhs rhs : Byte) : Bool := lhs == rhs

/-- What a call may end with instead of a result: an exception, an access behind the end,
or none of the two within the given number of calls. -/
inductive Fault where
  | invalidArgument (whatArg : String)
  | pastEnd
  | unfinished
  deriving DecidableEq

/-- `match_result`. -/
structure MatchResult (σ : Type) (α : Type) where
  res : Bool
  s : List σ
  p : List α
  deriving DecidableEq

/-- `full_match_result`. -/
structure FullMatchResult (σ : Type) (α : Type) where
  res : Bool
  s : List σ
  send : List σ
  s1 : List σ
  p : List α
  pend : List α
  p1 : List α

/-- `make_full_match_result`. -/
def makeFullMatchResult {σ : Type} {α : Type} (s send : List σ) (p pend : List α)
    (mr : MatchResult σ α) : FullMatchResult σ α :=
  ⟨mr.res, s, send, mr.s, p, pend, mr.p⟩

/-- `is_set_state` and `set_end_state`. -/
inductive SetState where
  | opening
  | notOrFirst
  | first
  | next

/-- `match_set_state`. -/
inductive MatchSetState where
  | opening
  | notOrFirstIn
  | firstOut
  | nextIn
  | nextOut

/-- `is_alt_state`, `alt_end_state` and `alt_sub_end_state`, which has no `open`. -/
inductive AltState where
  | opening
  | next
  | escape

section Functions

variable {α : Type} {σ : Type} [DecidableEq α]

/-- A loop `while(p != pend)` that moves by one item: a turn goes on in another state, or
ends the loop. -/
def scan {S R : Type} (pend : List α) (turn : S → α → List α → Except Fault (S ⊕ R))
    (atEnd : Except Fault R) : List α → S → Except Fault R
  | [], _ => if pend = [] then atEnd else .error .pastEnd
  | item :: p, state =>
      if item :: p = pend then atEnd
      else
        match turn state item p with
        | .error fault => .error fault
        | .ok (.inl state) => scan pend turn atEnd p state
        | .ok (.inr result) => .ok result

variable (c : Cards α)

/-- A turn of the loop of `is_set`. -/
def isSetTurn (state : SetState) (item : α) (_ : List α) : Except Fault (SetState ⊕ Bool) :=
  match state with
  | .opening => .ok (if item ≠ c.setOpen then .inr false else .inl .notOrFirst)
  | .notOrFirst => .ok (.inl (if item = c.setNot then .first else .next))
  | .first => .ok (.inl .next)
  | .next => .ok (if item = c.setClose then .inr true else .inl .next)

/-- `is_set`. -/
def isSet (p pend : List α) (state : SetState) : Except Fault Bool :=
  if !c.setEnabled then .ok false else scan pend (isSetTurn c) (.ok false) p state

def notValidSet : Fault := .invalidArgument "The given pattern is not a valid set"

/-- A turn of the loop of `set_end`. -/
def setEndTurn (state : SetState) (item : α) (p : List α) :
    Except Fault (SetState ⊕ List α) :=
  match state with
  | .opening => if item ≠ c.setOpen then .error notValidSet else .ok (.inl .notOrFirst)
  | .notOrFirst => .ok (.inl (if item = c.setNot then .first else .next))
  | .first => .ok (.inl .next)
  | .next => .ok (if item = c.setClose then .inr p else .inl .next)

/-- `set_end`. -/
def setEnd (p pend : List α) (state : SetState) : Except Fault (List α) :=
  if !c.setEnabled then .error (.invalidArgument "The use of sets is disabled")
  else scan pend (setEndTurn c) (.error notValidSet) p state

/-- `c.set_enabled && *p == c.set_open && is_set(...)`, with what is behind `*p`. -/
def setAt (item : α) (p pend : List α) : Except Fault Bool :=
  if c.setEnabled ∧ item = c.setOpen then isSet c p pend .notOrFirst else .ok false

/-- The end of the set behind `*p`, if there is one. -/
def skipSet (item : α) (p pend : List α) : Except Fault (Option (List α)) := do
  if ← setAt c item p pend then return some (← setEnd c p pend .notOrFirst)
  else return none

variable (equalTo : σ → α → Bool)

/-- `s != send && equal_to(*s, *p)`. -/
def equalAt (s : List σ) (item : α) : Bool :=
  match s with
  | [] => false
  | symbol :: _ => equalTo symbol item

/-- A turn of the loop of `match_set`. -/
def matchSetTurn (s : List σ) (state : MatchSetState) (item : α) (p : List α) :
    Except Fault (MatchSetState ⊕ MatchResult σ α) :=
  let result (res : Bool) := .ok (.inr ⟨res, s, item :: p⟩)
  match state with
  | .opening => if item ≠ c.setOpen then .error notValidSet else .ok (.inl .notOrFirstIn)
  | .notOrFirstIn =>
      if item = c.setNot then .ok (.inl .firstOut)
      else if s.isEmpty then result false
      else if equalAt equalTo s item then result true
      else .ok (.inl .nextIn)
  | .firstOut =>
      if s.isEmpty ∨ equalAt equalTo s item then result false else .ok (.inl .nextOut)
  | .nextIn =>
      if item = c.setClose ∨ s.isEmpty then result false
      else if equalAt equalTo s item then result true
      else .ok (.inl .nextIn)
  | .nextOut =>
      if item = c.setClose then result true
      else if s.isEmpty ∨ equalAt equalTo s item then result false
      else .ok (.inl .nextOut)

/-- `match_set`. -/
def matchSet (s : List σ) (p pend : List α) (state : MatchSetState) :
    Except Fault (MatchResult σ α) :=
  if !c.setEnabled then .error (.invalidArgument "The use of sets is disabled")
  else scan pend (matchSetTurn c equalTo s) (.error notValidSet) p state

theorem scan_length {S : Type} {pend p q : List α}
    {turn : S → α → List α → Except Fault (S ⊕ List α)} {state : S} {fault : Fault}
    (tail : ∀ state item p result, turn state item p = .ok (.inr result) → result = p)
    (found : scan pend turn (.error fault) p state = .ok q) : q.length < p.length := by
  induction p generalizing state with
  | nil =>
      rw [scan] at found
      split at found <;> cases found
  | cons item p ih =>
      rw [scan] at found
      split at found
      next => cases found
      next =>
        split at found
        next => cases found
        next =>
          exact Nat.lt_succ_of_lt (ih found)
        next result turned =>
          obtain rfl := Except.ok.inj found
          rw [tail _ _ _ _ turned]
          exact Nat.lt_succ_self _

theorem setEnd_length {p pend q : List α} {state : SetState}
    (found : setEnd c p pend state = .ok q) : q.length < p.length := by
  rw [setEnd] at found
  split at found
  next => cases found
  next =>
    refine scan_length (fun state item p result turned => ?_) found
    cases state with
    | opening => by_cases same : item = c.setOpen <;> simp [setEndTurn, same] at turned
    | notOrFirst | first => simp [setEndTurn] at turned
    | next =>
        by_cases close : item = c.setClose
        · simpa [setEndTurn, close] using turned.symm
        · simp [setEndTurn, close] at turned

theorem skipSet_length {item : α} {p pend q : List α}
    (found : skipSet c item p pend = .ok (some q)) : q.length < p.length := by
  simp only [skipSet, bind, Except.bind] at found
  split at found
  next => cases found
  next isSet _ =>
    cases isSet with
    | false => cases found
    | true =>
        cases ended : setEnd c p pend .notOrFirst with
        | error fault => simp [ended] at found
        | ok end' =>
            obtain rfl : end' = q := by simpa [ended, pure, Except.pure] using found
            exact setEnd_length c ended

/-- The loop of `is_alt`, `alt_end` and `alt_sub_end`: it stops at the character that closes
the alternative, or also at the first one between its parts. -/
def scanAlt (stopAtOr : Bool) (p pend : List α) (state : AltState) (depth : Int) :
    Except Fault (Option (List α)) :=
  match p with
  | [] => if pend = [] then .ok none else .error .pastEnd
  | item :: p =>
      if item :: p = pend then .ok none
      else
        match state with
        | .opening =>
            if item ≠ c.altOpen then .ok none else scanAlt stopAtOr p pend .next (depth + 1)
        | .next =>
            if item = c.escape then scanAlt stopAtOr p pend .escape depth
            else
              match skipped : skipSet c item p pend with
              | .error fault => .error fault
              | .ok (some q) => scanAlt stopAtOr q pend .next depth
              | .ok none =>
                  if item = c.altOpen then scanAlt stopAtOr p pend .next (depth + 1)
                  else if item = c.altClose then
                    if depth - 1 = 0 then .ok (some (item :: p))
                    else scanAlt stopAtOr p pend .next (depth - 1)
                  else if stopAtOr ∧ item = c.altOr ∧ depth = 1 then .ok (some (item :: p))
                  else scanAlt stopAtOr p pend .next depth
        | .escape => scanAlt stopAtOr p pend .next depth
termination_by p.length
decreasing_by
  all_goals first
    | exact Nat.lt_succ_self _
    | exact Nat.lt_succ_of_lt (skipSet_length c skipped)

/-- `is_alt`. -/
def isAlt (p pend : List α) (state : AltState) (depth : Int) : Except Fault Bool :=
  if !c.altEnabled then .ok false
  else (scanAlt c false p pend state depth).map Option.isSome

/-- `c.alt_enabled && *p == c.alt_open && is_alt(...)`, with what is behind `*p`. -/
def altAt (item : α) (p pend : List α) : Except Fault Bool :=
  if c.altEnabled ∧ item = c.altOpen then isAlt c p pend .next 1 else .ok false

def notValidAlternative : Fault :=
  .invalidArgument "The given pattern is not a valid alternative"

/-- `alt_end`. -/
def altEnd (p pend : List α) (state : AltState) (depth : Int) : Except Fault (List α) :=
  if !c.altEnabled then .error (.invalidArgument "The use of alternatives is disabled")
  else
    match scanAlt c false p pend state depth with
    | .error fault => .error fault
    | .ok none => .error notValidAlternative
    | .ok (some q) => .ok q.tail

/-- `alt_sub_end`. -/
def altSubEnd (p pend : List α) : Except Fault (List α) :=
  if !c.altEnabled then .error (.invalidArgument "The use of alternatives is disabled")
  else
    match scanAlt c true p pend .next 1 with
    | .error fault => .error fault
    | .ok none => .error notValidAlternative
    | .ok (some q) => .ok q

mutual

/-- `detail::match`. -/
def detailMatch (calls : Nat) (s : List σ) (p pend : List α) (part escape : Bool) :
    Except Fault (MatchResult σ α) :=
  match calls with
  | 0 => .error .unfinished
  | calls + 1 =>
      if p = pend then .ok ⟨part || s.isEmpty, s, p⟩
      else
        match p with
        | [] => .error .pastEnd
        | item :: next =>
            if escape then
              if s.isEmpty ∨ ¬ equalAt equalTo s item then .ok ⟨false, s, p⟩
              else detailMatch calls s.tail next pend part false
            else if item = c.anything then do
              let result ← detailMatch calls s next pend part false
              if result.res then return result
              if s.isEmpty then return ⟨false, s, p⟩
              detailMatch calls s.tail p pend part false
            else if item = c.single then
              if s.isEmpty then .ok ⟨false, s, p⟩
              else detailMatch calls s.tail next pend part false
            else if item = c.escape then detailMatch calls s next pend part true
            else do
              if ← setAt c item next pend then
                let result ← matchSet c equalTo s next pend .notOrFirstIn
                if !result.res then return result
                detailMatch calls s.tail (← setEnd c next pend .notOrFirst) pend part false
              else if ← altAt c item next pend then
                let pAltEnd ← altEnd c next pend .next 1
                matchAlt calls s next (← altSubEnd c next pAltEnd) pAltEnd pend part
              else if s.isEmpty ∨ ¬ equalAt equalTo s item then return ⟨false, s, p⟩
              else detailMatch calls s.tail next pend part false

/-- `match_alt`. -/
def matchAlt (calls : Nat) (s : List σ) (p1 p1end p2 p2end : List α) (part : Bool) :
    Except Fault (MatchResult σ α) :=
  match calls with
  | 0 => .error .unfinished
  | calls + 1 => do
      let result1 ← detailMatch calls s p1 p1end true false
      if result1.res then
        let result2 ← detailMatch calls result1.s p2 p2end part false
        if result2.res then return result2
      match p1end with
      | [] => .error .pastEnd
      | _ :: p1 =>
          if p1 = p2 then return ⟨false, s, p1end⟩
          else matchAlt calls s p1 (← altSubEnd c p1 p2) p2 p2end part

end

/-- `wildcards::match`. No chain of calls is longer than twice the two sequences. -/
def wildcardsMatch (sequence : List σ) (pattern : List α) :
    Except Fault (FullMatchResult σ α) := do
  let calls := 2 * (sequence.length + pattern.length) + 1
  return makeFullMatchResult sequence [] pattern []
    (← detailMatch c equalTo calls sequence pattern [] false false)

/-! ## Loops over a range -/

section Ranges

variable {pend r : List α} {item : α}

omit [DecidableEq α] in
theorem range_ne (item : α) (r pend : List α) : item :: (r ++ pend) ≠ pend := by
  intro same
  have lengths := congrArg List.length same
  simp only [List.length_cons, List.length_append] at lengths
  omega

@[simp] theorem scan_pend {S R : Type} {turn : S → α → List α → Except Fault (S ⊕ R)}
    {atEnd : Except Fault R} {state : S} : scan pend turn atEnd pend state = atEnd := by
  cases pend <;> simp [scan]

@[simp] theorem scan_cons {S R : Type} {turn : S → α → List α → Except Fault (S ⊕ R)}
    {atEnd : Except Fault R} {state : S} :
    scan pend turn atEnd (item :: (r ++ pend)) state =
      match turn state item (r ++ pend) with
      | .error fault => .error fault
      | .ok (.inl state) => scan pend turn atEnd (r ++ pend) state
      | .ok (.inr result) => .ok result := by
  rw [scan, if_neg (range_ne item r pend)]

end Ranges

end Functions

/-! ## Sets -/

/-- The characters of a set, or those that are not in it. -/
structure CharSet (α : Type) where
  negated : Bool
  chars : List α

section Sets

variable {α : Type} {σ : Type} (equalTo : σ → α → Bool)

/-- Whether a symbol equals one of the characters, or none of them. -/
def CharSet.accepts (set : CharSet α) (symbol : σ) : Bool :=
  set.chars.any (equalTo symbol) != set.negated

variable [DecidableEq α] (c : Cards α)

/-- The characters up to the one that closes a set, and what is behind that one. -/
def untilClose : List α → Option (List α × List α)
  | [] => none
  | item :: r =>
      if item = c.setClose then some ([], r)
      else (untilClose r).map fun (chars, after) => (item :: chars, after)

/-- A set behind the characters that start it. The first character is in it in any case,
also the one that closes sets. -/
def setFrom (negated : Bool) : List α → Option (CharSet α × List α)
  | [] => none
  | first :: r => (untilClose c r).map fun (chars, after) => (⟨negated, first :: chars⟩, after)

/-- The set that is read behind the character that opens it. -/
def setText : List α → Option (CharSet α × List α)
  | [] => none
  | item :: r => if item = c.setNot then setFrom c true r else setFrom c false (item :: r)

/-- The set that starts with an item, in front of `r`. -/
def setBehind (item : α) (r : List α) : Option (CharSet α × List α) :=
  if c.setEnabled ∧ item = c.setOpen then setText c r else none

variable {equalTo c} {r pend chars after : List α} {set : CharSet α} {symbol : σ} {s : List σ}

/-- A set is read in the same way, whatever is behind it. -/
theorem untilClose_split (found : untilClose c r = some (chars, after)) :
    ∃ body, r = body ++ after ∧ ∀ other, untilClose c (body ++ other) = some (chars, other) := by
  induction r generalizing chars with
  | nil => cases found
  | cons item r ih =>
      rw [untilClose] at found
      split at found
      next close =>
        obtain ⟨rfl, rfl⟩ := Prod.mk.inj (Option.some.inj found)
        exact ⟨[item], rfl, fun other => by simp [untilClose, close]⟩
      next other =>
        obtain ⟨⟨chars', after'⟩, found', same⟩ := Option.map_eq_some_iff.mp found
        obtain ⟨rfl, rfl⟩ := Prod.mk.inj same
        obtain ⟨body, rfl, reads⟩ := ih found'
        exact ⟨item :: body, rfl, fun behind => by simp [untilClose, other, reads]⟩

theorem setFrom_split {negated : Bool} (found : setFrom c negated r = some (set, after)) :
    ∃ first body, r = first :: body ++ after ∧
      ∀ other, setFrom c negated (first :: body ++ other) = some (set, other) := by
  cases r with
  | nil => cases found
  | cons first r =>
      obtain ⟨⟨chars, after'⟩, found', same⟩ := Option.map_eq_some_iff.mp found
      obtain ⟨rfl, rfl⟩ := Prod.mk.inj same
      obtain ⟨body, rfl, reads⟩ := untilClose_split found'
      exact ⟨first, body, rfl, fun other => by simp [setFrom, reads]⟩

theorem setText_split (found : setText c r = some (set, after)) :
    ∃ first body, r = first :: body ++ after ∧
      ∀ other, setText c (first :: body ++ other) = some (set, other) := by
  cases r with
  | nil => cases found
  | cons item r =>
      rw [setText] at found
      split at found
      next isNot =>
        obtain ⟨first, body, rfl, reads⟩ := setFrom_split found
        exact ⟨item, first :: body, rfl, fun other => by
          simpa [setText, isNot] using reads other⟩
      next isIn =>
        obtain ⟨first, body, split, reads⟩ := setFrom_split found
        obtain ⟨rfl, rfl⟩ := List.cons.inj split
        exact ⟨item, body, rfl, fun other => by simpa [setText, isIn] using reads other⟩

/-- Where no set is read, none is read in front of less. -/
theorem setText_append {more : List α} (none' : setText c (r ++ more) = none) :
    setText c r = none := by
  cases found : setText c r with
  | none => rfl
  | some result =>
      obtain ⟨first, body, rfl, reads⟩ := setText_split found
      rw [List.append_assoc, reads] at none'
      cases none'

theorem isSet_next :
    scan pend (isSetTurn c) (.ok false) (r ++ pend) .next = .ok (untilClose c r).isSome := by
  induction r with
  | nil => rw [List.nil_append, scan_pend, untilClose, Option.isSome_none]
  | cons item r ih =>
      rw [List.cons_append, scan_cons, untilClose, isSetTurn]
      by_cases close : item = c.setClose
      · simp [close]
      · simp [close, ih]

theorem setEnd_next (found : untilClose c r = some (chars, after)) :
    scan pend (setEndTurn c) (.error notValidSet) (r ++ pend) .next = .ok (after ++ pend) := by
  induction r generalizing chars after with
  | nil => cases found
  | cons item r ih =>
      rw [List.cons_append, scan_cons, setEndTurn]
      rw [untilClose] at found
      split at found
      next close =>
        obtain ⟨-, rfl⟩ := Prod.mk.inj (Option.some.inj found)
        simp [close]
      next other =>
        obtain ⟨⟨chars', after'⟩, found', same⟩ := Option.map_eq_some_iff.mp found
        obtain ⟨-, rfl⟩ := Prod.mk.inj same
        simp [other, ih found']

/-- The state behind the first character of a set. -/
def nextState (negated : Bool) : MatchSetState := if negated then .nextOut else .nextIn

/-- The set is searched for the symbol. -/
theorem matchSet_next {negated : Bool} (found : untilClose c r = some (chars, after)) :
    ∃ p, scan pend (matchSetTurn c equalTo (symbol :: s)) (.error notValidSet) (r ++ pend)
      (nextState negated) = .ok ⟨chars.any (equalTo symbol) != negated, symbol :: s, p⟩ := by
  induction r generalizing chars after with
  | nil => cases found
  | cons item r ih =>
      rw [untilClose] at found
      rw [List.cons_append, scan_cons, matchSetTurn.eq_def]
      split at found
      next close =>
        obtain ⟨rfl, -⟩ := Prod.mk.inj (Option.some.inj found)
        refine ⟨item :: (r ++ pend), ?_⟩
        cases negated <;> simp [nextState, close]
      next other =>
        obtain ⟨⟨chars', after'⟩, found', same⟩ := Option.map_eq_some_iff.mp found
        obtain ⟨rfl, -⟩ := Prod.mk.inj same
        by_cases equal : equalTo symbol item
        · refine ⟨item :: (r ++ pend), ?_⟩
          cases negated <;> simp [nextState, other, equalAt, equal]
        · obtain ⟨p, reads⟩ := ih found'
          refine ⟨p, ?_⟩
          cases negated <;> simpa [nextState, other, equalAt, equal] using reads

section Enabled

variable (enabled : c.setEnabled)
include enabled

/-- `is_set` finds the sets. -/
theorem isSet_range : isSet c (r ++ pend) pend .notOrFirst = .ok (setText c r).isSome := by
  rw [isSet, enabled, Bool.not_true, if_neg Bool.false_ne_true]
  cases r with
  | nil => rw [List.nil_append, scan_pend, setText, Option.isSome_none]
  | cons item r =>
      rw [List.cons_append, scan_cons, setText, isSetTurn]
      by_cases isNot : item = c.setNot
      · cases r with
        | nil => simp [isNot, setFrom]
        | cons first r => simp [isNot, setFrom, isSetTurn, isSet_next]
      · simp [isNot, setFrom, isSet_next]

/-- `set_end` leads behind the set. -/
theorem setEnd_range (found : setText c r = some (set, after)) :
    setEnd c (r ++ pend) pend .notOrFirst = .ok (after ++ pend) := by
  rw [setEnd, enabled, Bool.not_true, if_neg Bool.false_ne_true]
  cases r with
  | nil => cases found
  | cons item r =>
      rw [List.cons_append, scan_cons, setEndTurn]
      rw [setText] at found
      split at found
      next isNot =>
        cases r with
        | nil => cases found
        | cons first r =>
            obtain ⟨⟨chars, after'⟩, found', same⟩ := Option.map_eq_some_iff.mp found
            obtain ⟨rfl, rfl⟩ := Prod.mk.inj same
            simp [isNot, setEndTurn, setEnd_next found']
      next isIn =>
        obtain ⟨⟨chars, after'⟩, found', same⟩ := Option.map_eq_some_iff.mp found
        obtain ⟨rfl, rfl⟩ := Prod.mk.inj same
        simp [isIn, setEnd_next found']

/-- `match_set` tells whether the set accepts the first symbol, if there is one. -/
theorem matchSet_range (found : setText c r = some (set, after)) :
    ∃ p, matchSet c equalTo s (r ++ pend) pend .notOrFirstIn =
      .ok ⟨s.head?.any (set.accepts equalTo), s, p⟩ := by
  rw [matchSet, enabled, Bool.not_true, if_neg Bool.false_ne_true]
  cases r with
  | nil => cases found
  | cons item r =>
      rw [List.cons_append, scan_cons, matchSetTurn.eq_def]
      rw [setText] at found
      split at found
      next isNot =>
        cases r with
        | nil => cases found
        | cons first r =>
            obtain ⟨⟨chars, after'⟩, found', same⟩ := Option.map_eq_some_iff.mp found
            obtain ⟨rfl, rfl⟩ := Prod.mk.inj same
            simp only [isNot, if_true, List.cons_append, scan_cons]
            rw [matchSetTurn.eq_def]
            cases s with
            | nil => exact ⟨first :: (r ++ pend), by simp⟩
            | cons symbol s =>
                by_cases equal : equalTo symbol first
                · exact ⟨first :: (r ++ pend), by simp [equalAt, equal, CharSet.accepts]⟩
                · obtain ⟨p, reads⟩ :=
                    @matchSet_next _ _ equalTo _ c _ pend _ _ symbol s true found'
                  exact ⟨p, by simpa [equalAt, equal, CharSet.accepts, nextState] using reads⟩
      next isIn =>
        obtain ⟨⟨chars, after'⟩, found', same⟩ := Option.map_eq_some_iff.mp found
        obtain ⟨rfl, rfl⟩ := Prod.mk.inj same
        cases s with
        | nil => exact ⟨item :: (r ++ pend), by simp [isIn]⟩
        | cons symbol s =>
            by_cases equal : equalTo symbol item
            · exact ⟨item :: (r ++ pend), by simp [isIn, equalAt, equal, CharSet.accepts]⟩
            · obtain ⟨p, reads⟩ := @matchSet_next _ _ equalTo _ c _ pend _ _ symbol s false found'
              exact ⟨p, by simpa [isIn, equalAt, equal, CharSet.accepts, nextState] using reads⟩

end Enabled

theorem setAt_range {item : α} :
    setAt c item (r ++ pend) pend = .ok (setBehind c item r).isSome := by
  rw [setAt, setBehind]
  split
  next opens => exact isSet_range opens.1
  next => rfl

/-- The scan of an alternative goes on behind a set. -/
theorem skipSet_range {item : α} : skipSet c item (r ++ pend) pend =
    .ok ((setBehind c item r).map fun (_, after) => after ++ pend) := by
  rw [skipSet, setAt_range]
  cases found : setBehind c item r with
  | none => rfl
  | some result =>
      obtain ⟨set, after⟩ := result
      rw [setBehind] at found
      split at found
      next opens =>
        simp [bind, Except.bind, setEnd_range opens.1 found, pure, Except.pure]
      next => cases found

end Sets

end Cdcm.Wildcards

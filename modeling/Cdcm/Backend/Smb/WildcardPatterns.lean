import Cdcm.Backend.Smb.Wildcards

/-!
# What a pattern with wildcards matches

A pattern is a list of tokens: characters and sets, wildcards, and the marks around and
between alternatives.  The tokens are read as a pattern in the sense of `Glob`, and
matching is a run of it.
-/

namespace Cdcm.Wildcards

open Glob

/-- The marks of an alternative. -/
inductive Mark where
  | opening
  | closing
  | between

/-- A part of a pattern: what accepts one symbol, any symbols, or a mark with its
character, which stands for itself outside of alternatives. -/
inductive Token (α σ : Type) where
  | item (accepts : σ → Bool)
  | many
  | mark (kind : Mark) (char : α)

/-- The characters that are in use have different meanings. -/
def Cards.specials {α : Type} (c : Cards α) : List α :=
  [c.anything, c.single, c.escape] ++ (if c.setEnabled then [c.setOpen] else []) ++
    if c.altEnabled then [c.altOpen, c.altClose, c.altOr] else []

def Cards.Distinct {α : Type} (c : Cards α) : Prop := c.specials.Nodup

instance {α : Type} [DecidableEq α] (c : Cards α) : Decidable c.Distinct :=
  inferInstanceAs (Decidable c.specials.Nodup)

section Tokens

variable {α σ : Type} [DecidableEq α] (c : Cards α) (equalTo : σ → α → Bool)

/-- The token of a character that starts no set and escapes nothing. -/
def token (char : α) : Token α σ :=
  if char = c.anything then .many
  else if char = c.single then .item fun _ => true
  else if c.altEnabled ∧ char = c.altOpen then .mark .opening char
  else if c.altEnabled ∧ char = c.altClose then .mark .closing char
  else if c.altEnabled ∧ char = c.altOr then .mark .between char
  else .item (equalTo · char)

variable {c} in
theorem setBehind_length {char : α} {r after : List α} {set : CharSet α}
    (found : setBehind c char r = some (set, after)) : after.length < (char :: r).length := by
  rw [setBehind] at found
  split at found
  next =>
    obtain ⟨first, body, rfl, -⟩ := setText_split found
    simp only [List.length_cons, List.length_append]
    omega
  next => cases found

/-- The tokens of a pattern. -/
def tokens (r : List α) : List (Token α σ) :=
  match r with
  | [] => []
  | char :: r =>
      if char = c.escape then
        match r with
        | [] => []
        | escaped :: r => .item (equalTo · escaped) :: tokens r
      else
        match _found : setBehind c char r with
        | some (set, after) => .item (set.accepts equalTo) :: tokens after
        | none => token c equalTo char :: tokens r
termination_by r.length
decreasing_by
  all_goals first
    | exact Nat.lt_succ_of_lt (Nat.lt_succ_self _)
    | exact setBehind_length _found
    | exact Nat.lt_succ_self _

end Tokens

namespace Token

variable {α σ : Type}

/-- What is in front of the mark that closes an alternative, or also of the first one
between its parts, with this mark and what is behind it. -/
def scan (stopAtOr : Bool) : Int → List (Token α σ) →
    Option (List (Token α σ) × Token α σ × List (Token α σ))
  | _, [] => none
  | depth, token :: rest =>
      let further (depth : Int) :=
        (scan stopAtOr depth rest).map fun (before, stop, after) => (token :: before, stop, after)
      match token with
      | .item _ | .many => further depth
      | .mark .opening _ => further (depth + 1)
      | .mark .closing _ => if depth - 1 = 0 then some ([], token, rest) else further (depth - 1)
      | .mark .between _ =>
          if stopAtOr ∧ depth = 1 then some ([], token, rest) else further depth

variable {stopAtOr : Bool} {depth : Int} {ts before after : List (Token α σ)}
  {token stop : Token α σ}

/-- A turn of the scan stops at a token, or goes on at some depth. -/
theorem scan_cons (stopAtOr : Bool) (depth : Int) (token : Token α σ) :
    (∀ ts, scan stopAtOr depth (token :: ts) = some ([], token, ts)) ∨
      ∃ deeper, ∀ ts, scan stopAtOr depth (token :: ts) =
        (scan stopAtOr deeper ts).map fun (before, stop, after) =>
          (token :: before, stop, after) := by
  cases token with
  | item | many => exact .inr ⟨depth, fun _ => rfl⟩
  | mark kind char =>
      cases kind with
      | opening => exact .inr ⟨depth + 1, fun _ => rfl⟩
      | closing =>
          by_cases closes : depth - 1 = 0
          · exact .inl fun _ => by simp [scan, closes]
          · exact .inr ⟨depth - 1, fun _ => by simp [scan, closes]⟩
      | between =>
          by_cases stops : stopAtOr ∧ depth = 1
          · exact .inl fun _ => by simp [scan, stops]
          · exact .inr ⟨depth, fun _ => by simp [scan, stops]⟩

/-- The scan finds a stop somewhere in the tokens, and the same one if no more follow. -/
theorem scan_split (found : scan stopAtOr depth ts = some (before, stop, after)) :
    ts = before ++ stop :: after ∧
      scan stopAtOr depth (before ++ [stop]) = some (before, stop, []) := by
  induction ts generalizing depth before with
  | nil => cases found
  | cons token ts ih =>
      rcases scan_cons stopAtOr depth token with stops | ⟨deeper, further⟩
      · rw [stops, Option.some.injEq] at found
        obtain ⟨rfl, rfl, rfl⟩ : _ ∧ _ ∧ _ := by simpa using found
        exact ⟨rfl, stops []⟩
      · rw [further] at found
        obtain ⟨⟨before', stop', after'⟩, found', same⟩ := Option.map_eq_some_iff.mp found
        obtain ⟨rfl, rfl, rfl⟩ : _ ∧ _ ∧ _ := by simpa using same
        obtain ⟨rfl, cut⟩ := ih found'
        exact ⟨rfl, by rw [List.cons_append, further, cut]; rfl⟩

theorem scan_length (found : scan stopAtOr depth ts = some (before, stop, after)) :
    before.length < ts.length ∧ after.length < ts.length := by
  rw [(scan_split found).1, List.length_append, List.length_cons]
  omega

/-- Up to the mark that closes an alternative, each of its parts is found. -/
theorem scan_parts (found : scan false depth ts = some (before, stop, [])) :
    ∃ part stop' after, scan true depth ts = some (part, stop', after) ∧
      (after = [] ∨ ∃ before' stop'', scan false 1 after = some (before', stop'', [])) := by
  induction ts generalizing depth before with
  | nil => cases found
  | cons token ts ih =>
      have further (deeper : Int)
          (both : ∀ stopAtOr, scan stopAtOr depth (token :: ts) = (scan stopAtOr deeper ts).map
            fun (before, stop, after) => (token :: before, stop, after)) :
          ∃ part stop' after, scan true depth (token :: ts) = some (part, stop', after) ∧
            (after = [] ∨ ∃ before' stop'', scan false 1 after = some (before', stop'', [])) := by
        rw [both] at found
        obtain ⟨⟨before', stop', after'⟩, found', same⟩ := Option.map_eq_some_iff.mp found
        obtain ⟨rfl, rfl, rfl⟩ : _ ∧ _ ∧ _ := by simpa using same
        obtain ⟨part, stop', after, parts, closed⟩ := ih found'
        exact ⟨token :: part, stop', after, by rw [both, parts]; rfl, closed⟩
      cases token with
      | item | many => exact further depth fun _ => rfl
      | mark kind char =>
          cases kind with
          | opening => exact further (depth + 1) fun _ => rfl
          | closing =>
              by_cases closes : depth - 1 = 0
              · have last : before = [] ∧ mark .closing char = stop ∧ ts = [] := by
                  simpa [scan, closes] using found
                exact ⟨[], mark .closing char, ts, by simp [scan, closes], .inl last.2.2⟩
              · exact further (depth - 1) fun _ => by simp [scan, closes]
          | between =>
              by_cases top : depth = 1
              · subst top
                obtain ⟨⟨before', stop', after'⟩, found', same⟩ :=
                  Option.map_eq_some_iff.mp (show (scan false 1 ts).map _ = _ from found)
                obtain ⟨rfl, rfl, rfl⟩ : _ ∧ _ ∧ _ := by simpa using same
                exact ⟨[], mark .between char, ts, by simp [scan], .inr ⟨before', stop', found'⟩⟩
              · exact further depth fun _ => by simp [scan, top]

end Token

section Parse

variable {α σ : Type} (equalTo : σ → α → Bool)

mutual

/-- The pattern that tokens are read as. A mark that belongs to no alternative stands for
its character. -/
def parse (ts : List (Token α σ)) : Pattern σ :=
  match ts with
  | [] => .done
  | .item accepts :: ts => .one accepts (parse ts)
  | .many :: ts => .any (parse ts)
  | .mark .opening char :: ts =>
      match _found : Token.scan false 1 ts with
      | some (before, stop, after) => alternatives (before ++ [stop]) (parse after)
      | none => .one (equalTo · char) (parse ts)
  | .mark .closing char :: ts | .mark .between char :: ts => .one (equalTo · char) (parse ts)
termination_by ts.length
decreasing_by
  all_goals first
    | exact Nat.lt_succ_self _
    | exact Nat.lt_succ_of_lt (Token.scan_length _found).2
    | simp only [List.length_append, List.length_cons, List.length_nil]
      have lengths := Token.scan_length _found
      omega

/-- The alternatives up to the mark that closes them, in front of the rest. -/
def alternatives (ts : List (Token α σ)) (rest : Pattern σ) : Pattern σ :=
  match _found : Token.scan true 1 ts with
  | some (before, _, after) =>
      .branch (parse before) rest (if after.isEmpty then .fail else alternatives after rest)
  | none => .fail
termination_by ts.length
decreasing_by
  · exact (Token.scan_length _found).1
  · exact (Token.scan_length _found).2

end

end Parse

/-- The pattern of a text. -/
def Cards.pattern {α σ : Type} [DecidableEq α] (c : Cards α) (equalTo : σ → α → Bool)
    (text : List α) : Pattern σ :=
  parse equalTo (tokens c equalTo text)

section Reading

variable {α σ : Type} [DecidableEq α] {c : Cards α} {equalTo : σ → α → Bool} {char : α}
  {r after pend : List α} {set : CharSet α} {depth : Int} {stopAtOr : Bool}

/-! ## Tokens -/

theorem setBehind_split (found : setBehind c char r = some (set, after)) :
    ∃ first body, r = first :: body ++ after ∧
      ∀ other, setBehind c char (first :: body ++ other) = some (set, other) := by
  rw [setBehind] at found
  split at found
  next opens =>
    obtain ⟨first, body, rfl, reads⟩ := setText_split found
    exact ⟨first, body, rfl, fun other => by rw [setBehind, if_pos opens, reads]⟩
  next => cases found

theorem setBehind_append {more : List α} (absent : setBehind c char (r ++ more) = none) :
    setBehind c char r = none := by
  rw [setBehind] at absent ⊢
  split at absent
  next opens =>
    rw [if_pos opens]
    exact setText_append absent
  next opens => exact if_neg opens

theorem setBehind_of_ne (other : c.setEnabled → char ≠ c.setOpen) : setBehind c char r = none :=
  if_neg fun opens => other opens.1 opens.2

@[simp] theorem tokens_nil : tokens c equalTo [] = [] := by rw [tokens]

@[simp] theorem tokens_escape_nil : tokens c equalTo [c.escape] = [] := by
  rw [tokens, if_pos rfl]

@[simp] theorem tokens_escape (escaped : α) (r : List α) :
    tokens c equalTo (c.escape :: escaped :: r) =
      .item (equalTo · escaped) :: tokens c equalTo r := by
  rw [tokens, if_pos rfl]

theorem tokens_set (plain : char ≠ c.escape) (found : setBehind c char r = some (set, after)) :
    tokens c equalTo (char :: r) = .item (set.accepts equalTo) :: tokens c equalTo after := by
  rw [tokens.eq_def]
  dsimp only
  rw [if_neg plain]
  split
  next found' =>
    obtain ⟨rfl, rfl⟩ := Prod.mk.inj (Option.some.inj (found.symm.trans found'))
    rfl
  next absent => cases found.symm.trans absent

theorem tokens_cons (plain : char ≠ c.escape) (absent : setBehind c char r = none) :
    tokens c equalTo (char :: r) = token c equalTo char :: tokens c equalTo r := by
  rw [tokens.eq_def]
  dsimp only
  rw [if_neg plain]
  split
  next found => cases absent.symm.trans found
  next => rfl

/-- Only an escape in front of nothing has no token. -/
theorem eq_nil_of_tokens (empty : tokens c equalTo r = []) : r = [] ∨ r = [c.escape] := by
  cases r with
  | nil => exact .inl rfl
  | cons char r =>
      by_cases escape : char = c.escape
      · subst escape
        cases r with
        | nil => exact .inr rfl
        | cons escaped r => cases (tokens_escape escaped r).symm.trans empty
      · cases found : setBehind c char r with
        | none => simp [tokens_cons escape found] at empty
        | some result => simp [tokens_set escape found] at empty

/-! ## Scans of alternatives -/

@[simp] theorem scanAlt_pend {state : AltState} :
    scanAlt c stopAtOr pend pend state depth = .ok none := by
  rw [scanAlt.eq_def]
  cases pend with
  | nil => exact if_pos rfl
  | cons => exact if_pos rfl

@[simp] theorem scanAlt_escape : scanAlt c stopAtOr (c.escape :: (r ++ pend)) pend .next depth =
    scanAlt c stopAtOr (r ++ pend) pend .escape depth := by
  rw [scanAlt, if_neg (range_ne _ r pend)]
  simp

@[simp] theorem scanAlt_escaped : scanAlt c stopAtOr (char :: (r ++ pend)) pend .escape depth =
    scanAlt c stopAtOr (r ++ pend) pend .next depth := by
  rw [scanAlt, if_neg (range_ne _ r pend)]

theorem scanAlt_set (plain : char ≠ c.escape) (found : setBehind c char r = some (set, after)) :
    scanAlt c stopAtOr (char :: (r ++ pend)) pend .next depth =
      scanAlt c stopAtOr (after ++ pend) pend .next depth := by
  have skip := @skipSet_range _ _ c r pend char
  rw [found] at skip
  rw [scanAlt, if_neg (range_ne _ r pend)]
  simp only [plain, if_false]
  split
  next skipped => cases skip.symm.trans skipped
  next skipped =>
    obtain rfl := Option.some.inj (Except.ok.inj (skip.symm.trans skipped))
    rfl
  next skipped => cases skip.symm.trans skipped

theorem scanAlt_char (plain : char ≠ c.escape) (absent : setBehind c char r = none) :
    scanAlt c stopAtOr (char :: (r ++ pend)) pend .next depth =
      if char = c.altOpen then scanAlt c stopAtOr (r ++ pend) pend .next (depth + 1)
      else if char = c.altClose then
        if depth - 1 = 0 then .ok (some (char :: (r ++ pend)))
        else scanAlt c stopAtOr (r ++ pend) pend .next (depth - 1)
      else if stopAtOr ∧ char = c.altOr ∧ depth = 1 then .ok (some (char :: (r ++ pend)))
      else scanAlt c stopAtOr (r ++ pend) pend .next depth := by
  have skip := @skipSet_range _ _ c r pend char
  rw [absent] at skip
  rw [scanAlt, if_neg (range_ne _ r pend)]
  simp only [plain, if_false]
  split
  next skipped => cases skip.symm.trans skipped
  next skipped => cases skip.symm.trans skipped
  next skipped => rfl

/-- A scan of the text finds nothing, or stops where a scan of its tokens does. -/
def StopsAt (c : Cards α) (equalTo : σ → α → Bool) (stopAtOr : Bool) (pend r : List α)
    (depth : Int) : Prop :=
  (Token.scan stopAtOr depth (tokens c equalTo r) = none ∧
    scanAlt c stopAtOr (r ++ pend) pend .next depth = .ok none) ∨
  ∃ front char after, r = front ++ char :: after ∧
    (char = c.altClose ∨ stopAtOr ∧ char = c.altOr) ∧
    Token.scan stopAtOr depth (tokens c equalTo r) =
      some (tokens c equalTo front, token c equalTo char, tokens c equalTo after) ∧
    tokens c equalTo (front ++ [char]) = tokens c equalTo front ++ [token c equalTo char] ∧
    scanAlt c stopAtOr (r ++ pend) pend .next depth = .ok (some (char :: (after ++ pend)))

/-- Both scans pass a token. -/
theorem StopsAt.append (more : List α) (passed : Token α σ) {deeper : Int}
    (stops : StopsAt c equalTo stopAtOr pend r deeper)
    (reads : ∀ front after, r = front ++ after →
      tokens c equalTo (more ++ front) = passed :: tokens c equalTo front)
    (further : ∀ ts, Token.scan stopAtOr depth (passed :: ts) =
      (Token.scan stopAtOr deeper ts).map fun (before, stop, after) =>
        (passed :: before, stop, after))
    (same : scanAlt c stopAtOr (more ++ (r ++ pend)) pend .next depth =
      scanAlt c stopAtOr (r ++ pend) pend .next deeper) :
    StopsAt c equalTo stopAtOr pend (more ++ r) depth := by
  have whole := reads r [] (List.append_nil r).symm
  rcases stops with ⟨absent, nothing⟩ | ⟨front, char, after, rfl, marks, found, cut, stop⟩
  · exact .inl ⟨by rw [whole, further, absent]; rfl, by rw [List.append_assoc, same, nothing]⟩
  · have front' := reads front (char :: after) rfl
    have upTo := reads (front ++ [char]) after (by simp)
    refine .inr ⟨more ++ front, char, after, by simp, marks, ?_, ?_, ?_⟩
    · rw [whole, further, found, front']
      rfl
    · rw [List.append_assoc, upTo, cut, front', List.cons_append]
    · rw [List.append_assoc, same, stop]

omit [DecidableEq α] in
/-- The marks are no wildcards. -/
theorem Cards.Distinct.marks (distinct : c.Distinct) (enabled : c.altEnabled) :
    [c.altOpen, c.altClose, c.altOr].Nodup ∧
      ∀ mark ∈ [c.altOpen, c.altClose, c.altOr],
        mark ≠ c.anything ∧ mark ≠ c.single ∧ mark ≠ c.escape ∧
          (c.setEnabled → mark ≠ c.setOpen) := by
  rw [Distinct, specials, if_pos enabled, List.nodup_append] at distinct
  obtain ⟨-, nodup, apart⟩ := distinct
  refine ⟨nodup, fun mark member => ⟨?_, ?_, ?_, fun sets => ?_⟩⟩
  all_goals
    refine (apart _ ?_ mark member).symm
    simp [*]

theorem token_altOpen (distinct : c.Distinct) (enabled : c.altEnabled) :
    token c equalTo c.altOpen = .mark .opening c.altOpen := by
  obtain ⟨-, marks⟩ := distinct.marks enabled
  obtain ⟨notAny, notSingle, -⟩ := marks c.altOpen (by simp)
  rw [token, if_neg notAny, if_neg notSingle, if_pos ⟨enabled, rfl⟩]

theorem token_altClose (distinct : c.Distinct) (enabled : c.altEnabled) :
    token c equalTo c.altClose = .mark .closing c.altClose := by
  obtain ⟨nodup, marks⟩ := distinct.marks enabled
  obtain ⟨notAny, notSingle, -⟩ := marks c.altClose (by simp)
  have notOpen : c.altClose ≠ c.altOpen := fun same => by simp [same] at nodup
  rw [token, if_neg notAny, if_neg notSingle, if_neg (fun opens => notOpen opens.2),
    if_pos ⟨enabled, rfl⟩]

theorem token_altOr (distinct : c.Distinct) (enabled : c.altEnabled) :
    token c equalTo c.altOr = .mark .between c.altOr := by
  obtain ⟨nodup, marks⟩ := distinct.marks enabled
  obtain ⟨notAny, notSingle, -⟩ := marks c.altOr (by simp)
  have notOpen : c.altOr ≠ c.altOpen := fun same => by simp [same] at nodup
  have notClose : c.altOr ≠ c.altClose := fun same => by simp [same] at nodup
  rw [token, if_neg notAny, if_neg notSingle, if_neg (fun opens => notOpen opens.2),
    if_neg (fun closes => notClose closes.2), if_pos ⟨enabled, rfl⟩]

/-- Other characters are no marks. -/
theorem token_of_ne (notOpen : c.altEnabled → char ≠ c.altOpen)
    (notClose : c.altEnabled → char ≠ c.altClose) (notOr : c.altEnabled → char ≠ c.altOr) :
    token c equalTo char =
      if char = c.anything then .many
      else if char = c.single then .item fun _ => true
      else .item (equalTo · char) := by
  rw [token, if_neg fun isMark : _ ∧ char = c.altOpen => notOpen isMark.1 isMark.2,
    if_neg fun isMark : _ ∧ char = c.altClose => notClose isMark.1 isMark.2,
    if_neg fun isMark : _ ∧ char = c.altOr => notOr isMark.1 isMark.2]

/-- A scan of the text stops where a scan of its tokens does. -/
theorem stopsAt (distinct : c.Distinct) (enabled : c.altEnabled) (stopAtOr : Bool)
    (pend r : List α) (depth : Int) : StopsAt c equalTo stopAtOr pend r depth := by
  obtain ⟨nodup, marks⟩ := distinct.marks enabled
  induction r using tokens.induct c generalizing depth with
  | case1 => exact .inl ⟨by simp [Token.scan], by simp⟩
  | case2 =>
      have same : scanAlt c stopAtOr ([c.escape] ++ pend) pend .next depth = .ok none :=
        (@scanAlt_escape _ _ c [] pend depth stopAtOr).trans scanAlt_pend
      exact .inl ⟨by simp [Token.scan], same⟩
  | case3 escaped r ih =>
      refine (ih depth).append [c.escape, escaped] (.item (equalTo · escaped)) ?_ (fun _ => rfl) ?_
      · exact fun front _ _ => tokens_escape escaped front
      · exact (@scanAlt_escape _ _ c (escaped :: r) pend depth stopAtOr).trans scanAlt_escaped
  | case4 char r plain set after found ih =>
      obtain ⟨first, body, rfl, reads⟩ := setBehind_split found
      refine (ih depth).append (char :: first :: body) (.item (set.accepts equalTo)) ?_
        (fun _ => rfl) ?_
      · exact fun front _ _ => tokens_set plain (reads front)
      · have skip := @scanAlt_set _ _ c char _ _ pend _ depth stopAtOr plain found
        simpa using skip
  | case5 char r plain absent ih =>
      have turn := @scanAlt_char _ _ c char r pend depth stopAtOr plain absent
      have reads (front after : List α) (split : r = front ++ after) :
          tokens c equalTo ([char] ++ front) = token c equalTo char :: tokens c equalTo front :=
        tokens_cons plain (setBehind_append (split ▸ absent))
      -- the character is the stop, or one that both scans pass
      have here (isMark : char = c.altClose ∨ stopAtOr ∧ char = c.altOr)
          (stops : ∀ ts, Token.scan stopAtOr depth (token c equalTo char :: ts) =
            some ([], token c equalTo char, ts))
          (stop : scanAlt c stopAtOr (char :: (r ++ pend)) pend .next depth =
            .ok (some (char :: (r ++ pend)))) :
          StopsAt c equalTo stopAtOr pend (char :: r) depth := by
        have alone := reads [] r rfl
        have whole := reads r [] (List.append_nil r).symm
        refine .inr ⟨[], char, r, rfl, isMark, ?_, ?_, stop⟩
        · rw [← List.singleton_append, whole, stops, tokens_nil]
        · simpa using alone
      by_cases isOpen : char = c.altOpen
      · have mark := @token_altOpen _ σ _ c equalTo distinct enabled
        refine (ih (depth + 1)).append [char] (token c equalTo char) reads (fun _ => ?_) ?_
        · rw [isOpen, mark]
          rfl
        · exact turn.trans (if_pos isOpen)
      rw [if_neg isOpen] at turn
      by_cases isClose : char = c.altClose
      · have mark := @token_altClose _ σ _ c equalTo distinct enabled
        rw [if_pos isClose] at turn
        by_cases closes : depth - 1 = 0
        · refine here (.inl isClose) (fun _ => ?_) (turn.trans (if_pos closes))
          rw [isClose, mark]
          exact if_pos closes
        · refine (ih (depth - 1)).append [char] (token c equalTo char) reads (fun _ => ?_) ?_
          · rw [isClose, mark]
            exact if_neg closes
          · exact turn.trans (if_neg closes)
      rw [if_neg isClose] at turn
      by_cases isOr : char = c.altOr
      · have mark := @token_altOr _ σ _ c equalTo distinct enabled
        by_cases stops : stopAtOr ∧ depth = 1
        · refine here (.inr ⟨stops.1, isOr⟩) (fun _ => ?_)
            (turn.trans (if_pos ⟨stops.1, isOr, stops.2⟩))
          rw [isOr, mark]
          exact if_pos stops
        · refine (ih depth).append [char] (token c equalTo char) reads (fun _ => ?_) ?_
          · rw [isOr, mark]
            exact if_neg stops
          · exact turn.trans (if_neg fun stop => stops ⟨stop.1, stop.2.2⟩)
      · refine (ih depth).append [char] (token c equalTo char) reads (fun _ => ?_) ?_
        · rw [token_of_ne (fun _ => isOpen) (fun _ => isClose) (fun _ => isOr)]
          split
          next => rfl
          next => split <;> rfl
        · exact turn.trans (if_neg fun stop => isOr stop.2.1)

/-! ## Matching -/

/-- A call of `match` ends, and finds what a run of the pattern finds. -/
def Agrees (call : Except Fault (MatchResult σ α)) (found : Option (List σ)) : Prop :=
  ∃ result, call = .ok result ∧ result.res = found.isSome ∧ ∀ left ∈ found, result.s = left

variable (c equalTo) in
/-- Matching a range is a run of its pattern. -/
def Runs (r : List α) : Prop :=
  ∀ (pend : List α) (s : List σ) (part : Bool) (calls : Nat), 2 * (s.length + r.length) < calls →
    Agrees (detailMatch c equalTo calls s (r ++ pend) pend part false)
      ((c.pattern equalTo r).run part s)

section Calls

variable {s : List σ} {part : Bool} {calls : Nat}

@[simp] theorem detailMatch_pend {escape : Bool} :
    detailMatch c equalTo (calls + 1) s pend pend part escape =
      .ok ⟨part || s.isEmpty, s, pend⟩ := by
  rw [detailMatch.eq_def]
  exact if_pos rfl

theorem detailMatch_escaped :
    detailMatch c equalTo (calls + 1) s (char :: (r ++ pend)) pend part true =
      if s.isEmpty ∨ ¬ equalAt equalTo s char then .ok ⟨false, s, char :: (r ++ pend)⟩
      else detailMatch c equalTo calls s.tail (r ++ pend) pend part false := by
  rw [detailMatch.eq_def]
  dsimp only
  rw [if_neg (range_ne _ r pend), if_pos rfl]

theorem detailMatch_anything :
    detailMatch c equalTo (calls + 1) s (c.anything :: (r ++ pend)) pend part false =
      (detailMatch c equalTo calls s (r ++ pend) pend part false).bind fun result =>
        if result.res then .ok result
        else if s.isEmpty then .ok ⟨false, s, c.anything :: (r ++ pend)⟩
        else detailMatch c equalTo calls s.tail (c.anything :: (r ++ pend)) pend part false := by
  rw [detailMatch.eq_def]
  dsimp only
  rw [if_neg (range_ne _ r pend), if_neg Bool.false_ne_true, if_pos rfl]
  rfl

theorem detailMatch_single (notAny : c.single ≠ c.anything) :
    detailMatch c equalTo (calls + 1) s (c.single :: (r ++ pend)) pend part false =
      if s.isEmpty then .ok ⟨false, s, c.single :: (r ++ pend)⟩
      else detailMatch c equalTo calls s.tail (r ++ pend) pend part false := by
  rw [detailMatch.eq_def]
  dsimp only
  rw [if_neg (range_ne _ r pend), if_neg Bool.false_ne_true, if_neg notAny, if_pos rfl]

theorem detailMatch_escape (notAny : c.escape ≠ c.anything) (notSingle : c.escape ≠ c.single) :
    detailMatch c equalTo (calls + 1) s (c.escape :: (r ++ pend)) pend part false =
      detailMatch c equalTo calls s (r ++ pend) pend part true := by
  rw [detailMatch.eq_def]
  dsimp only
  rw [if_neg (range_ne _ r pend), if_neg Bool.false_ne_true, if_neg notAny, if_neg notSingle,
    if_pos rfl]

/-- A character that is no wildcard starts a set or an alternative, or stands for itself. -/
theorem detailMatch_char (notAny : char ≠ c.anything) (notSingle : char ≠ c.single)
    (plain : char ≠ c.escape) :
    detailMatch c equalTo (calls + 1) s (char :: (r ++ pend)) pend part false =
      (setAt c char (r ++ pend) pend).bind fun isSet =>
        if isSet then
          (matchSet c equalTo s (r ++ pend) pend .notOrFirstIn).bind fun result =>
            if !result.res then .ok result
            else (setEnd c (r ++ pend) pend .notOrFirst).bind fun behind =>
              detailMatch c equalTo calls s.tail behind pend part false
        else
          (altAt c char (r ++ pend) pend).bind fun isAlt =>
            if isAlt then
              (altEnd c (r ++ pend) pend .next 1).bind fun pAltEnd =>
                (altSubEnd c (r ++ pend) pAltEnd).bind fun p1end =>
                  matchAlt c equalTo calls s (r ++ pend) p1end pAltEnd pend part
            else if s.isEmpty ∨ ¬ equalAt equalTo s char then
              .ok ⟨false, s, char :: (r ++ pend)⟩
            else detailMatch c equalTo calls s.tail (r ++ pend) pend part false := by
  rw [detailMatch.eq_def]
  dsimp only
  rw [if_neg (range_ne _ r pend), if_neg Bool.false_ne_true, if_neg notAny, if_neg notSingle,
    if_neg plain]
  rfl

/-! ### The pattern of a range -/

theorem runs_nil : Runs c equalTo ([] : List α) := by
  intro pend s part calls enough
  obtain ⟨calls, rfl⟩ := Nat.exists_eq_succ_of_ne_zero (Nat.ne_zero_of_lt enough)
  rw [List.nil_append, detailMatch_pend, Cards.pattern, tokens_nil, parse]
  refine ⟨_, rfl, ?_, fun left isLeft => ?_⟩
  · cases part <;> cases s <;> rfl
  · cases part <;> cases s <;> simp_all [Pattern.run]

omit [DecidableEq α] in
/-- A symbol is read and the rest is matched. -/
theorem Agrees.one {accepts : σ → Bool} {rest : Pattern σ}
    {call : Except Fault (MatchResult σ α)} {p : List α}
    (further : ∀ symbol s', s = symbol :: s' → Agrees call (rest.run part s')) :
    Agrees (if s.isEmpty ∨ ¬ s.head?.any accepts then .ok ⟨false, s, p⟩ else call)
      ((Pattern.one accepts rest).run part s) := by
  cases s with
  | nil => exact ⟨_, if_pos (.inl rfl), rfl, by simp⟩
  | cons symbol s =>
      rw [Pattern.run_one_cons]
      by_cases accepted : accepts symbol
      · rw [if_pos accepted, if_neg (by simp [accepted])]
        exact further symbol s rfl
      · rw [if_neg accepted, if_pos (by simp [accepted])]
        exact ⟨_, rfl, rfl, by simp⟩

omit [DecidableEq α] in
theorem equalAt_eq (s : List σ) (char : α) :
    equalAt equalTo s char = s.head?.any (equalTo · char) := by
  cases s <;> rfl

/-- The literal reading of a character. -/
theorem Runs.literal (rest : Runs c equalTo r) (enough : 2 * (s.length + r.length) ≤ calls) :
    Agrees (if s.isEmpty ∨ ¬ equalAt equalTo s char then .ok ⟨false, s, char :: (r ++ pend)⟩
      else detailMatch c equalTo calls s.tail (r ++ pend) pend part false)
      ((Pattern.one (equalTo · char) (c.pattern equalTo r)).run part s) := by
  rw [equalAt_eq]
  refine .one fun symbol s' split => ?_
  subst split
  refine rest pend s' part calls ?_
  rw [List.length_cons] at enough
  omega

/-- Characters other than marks are tokens of their own. -/
theorem pattern_cons (plain : char ≠ c.escape) (absent : setBehind c char r = none) :
    c.pattern equalTo (char :: r) =
      parse equalTo (token c equalTo char :: tokens c equalTo r) := by
  rw [Cards.pattern, tokens_cons plain absent]

theorem runs_set (notAny : char ≠ c.anything) (notSingle : char ≠ c.single)
    (plain : char ≠ c.escape) (found : setBehind c char r = some (set, after))
    (rest : Runs c equalTo after) : Runs c equalTo (char :: r) := by
  have reads : c.pattern equalTo (char :: r) =
      .one (set.accepts equalTo) (c.pattern equalTo after) := by
    rw [Cards.pattern, tokens_set plain found, parse, Cards.pattern]
  have shorter := setBehind_length found
  have opens : c.setEnabled ∧ setText c r = some (set, after) := by
    rw [setBehind] at found
    split at found
    next opens => exact ⟨opens.1, found⟩
    next => cases found
  intro pend s part calls enough
  obtain ⟨calls, rfl⟩ := Nat.exists_eq_succ_of_ne_zero (Nat.ne_zero_of_lt enough)
  obtain ⟨p, isMatch⟩ := @matchSet_range _ _ equalTo _ c r pend after set s opens.1 opens.2
  rw [reads, List.cons_append, detailMatch_char notAny notSingle plain, setAt_range, found,
    isMatch, setEnd_range opens.1 opens.2]
  simp only [Except.bind, Option.isSome_some, if_true]
  cases s with
  | nil => exact ⟨_, rfl, rfl, by simp⟩
  | cons symbol s =>
      rw [Pattern.run_one_cons]
      cases accepted : set.accepts equalTo symbol with
      | false => exact ⟨_, by simp [accepted]; rfl, rfl, by simp⟩
      | true =>
          have further := rest pend s part calls (by
            simp only [List.length_cons] at enough shorter
            omega)
          simpa [accepted] using further

variable (distinct : c.Distinct)
include distinct

omit [DecidableEq α] in
/-- The wildcards have different characters, which open no sets. -/
theorem Cards.Distinct.wildcards : c.anything ≠ c.single ∧ c.anything ≠ c.escape ∧
    c.single ≠ c.escape ∧ (c.setEnabled → c.setOpen ≠ c.anything ∧ c.setOpen ≠ c.single ∧
      c.setOpen ≠ c.escape) := by
  rw [Distinct, specials, List.append_assoc, List.nodup_append] at distinct
  obtain ⟨nodup, -, apart⟩ := distinct
  have first : c.anything ≠ c.single ∧ c.anything ≠ c.escape ∧ c.single ≠ c.escape := by
    simpa [and_assoc] using nodup
  refine ⟨first.1, first.2.1, first.2.2, fun sets => ⟨?_, ?_, ?_⟩⟩
  all_goals
    refine (apart _ ?_ c.setOpen ?_).symm
    · simp
    · simp [sets]

theorem runs_anything (rest : Runs c equalTo r) : Runs c equalTo (c.anything :: r) := by
  obtain ⟨-, notEscape, -, sets⟩ := distinct.wildcards
  have reads : c.pattern equalTo (c.anything :: r) = .any (c.pattern equalTo r) := by
    rw [pattern_cons notEscape (setBehind_of_ne fun enabled => (sets enabled).1.symm), token,
      if_pos rfl, parse, Cards.pattern]
  intro pend s part calls enough
  rw [reads]
  induction s generalizing calls with
  | nil =>
      obtain ⟨calls, rfl⟩ := Nat.exists_eq_succ_of_ne_zero (Nat.ne_zero_of_lt enough)
      obtain ⟨result, isResult, found, left⟩ := rest pend [] part calls (by
        simp only [List.length_cons, List.length_nil] at enough ⊢
        omega)
      rw [List.cons_append, detailMatch_anything, isResult, Pattern.run_any_nil]
      cases res : result.res with
      | true => exact ⟨result, by simp [Except.bind, res], found, left⟩
      | false =>
          rw [res] at found
          exact ⟨_, by simp [Except.bind, res]; rfl, found, by simp_all⟩
  | cons symbol s ih =>
      obtain ⟨calls, rfl⟩ := Nat.exists_eq_succ_of_ne_zero (Nat.ne_zero_of_lt enough)
      obtain ⟨result, isResult, found, left⟩ := rest pend (symbol :: s) part calls (by
        simp only [List.length_cons] at enough ⊢
        omega)
      have further := ih calls (by
        simp only [List.length_cons] at enough ⊢
        omega)
      rw [List.cons_append, detailMatch_anything, isResult, Pattern.run_any_cons]
      cases res : result.res with
      | true =>
          rw [res] at found
          obtain ⟨found', isFound⟩ := Option.isSome_iff_exists.mp found.symm
          rw [isFound, Option.some_or]
          exact ⟨result, by simp [Except.bind, res], res, fun other member => left other (by
            rwa [isFound])⟩
      | false =>
          rw [res] at found
          have nothing : (c.pattern equalTo r).run part (symbol :: s) = none := by
            simpa using found.symm
          rw [nothing, Option.none_or]
          simpa [Except.bind, res] using further

theorem runs_single (rest : Runs c equalTo r) : Runs c equalTo (c.single :: r) := by
  obtain ⟨notAny, -, notEscape, sets⟩ := distinct.wildcards
  have reads : c.pattern equalTo (c.single :: r) =
      .one (fun _ => true) (c.pattern equalTo r) := by
    rw [pattern_cons notEscape (setBehind_of_ne fun enabled => (sets enabled).2.1.symm), token,
      if_neg notAny.symm, if_pos rfl, parse, Cards.pattern]
  intro pend s part calls enough
  obtain ⟨calls, rfl⟩ := Nat.exists_eq_succ_of_ne_zero (Nat.ne_zero_of_lt enough)
  rw [reads, List.cons_append, detailMatch_single notAny.symm]
  cases s with
  | nil => exact ⟨_, rfl, rfl, by simp⟩
  | cons symbol s =>
      refine rest pend s part calls ?_
      simp only [List.length_cons] at enough ⊢
      omega

theorem runs_escape {escaped : α} (rest : Runs c equalTo r) :
    Runs c equalTo (c.escape :: escaped :: r) := by
  obtain ⟨-, notAny, notSingle, -⟩ := distinct.wildcards
  have reads : c.pattern equalTo (c.escape :: escaped :: r) =
      .one (equalTo · escaped) (c.pattern equalTo r) := by
    rw [Cards.pattern, tokens_escape, parse, Cards.pattern]
  intro pend s part calls enough
  simp only [List.length_cons] at enough
  obtain ⟨calls, rfl⟩ : ∃ more, calls = more + 1 + 1 := ⟨calls - 2, by omega⟩
  rw [reads, List.cons_append, detailMatch_escape notAny.symm notSingle.symm, List.cons_append,
    detailMatch_escaped]
  exact rest.literal (by omega)

/-- An escape in front of nothing is nothing. -/
theorem runs_escape_nil : Runs c equalTo [c.escape] := by
  obtain ⟨-, notAny, notSingle, -⟩ := distinct.wildcards
  have reads : c.pattern equalTo [c.escape] = c.pattern equalTo [] := by
    rw [Cards.pattern, tokens_escape_nil, Cards.pattern, tokens_nil]
  intro pend s part calls enough
  simp only [List.length_cons, List.length_nil] at enough
  obtain ⟨calls, rfl⟩ : ∃ more, calls = more + 1 + 1 := ⟨calls - 2, by omega⟩
  have nothing := @runs_nil _ _ _ c equalTo pend s part (calls + 1) (by
    rw [List.length_nil]
    omega)
  rw [List.nil_append, detailMatch_pend] at nothing
  rw [reads, List.cons_append, detailMatch_escape notAny.symm notSingle.symm, List.nil_append,
    detailMatch_pend]
  exact nothing

/-! ### Alternatives -/

theorem altAt_range : altAt c char (r ++ pend) pend =
    .ok (decide (c.altEnabled ∧ char = c.altOpen) &&
      (Token.scan false 1 (tokens c equalTo r)).isSome) := by
  rw [altAt]
  split
  next opens =>
    rw [isAlt, opens.1, Bool.not_true, if_neg Bool.false_ne_true, decide_eq_true ⟨rfl, opens.2⟩]
    rcases stopsAt distinct opens.1 false pend r 1 with
      ⟨absent, nothing⟩ | ⟨_, _, _, _, _, found, _, stop⟩
    · rw [nothing, absent]
      rfl
    · rw [stop, found]
      rfl
  next other =>
    rw [decide_eq_false other]
    rfl

omit distinct [DecidableEq α] in
theorem alternatives_of_scan {ts before behind : List (Token α σ)} {stop : Token α σ}
    {rest : Pattern σ} (found : Token.scan true 1 ts = some (before, stop, behind)) :
    alternatives equalTo ts rest = .branch (parse equalTo before) rest
      (if behind.isEmpty then .fail else alternatives equalTo behind rest) := by
  rw [alternatives]
  split
  next found' =>
    obtain ⟨rfl, _, rfl⟩ : _ ∧ _ ∧ _ := by simpa using found.symm.trans found'
    rfl
  next absent => cases found.symm.trans absent

omit distinct in
/-- One alternative is tried, and then the others. -/
theorem matchAlt_step {p1 p1' p2 p2end : List α} :
    matchAlt c equalTo (calls + 1) s p1 (char :: p1') p2 p2end part =
      (detailMatch c equalTo calls s p1 (char :: p1') true false).bind fun result1 =>
        let others := if p1' = p2 then .ok ⟨false, s, char :: p1'⟩
          else (altSubEnd c p1' p2).bind fun p1end =>
            matchAlt c equalTo calls s p1' p1end p2 p2end part
        if result1.res then
          (detailMatch c equalTo calls result1.s p2 p2end part false).bind fun result2 =>
            if result2.res then .ok result2 else others
        else others := by
  rw [matchAlt.eq_def]
  rfl

omit distinct in
/-- What an alternative with the rest finds, or else the others. -/
theorem Agrees.branch {first rest other : Pattern σ} {p2 p2end : List α}
    {others : Except Fault (MatchResult σ α)} {call : Except Fault (MatchResult σ α)}
    (isFirst : Agrees call (first.run true s))
    (isRest : ∀ left, left.length ≤ s.length →
      Agrees (detailMatch c equalTo calls left p2 p2end part false) (rest.run part left))
    (isOther : Agrees others (other.run part s)) :
    Agrees (call.bind fun result1 =>
      if result1.res then
        (detailMatch c equalTo calls result1.s p2 p2end part false).bind fun result2 =>
          if result2.res then .ok result2 else others
      else others) ((Pattern.branch first rest other).run part s) := by
  obtain ⟨result1, rfl, found1, left1⟩ := isFirst
  rw [Pattern.run_branch]
  simp only [Except.bind]
  cases isRun : first.run true s with
  | none =>
      rw [isRun] at found1
      rw [found1]
      exact isOther
  | some left =>
      rw [isRun] at found1 left1
      obtain ⟨result2, isCall, found2, left2⟩ := isRest left (Pattern.length_run_le isRun)
      rw [found1, left1 left rfl, isCall, Option.bind_some]
      simp only [Option.isSome_some, if_true]
      cases isRun' : rest.run part left with
      | none =>
          rw [isRun'] at found2
          rw [found2]
          exact isOther
      | some left' =>
          rw [isRun'] at found2 left2
          exact ⟨result2, by rw [found2]; rfl, found2, left2⟩

/-- Trying the alternatives one after the other, up to the mark that closes them. -/
theorem matchAlt_runs (enabled : c.altEnabled) {t r2 : List α} (rest : Runs c equalTo r2)
    (parts : ∀ shorter : List α, shorter.length < t.length → Runs c equalTo shorter)
    (ends : ∃ front, t = front ++ [c.altClose])
    (closed : ∃ before stop, Token.scan false 1 (tokens c equalTo t) = some (before, stop, []))
    (enough : 2 * (s.length + (t.length + r2.length)) ≤ calls) :
    ∃ p1end, altSubEnd c (t ++ (r2 ++ pend)) (r2 ++ pend) = .ok p1end ∧
      Agrees (matchAlt c equalTo calls s (t ++ (r2 ++ pend)) p1end (r2 ++ pend) pend part)
        ((alternatives equalTo (tokens c equalTo t) (c.pattern equalTo r2)).run part s) := by
  induction isLength : t.length using Nat.strong_induction_on generalizing t calls with
  | _ length ih =>
    subst isLength
    obtain ⟨before, stop, closed⟩ := closed
    obtain ⟨part', stop', behind, found, parted⟩ := Token.scan_parts closed
    rcases stopsAt distinct enabled true (r2 ++ pend) t 1 with ⟨absent, -⟩ |
      ⟨front, char, t', isText, marks, found', -, isStop⟩
    · cases found.symm.trans absent
    · obtain ⟨rfl, rfl, rfl⟩ : _ ∧ _ ∧ _ := by simpa using found.symm.trans found'
      have sub : altSubEnd c (t ++ (r2 ++ pend)) (r2 ++ pend) =
          .ok (char :: (t' ++ (r2 ++ pend))) := by
        rw [altSubEnd, enabled, isStop]
        rfl
      have lengths : t.length = front.length + (t'.length + 1) := by
        rw [isText, List.length_append, List.length_cons]
      obtain ⟨calls, rfl⟩ : ∃ more, calls = more + 1 := ⟨calls - 1, by omega⟩
      refine ⟨_, sub, ?_⟩
      rw [matchAlt_step, alternatives_of_scan found]
      refine .branch ?_ (fun left shorter => rest pend left part calls (by omega)) ?_
      · have whole : t ++ (r2 ++ pend) = front ++ (char :: (t' ++ (r2 ++ pend))) := by
          rw [isText, List.append_assoc, List.cons_append]
        rw [whole]
        exact parts front (by omega) _ s true calls (by omega)
      · by_cases last : t' = []
        · rw [last, List.nil_append, if_pos rfl, tokens_nil, List.isEmpty_nil, if_pos rfl,
            Pattern.run_fail]
          exact ⟨_, rfl, rfl, by simp⟩
        · -- more alternatives follow, up to the same mark
          have ends' : ∃ front', t' = front' ++ [c.altClose] := by
            obtain ⟨front', isEnd⟩ := ends
            obtain nothing | ⟨init, final, rfl⟩ := List.eq_nil_or_concat t'
            · exact absurd nothing last
            · have same := congrArg List.getLast? (isText.symm.trans isEnd)
              exact ⟨init, by simpa [List.getLast?_cons] using same⟩
          have behind : tokens c equalTo t' ≠ [] := by
            intro empty
            obtain ⟨front', isEnd⟩ := ends'
            have isEscape := (eq_nil_of_tokens empty).resolve_left last
            have same := congrArg List.getLast? (isEscape.symm.trans isEnd)
            obtain ⟨-, -, notEscape, -⟩ := (distinct.marks enabled).2 c.altClose (by simp)
            exact notEscape (by simpa using same.symm)
          have closed' := parted.resolve_left behind
          obtain ⟨p1end, isEnd, agrees⟩ := @ih t'.length (by omega) calls t'
            (fun shorter less => parts shorter (by omega)) ends' closed' (by omega) rfl
          have more : t' ++ (r2 ++ pend) ≠ r2 ++ pend := by
            simpa using last
          rw [if_neg more, if_neg (by simpa using behind), isEnd]
          exact agrees

omit distinct [DecidableEq α] in
theorem parse_group {ts before behind : List (Token α σ)} {stop : Token α σ} {mark : α}
    (found : Token.scan false 1 ts = some (before, stop, behind)) :
    parse equalTo (.mark .opening mark :: ts) =
      alternatives equalTo (before ++ [stop]) (parse equalTo behind) := by
  rw [parse]
  split
  next found' =>
    obtain ⟨rfl, rfl, rfl⟩ : _ ∧ _ ∧ _ := by simpa using found.symm.trans found'
    rfl
  next absent => cases found.symm.trans absent

theorem runs_alt (enabled : c.altEnabled) (absent : setBehind c c.altOpen r = none)
    (group : (Token.scan false 1 (tokens c equalTo r)).isSome)
    (parts : ∀ shorter : List α, shorter.length ≤ r.length → Runs c equalTo shorter) :
    Runs c equalTo (c.altOpen :: r) := by
  obtain ⟨notAny, notSingle, notEscape, -⟩ := (distinct.marks enabled).2 c.altOpen (by simp)
  intro pend s part calls enough
  obtain ⟨calls, rfl⟩ := Nat.exists_eq_succ_of_ne_zero (Nat.ne_zero_of_lt enough)
  have isAlt := @altAt_range _ _ _ c equalTo c.altOpen r pend distinct
  rw [group, decide_eq_true ⟨enabled, rfl⟩, Bool.and_true] at isAlt
  rcases stopsAt distinct enabled false pend r 1 with ⟨nothing, -⟩ |
    ⟨front, char, after, isText, marks, found, cut, isStop⟩
  · rw [nothing] at group
    cases group
  obtain rfl : char = c.altClose := by simpa using marks
  have isEnd : altEnd c (r ++ pend) pend .next 1 = .ok (after ++ pend) := by
    rw [altEnd, enabled, isStop]
    rfl
  have reads : c.pattern equalTo (c.altOpen :: r) =
      alternatives equalTo (tokens c equalTo (front ++ [c.altClose]))
        (c.pattern equalTo after) := by
    rw [pattern_cons notEscape absent, token_altOpen distinct enabled, parse_group found, cut,
      Cards.pattern]
  have lengths : r.length = front.length + (after.length + 1) := by
    rw [isText, List.length_append, List.length_cons]
  have closed := (Token.scan_split found).2
  rw [← cut] at closed
  have length : (front ++ [c.altClose]).length = front.length + 1 := by simp
  obtain ⟨p1end, isSub, agrees⟩ := @matchAlt_runs _ _ _ c equalTo pend s part calls distinct enabled
    (front ++ [c.altClose]) after (parts after (by omega))
    (fun shorter less => parts shorter (by omega)) ⟨front, rfl⟩ ⟨_, _, closed⟩ (by
      rw [List.length_cons] at enough
      omega)
  have whole : r ++ pend = front ++ [c.altClose] ++ (after ++ pend) := by
    rw [isText]
    simp
  rw [reads, List.cons_append, detailMatch_char notAny notSingle notEscape, setAt_range, absent,
    isAlt, isEnd]
  simp only [Except.bind, Option.isSome_none, Bool.false_eq_true, if_false, if_true]
  rw [whole, isSub]
  exact agrees

/-- A character that starts nothing stands for itself. -/
theorem runs_literal (notAny : char ≠ c.anything) (notSingle : char ≠ c.single)
    (plain : char ≠ c.escape) (absent : setBehind c char r = none)
    (noGroup : ¬ ((c.altEnabled ∧ char = c.altOpen) ∧
      (Token.scan false 1 (tokens c equalTo r)).isSome)) (rest : Runs c equalTo r) :
    Runs c equalTo (char :: r) := by
  have reads : c.pattern equalTo (char :: r) = .one (equalTo · char) (c.pattern equalTo r) := by
    rw [pattern_cons plain absent, token, if_neg notAny, if_neg notSingle]
    split
    next opens =>
      have nothing : Token.scan false 1 (tokens c equalTo r) = none := by
        simpa [opens] using noGroup
      rw [parse]
      split
      next found => cases nothing.symm.trans found
      next => rfl
    next =>
      split
      next => rw [parse, Cards.pattern]
      next => split <;> rw [parse, Cards.pattern]
  intro pend s part calls enough
  obtain ⟨calls, rfl⟩ := Nat.exists_eq_succ_of_ne_zero (Nat.ne_zero_of_lt enough)
  have isAlt := @altAt_range _ _ _ c equalTo char r pend distinct
  have none' : (decide (c.altEnabled ∧ char = c.altOpen) &&
      (Token.scan false 1 (tokens c equalTo r)).isSome) = false := by
    simpa using noGroup
  rw [none'] at isAlt
  rw [reads, List.cons_append, detailMatch_char notAny notSingle plain, setAt_range, absent, isAlt]
  simp only [Except.bind, Option.isSome_none, Bool.false_eq_true, if_false]
  refine rest.literal ?_
  rw [List.length_cons] at enough
  omega

/-- Every range is matched as its pattern says. -/
theorem runs (r : List α) : Runs c equalTo r := by
  obtain ⟨notSingle, notEscape, notEscape', -⟩ := distinct.wildcards
  induction isLength : r.length using Nat.strong_induction_on generalizing r with
  | _ length ih =>
    subst isLength
    have shorter (other : List α) (less : other.length < r.length) : Runs c equalTo other :=
      ih other.length less other rfl
    cases r with
    | nil => exact runs_nil
    | cons char r =>
        have rest := shorter r (Nat.lt_succ_self _)
        by_cases isAny : char = c.anything
        · exact isAny ▸ runs_anything distinct rest
        by_cases isSingle : char = c.single
        · exact isSingle ▸ runs_single distinct rest
        by_cases isEscape : char = c.escape
        · cases r with
          | nil => exact isEscape ▸ runs_escape_nil distinct
          | cons escaped r =>
              have behind := shorter r (Nat.lt_succ_of_lt (Nat.lt_succ_self _))
              exact isEscape ▸ runs_escape distinct behind
        cases isSet : setBehind c char r with
        | some found =>
            obtain ⟨set, after⟩ := found
            exact runs_set isAny isSingle isEscape isSet (shorter after (setBehind_length isSet))
        | none =>
            by_cases isGroup : (c.altEnabled ∧ char = c.altOpen) ∧
                (Token.scan false 1 (tokens c equalTo r)).isSome
            · obtain ⟨⟨enabled, rfl⟩, group⟩ := isGroup
              exact runs_alt distinct enabled isSet group fun other less =>
                shorter other (Nat.lt_succ_of_le less)
            · exact runs_literal distinct isAny isSingle isEscape isSet isGroup rest

end Calls

/-! ## Whole texts -/

theorem wildcardsMatch_run (distinct : c.Distinct) (sequence : List σ) (pattern : List α) :
    ∃ result, wildcardsMatch c equalTo sequence pattern = .ok result ∧
      result.res = ((c.pattern equalTo pattern).run false sequence).isSome ∧
      ∀ left ∈ (c.pattern equalTo pattern).run false sequence, result.s1 = left := by
  obtain ⟨result, isResult, found, left⟩ := @runs _ _ _ c equalTo distinct pattern [] sequence false
    (2 * (sequence.length + pattern.length) + 1) (Nat.lt_succ_self _)
  rw [List.append_nil] at isResult
  refine ⟨makeFullMatchResult sequence [] pattern [] result, ?_, found, left⟩
  rw [wildcardsMatch, isResult]
  rfl

/-- The text in which each character stands for itself. -/
def Cards.quote (c : Cards α) (name : List α) : List α :=
  name.flatMap fun char => [c.escape, char]

theorem pattern_quote (char : α) (name pattern : List α) :
    c.pattern equalTo (c.quote (char :: name) ++ pattern) =
      .one (equalTo · char) (c.pattern equalTo (c.quote name ++ pattern)) := by
  have split : c.quote (char :: name) ++ pattern =
      c.escape :: char :: (c.quote name ++ pattern) := rfl
  rw [split, Cards.pattern, tokens_escape, parse, Cards.pattern]

/-- A quoted name is read in front of the rest. -/
theorem run_quote (sequence : List σ) (name pattern : List α) :
    ((c.pattern equalTo (c.quote name ++ pattern)).run false sequence).isSome ↔
      ∃ front behind, sequence = front ++ behind ∧
        List.Forall₂ (fun symbol char => equalTo symbol char) front name ∧
        ((c.pattern equalTo pattern).run false behind).isSome := by
  induction name generalizing sequence with
  | nil =>
      constructor
      · exact fun found => ⟨[], sequence, rfl, .nil, found⟩
      · rintro ⟨front, behind, rfl, equal, found⟩
        cases equal
        exact found
  | cons char name ih =>
      rw [pattern_quote]
      constructor
      · intro found
        cases sequence with
        | nil => cases found
        | cons symbol sequence =>
            rw [Pattern.run_one_cons] at found
            split at found
            next equal =>
              obtain ⟨front, behind, rfl, equals, found⟩ := (ih sequence).mp found
              exact ⟨symbol :: front, behind, rfl, .cons equal equals, found⟩
            next => cases found
      · rintro ⟨front, behind, rfl, equals, found⟩
        cases equals with
        | @cons symbol _ front _ equal equals =>
            rw [List.cons_append, Pattern.run_one_cons, if_pos equal]
            exact (ih _).mpr ⟨front, behind, rfl, equals, found⟩

end Reading

/-- Matching always ends, without an exception and without an access behind the end. It
finds what a run of the pattern finds, hence only words of its language, and all of them
where the alternatives can match in one way only. -/
theorem wildcardsMatch_language {α σ : Type} [DecidableEq α] {c : Cards α}
    (distinct : c.Distinct) (equalTo : σ → α → Bool) (sequence : List σ) (pattern : List α) :
    ∃ result, wildcardsMatch c equalTo sequence pattern = .ok result ∧
      result.res = ((c.pattern equalTo pattern).run false sequence).isSome ∧
      (result.res → result.s1 = [] ∧ sequence ∈ (c.pattern equalTo pattern).language) ∧
      ((c.pattern equalTo pattern).Rigid → sequence ∈ (c.pattern equalTo pattern).language →
        result.res) := by
  obtain ⟨result, isResult, found, left⟩ :=
    @wildcardsMatch_run _ _ _ c equalTo distinct sequence pattern
  refine ⟨result, isResult, found, fun res => ?_, fun rigid member => ?_⟩
  · rw [found] at res
    obtain ⟨rest, isRest⟩ := Option.isSome_iff_exists.mp res
    obtain ⟨⟨word, member, rfl⟩, ends⟩ := Pattern.run_sound isRest
    obtain rfl := ends rfl
    exact ⟨left [] isRest, by rwa [List.append_nil]⟩
  · rw [found]
    exact (Pattern.isSome_run_iff rigid).mpr member

/-- Both alternatives have words of one length, and the second one matches. -/
theorem wildcardsMatch_language_char :
    ((Cards.char .extended).pattern charEqualTo (text "(a|ab)c")).Uniform = true ∧
    ∃ result, wildcardsMatch (Cards.char .extended) charEqualTo (text "abc") (text "(a|ab)c") =
        .ok result ∧
      result.res = (((Cards.char .extended).pattern charEqualTo (text "(a|ab)c")).run false
        (text "abc")).isSome ∧
      (result.res → result.s1 = [] ∧
        text "abc" ∈ ((Cards.char .extended).pattern charEqualTo (text "(a|ab)c")).language) ∧
      (((Cards.char .extended).pattern charEqualTo (text "(a|ab)c")).Rigid →
        text "abc" ∈ ((Cards.char .extended).pattern charEqualTo (text "(a|ab)c")).language →
          result.res) :=
  ⟨by decide +kernel, wildcardsMatch_language (by decide) _ _ _⟩

/-- An alternative with a wildcard takes as little as it can, for good. -/
example : ((wildcardsMatch (Cards.char .extended) charEqualTo (text "abc")
    (text "(*)c")).toOption.map FullMatchResult.res) = some false := by
  decide +kernel

/-- A quoted name matches itself only, in front of any pattern. -/
theorem wildcardsMatch_quote {α σ : Type} [DecidableEq α] {c : Cards α}
    (distinct : c.Distinct) (equalTo : σ → α → Bool) (sequence : List σ) (name pattern : List α) :
    ∃ result, wildcardsMatch c equalTo sequence (c.quote name ++ pattern) = .ok result ∧
      (result.res ↔ ∃ front behind matched, sequence = front ++ behind ∧
        List.Forall₂ (fun symbol char => equalTo symbol char) front name ∧
        wildcardsMatch c equalTo behind pattern = .ok matched ∧ matched.res) := by
  obtain ⟨result, isResult, found, -⟩ :=
    @wildcardsMatch_run _ _ _ c equalTo distinct sequence (c.quote name ++ pattern)
  refine ⟨result, isResult, ?_⟩
  rw [found, run_quote]
  constructor
  · rintro ⟨front, behind, rfl, equals, isRun⟩
    obtain ⟨matched, isMatched, found', -⟩ :=
      @wildcardsMatch_run _ _ _ c equalTo distinct behind pattern
    exact ⟨front, behind, matched, rfl, equals, isMatched, found' ▸ isRun⟩
  · rintro ⟨front, behind, matched, rfl, equals, isMatched, res⟩
    obtain ⟨matched', isMatched', found', -⟩ :=
      @wildcardsMatch_run _ _ _ c equalTo distinct behind pattern
    obtain rfl := Except.ok.inj (isMatched.symm.trans isMatched')
    exact ⟨front, behind, rfl, equals, found' ▸ res⟩

/-- The name of a file that looks like a pattern. -/
theorem wildcardsMatch_quote_char :
    ∃ result, wildcardsMatch (Cards.char .extended) charEqualTo (text "a*(1)")
        ((Cards.char .extended).quote (text "a*(1)") ++ []) = .ok result ∧
      (result.res ↔ ∃ front behind matched, text "a*(1)" = front ++ behind ∧
        List.Forall₂ (fun symbol char => charEqualTo symbol char) front (text "a*(1)") ∧
        wildcardsMatch (Cards.char .extended) charEqualTo behind [] = .ok matched ∧
          matched.res) :=
  wildcardsMatch_quote (by decide) _ _ _ _

end Cdcm.Wildcards

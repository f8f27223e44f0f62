import Cdcm.Lib.Lease
import Cdcm.SessionsCache.Interleaving
import Cdcm.SessionsCache.Refinement

/-!
# The life of a session

From its log-in on a session is held like a lease: every use renews it, closing it or
another log-in to its remote revokes it, and a cleaning sweeps it away when it has been
idle for too long.  An expired session that no cleaning has met is still found, and
comes back to life by that.
-/

namespace Cdcm.SessionsCache

open OrderedIndex MultiIndex Machine

section Lifetime

variable (uuidText : UuidText)

/-- What an operation of the cache does to the lease of a session. -/
def Op.lease (idle : Nat) (session : Session) : Op → List (Lease.Event Int)
  | .add now added =>
      if added = session then [.grant (now + idle)]
      else if added.idstr uuidText = session.idstr uuidText ∨ added.remote = session.remote then
        [.revoke]
      else []
  | .get tag now key | .touch tag now key =>
      if session.keyOf uuidText tag = key then [.renew (now + idle)] else []
  | .removeById ids => if ids = session.idstr uuidText then [.revoke] else []
  | .clean now => [.sweep fun expiry => expiry < now]

/-- Up to when a map holds a session. -/
def SessionMap.heldUntil (map : SessionMap) (session : Session) : Option Int :=
  ((map (session.idstr uuidText)).filter fun entry => entry.session = session).map Entry.expiry

variable {uuidText} {idle : Nat}

theorem Entry.keyOf_eq (entry : Entry) (tag : KeyTag) :
    entry.keyOf uuidText tag = entry.session.keyOf uuidText tag := by
  cases tag <;> rfl

/-- An operation does to a session of the map what it does to its lease. -/
theorem SessionMap.heldUntil_apply (map : SessionMap) (session : Session) (op : Op) :
    (map.apply uuidText idle op).heldUntil uuidText session =
      Lease.run (map.heldUntil uuidText session) (op.lease uuidText idle session) := by
  have touches : ∀ tag now key,
      (((map (session.idstr uuidText)).map fun entry =>
          if entry.keyOf uuidText tag = key then { entry with expiry := now + idle }
          else entry).filter fun entry => entry.session = session).map Entry.expiry =
        Lease.run (map.heldUntil uuidText session)
          (if session.keyOf uuidText tag = key then [.renew (now + idle)] else []) := by
    intro tag now key
    rw [SessionMap.heldUntil]
    cases found : map (session.idstr uuidText) with
    | none => split <;> rfl
    | some entry =>
        rw [Option.map_some, Entry.keyOf_eq]
        by_cases same : entry.session = session
        · rw [same]
          split <;> simp [Option.filter_some, same, Lease.step]
        · split <;> split <;> simp [Option.filter_some, same, Lease.step]
  cases op with
  | add now added =>
      rw [SessionMap.heldUntil, SessionMap.heldUntil, SessionMap.apply, Op.lease]
      by_cases same : added = session
      · simp [same, Option.filter_some, Lease.step]
      · rw [if_neg same]
        by_cases sameId : added.idstr uuidText = session.idstr uuidText
        · simp [sameId, same, Option.filter_some, Lease.step]
        · rw [if_neg (Ne.symm sameId)]
          cases found : map (session.idstr uuidText) with
          | none => split <;> rfl
          | some entry =>
              by_cases isSession : entry.session = session
              · by_cases sameRemote : added.remote = session.remote
                · simp [isSession, sameRemote, Option.filter_some, Lease.step]
                · simp [isSession, sameId, sameRemote, Ne.symm sameRemote, Option.filter_some]
              · by_cases sameRemote : entry.session.remote = added.remote <;>
                  split <;> simp [Option.filter_some, isSession, sameRemote, Lease.step]
  | get tag now key => exact touches tag now key
  | touch tag now key => exact touches tag now key
  | removeById ids =>
      rw [SessionMap.heldUntil, SessionMap.heldUntil, SessionMap.apply, Op.lease]
      by_cases same : ids = session.idstr uuidText
      · simp [same, Lease.step]
      · rw [if_neg (Ne.symm same), if_neg same]
        rfl
  | clean now =>
      rw [SessionMap.heldUntil, SessionMap.heldUntil, SessionMap.apply, Op.lease]
      cases found : map (session.idstr uuidText) with
      | none => rfl
      | some entry =>
          by_cases isSession : entry.session = session <;>
            by_cases late : entry.expiry < now <;>
              simp [Option.filter_some, isSession, late, Lease.step, not_lt.mp, not_le.mpr]

/-- What operations do to the lease of a session, one after the other. -/
def leaseHistory (uuidText : UuidText) (idle : Nat) (session : Session) (ops : List Op) :
    List (Lease.Event Int) :=
  ops.flatMap (Op.lease uuidText idle session)

/-- A map that executes operations holds the leases that they make. -/
theorem SessionMap.heldUntil_foldl (session : Session) (ops : List Op) :
    (ops.foldl (SessionMap.apply uuidText idle) SessionMap.empty).heldUntil uuidText session =
      Lease.run none (leaseHistory uuidText idle session ops) := by
  induction ops using List.reverseRecOn with
  | nil => rfl
  | append_singleton ops op ih =>
      rw [List.foldl_concat, SessionMap.heldUntil_apply, ih, leaseHistory, leaseHistory,
        List.flatMap_append, Lease.run_append, List.flatMap_singleton]

/-- A represented map holds the session under each of its keys when it holds it. -/
theorem Represents.holds_iff {cache : SharedMemSessionsCache} {map : SessionMap}
    (represents : Represents uuidText cache map) (session : Session) (tag : KeyTag) :
    map.Holds uuidText tag (session.keyOf uuidText tag) session ↔
      (map.heldUntil uuidText session).isSome = true := by
  rw [SessionMap.heldUntil, Option.isSome_map, Option.isSome_iff_exists]
  simp only [Option.filter_eq_some_iff, decide_eq_true_iff]
  constructor
  · rintro ⟨id, entry, found, -, rfl⟩
    exact ⟨entry, represents.idstr_eq found ▸ found, rfl⟩
  · rintro ⟨entry, found, rfl⟩
    exact ⟨_, entry, found, entry.keyOf_eq tag, rfl⟩

/-- The id of a session that is alive behind these operations: it has been logged in, has
neither been closed nor replaced by another log-in since, and no cleaning since has come
later than the idle time after its last use. -/
def LiveId (uuidText : UuidText) (idle : Nat) (ops : List Op) (id : ByteString) : Prop :=
  ∃ session : Session, session.idstr uuidText = id ∧
    ∃ expiry, Lease.Granted (leaseHistory uuidText idle session ops) expiry

/-- The life of a session: after any sequence of whole operations with fresh ids, each of
which reads its key and gets its memory, a look-up of a session under its id or its remote
finds it exactly if it has been logged in, has neither been closed nor replaced by another
log-in since, and no cleaning since has come later than the idle time after its last use. -/
theorem found_iff_leased (lawful : uuidText.Lawful) {ops : List Op}
    {cache : SharedMemSessionsCache}
    (run : Run (step uuidText)
      (fun state op => FreshId uuidText state op ∧ ReadsKeys state op) (.empty idle) ops cache)
    (session : Session) (tag : KeyTag) (now : Int)
    (reads : cache.ReadsKey tag (session.keyOf uuidText tag)) :
    (cache.getSessionBy uuidText tag now (session.keyOf uuidText tag)).2 = some session ↔
      ∃ expiry, Lease.Granted (leaseHistory uuidText idle session ops) expiry := by
  obtain ⟨_, represents⟩ := represents_run run
  have answers : (ops.foldl (SessionMap.apply uuidText idle) SessionMap.empty).Answers uuidText
      (.get tag now (session.keyOf uuidText tag))
      (perform uuidText cache (.get tag now (session.keyOf uuidText tag))).2 :=
    represents.answers lawful reads
  obtain ⟨found, output, holds⟩ := answers
  have isFound : (cache.getSessionBy uuidText tag now (session.keyOf uuidText tag)).2 = found :=
    Output.session.inj output
  rw [isFound, holds, represents.holds_iff, SessionMap.heldUntil_foldl, Lease.isSome_run_iff]

/-- A session of a log-in to `h`. -/
def aliceSession : Session := ⟨1, text "h", ⟨[], text "alice", text "a", []⟩⟩

/-- Used 50 seconds after the log-in, the session outlives a cleaning at 100. -/
theorem found_iff_leased_used :
    ∃ cache, Run (step .canonical)
        (fun state op => FreshId .canonical state op ∧ ReadsKeys state op) (.empty 60)
        [.add 0 aliceSession, .get .remote 50 (text "h"), .clean 100] cache ∧
      (cache.getSessionBy .canonical .remote 101 (text "h")).2 = some aliceSession ∧
      ∃ expiry, Lease.Granted (leaseHistory .canonical 60 aliceSession
        [.add 0 aliceSession, .get .remote 50 (text "h"), .clean 100]) expiry := by
  refine (Run.exists_of_exec (fun cache : SharedMemSessionsCache =>
      decide (cache.ReadsKey .remote (text "h")) &&
        decide ((cache.getSessionBy .canonical .remote 101 (text "h")).2 = some aliceSession))
    (by decide +kernel)).imp fun cache ⟨run, checked⟩ => ⟨run, ?_⟩
  rw [Bool.and_eq_true, decide_eq_true_iff, decide_eq_true_iff] at checked
  exact ⟨checked.2, (found_iff_leased UuidText.canonical_lawful run aliceSession .remote 101
    checked.1).mp checked.2⟩

end Lifetime

end Cdcm.SessionsCache

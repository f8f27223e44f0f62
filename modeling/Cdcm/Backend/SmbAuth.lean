import Cdcm.SessionsCache.Interleaving

/-!
# Authentication of SMB actions

A worker looks up the session of an action by its id, and libsmbclient then asks
`smbc_auth_fn` for credentials, which looks a session up again, by the server.  Both
look-ups take two regions of the cache, and other processes may enter theirs at any
point.
-/

namespace Cdcm.Backend

open OrderedIndex MultiIndex Machine SessionsCache

/-- The buffers of the callback, each of the size that goes with it. -/
structure AuthBuffers where
  workgroup : ByteString
  username : ByteString
  password : ByteString
  deriving DecidableEq, Repr

/-- `strncpy` of a C string into a buffer, with one byte less than it holds. -/
def strncpy (buffer source : ByteString) : ByteString :=
  let size := buffer.length - 1
  let copied := (cStr source).take size
  copied ++ List.replicate (size - copied.length) 0 ++ buffer.drop size

/-- What `smbc_auth_fn` copies of the credentials of a session. -/
def AuthBuffers.fill (buffers : AuthBuffers) (creds : Credentials) : AuthBuffers where
  workgroup := strncpy buffers.workgroup
    (if creds.username = [] then text "WORKGROUP" else creds.domain)
  username := strncpy buffers.username creds.username
  password := strncpy buffers.password creds.password

/-- Where the worker is in an action. -/
inductive SmbPhase where
  | idle
  | gettingSession (iterator : Nat)
  | acting (sess : Session)
  | authenticating (sess : Session) (buffers : AuthBuffers) (iterator : Nat)
  deriving DecidableEq, Repr

/-- What the callback handed out, and the session that the action has. -/
structure HandedOut where
  sess : Session
  buffers : AuthBuffers
  deriving DecidableEq, Repr

/-- A worker beside the processes that use the cache. The callback crashes when it
dereferences a session that is missing. -/
structure SmbWorker where
  shared : Shared
  phase : SmbPhase
  handedOut : List HandedOut
  crashed : Bool

/-- The steps: a region of another process, the two of `get_session`, the two of
`smbc_auth_fn`, and the end of the action. -/
inductive SmbEvent where
  | other (region : Region)
  | getSession (sessionId : ByteString)
  | act (now : Int)
  | auth (buffers : AuthBuffers)
  | fill (now : Int)
  | finish

namespace SmbWorker

variable (uuidText : UuidText)

/-- A worker that has no action, beside a new cache. -/
def start (sessionIdleTimeout : Nat) : SmbWorker :=
  ⟨.start sessionIdleTimeout, .idle, [], false⟩

/-- The second region of a look-up. An iterator without an element is undefined. -/
def updateAt (worker : SmbWorker) (now : Int) (iterator : Nat) :
    Option (SmbWorker × Option Session) := do
  let node ← worker.shared.cache.map.at? iterator
  let (cache, sess) := worker.shared.cache.update uuidText now node
  return ({ worker with shared := { worker.shared with cache := cache } }, sess)

/-- `smbc_auth_fn` behind its look-up. A null session is dereferenced. -/
def copyCredentials (worker : SmbWorker) (sess : Session) (buffers : AuthBuffers) :
    Option Session → SmbWorker
  | none => { worker with crashed := true }
  | some found =>
      if found.uuid = 0 then { worker with phase := .acting sess }
      else { worker with
        phase := .acting sess
        handedOut := worker.handedOut ++ [⟨sess, buffers.fill found.creds⟩] }

/-- One step. -/
def step (worker : SmbWorker) (event : SmbEvent) : Option SmbWorker :=
  match event, worker.phase with
  | .other region, _ => do
      let shared ← worker.shared.step uuidText region
      return { worker with shared := shared }
  | .getSession sessionId, .idle =>
      match worker.shared.cache.find .id sessionId with
      | none => some worker
      | some node => some { worker with phase := .gettingSession node.addr }
  | .act now, .gettingSession iterator => do
      let (worker, sess) ← worker.updateAt uuidText now iterator
      match sess with
      | some sess =>
          if sess.uuid = 0 then return { worker with phase := .idle }
          else return { worker with phase := .acting sess }
      | none => return { worker with phase := .idle }
  | .auth buffers, .acting sess =>
      match worker.shared.cache.find .remote (cStr sess.remote) with
      | none => some (worker.copyCredentials sess buffers none)
      | some node => some { worker with phase := .authenticating sess buffers node.addr }
  | .fill now, .authenticating sess buffers iterator =>
      match worker.updateAt uuidText now iterator with
      | none => some { worker with crashed := true }
      | some (worker, found) => some (worker.copyCredentials sess buffers found)
  | .finish, .acting _ => some { worker with phase := .idle }
  | _, _ => none

/-- A region logs in to a remote again, with the same credentials. -/
def Renews (shared : Shared) (sess : Session) : Region → Prop
  | .add _ allocation session =>
      allocation = .succeeds ∧ 0 ∉ session.remote ∧
        shared.cache.map.lookup Tag.id (session.idstr uuidText) = none ∧
        session.remote = sess.remote ∧ session.creds = sess.creds
  | _ => False

/-- A region of another process leaves the action its session. -/
def Leaves (worker : SmbWorker) (region : Region) : Prop :=
  match worker.phase with
  | .idle => True
  | .gettingSession iterator | .authenticating _ _ iterator =>
      ∀ node ∈ worker.shared.erased region, node.addr ≠ iterator
  | .acting sess =>
      Renews uuidText worker.shared sess region ∨
        ∀ node ∈ worker.shared.erased region, node.val.session.remote ≠ sess.remote

/-- A buffer holds a string: it is a C string, and there is room for its end. -/
def Holds (buffer source : ByteString) : Prop :=
  0 ∉ source ∧ (source.length < buffer.length - 1 ∨
    source.length = buffer.length - 1 ∧ buffer.getLast? = some 0)

/-- The buffers hold the credentials, and there is a name to hand out. -/
structure HoldsCredentials (buffers : AuthBuffers) (creds : Credentials) : Prop where
  username : creds.username ≠ []
  holdsDomain : Holds buffers.workgroup creds.domain
  holdsUsername : Holds buffers.username creds.username
  holdsPassword : Holds buffers.password creds.password

/-- A step leaves the action its session, and the callback can look it up by its remote
and copy its credentials. -/
def Bound (worker : SmbWorker) (event : SmbEvent) : Prop :=
  match event with
  | .other region => worker.Leaves uuidText region
  | .auth buffers =>
      match worker.phase with
      | .acting sess => 0 ∉ sess.remote ∧ HoldsCredentials buffers sess.creds
      | _ => True
  | _ => True

instance (buffer source : ByteString) : Decidable (Holds buffer source) :=
  inferInstanceAs (Decidable (0 ∉ source ∧ (source.length < buffer.length - 1 ∨
    source.length = buffer.length - 1 ∧ buffer.getLast? = some 0)))

instance (buffers : AuthBuffers) (creds : Credentials) :
    Decidable (HoldsCredentials buffers creds) :=
  decidable_of_iff (creds.username ≠ [] ∧ Holds buffers.workgroup creds.domain ∧
      Holds buffers.username creds.username ∧ Holds buffers.password creds.password)
    ⟨fun ⟨named, domain, username, password⟩ => ⟨named, domain, username, password⟩,
      fun ⟨named, domain, username, password⟩ => ⟨named, domain, username, password⟩⟩

instance (shared : Shared) (sess : Session) (region : Region) :
    Decidable (Renews uuidText shared sess region) :=
  match region with
  | .add _ allocation session =>
      inferInstanceAs (Decidable (allocation = .succeeds ∧ 0 ∉ session.remote ∧
        shared.cache.map.lookup Tag.id (session.idstr uuidText) = none ∧
        session.remote = sess.remote ∧ session.creds = sess.creds))
  | .lookup .. | .update .. | .removeById _ | .flushAllEntries | .tillNow _ | .eraseTill =>
      inferInstanceAs (Decidable False)

instance (worker : SmbWorker) (region : Region) : Decidable (worker.Leaves uuidText region) :=
  match worker with
  | ⟨_, .idle, _, _⟩ => inferInstanceAs (Decidable True)
  | ⟨shared, .gettingSession iterator, _, _⟩ | ⟨shared, .authenticating _ _ iterator, _, _⟩ =>
      inferInstanceAs (Decidable (∀ node ∈ shared.erased region, node.addr ≠ iterator))
  | ⟨shared, .acting sess, _, _⟩ =>
      inferInstanceAs (Decidable (Renews uuidText shared sess region ∨
        ∀ node ∈ shared.erased region, node.val.session.remote ≠ sess.remote))

instance (worker : SmbWorker) (event : SmbEvent) : Decidable (worker.Bound uuidText event) :=
  match event, worker with
  | .other region, worker => inferInstanceAs (Decidable (worker.Leaves uuidText region))
  | .auth buffers, ⟨_, .acting sess, _, _⟩ =>
      inferInstanceAs (Decidable (0 ∉ sess.remote ∧ HoldsCredentials buffers sess.creds))
  | .auth _, ⟨_, .idle, _, _⟩ | .auth _, ⟨_, .gettingSession _, _, _⟩
  | .auth _, ⟨_, .authenticating .., _, _⟩ => inferInstanceAs (Decidable True)
  | .getSession _, _ | .act _, _ | .fill _, _ | .finish, _ => inferInstanceAs (Decidable True)

/-- The buffers read as the credentials. -/
structure Reads (buffers : AuthBuffers) (creds : Credentials) : Prop where
  domain : cStr buffers.workgroup = creds.domain
  username : cStr buffers.username = creds.username
  password : cStr buffers.password = creds.password

variable {uuidText} {worker next : SmbWorker}

/-- A string that a buffer holds can be read back. -/
theorem cStr_strncpy {buffer source : ByteString} (holds : Holds buffer source) :
    cStr (strncpy buffer source) = source := by
  obtain ⟨nulFree, room⟩ := holds
  have whole : (cStr source).take (buffer.length - 1) = source := by
    rw [cStr_of_zero_not_mem nulFree]
    apply List.take_of_length_le
    omega
  have passes : ∀ byte ∈ source, decide (byte ≠ 0) = true := by
    intro byte member
    have nonzero : byte ≠ 0 := fun equal => nulFree (equal ▸ member)
    simpa using nonzero
  rw [strncpy]
  simp only [whole]
  rw [List.append_assoc, cStr, List.takeWhile_append_of_pos passes]
  rcases room with short | ⟨exactly, endsNul⟩
  · obtain ⟨rest, isRest⟩ := Nat.exists_eq_succ_of_ne_zero
      (Nat.sub_pos_of_lt short).ne'
    rw [isRest, List.replicate_succ]
    simp
  · rcases List.eq_nil_or_concat' buffer with rfl | ⟨init, last, rfl⟩
    · contradiction
    · obtain rfl : last = 0 := by simpa using endsNul
      have isLast : (init ++ [(0 : Byte)]).drop ((init ++ [(0 : Byte)]).length - 1) = [0] := by
        simp
      rw [isLast, exactly, Nat.sub_self]
      simp

theorem reads_fill {buffers : AuthBuffers} {creds : Credentials}
    (holds : HoldsCredentials buffers creds) : Reads (buffers.fill creds) creds := by
  constructor
  · rw [AuthBuffers.fill, if_neg holds.username]
    exact cStr_strncpy holds.holdsDomain
  · exact cStr_strncpy holds.holdsUsername
  · exact cStr_strncpy holds.holdsPassword

/-! ## A session that stays -/

/-- An element holds the credentials of a session under its remote. -/
def Serves (node : Node SharedMemSessionElement) (sess : Session) : Prop :=
  node.val.session.remote = sess.remote ∧ node.val.session.creds = sess.creds

/-- What the worker relies on between its steps. -/
def PhaseHolds (worker : SmbWorker) : Prop :=
  match worker.phase with
  | .idle => True
  | .gettingSession iterator => ∃ node ∈ worker.shared.cache.map, node.addr = iterator
  | .acting sess => ∃ node ∈ worker.shared.cache.map, Serves node sess
  | .authenticating sess buffers iterator =>
      HoldsCredentials buffers sess.creds ∧
        ∃ node ∈ worker.shared.cache.map, node.addr = iterator ∧ Serves node sess

/-- Every element is a session, and what was handed out are the credentials of its
action's session. -/
structure Authorised (uuidText : UuidText) (worker : SmbWorker) : Prop where
  sessions : ∀ node ∈ worker.shared.cache.map, ∃ session,
    node.val.session = toShared uuidText session
  phaseHolds : worker.PhaseHolds
  handedOut : ∀ handed ∈ worker.handedOut, Reads handed.buffers handed.sess.creds
  running : worker.crashed = false

/-- A region that leaves the action its session keeps what the worker relies on. -/
theorem phaseHolds_other {region : Region} {shared : Shared}
    (holds : worker.PhaseHolds) (leaves : worker.Leaves uuidText region)
    (stepped : worker.shared.step uuidText region = some shared) :
    PhaseHolds { worker with shared := shared } := by
  cases inPhase : worker.phase with
  | idle => simp only [PhaseHolds]
  | gettingSession iterator =>
      simp only [PhaseHolds, Leaves, inPhase] at holds leaves ⊢
      obtain ⟨node, stored, rfl⟩ := holds
      obtain ⟨kept, isKept, sameAddr, _⟩ := Shared.step_kept stepped stored leaves
      exact ⟨kept, isKept, sameAddr⟩
  | acting sess =>
      simp only [PhaseHolds, Leaves, inPhase] at holds leaves ⊢
      obtain ⟨node, stored, sameRemote, sameCreds⟩ := holds
      rcases leaves with renews | spares
      · cases region with
        | add now allocation session =>
            obtain ⟨rfl, nulFree, newId, isRemote, isCreds⟩ := renews
            obtain rfl := Option.some.inj stepped
            have added := SharedMemSessionsCache.lookup_add now newId
              (.of_nulFree nulFree) (session.idstr uuidText)
            rw [if_pos rfl] at added
            obtain ⟨new, isNew, isElement, _⟩ :=
              (Container.lookup_eq_some SharedMemSessionsCache.unique_id).mp added
            refine ⟨new, isNew, ?_⟩
            rw [Serves, isElement]
            exact ⟨isRemote, isCreds⟩
        | lookup _ _ => exact renews.elim
        | update _ _ => exact renews.elim
        | removeById _ => exact renews.elim
        | flushAllEntries => exact renews.elim
        | tillNow _ => exact renews.elim
        | eraseTill => exact renews.elim
      · have stays : ∀ other ∈ worker.shared.erased region, other.addr ≠ node.addr := by
          intro other isErased same
          obtain rfl := Container.eq_of_addr_eq (Shared.mem_of_erased isErased) stored same
          exact spares other isErased sameRemote
        obtain ⟨kept, isKept, _, sameSession⟩ := Shared.step_kept stepped stored stays
        refine ⟨kept, isKept, ?_⟩
        rw [Serves, sameSession]
        exact ⟨sameRemote, sameCreds⟩
  | authenticating sess buffers iterator =>
      simp only [PhaseHolds, Leaves, inPhase] at holds leaves ⊢
      obtain ⟨holdsCreds, node, stored, rfl, sameRemote, sameCreds⟩ := holds
      obtain ⟨kept, isKept, sameAddr, sameSession⟩ := Shared.step_kept stepped stored leaves
      refine ⟨holdsCreds, kept, isKept, sameAddr, ?_⟩
      rw [Serves, sameSession]
      exact ⟨sameRemote, sameCreds⟩

/-- The second region of a look-up returns the session of its element, and changes no
session. -/
theorem updateAt_spec (lawful : uuidText.Lawful) (now : Int) {iterator : Nat}
    {node : Node SharedMemSessionElement} {session : Session}
    (isFound : worker.shared.cache.map.at? iterator = some node)
    (isSession : node.val.session = toShared uuidText session) :
    worker.updateAt uuidText now iterator =
      some ({ worker with shared := { worker.shared with
        cache := (worker.shared.cache.update uuidText now node).1 } }, some session) := by
  have converts : (worker.shared.cache.update uuidText now node).2 = some session := by
    rw [SharedMemSessionsCache.update, isSession]
    exact ofShared_toShared uuidText lawful session
  simp only [updateAt, isFound, Option.bind_eq_bind, Option.bind_some]
  rw [converts]
  rfl

/-- The sessions stay sessions over an update. -/
theorem Authorised.sessions_update (authorised : worker.Authorised uuidText) (now : Int)
    {iterator : Nat} {found : Node SharedMemSessionElement}
    (isFound : worker.shared.cache.map.at? iterator = some found) :
    ∀ node ∈ (worker.shared.cache.update uuidText now found).1.map, ∃ session,
      node.val.session = toShared uuidText session := by
  intro node member
  obtain ⟨old, stored, same⟩ := Shared.update_origin uuidText isFound member
  obtain ⟨session, isSession⟩ := authorised.sessions old stored
  exact ⟨session, same.symm.trans isSession⟩

theorem Authorised.step_act (lawful : uuidText.Lawful) (authorised : worker.Authorised uuidText)
    {now : Int} (stepped : worker.step uuidText (.act now) = some next) :
    next.Authorised uuidText := by
  cases inPhase : worker.phase with
  | gettingSession iterator =>
      have holds := authorised.phaseHolds
      simp only [PhaseHolds, inPhase] at holds
      obtain ⟨node, stored, hasAddr⟩ := holds
      have isFound := Container.at?_eq_some.mpr ⟨stored, hasAddr⟩
      obtain ⟨session, isSession⟩ := authorised.sessions node stored
      have sessions := authorised.sessions_update now isFound
      simp only [SmbWorker.step, inPhase, updateAt_spec lawful now isFound isSession,
        Option.bind_eq_bind, Option.bind_some] at stepped
      split at stepped <;> obtain rfl := Option.some.inj stepped
      · exact ⟨sessions, trivial, authorised.handedOut, authorised.running⟩
      · obtain ⟨kept, isKept, _, sameSession⟩ := Shared.update_kept uuidText isFound stored
        refine ⟨sessions, ⟨kept, isKept, ?_⟩, authorised.handedOut, authorised.running⟩
        rw [Serves, sameSession, isSession]
        exact ⟨rfl, rfl⟩
  | idle => simp [SmbWorker.step, inPhase] at stepped
  | acting _ => simp [SmbWorker.step, inPhase] at stepped
  | authenticating _ _ _ => simp [SmbWorker.step, inPhase] at stepped

theorem Authorised.step_auth (authorised : worker.Authorised uuidText)
    {buffers : AuthBuffers} (bound : worker.Bound uuidText (.auth buffers))
    (stepped : worker.step uuidText (.auth buffers) = some next) :
    next.Authorised uuidText := by
  cases inPhase : worker.phase with
  | acting sess =>
      have holds := authorised.phaseHolds
      simp only [PhaseHolds, inPhase] at holds
      obtain ⟨node, stored, sameRemote, sameCreds⟩ := holds
      simp only [Bound, inPhase] at bound
      obtain ⟨nulFree, holdsCreds⟩ := bound
      have hasKey : SharedMemSessionsCache.keyOf .remote node.val = cStr (cStr sess.remote) := by
        rw [cStr_of_zero_not_mem nulFree, cStr_of_zero_not_mem nulFree]
        exact sameRemote
      have found := SharedMemSessionsCache.find_eq_some.mpr ⟨stored, hasKey⟩
      simp only [SmbWorker.step, inPhase, found] at stepped
      obtain rfl := Option.some.inj stepped
      exact ⟨authorised.sessions, ⟨holdsCreds, node, stored, rfl, sameRemote, sameCreds⟩,
        authorised.handedOut, authorised.running⟩
  | idle => simp [SmbWorker.step, inPhase] at stepped
  | gettingSession _ => simp [SmbWorker.step, inPhase] at stepped
  | authenticating _ _ _ => simp [SmbWorker.step, inPhase] at stepped

theorem Authorised.step_fill (lawful : uuidText.Lawful)
    (authorised : worker.Authorised uuidText) {now : Int}
    (stepped : worker.step uuidText (.fill now) = some next) : next.Authorised uuidText := by
  cases inPhase : worker.phase with
  | authenticating sess buffers iterator =>
      have holds := authorised.phaseHolds
      simp only [PhaseHolds, inPhase] at holds
      obtain ⟨holdsCreds, node, stored, hasAddr, sameRemote, sameCreds⟩ := holds
      have isFound := Container.at?_eq_some.mpr ⟨stored, hasAddr⟩
      obtain ⟨session, isSession⟩ := authorised.sessions node stored
      have sessions := authorised.sessions_update now isFound
      have phaseHolds : ∃ kept ∈ (worker.shared.cache.update uuidText now node).1.map,
          Serves kept sess := by
        obtain ⟨kept, isKept, _, sameSession⟩ := Shared.update_kept uuidText isFound stored
        refine ⟨kept, isKept, ?_⟩
        rw [Serves, sameSession]
        exact ⟨sameRemote, sameCreds⟩
      have isCreds : session.creds = sess.creds := by
        rw [isSession] at sameCreds
        exact sameCreds
      simp only [SmbWorker.step, inPhase, updateAt_spec lawful now isFound isSession,
        copyCredentials] at stepped
      split at stepped <;> obtain rfl := Option.some.inj stepped
      · exact ⟨sessions, phaseHolds, authorised.handedOut, authorised.running⟩
      · refine ⟨sessions, phaseHolds, ?_, authorised.running⟩
        intro handed member
        rcases List.mem_append.mp member with old | new
        · exact authorised.handedOut handed old
        · obtain rfl := List.mem_singleton.mp new
          rw [isCreds]
          exact reads_fill holdsCreds
  | idle => simp [SmbWorker.step, inPhase] at stepped
  | gettingSession _ => simp [SmbWorker.step, inPhase] at stepped
  | acting _ => simp [SmbWorker.step, inPhase] at stepped

/-- A step that leaves the action its session keeps it authorised. -/
theorem Authorised.step (lawful : uuidText.Lawful) (authorised : worker.Authorised uuidText)
    {event : SmbEvent} (bound : worker.Bound uuidText event)
    (stepped : worker.step uuidText event = some next) : next.Authorised uuidText := by
  cases event with
  | other region =>
      simp only [SmbWorker.step, Option.bind_eq_bind, Option.bind_eq_some_iff, Option.pure_def,
        Option.some.injEq] at stepped
      obtain ⟨shared, regionStepped, rfl⟩ := stepped
      refine ⟨?_, phaseHolds_other authorised.phaseHolds bound regionStepped,
        authorised.handedOut, authorised.running⟩
      intro node member
      rcases Shared.step_origin regionStepped member with ⟨old, stored, same⟩ | new
      · obtain ⟨session, isSession⟩ := authorised.sessions old stored
        exact ⟨session, same.symm.trans isSession⟩
      · exact new
  | getSession sessionId =>
      cases inPhase : worker.phase with
      | idle =>
          simp only [SmbWorker.step, inPhase] at stepped
          cases found : worker.shared.cache.find .id sessionId with
          | none =>
              rw [found] at stepped
              obtain rfl := Option.some.inj stepped
              exact authorised
          | some node =>
              rw [found] at stepped
              obtain rfl := Option.some.inj stepped
              obtain ⟨stored, _⟩ := SharedMemSessionsCache.find_eq_some.mp found
              exact ⟨authorised.sessions, ⟨node, stored, rfl⟩, authorised.handedOut,
                authorised.running⟩
      | gettingSession _ => simp [SmbWorker.step, inPhase] at stepped
      | acting _ => simp [SmbWorker.step, inPhase] at stepped
      | authenticating _ _ _ => simp [SmbWorker.step, inPhase] at stepped
  | act now => exact authorised.step_act lawful stepped
  | auth buffers => exact authorised.step_auth bound stepped
  | fill now => exact authorised.step_fill lawful stepped
  | finish =>
      cases inPhase : worker.phase with
      | acting sess =>
          simp only [SmbWorker.step, inPhase] at stepped
          obtain rfl := Option.some.inj stepped
          exact ⟨authorised.sessions, trivial, authorised.handedOut, authorised.running⟩
      | idle => simp [SmbWorker.step, inPhase] at stepped
      | gettingSession _ => simp [SmbWorker.step, inPhase] at stepped
      | authenticating _ _ _ => simp [SmbWorker.step, inPhase] at stepped

/-- Along every run in which other processes leave each action its session, the callback
does not crash, and it hands out the credentials of the session of its action. -/
theorem credentials_bound (lawful : uuidText.Lawful) {sessionIdleTimeout : Nat}
    {events : List SmbEvent}
    (run : Run (SmbWorker.step uuidText) (Bound uuidText) (.start sessionIdleTimeout) events
      worker) :
    worker.crashed = false ∧
      ∀ handed ∈ worker.handedOut, Reads handed.buffers handed.sess.creds := by
  have starts : (SmbWorker.start sessionIdleTimeout).Authorised uuidText :=
    ⟨fun node member => absurd member Container.not_mem_empty, trivial,
      fun handed member => absurd member List.not_mem_nil, rfl⟩
  have authorised := run.invariant (Authorised uuidText) starts
    fun state event next holds bound stepped => holds.step lawful bound stepped
  exact ⟨authorised.running, authorised.handedOut⟩

/-- A session of a user at the host `h`. -/
def userSession (user : String) (uuid : Uuid) : Session :=
  ⟨uuid, text "h", ⟨text "dom", text user, text (user ++ "pw"), []⟩⟩

/-- Buffers of sixteen bytes. -/
def zeroBuffers : AuthBuffers :=
  ⟨List.replicate 16 0, List.replicate 16 0, List.replicate 16 0⟩

/-- An action of the session with id 1 asks for credentials, after regions of other
processes. -/
def callbackEvents (between : List Region) : List SmbEvent :=
  [.other (.add 0 .succeeds (userSession "alice" 1)),
    .getSession ((userSession "alice" 1).idstr .canonical), .act 1] ++
    between.map .other ++ [.auth zeroBuffers]

/-- Another host logs in, and then the same user at the same host. -/
def renewingRegions : List Region :=
  [.add 2 .succeeds (Shared.sessionFor "g" 2), .add 2 .succeeds (userSession "alice" 3)]

theorem credentials_bound_renewed :
    ∃ worker, Run (SmbWorker.step .canonical) (Bound .canonical) (.start 60)
        (callbackEvents renewingRegions ++ [.fill 3]) worker ∧ worker.handedOut ≠ [] ∧
      worker.crashed = false ∧
        ∀ handed ∈ worker.handedOut, Reads handed.buffers handed.sess.creds := by
  obtain ⟨worker, run, found⟩ := Run.exists_of_exec
    (fun worker : SmbWorker => decide (worker.handedOut ≠ []))
    (by decide +kernel : (exec (SmbWorker.step .canonical) (Bound .canonical) (.start 60)
      (callbackEvents renewingRegions ++ [.fill 3])).any _ = true)
  exact ⟨worker, run, of_decide_eq_true found,
    credentials_bound UuidText.canonical_lawful run⟩

/-! ### A session that is replaced or closed -/

/-- When another user logs in to the host meanwhile, the action of the first one gets
the credentials of the second. -/
theorem otherLogin_confused :
    ∃ worker, Run (SmbWorker.step .canonical) Unguarded (.start 60)
        (callbackEvents [.add 2 .succeeds (userSession "bob" 2)] ++ [.fill 3]) worker ∧
      ∃ handed ∈ worker.handedOut, handed.sess.creds = (userSession "alice" 1).creds ∧
        Reads handed.buffers (userSession "bob" 2).creds ∧
        ¬ Reads handed.buffers handed.sess.creds := by
  obtain ⟨worker, run, found⟩ := Run.exists_of_exec
    (fun worker : SmbWorker => decide (worker.handedOut =
      [⟨userSession "alice" 1, zeroBuffers.fill (userSession "bob" 2).creds⟩]))
    (by decide +kernel : (exec (SmbWorker.step .canonical) Unguarded (.start 60)
      (callbackEvents [.add 2 .succeeds (userSession "bob" 2)] ++ [.fill 3])).any _ = true)
  refine ⟨worker, run, ⟨userSession "alice" 1, zeroBuffers.fill (userSession "bob" 2).creds⟩,
    ?_, rfl, reads_fill (by decide), ?_⟩
  · rw [of_decide_eq_true found]
    exact List.mem_singleton_self _
  · intro reads
    exact absurd reads.username (by decide)

/-- When the session is closed meanwhile, the callback dereferences a null pointer. -/
theorem closedSession_crashes :
    ∃ worker, Run (SmbWorker.step .canonical) Unguarded (.start 60)
        (callbackEvents [.removeById ((userSession "alice" 1).idstr .canonical)]) worker ∧
      worker.crashed = true :=
  Run.exists_of_exec SmbWorker.crashed (by decide +kernel)

end SmbWorker

end Cdcm.Backend

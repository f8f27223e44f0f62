import Cdcm.Frontend.WorkerContainer

/-!
# The worker store as a finite map

What the broker means by its worker store: a map from identities to an expiry, a
session and a flag.  The store refines the map over every sequence of its
operations, and its queries are queries of the map.
-/

namespace Cdcm.Frontend

open OrderedIndex MultiIndex

/-- What the map holds of a worker. -/
structure WorkerEntry where
  expiry : Int
  lastWorkedSession : ByteString
  idle : Bool
  deriving DecidableEq, Repr

/-- The workers by identity. -/
abbrev WorkerMap := ByteString → Option WorkerEntry

/-- The worker of an entry. -/
def WorkerEntry.worker (entry : WorkerEntry) (identity : ByteString) : Worker :=
  ⟨identity, entry.expiry, entry.lastWorkedSession, entry.idle⟩

/-- The entry of a worker. -/
def Worker.entry (worker : Worker) : WorkerEntry :=
  ⟨worker.expiry, worker.lastWorkedSession, worker.idle⟩

/-- A call of a method that changes the store; an insertion is of an object that is
in no store yet. -/
inductive StoreCall where
  | insert (now : Int) (worker : Worker)
  | erase (identity : ByteString)
  | setIdle (identity : ByteString)
  | setBusy (identity : ByteString)
  | updateLastWorked (identity sessId : ByteString)
  | updateExpiration (now : Int) (identity : ByteString)
  deriving DecidableEq, Repr

namespace StoreCall

/-- A call on the store, with its result; `insert` has none and counts as true. -/
def run (workers : WorkerContainer) : StoreCall → Option (WorkerContainer × Bool)
  | .insert now worker => some (workers.insert now worker, true)
  | .erase identity => some (workers.erase identity)
  | .setIdle identity => some (workers.setIdle identity)
  | .setBusy identity => some (workers.setBusy identity)
  | .updateLastWorked identity sessId => workers.updateLastWorked identity sessId
  | .updateExpiration now identity => workers.updateExpiration now identity

/-- Change the entry of an identity. -/
def change (map : WorkerMap) (identity : ByteString) (change : WorkerEntry → WorkerEntry) :
    WorkerMap :=
  Function.update map identity ((map identity).map change)

/-- A call on the map. The last two are for present identities only. -/
def act (heartbeatExpiry : Nat) (map : WorkerMap) : StoreCall → Option (WorkerMap × Bool)
  | .insert now worker =>
      let inserted := { worker.entry with expiry := now + heartbeatExpiry * 1000000 }
      some (if (map worker.identity).isSome then map
        else Function.update map worker.identity (some inserted), true)
  | .erase identity => some (Function.update map identity none, (map identity).isSome)
  | .setIdle identity =>
      some (change map identity fun entry => { entry with idle := true },
        (map identity).isSome)
  | .setBusy identity =>
      some (change map identity fun entry => { entry with idle := false },
        (map identity).isSome)
  | .updateLastWorked identity sessId =>
      if (map identity).isSome then
        some (change map identity fun entry => { entry with lastWorkedSession := sessId }, true)
      else none
  | .updateExpiration now identity =>
      if (map identity).isSome then
        some (change map identity fun entry =>
          { entry with expiry := now + heartbeatExpiry * 1000000 }, true)
      else none

/-- Calls on the store one after the other, with their results. -/
def runAll (workers : WorkerContainer) :
    List StoreCall → Option (WorkerContainer × List Bool)
  | [] => some (workers, [])
  | call :: calls => do
      let (next, result) ← call.run workers
      let (last, results) ← runAll next calls
      return (last, result :: results)

/-- Calls on the map one after the other, with their results. -/
def actAll (heartbeatExpiry : Nat) (map : WorkerMap) :
    List StoreCall → Option (WorkerMap × List Bool)
  | [] => some (map, [])
  | call :: calls => do
      let (next, result) ← call.act heartbeatExpiry map
      let (last, results) ← actAll heartbeatExpiry next calls
      return (last, result :: results)

end StoreCall

/-- The store holds the workers of a map. -/
structure Represents (workers : WorkerContainer) (map : WorkerMap) : Prop where
  get : ∀ identity, workers.get identity =
    (map identity).map fun entry => entry.worker identity
  identities : (workers.cont.nodes.map fun node => node.val.identity).Nodup
  isIdle : ∀ identity, workers.isIdle identity = true ↔
    ∃ entry, map identity = some entry ∧ entry.idle = true
  idleWorkers : ∀ worker, worker ∈ workers.idleRange workers.idleWorkers ↔
    map worker.identity = some worker.entry ∧ worker.idle = true
  idleOnce : ((workers.idleRange workers.idleWorkers).map Worker.identity).Nodup
  nextWorker : ∀ worker, workers.getNextWorker = some worker →
    map worker.identity = some worker.entry ∧
      ∀ identity entry, map identity = some entry → entry.expiry ≤ worker.expiry
  noWorker : workers.getNextWorker = none → ∀ identity, map identity = none

section Queries

variable {workers : WorkerContainer} {map : WorkerMap}

/-- The nodes of a store have distinct identities. -/
theorem nodup_identities (workers : WorkerContainer) :
    (workers.cont.nodes.map fun node => node.val.identity).Nodup := by
  have nodup : workers.cont.nodes.Nodup := workers.cont.nodup.of_map
  refine nodup.map_on fun left leftMem right rightMem equal => ?_
  exact WorkerContainer.eq_of_identity_eq leftMem rightMem equal

/-- The range of the idle workers has each of them once. -/
theorem nodup_idleRange (workers : WorkerContainer) :
    ((workers.idleRange workers.idleWorkers).map Worker.identity).Nodup := by
  have inIndex : ((workers.cont.index .idle).map fun node => node.val.identity).Nodup := by
    refine (((workers.cont.perm .idle).map _).nodup_iff).mpr ?_
    exact nodup_identities workers
  rw [WorkerContainer.idleRange, List.map_map]
  exact ((range_sublist _ _ _).map _).nodup inIndex

/-- The lookup by identity determines the queries. -/
theorem represents_of_get
    (get : ∀ identity, workers.get identity =
      (map identity).map fun entry => entry.worker identity) :
    Represents workers map := by
  have stored : ∀ worker, workers.get worker.identity = some worker ↔
      map worker.identity = some worker.entry := by
    intro worker
    rw [get, Option.map_eq_some_iff]
    constructor
    · rintro ⟨entry, found, equal⟩
      rw [found, ← equal]
      rfl
    · intro found
      exact ⟨worker.entry, found, rfl⟩
  refine ⟨get, nodup_identities workers, fun identity => ?_, fun worker => ?_,
    nodup_idleRange workers, fun worker next => ?_, fun none identity => ?_⟩
  · rw [WorkerContainer.isIdle_iff, get]
    simp only [Option.map_eq_some_iff]
    constructor
    · rintro ⟨worker, ⟨entry, found, rfl⟩, flag⟩
      exact ⟨entry, found, flag⟩
    · rintro ⟨entry, found, flag⟩
      exact ⟨_, ⟨entry, found, rfl⟩, flag⟩
  · rw [WorkerContainer.mem_idleRange, stored]
  · obtain ⟨registered, latest⟩ := WorkerContainer.getNextWorker_spec next
    refine ⟨(stored worker).mp registered, fun identity entry found => ?_⟩
    exact latest identity (entry.worker identity) (by rw [get, found]; rfl)
  · have absent : workers.get identity = Option.none := by
      cases found : workers.get identity with
      | none => rfl
      | some worker =>
          have first := WorkerContainer.getNextWorker_isSome found
          rw [none] at first
          contradiction
    simpa [get] using absent

end Queries

section Calls

variable {workers : WorkerContainer} {map : WorkerMap}

/-- Inserting what has a registered identity changes nothing. -/
theorem get_insert_of_registered {now : Int} {worker registered : Worker}
    (found : workers.get worker.identity = some registered) (identity : ByteString) :
    (workers.insert now worker).get identity = workers.get identity := by
  obtain ⟨⟨node, member, rfl⟩, hasId⟩ := WorkerContainer.get_eq_some.mp found
  have refused : (workers.cont.insert
      { worker with expiry := workers.expiryFrom now }).2 = false :=
    Container.insert_refused_iff.mpr
      ⟨node, member, WorkerContainer.clash_iff.mpr hasId.symm⟩
  rw [WorkerContainer.get, WorkerContainer.insert, Container.insert_of_refused refused]
  rfl

/-- A map with one entry replaced, seen through a store with one worker replaced. -/
theorem represents_update {next : WorkerContainer} {identity : ByteString}
    {entry : Option WorkerEntry} (represents : Represents workers map)
    (updated : ∀ other, next.get other =
      if other = identity then entry.map fun entry => entry.worker identity
      else workers.get other) :
    Represents next (Function.update map identity entry) := by
  apply represents_of_get
  intro other
  rw [updated other]
  by_cases equal : other = identity
  · subst equal
    rw [if_pos rfl, Function.update_self]
  · rw [if_neg equal, Function.update_of_ne equal]
    exact represents.get other

/-- A map with one entry changed, seen through a store with one worker changed. -/
theorem represents_change {next : WorkerContainer} {identity : ByteString}
    {changeWorker : Worker → Worker} {changeEntry : WorkerEntry → WorkerEntry}
    (represents : Represents workers map)
    (same : ∀ entry : WorkerEntry,
      changeWorker (entry.worker identity) = (changeEntry entry).worker identity)
    (changed : ∀ other, next.get other =
      if other = identity then (workers.get other).map changeWorker else workers.get other) :
    Represents next (StoreCall.change map identity changeEntry) := by
  apply represents_update represents
  intro other
  rw [changed other]
  split
  next equal =>
    subst equal
    rw [represents.get other, Option.map_map, Option.map_map]
    congr 1
    funext entry
    exact same entry
  next => rfl

/-- The result of an erasure. -/
theorem erase_result (identity : ByteString) :
    (workers.erase identity).2 = (workers.get identity).isSome := by
  rw [WorkerContainer.erase, WorkerContainer.get, Container.lookup, Option.isSome_map]
  cases workers.cont.find WorkerContainer.Tag.id identity <;> rfl

/-- An update of the worker of an identity, which has to be present. -/
theorem modify_refines {identity : ByteString} {changeWorker : Worker → Worker}
    {changeEntry : WorkerEntry → WorkerEntry} (represents : Represents workers map)
    (keepsId : ∀ worker, (changeWorker worker).identity = worker.identity)
    (same : ∀ entry : WorkerEntry,
      changeWorker (entry.worker identity) = (changeEntry entry).worker identity) :
    match if (map identity).isSome then
        some (StoreCall.change map identity changeEntry, true)
      else none with
    | none => workers.modifyById identity changeWorker = none
    | some (after, result) =>
        ∃ next, workers.modifyById identity changeWorker = some (next, result) ∧
          Represents next after ∧ next.heartbeatExpiry = workers.heartbeatExpiry := by
  have present : (workers.modifyById identity changeWorker).isSome = (map identity).isSome := by
    rw [WorkerContainer.modifyById_isSome, represents.get, Option.isSome_map]
  cases done : workers.modifyById identity changeWorker with
  | none =>
      rw [done, Option.isSome_none] at present
      rw [← present]
      rfl
  | some pair =>
      obtain ⟨next, modified⟩ := pair
      rw [done, Option.isSome_some] at present
      rw [← present]
      have accepted := WorkerContainer.modifyById_result keepsId done
      subst accepted
      refine ⟨next, rfl, ?_, WorkerContainer.heartbeatExpiry_modifyById done⟩
      exact represents_change represents same (WorkerContainer.get_modifyById keepsId done)

/-- One call keeps the store and the map together and has the same result. -/
theorem call_refines (represents : Represents workers map) (call : StoreCall) :
    match call.act workers.heartbeatExpiry map with
    | none => call.run workers = none
    | some (after, result) => ∃ next, call.run workers = some (next, result) ∧
        Represents next after ∧ next.heartbeatExpiry = workers.heartbeatExpiry := by
  have registered : ∀ identity, (workers.get identity).isSome = (map identity).isSome := by
    intro identity
    rw [represents.get, Option.isSome_map]
  cases call with
  | insert now worker =>
      refine ⟨workers.insert now worker, rfl, ?_, rfl⟩
      cases found : map worker.identity with
      | some entry =>
          have registered : workers.get worker.identity = some (entry.worker worker.identity) := by
            rw [represents.get, found]
            rfl
          rw [if_pos (by simp)]
          apply represents_of_get
          intro identity
          rw [get_insert_of_registered registered]
          exact represents.get identity
      | none =>
          have isNew : workers.get worker.identity = none := by
            rw [represents.get, found]
            rfl
          rw [if_neg (by simp)]
          exact represents_update represents (WorkerContainer.get_insert now isNew)
  | erase identity =>
      refine ⟨(workers.erase identity).1, ?_, ?_, WorkerContainer.heartbeatExpiry_erase _⟩
      · rw [StoreCall.run, ← registered identity, ← erase_result]
      · exact represents_update represents (WorkerContainer.get_erase identity)
  | setIdle identity =>
      refine ⟨(workers.setIdle identity).1, ?_, ?_,
        WorkerContainer.heartbeatExpiry_modifyIdle _ _⟩
      · rw [StoreCall.run, ← registered identity, ← WorkerContainer.modifyIdle_result]
        rfl
      · exact represents_change represents (fun entry => rfl)
          (WorkerContainer.get_setIdle identity)
  | setBusy identity =>
      refine ⟨(workers.setBusy identity).1, ?_, ?_,
        WorkerContainer.heartbeatExpiry_modifyIdle _ _⟩
      · rw [StoreCall.run, ← registered identity, ← WorkerContainer.modifyIdle_result]
        rfl
      · exact represents_change represents (fun entry => rfl)
          (WorkerContainer.get_setBusy identity)
  | updateLastWorked identity sessId =>
      have refined := @modify_refines workers map identity
        (fun worker => { worker with lastWorkedSession := sessId })
        (fun entry => { entry with lastWorkedSession := sessId }) represents
        (fun worker => rfl) fun entry => rfl
      exact refined
  | updateExpiration now identity =>
      have refined := @modify_refines workers map identity
        (fun worker => { worker with expiry := workers.expiryFrom now })
        (fun entry => { entry with expiry := now + workers.heartbeatExpiry * 1000000 })
        represents (fun worker => rfl) fun entry => rfl
      exact refined

/-- No call but an erasure of it takes a worker out of the map. -/
theorem act_keeps {heartbeatExpiry : Nat} {call : StoreCall} {after : WorkerMap}
    {result : Bool} (acted : call.act heartbeatExpiry map = some (after, result))
    {identity : ByteString} (other : call ≠ .erase identity)
    (present : (map identity).isSome = true) : (after identity).isSome = true := by
  have changed : ∀ name change, (StoreCall.change map name change identity).isSome = true := by
    intro name change
    rw [StoreCall.change]
    by_cases equal : identity = name
    · subst equal
      rw [Function.update_self, Option.isSome_map]
      exact present
    · rw [Function.update_of_ne equal]
      exact present
  cases call with
  | insert now worker =>
      obtain ⟨rfl, -⟩ := Prod.mk.inj (Option.some.inj acted)
      split
      next => exact present
      next absent =>
        by_cases equal : identity = worker.identity
        · exact absurd (equal ▸ present) absent
        · rw [Function.update_of_ne equal]
          exact present
  | erase name =>
      obtain ⟨rfl, -⟩ := Prod.mk.inj (Option.some.inj acted)
      have distinct : identity ≠ name := fun equal => other (by rw [equal])
      rw [Function.update_of_ne distinct]
      exact present
  | setIdle name =>
      obtain ⟨rfl, -⟩ := Prod.mk.inj (Option.some.inj acted)
      exact changed name _
  | setBusy name =>
      obtain ⟨rfl, -⟩ := Prod.mk.inj (Option.some.inj acted)
      exact changed name _
  | updateLastWorked name sessId =>
      rw [StoreCall.act] at acted
      split at acted
      next =>
        obtain ⟨rfl, -⟩ := Prod.mk.inj (Option.some.inj acted)
        exact changed name _
      next => cases acted
  | updateExpiration now name =>
      rw [StoreCall.act] at acted
      split at acted
      next =>
        obtain ⟨rfl, -⟩ := Prod.mk.inj (Option.some.inj acted)
        exact changed name _
      next => cases acted

/-- Calls one after the other keep the store and the map together. -/
theorem calls_refine (represents : Represents workers map) (calls : List StoreCall) :
    match StoreCall.actAll workers.heartbeatExpiry map calls with
    | none => StoreCall.runAll workers calls = none
    | some (after, results) => ∃ next,
        StoreCall.runAll workers calls = some (next, results) ∧ Represents next after := by
  induction calls generalizing workers map with
  | nil => exact ⟨workers, rfl, represents⟩
  | cons call calls induction =>
      have refined := call_refines represents call
      rw [StoreCall.actAll, StoreCall.runAll]
      cases acted : call.act workers.heartbeatExpiry map with
      | none =>
          rw [acted] at refined
          rw [refined]
          rfl
      | some pair =>
          obtain ⟨after, result⟩ := pair
          rw [acted] at refined
          obtain ⟨next, ran, represents', same⟩ := refined
          have rest := induction represents'
          rw [same] at rest
          rw [ran]
          simp only [Option.bind_eq_bind, Option.bind_some]
          cases actedAll : StoreCall.actAll workers.heartbeatExpiry after calls with
          | none =>
              rw [actedAll] at rest
              rw [rest]
              rfl
          | some pair =>
              rw [actedAll] at rest
              obtain ⟨last, ranAll, represents''⟩ := rest
              exact ⟨last, by rw [ranAll]; rfl, represents''⟩

end Calls

/-- Over every sequence of calls the store behaves as the map does: an undefined
call comes at the same place, every result is the same, and in the end the
store holds exactly the workers of the map. No call but an erasure takes a
worker out. -/
theorem store_refines_map (heartbeatExpiry : Nat) (calls : List StoreCall) :
    (match StoreCall.actAll heartbeatExpiry (fun _ => none) calls with
      | none => StoreCall.runAll (.empty heartbeatExpiry) calls = none
      | some (map, results) => ∃ workers,
          StoreCall.runAll (.empty heartbeatExpiry) calls = some (workers, results) ∧
            Represents workers map) ∧
      ∀ (map after : WorkerMap) (call : StoreCall) (result : Bool),
        call.act heartbeatExpiry map = some (after, result) →
          ∀ identity, call ≠ .erase identity → (map identity).isSome = true →
            (after identity).isSome = true := by
  constructor
  · have initial : Represents (.empty heartbeatExpiry) fun _ => none :=
      represents_of_get fun identity => WorkerContainer.get_empty heartbeatExpiry identity
    exact calls_refine initial calls
  · intro map after call result acted identity other present
    exact act_keeps acted other present

end Cdcm.Frontend

import Cdcm.Lib.Bytes
import Cdcm.Lib.MultiIndex

/-!
# The worker store of the broker

The class `worker_container`: workers under five indices, by identity, by expiry
with the latest first, by idleness, by identity and idleness, and by the session
they last worked on.  What each method does is stated for the finite map from
identities to workers.
-/

namespace Cdcm.Frontend

open OrderedIndex MultiIndex

/-- `worker`; times are nanoseconds of the system clock. -/
structure Worker where
  identity : ByteString
  expiry : Int
  lastWorkedSession : ByteString
  idle : Bool
  deriving DecidableEq, Repr

/-- A newly constructed worker. -/
def Worker.new (identity : ByteString) : Worker :=
  ⟨identity, 0, text "N/A", true⟩

namespace WorkerContainer

/-- The tags of the indices. -/
inductive Tag where
  | id
  | expiration
  | idle
  | idleId
  | session
  deriving DecidableEq, Repr

/-- The indices of `workers_t`. The order of `expiration` is `std::greater`, the
one of `idleId` is `idle_ids_compare`. -/
@[reducible] def schema : Schema Worker where
  Tag := Tag
  Key
    | .id => ByteString
    | .expiration => OrderDual Int
    | .idle => Bool
    | .idleId => ByteString ×ₗ Bool
    | .session => ByteString
  key
    | .id, worker => worker.identity
    | .expiration, worker => OrderDual.toDual worker.expiry
    | .idle, worker => worker.idle
    | .idleId, worker => toLex (worker.identity, worker.idle)
    | .session, worker => worker.lastWorkedSession
  order
    | .id => inferInstanceAs (LinearOrder ByteString)
    | .expiration => @OrderDual.instLinearOrder Int Int.instLinearOrder
    | .idle => inferInstanceAs (LinearOrder Bool)
    | .idleId => inferInstanceAs (LinearOrder (ByteString ×ₗ Bool))
    | .session => inferInstanceAs (LinearOrder ByteString)
  unique
    | .id => true
    | .expiration => false
    | .idle => false
    | .idleId => true
    | .session => false
  tags := [.id, .expiration, .idle, .idleId, .session]
  complete tag := by cases tag <;> simp
  primary := .id

end WorkerContainer

/-- `worker_container`; the heartbeat expiry is in milliseconds. -/
structure WorkerContainer where
  cont : Container WorkerContainer.schema
  heartbeatExpiry : Nat

/-- A position in an index; `none` is the end. -/
abbrev WorkerIterator := Option (Node Worker)

/-- Iterators are equal when they designate the same node. -/
def WorkerIterator.same (left right : WorkerIterator) : Bool :=
  left.map Node.addr = right.map Node.addr

namespace WorkerContainer

/-- The store without workers. -/
def empty (heartbeatExpiry : Nat) : WorkerContainer := ⟨.empty, heartbeatExpiry⟩

variable (workers : WorkerContainer)

/-- `exists`. -/
def «exists» (identity : ByteString) : Bool :=
  (workers.cont.find Tag.id identity).isSome

/-- `get`. -/
def get (identity : ByteString) : Option Worker :=
  workers.cont.lookup Tag.id identity

/-- `get_next_worker`: the first worker by expiry. -/
def getNextWorker : Option Worker :=
  (workers.cont.index Tag.expiration).head?.map Node.val

/-- `get_by_last_worked_session`. -/
def getByLastWorkedSession (sessId : ByteString) : Option Worker :=
  workers.cont.lookup Tag.session sessId

/-- The expiry of a worker that is heard of now. -/
def expiryFrom (now : Int) : Int := now + workers.heartbeatExpiry * 1000000

/-- `insert`. -/
def insert (now : Int) (worker : Worker) : WorkerContainer :=
  { workers with
    cont := (workers.cont.insert { worker with expiry := workers.expiryFrom now }).1 }

/-- `erase`. -/
def erase (identity : ByteString) : WorkerContainer × Bool :=
  match workers.cont.find Tag.id identity with
  | none => (workers, false)
  | some node => ({ workers with cont := workers.cont.erase node.addr }, true)

/-- `is_idle`. -/
def isIdle (identity : ByteString) : Bool :=
  0 < (workers.cont.index Tag.idleId).countP fun node =>
    schema.key Tag.idleId node.val = toLex (identity, true)

/-- `is_busy`. -/
def isBusy (identity : ByteString) : Bool := !workers.isIdle identity

/-- `modify_idle`. -/
def modifyIdle (identity : ByteString) (modifyTo : Bool) : WorkerContainer × Bool :=
  match workers.cont.find Tag.idleId (toLex (identity, !modifyTo)) with
  | some node =>
      let (cont, modified) := workers.cont.modify node.addr fun worker =>
        { worker with idle := modifyTo }
      ({ workers with cont := cont }, modified)
  | none => (workers, workers.exists identity)

/-- `set_idle`. -/
def setIdle (identity : ByteString) : WorkerContainer × Bool :=
  workers.modifyIdle identity true

/-- `set_busy`. -/
def setBusy (identity : ByteString) : WorkerContainer × Bool :=
  workers.modifyIdle identity false

/-- Modify the worker of an identity through its position in another index. The
end is not a valid position. -/
def modifyById (identity : ByteString) (change : Worker → Worker) :
    Option (WorkerContainer × Bool) :=
  match workers.cont.find Tag.id identity with
  | none => none
  | some node =>
      let (cont, modified) := workers.cont.modify node.addr change
      some ({ workers with cont := cont }, modified)

/-- `update_last_worked`. -/
def updateLastWorked (identity sessId : ByteString) :
    Option (WorkerContainer × Bool) :=
  workers.modifyById identity fun worker => { worker with lastWorkedSession := sessId }

/-- `update_expiration`. -/
def updateExpiration (now : Int) (identity : ByteString) :
    Option (WorkerContainer × Bool) :=
  workers.modifyById identity fun worker =>
    { worker with expiry := workers.expiryFrom now }

/-- `idle_workers`: the range of the idle workers. -/
def idleWorkers : WorkerIterator × WorkerIterator :=
  (lowerBound (schema.key Tag.idle) true (workers.cont.index Tag.idle),
    upperBound (schema.key Tag.idle) true (workers.cont.index Tag.idle))

/-- The workers from one position of the idle index up to another. -/
def idleRange (range : WorkerIterator × WorkerIterator) : List Worker :=
  (OrderedIndex.range range.1 range.2 (workers.cont.index Tag.idle)).map Node.val

/-! ## What the methods do to the map of workers -/

theorem unique_id : schema.unique Tag.id = true := rfl

theorem unique_idleId : schema.unique Tag.idleId = true := rfl

/-- Workers clash exactly when they have the same identity. -/
theorem clash_iff {left right : Worker} :
    schema.clash left right = true ↔ left.identity = right.identity := by
  rw [Schema.clash_eq_true]
  constructor
  · rintro ⟨tag, isUnique, equal⟩
    cases tag with
    | id => exact equal
    | idleId => exact congrArg Prod.fst (toLex.injective equal)
    | expiration => contradiction
    | idle => contradiction
    | session => contradiction
  · exact fun equal => ⟨Tag.id, rfl, equal⟩

variable {workers}

theorem mem_index {tag : Tag} {node : Node Worker} :
    node ∈ workers.cont.index tag ↔ node ∈ workers.cont :=
  @Container.mem_index _ schema workers.cont node tag

theorem eq_of_identity_eq {left right : Node Worker} (leftMem : left ∈ workers.cont)
    (rightMem : right ∈ workers.cont)
    (equal : left.val.identity = right.val.identity) : left = right :=
  @Container.eq_of_key_eq _ schema _ _ _ Tag.id unique_id leftMem rightMem equal

theorem get_eq_some {identity : ByteString} {worker : Worker} :
    workers.get identity = some worker ↔
      (∃ node ∈ workers.cont, node.val = worker) ∧ worker.identity = identity := by
  rw [get, Container.lookup_eq_some unique_id]
  constructor
  · rintro ⟨node, member, rfl, equal⟩
    exact ⟨⟨node, member, rfl⟩, equal⟩
  · rintro ⟨⟨node, member, rfl⟩, equal⟩
    exact ⟨node, member, rfl, equal⟩

/-- A worker is registered under its own identity. -/
theorem identity_of_get {identity : ByteString} {worker : Worker}
    (found : workers.get identity = some worker) : worker.identity = identity :=
  (get_eq_some.mp found).2

/-- With any worker, one comes first by expiry. -/
theorem getNextWorker_isSome {identity : ByteString} {worker : Worker}
    (registered : workers.get identity = some worker) :
    workers.getNextWorker.isSome = true := by
  obtain ⟨⟨node, member, -⟩, -⟩ := get_eq_some.mp registered
  have inIndex := (@mem_index _ Tag.expiration node).mpr member
  rw [getNextWorker, Option.isSome_map, List.isSome_head?]
  simpa using List.ne_nil_of_mem inIndex

theorem get_of_mem {node : Node Worker} (member : node ∈ workers.cont) :
    workers.get node.val.identity = some node.val :=
  get_eq_some.mpr ⟨⟨node, member, rfl⟩, rfl⟩

theorem exists_iff {identity : ByteString} :
    workers.exists identity = true ↔ (workers.get identity).isSome = true := by
  rw [«exists», get, Container.lookup, Option.isSome_map]

theorem exists_of_get {identity : ByteString} {worker : Worker}
    (found : workers.get identity = some worker) : workers.exists identity = true :=
  exists_iff.mpr (Option.isSome_of_eq_some found)

theorem exists_eq_false {identity : ByteString} :
    workers.exists identity = false ↔ workers.get identity = none := by
  rw [Bool.eq_false_iff, Ne, exists_iff, Bool.not_eq_true, Option.isSome_eq_false_iff,
    Option.isNone_iff_eq_none]

@[simp] theorem get_empty (heartbeatExpiry : Nat) (identity : ByteString) :
    (empty heartbeatExpiry).get identity = none :=
  @Container.lookup_empty _ schema Tag.id identity

/-- A new worker is registered with a fresh expiry. -/
theorem get_insert (now : Int) {worker : Worker}
    (isNew : workers.get worker.identity = none) (identity : ByteString) :
    (workers.insert now worker).get identity =
      if identity = worker.identity then
        some { worker with expiry := workers.expiryFrom now }
      else workers.get identity := by
  have accepted : (workers.cont.insert
      { worker with expiry := workers.expiryFrom now }).2 = true := by
    by_contra refused
    obtain ⟨other, member, clashes⟩ :=
      Container.insert_refused_iff.mp (Bool.eq_false_of_not_eq_true refused)
    have equal := clash_iff.mp clashes
    exact Container.lookup_eq_none.mp isNew other member equal.symm
  exact Container.lookup_insert unique_id accepted identity

@[simp] theorem get_erase (erased identity : ByteString) :
    (workers.erase erased).1.get identity =
      if identity = erased then none else workers.get identity := by
  have kept : ∀ node, node ∈ (workers.erase erased).1.cont ↔
      node ∈ workers.cont ∧ decide (node.val.identity ≠ erased) = true := by
    intro node
    rw [decide_eq_true_iff, erase]
    cases found : workers.cont.find Tag.id erased with
    | none =>
        exact ⟨fun member => ⟨member, Container.find_eq_none.mp found node member⟩,
          And.left⟩
    | some first => exact Container.mem_erase_find unique_id found node
  refine (@Container.lookup_filter _ schema Tag.id unique_id workers.cont _
    (fun worker => decide (worker.identity ≠ erased)) kept identity).trans ?_
  change (workers.get identity).filter _ = _
  cases found : workers.get identity with
  | none => simp
  | some worker =>
      rw [Option.filter_some, identity_of_get found]
      by_cases equal : identity = erased <;> simp [equal]

/-- A change that keeps the identity of a worker makes it clash with no other. -/
theorem no_clash {identity : ByteString} {node : Node Worker}
    (found : workers.cont.find Tag.id identity = some node) {change : Worker → Worker}
    (keepsId : ∀ worker, (change worker).identity = worker.identity) :
    ∀ second ∈ workers.cont, second.addr ≠ node.addr →
      schema.clash (change node.val) second.val = false := by
  intro second secondMem distinct
  by_contra clashes
  have equal := clash_iff.mp (Bool.eq_true_of_not_eq_false clashes)
  rw [keepsId] at equal
  have member := ((Container.find_eq_some unique_id).mp found).1
  exact distinct (congrArg Node.addr (eq_of_identity_eq secondMem member equal.symm))

/-- Such a change never erases the worker. -/
theorem modify_accepted {identity : ByteString} {node : Node Worker}
    (found : workers.cont.find Tag.id identity = some node) {change : Worker → Worker}
    (keepsId : ∀ worker, (change worker).identity = worker.identity) :
    (workers.cont.modify node.addr change).2 = true := by
  have member := ((Container.find_eq_some unique_id).mp found).1
  exact Container.modify_accepted (Container.at?_eq_some.mpr ⟨member, rfl⟩)
    (no_clash found keepsId)

/-- Modifying the worker of an identity changes the map there and nowhere else. -/
theorem lookup_modify {identity : ByteString} {node : Node Worker}
    (found : workers.cont.find Tag.id identity = some node) {change : Worker → Worker}
    (keepsId : ∀ worker, (change worker).identity = worker.identity)
    (other : ByteString) :
    (workers.cont.modify node.addr change).1.lookup Tag.id other =
      if other = identity then (workers.get other).map change
      else workers.get other := by
  have changed := @Container.mem_modify_find _ schema _ Tag.id unique_id identity _
    change node found (no_clash found keepsId)
  refine (@Container.lookup_map _ schema Tag.id unique_id workers.cont _
    (fun worker => if worker.identity = identity then change worker else worker)
    changed (fun worker => ?_) other).trans ?_
  · split
    · exact keepsId worker
    · rfl
  change (workers.get other).map _ = _
  cases stored : workers.get other with
  | none => simp
  | some worker =>
      have sameId := identity_of_get stored
      split <;> simp_all

/-- The node that `modify_idle` changes is the one of the identity. -/
theorem find_id_of_find_idleId {identity : ByteString} {flag : Bool} {node : Node Worker}
    (found : workers.cont.find Tag.idleId (toLex (identity, flag)) = some node) :
    workers.cont.find Tag.id identity = some node := by
  obtain ⟨member, hasKey⟩ := (Container.find_eq_some unique_idleId).mp found
  have hasId : node.val.identity = identity :=
    congrArg Prod.fst (toLex.injective hasKey)
  exact (Container.find_eq_some unique_id).mpr ⟨member, hasId⟩

/-- `modify_idle` sets the flag of the worker, which may have it already. -/
theorem get_modifyIdle (identity : ByteString) (modifyTo : Bool) (other : ByteString) :
    (workers.modifyIdle identity modifyTo).1.get other =
      if other = identity then
        (workers.get other).map fun worker => { worker with idle := modifyTo }
      else workers.get other := by
  rw [modifyIdle]
  cases found : workers.cont.find Tag.idleId (toLex (identity, !modifyTo)) with
  | some node =>
      have keepsId : ∀ worker : Worker,
          { worker with idle := modifyTo }.identity = worker.identity := fun _ => rfl
      exact lookup_modify (find_id_of_find_idleId found) keepsId other
  | none =>
      change workers.get other = _
      split
      next equal =>
        subst equal
        cases stored : workers.get other with
        | none => rfl
        | some worker =>
            obtain ⟨⟨node, member, rfl⟩, hasId⟩ := get_eq_some.mp stored
            have flag : node.val.idle = modifyTo := by
              by_contra differs
              refine Container.find_eq_none.mp found node member ?_
              have negated : node.val.idle = !modifyTo := by
                simpa using Bool.eq_not_of_ne differs
              exact congrArg toLex (Prod.ext hasId negated)
            rw [Option.map_some, ← flag]
      next => rfl

/-- `modify_idle` succeeds exactly for registered workers. -/
theorem modifyIdle_result (identity : ByteString) (modifyTo : Bool) :
    (workers.modifyIdle identity modifyTo).2 = (workers.get identity).isSome := by
  rw [modifyIdle]
  cases found : workers.cont.find Tag.idleId (toLex (identity, !modifyTo)) with
  | some node =>
      have foundById := find_id_of_find_idleId found
      have registered : workers.get identity = some node.val := by
        rw [get, Container.lookup, foundById, Option.map_some]
      have keepsId : ∀ worker : Worker,
          { worker with idle := modifyTo }.identity = worker.identity := fun _ => rfl
      rw [registered]
      exact modify_accepted foundById keepsId
  | none =>
      rw [Bool.eq_iff_iff]
      exact exists_iff

@[simp] theorem get_setIdle (identity other : ByteString) :
    (workers.setIdle identity).1.get other =
      if other = identity then
        (workers.get other).map fun worker => { worker with idle := true }
      else workers.get other :=
  get_modifyIdle identity true other

@[simp] theorem get_setBusy (identity other : ByteString) :
    (workers.setBusy identity).1.get other =
      if other = identity then
        (workers.get other).map fun worker => { worker with idle := false }
      else workers.get other :=
  get_modifyIdle identity false other

/-- A registered worker can be modified. -/
theorem modifyById_isSome {identity : ByteString} {change : Worker → Worker} :
    (workers.modifyById identity change).isSome = (workers.get identity).isSome := by
  rw [modifyById, get, Container.lookup]
  cases workers.cont.find Tag.id identity <;> rfl

/-- A modification is one of the node with the identity. -/
theorem modifyById_eq_some {identity : ByteString} {change : Worker → Worker}
    {result : WorkerContainer × Bool} (done : workers.modifyById identity change = some result) :
    ∃ node, workers.cont.find Tag.id identity = some node ∧
      result = ({ workers with cont := (workers.cont.modify node.addr change).1 },
        (workers.cont.modify node.addr change).2) := by
  rw [modifyById] at done
  cases found : workers.cont.find Tag.id identity with
  | none => simp [found] at done
  | some node =>
      rw [found] at done
      exact ⟨node, rfl, (Option.some.inj done).symm⟩

theorem get_modifyById {identity : ByteString} {change : Worker → Worker}
    (keepsId : ∀ worker, (change worker).identity = worker.identity)
    {next : WorkerContainer} {modified : Bool}
    (done : workers.modifyById identity change = some (next, modified))
    (other : ByteString) :
    next.get other =
      if other = identity then (workers.get other).map change
      else workers.get other := by
  obtain ⟨node, found, same⟩ := modifyById_eq_some done
  obtain ⟨rfl, _⟩ := Prod.mk.inj same
  exact lookup_modify found keepsId other

/-- The modification of a registered worker is accepted. -/
theorem modifyById_result {identity : ByteString} {change : Worker → Worker}
    (keepsId : ∀ worker, (change worker).identity = worker.identity)
    {next : WorkerContainer} {modified : Bool}
    (done : workers.modifyById identity change = some (next, modified)) :
    modified = true := by
  obtain ⟨node, found, same⟩ := modifyById_eq_some done
  exact (Prod.mk.inj same).2.trans (modify_accepted found keepsId)

theorem get_updateLastWorked {identity sessId : ByteString} {next : WorkerContainer}
    {modified : Bool}
    (done : workers.updateLastWorked identity sessId = some (next, modified))
    (other : ByteString) :
    next.get other =
      if other = identity then
        (workers.get other).map fun worker => { worker with lastWorkedSession := sessId }
      else workers.get other := by
  refine get_modifyById (fun worker => ?_) done other
  rfl

theorem get_updateExpiration {now : Int} {identity : ByteString}
    {next : WorkerContainer} {modified : Bool}
    (done : workers.updateExpiration now identity = some (next, modified))
    (other : ByteString) :
    next.get other =
      if other = identity then
        (workers.get other).map fun worker =>
          { worker with expiry := workers.expiryFrom now }
      else workers.get other := by
  refine get_modifyById (fun worker => ?_) done other
  rfl

@[simp] theorem heartbeatExpiry_erase (identity : ByteString) :
    (workers.erase identity).1.heartbeatExpiry = workers.heartbeatExpiry := by
  rw [erase]
  split <;> rfl

@[simp] theorem heartbeatExpiry_modifyIdle (identity : ByteString) (modifyTo : Bool) :
    (workers.modifyIdle identity modifyTo).1.heartbeatExpiry = workers.heartbeatExpiry := by
  rw [modifyIdle]
  split <;> rfl

theorem heartbeatExpiry_modifyById {identity : ByteString} {change : Worker → Worker}
    {next : WorkerContainer} {modified : Bool}
    (done : workers.modifyById identity change = some (next, modified)) :
    next.heartbeatExpiry = workers.heartbeatExpiry := by
  rw [modifyById] at done
  split at done
  · contradiction
  · simp only [Option.some.injEq, Prod.mk.injEq] at done
    exact done.1 ▸ rfl

/-- A worker is idle when it is registered with the flag. -/
theorem isIdle_iff {identity : ByteString} :
    workers.isIdle identity = true ↔
      ∃ worker, workers.get identity = some worker ∧ worker.idle = true := by
  rw [isIdle, decide_eq_true_iff, List.countP_pos_iff]
  constructor
  · rintro ⟨node, member, hasKey⟩
    have equal : (node.val.identity, node.val.idle) = (identity, true) :=
      toLex.injective (of_decide_eq_true hasKey)
    have hasId : node.val.identity = identity := congrArg Prod.fst equal
    exact ⟨node.val, hasId ▸ get_of_mem (mem_index.mp member), congrArg Prod.snd equal⟩
  · rintro ⟨worker, found, flag⟩
    obtain ⟨⟨node, member, rfl⟩, hasId⟩ := get_eq_some.mp found
    refine ⟨node, mem_index.mpr member, decide_eq_true ?_⟩
    exact congrArg toLex (Prod.ext hasId flag)

/-- The worker with the latest expiry is registered, idle or not. -/
theorem getNextWorker_spec {worker : Worker}
    (next : workers.getNextWorker = some worker) :
    workers.get worker.identity = some worker ∧
      ∀ identity other, workers.get identity = some other →
        other.expiry ≤ worker.expiry := by
  rw [getNextWorker, Option.map_eq_some_iff] at next
  obtain ⟨node, isHead, rfl⟩ := next
  have member : node ∈ workers.cont := mem_index.mp (List.mem_of_head? isHead)
  refine ⟨get_of_mem member, fun identity other found => ?_⟩
  obtain ⟨⟨second, secondMem, rfl⟩, _⟩ := get_eq_some.mp found
  have sorted := workers.cont.sorted Tag.expiration
  have inIndex : second ∈ workers.cont.index Tag.expiration := mem_index.mpr secondMem
  cases order : workers.cont.index Tag.expiration with
  | nil => simp [order] at isHead
  | cons head tail =>
      obtain rfl : head = node := by simpa [order] using isHead
      rw [order] at sorted inIndex
      rcases List.mem_cons.mp inIndex with rfl | inTail
      · exact le_refl _
      · exact (List.pairwise_cons.mp sorted).1 second inTail

/-- A worker found by session is registered and last worked on it. -/
theorem getByLastWorkedSession_spec {sessId : ByteString} {worker : Worker}
    (found : workers.getByLastWorkedSession sessId = some worker) :
    workers.get worker.identity = some worker ∧ worker.lastWorkedSession = sessId := by
  rw [getByLastWorkedSession, Container.lookup, Option.map_eq_some_iff] at found
  obtain ⟨node, isFirst, rfl⟩ := found
  exact ⟨get_of_mem (Container.mem_of_find isFirst), Container.key_of_find isFirst⟩

/-- No position of the idle index lies behind the idle workers. -/
@[simp] theorem idleWorkers_snd : workers.idleWorkers.2 = none := by
  simp only [idleWorkers, upperBound, List.find?_eq_none, decide_eq_true_eq, not_lt]
  exact fun node _ => Bool.le_true _

/-- The idle range is empty exactly when no registered worker is idle. -/
theorem idleWorkers_same {workers : WorkerContainer} :
    WorkerIterator.same workers.idleWorkers.1 workers.idleWorkers.2 = true ↔
      ∀ identity worker, workers.get identity = some worker → worker.idle = false := by
  rw [WorkerIterator.same, decide_eq_true_iff, idleWorkers_snd, Option.map_none,
    Option.map_eq_none_iff]
  simp only [idleWorkers, lowerBound, List.find?_eq_none, decide_eq_true_eq, not_le]
  constructor
  · intro below identity worker found
    obtain ⟨⟨node, member, rfl⟩, _⟩ := get_eq_some.mp found
    have notIdle : node.val.idle < true := below node (mem_index.mpr member)
    exact Bool.lt_iff.mp notIdle |>.1
  · intro busy node member
    have flag := busy _ _ (get_of_mem (mem_index.mp member))
    change node.val.idle < true
    rw [flag]
    decide

theorem mem_idleRange {worker : Worker} :
    worker ∈ workers.idleRange workers.idleWorkers ↔
      workers.get worker.identity = some worker ∧ worker.idle = true := by
  have ranged : ∀ node, node ∈ OrderedIndex.range workers.idleWorkers.1
      workers.idleWorkers.2 (workers.cont.index Tag.idle) ↔
        node ∈ workers.cont ∧ node.val.idle = true := by
    intro node
    rw [idleWorkers_snd]
    refine (mem_range_lowerBound _ (workers.cont.sorted Tag.idle)
      (workers.cont.nodup_index Tag.idle)).trans ?_
    rw [Container.mem_index]
    exact and_congr_right fun _ => ⟨Bool.eq_true_of_true_le, fun flag => flag ▸ le_refl _⟩
  simp only [idleRange, List.mem_map, ranged]
  constructor
  · rintro ⟨node, ⟨member, flag⟩, rfl⟩
    exact ⟨get_of_mem member, flag⟩
  · rintro ⟨found, flag⟩
    obtain ⟨⟨node, member, rfl⟩, _⟩ := get_eq_some.mp found
    exact ⟨node, ⟨member, flag⟩, rfl⟩

end WorkerContainer

end Cdcm.Frontend

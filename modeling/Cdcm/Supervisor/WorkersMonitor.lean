import Cdcm.Lib.Machine

/-!
# The monitor of the workers

`workers_monitor` of the supervisor, with the children that it has started and the exit
handlers that the I/O service has yet to call.  The first loop starts a child for each name;
behind it, the handler of a child that has exited starts another one.  A start that fails is
logged and not repeated.
-/

namespace Cdcm.Supervisor

open Machine

/-! ## The code -/

/-- `worker_name` of a turn of the loop. -/
def workerName (i : Nat) : String := Nat.repr i

/-- A child process, with the name that its `on_exit` handler has captured. -/
structure Child where
  pid : Nat
  workerName : String
  deriving DecidableEq

/-- `workers_monitor`: the turn of its loop, and the numbers of the children in its map.
Around it, the children that run, those whose handlers are to be called, whether a signal has
been caught, the number of children so far, and what the last start for a name has led to. -/
structure WorkersMonitor where
  numWorkers : Nat
  turn : Nat
  workersPool : String → Option Nat
  running : List Child
  exited : List Child
  interrupted : Bool
  forked : Nat
  lastStart : String → Option Bool

/-- The monitor in front of its loop. -/
def initial (numWorkers : Nat) : WorkersMonitor where
  numWorkers := numWorkers
  turn := 1
  workersPool := fun _ => none
  running := []
  exited := []
  interrupted := false
  forked := 0
  lastStart := fun _ => none

/-- `start_worker`, which returns a null pointer when no process can be created. -/
def startWorker (name : String) (succeeds : Bool) (monitor : WorkersMonitor) :
    WorkersMonitor × Option Child :=
  let monitor := { monitor with lastStart := Function.update monitor.lastStart name succeeds }
  if succeeds then
    let worker : Child := ⟨monitor.forked, name⟩
    ({ monitor with running := monitor.running ++ [worker], forked := monitor.forked + 1 },
      some worker)
  else (monitor, none)

/-- `monitor`. A pointer in the map is released before it is replaced. -/
def monitorWorker (name : String) (succeeds : Bool) (monitor : WorkersMonitor) :
    WorkersMonitor :=
  match monitor.workersPool name with
  | some _ =>
      match startWorker name succeeds monitor with
      | (monitor, some worker) =>
          { monitor with
            workersPool := Function.update monitor.workersPool name (some worker.pid) }
      | (monitor, none) => monitor
  | none =>
      match startWorker name succeeds monitor with
      | (monitor, some worker) =>
          { monitor with
            workersPool := Function.update monitor.workersPool name (some worker.pid) }
      | (monitor, none) => monitor

/-- The turns of `run`, exits of children, calls of their handlers by the I/O service, and a
signal. A start of a process succeeds or fails. -/
inductive Event where
  | turn (succeeds : Bool)
  | exit (child : Child)
  | onExit (child : Child) (succeeds : Bool)
  | interrupt

/-- What happens next. The I/O service runs behind the loop. -/
def step (monitor : WorkersMonitor) : Event → Option WorkersMonitor
  | .turn succeeds =>
      if monitor.turn ≤ monitor.numWorkers then
        some (monitorWorker (workerName monitor.turn) succeeds
          { monitor with turn := monitor.turn + 1 })
      else none
  | .exit child =>
      if child ∈ monitor.running then
        some { monitor with
          running := monitor.running.erase child
          exited := monitor.exited ++ [child] }
      else none
  | .onExit child succeeds =>
      if monitor.numWorkers < monitor.turn ∧ child ∈ monitor.exited then
        let monitor := { monitor with exited := monitor.exited.erase child }
        if monitor.interrupted then some monitor
        else some (monitorWorker child.workerName succeeds monitor)
      else none
  | .interrupt => some { monitor with interrupted := true }

/-! ## Slots -/

/-- The children of a name that run. -/
def live (monitor : WorkersMonitor) (name : String) : Nat :=
  monitor.running.countP fun child => child.workerName = name

/-- The handlers to be called that have captured a name. -/
def due (monitor : WorkersMonitor) (name : String) : Nat :=
  monitor.exited.countP fun child => child.workerName = name

/-- A slot has a child that runs, whose handler is for this slot. -/
def Alive (monitor : WorkersMonitor) (slot : Nat) : Prop := 0 < live monitor (workerName slot)

/-- A start is to come for a slot: in the loop, or in a handler. -/
def Scheduled (monitor : WorkersMonitor) (slot : Nat) : Prop :=
  (monitor.turn ≤ slot ∧ slot ≤ monitor.numWorkers) ∨ 0 < due monitor (workerName slot)

instance (monitor : WorkersMonitor) (slot : Nat) : Decidable (Alive monitor slot) :=
  inferInstanceAs (Decidable (_ < _))

instance (monitor : WorkersMonitor) (slot : Nat) : Decidable (Scheduled monitor slot) :=
  inferInstanceAs (Decidable (_ ∨ _))

/-- The last start for a slot has failed. -/
def Failed (monitor : WorkersMonitor) (slot : Nat) : Prop :=
  monitor.lastStart (workerName slot) = some false

instance (monitor : WorkersMonitor) (slot : Nat) : Decidable (Failed monitor slot) :=
  inferInstanceAs (Decidable (_ = _))

/-- The children and handlers that there are at most for a name. -/
def started (monitor : WorkersMonitor) (name : String) : Nat :=
  if monitor.lastStart name = some true then 1 else 0

/-- There are no more children than starts that have succeeded, each in the map, and until a
signal there is one for each of them. -/
structure Accounted (monitor : WorkersMonitor) : Prop where
  first : 1 ≤ monitor.turn
  bounded : ∀ name, live monitor name + due monitor name ≤ started monitor name
  balanced : monitor.interrupted = false →
    ∀ name, live monitor name + due monitor name = started monitor name
  unstarted : ∀ slot, monitor.turn ≤ slot → monitor.lastStart (workerName slot) = none
  attempted : ∀ slot, 1 ≤ slot → slot < monitor.turn →
    monitor.lastStart (workerName slot) ≠ none
  stored : ∀ child ∈ monitor.running, monitor.workersPool child.workerName = some child.pid

/-! ## What a start does -/

theorem workerName_injective {left right : Nat} (same : workerName left = workerName right) :
    left = right :=
  Nat.repr_injective same

section Start

variable (name : String) (succeeds : Bool) (monitor : WorkersMonitor)

/-- The map makes no difference for the children. -/
theorem monitorWorker_eq : monitorWorker name succeeds monitor =
    match startWorker name succeeds monitor with
    | (monitor, some worker) =>
        { monitor with
          workersPool := Function.update monitor.workersPool name (some worker.pid) }
    | (monitor, none) => monitor := by
  rw [monitorWorker]
  cases monitor.workersPool name <;> rfl

@[simp] theorem monitorWorker_turn : (monitorWorker name succeeds monitor).turn = monitor.turn := by
  rw [monitorWorker_eq]
  cases succeeds <;> rfl

@[simp] theorem monitorWorker_numWorkers :
    (monitorWorker name succeeds monitor).numWorkers = monitor.numWorkers := by
  rw [monitorWorker_eq]
  cases succeeds <;> rfl

@[simp] theorem monitorWorker_interrupted :
    (monitorWorker name succeeds monitor).interrupted = monitor.interrupted := by
  rw [monitorWorker_eq]
  cases succeeds <;> rfl

@[simp] theorem monitorWorker_lastStart : (monitorWorker name succeeds monitor).lastStart =
    Function.update monitor.lastStart name (some succeeds) := by
  rw [monitorWorker_eq]
  cases succeeds <;> rfl

@[simp] theorem due_monitorWorker (other : String) :
    due (monitorWorker name succeeds monitor) other = due monitor other := by
  rw [monitorWorker_eq]
  cases succeeds <;> rfl

/-- A start that succeeds adds a child. -/
theorem live_monitorWorker (other : String) : live (monitorWorker name succeeds monitor) other =
    live monitor other + if name = other ∧ succeeds = true then 1 else 0 := by
  rw [monitorWorker_eq]
  cases succeeds with
  | false => simp [startWorker, live]
  | true => simp [startWorker, live, List.countP_append, List.countP_singleton]

/-- A child that is started is put into the map. -/
theorem monitorWorker_stored (apart : ∀ child ∈ monitor.running, child.workerName ≠ name)
    (stored : ∀ child ∈ monitor.running,
      monitor.workersPool child.workerName = some child.pid) :
    ∀ child ∈ (monitorWorker name succeeds monitor).running,
      (monitorWorker name succeeds monitor).workersPool child.workerName = some child.pid := by
  rw [monitorWorker_eq]
  cases succeeds with
  | false => exact stored
  | true =>
      intro child member
      cases List.mem_append.mp member with
      | inl old =>
          exact (Function.update_of_ne (apart child old) _ _).trans (stored child old)
      | inr new =>
          obtain rfl := List.mem_singleton.mp new
          exact Function.update_self _ _ _

/-- For a name without children, a start leaves as many as it says; the other names keep
theirs. -/
theorem count_monitorWorker (vacant : live monitor name + due monitor name = 0)
    (other : String) :
    live (monitorWorker name succeeds monitor) other +
        due (monitorWorker name succeeds monitor) other =
      if name = other then started (monitorWorker name succeeds monitor) other
      else live monitor other + due monitor other := by
  rw [live_monitorWorker, due_monitorWorker, started, monitorWorker_lastStart]
  by_cases same : name = other
  · subst same
    rw [if_pos rfl, Function.update_self]
    cases succeeds <;> simp <;> omega
  · rw [if_neg fun both => same both.1, if_neg same]
    omega

theorem started_monitorWorker {other : String} (apart : name ≠ other) :
    started (monitorWorker name succeeds monitor) other = started monitor other := by
  rw [started, monitorWorker_lastStart, Function.update_of_ne apart.symm]
  rfl

end Start

/-- A handler is taken out of the queue. -/
theorem due_erase {monitor : WorkersMonitor} {child : Child} (member : child ∈ monitor.exited)
    (name : String) :
    due { monitor with exited := monitor.exited.erase child } name =
      due monitor name - if child.workerName = name then 1 else 0 := by
  simp [due, List.countP_erase, member]

theorem due_pos {monitor : WorkersMonitor} {child : Child} (member : child ∈ monitor.exited) :
    0 < due monitor child.workerName :=
  List.countP_pos_iff.mpr ⟨child, member, by simp⟩

theorem live_pos {monitor : WorkersMonitor} {child : Child} (member : child ∈ monitor.running) :
    0 < live monitor child.workerName :=
  List.countP_pos_iff.mpr ⟨child, member, by simp⟩

/-! ## The steps -/

namespace Accounted

variable {monitor : WorkersMonitor} {child : Child}

theorem initial (numWorkers : Nat) : Accounted (initial numWorkers) where
  first := le_rfl
  bounded := fun _ => by simp [Supervisor.initial, live, due]
  balanced := fun _ _ => by simp [Supervisor.initial, live, due, started]
  unstarted := fun _ _ => rfl
  attempted := fun slot first before => absurd before (Nat.not_lt.mpr first)
  stored := nofun

theorem started_le_one (monitor : WorkersMonitor) (name : String) : started monitor name ≤ 1 := by
  rw [started]
  split <;> omega

/-- A handler is for a name whose last start has succeeded. -/
theorem started_of_due (accounted : Accounted monitor) {name : String}
    (pending : 0 < due monitor name) : monitor.lastStart name = some true := by
  have bounded := accounted.bounded name
  by_contra failed
  rw [started, if_neg failed] at bounded
  omega

end Accounted

/-- A name without children, where all the others are accounted for. -/
structure Vacant (monitor : WorkersMonitor) (name : String) : Prop where
  first : 1 ≤ monitor.turn
  vacant : live monitor name + due monitor name = 0
  bounded : ∀ other, name ≠ other →
    live monitor other + due monitor other ≤ started monitor other
  balanced : monitor.interrupted = false → ∀ other, name ≠ other →
    live monitor other + due monitor other = started monitor other
  unstarted : ∀ slot, monitor.turn ≤ slot →
    workerName slot ≠ name ∧ monitor.lastStart (workerName slot) = none
  attempted : ∀ slot, 1 ≤ slot → slot < monitor.turn → workerName slot ≠ name →
    monitor.lastStart (workerName slot) ≠ none
  stored : ∀ child ∈ monitor.running, monitor.workersPool child.workerName = some child.pid

/-- Behind a start for a vacant name, all are accounted for. -/
theorem Vacant.start {monitor : WorkersMonitor} {name : String} (vacant : Vacant monitor name)
    (succeeds : Bool) : Accounted (monitorWorker name succeeds monitor) := by
  have count := count_monitorWorker name succeeds monitor vacant.vacant
  constructor
  case first =>
    rw [monitorWorker_turn]
    exact vacant.first
  case bounded =>
    intro other
    rw [count]
    split
    next => exact le_rfl
    next apart =>
      rw [started_monitorWorker name succeeds monitor apart]
      exact vacant.bounded other apart
  case balanced =>
    intro uninterrupted other
    rw [monitorWorker_interrupted] at uninterrupted
    rw [count]
    split
    next => rfl
    next apart =>
      rw [started_monitorWorker name succeeds monitor apart]
      exact vacant.balanced uninterrupted other apart
  case unstarted =>
    intro slot later
    rw [monitorWorker_turn] at later
    have new := vacant.unstarted slot later
    rw [monitorWorker_lastStart, Function.update_of_ne new.1]
    exact new.2
  case attempted =>
    intro slot first before
    rw [monitorWorker_turn] at before
    rw [monitorWorker_lastStart]
    by_cases same : workerName slot = name
    · rw [same, Function.update_self]
      exact nofun
    · rw [Function.update_of_ne same]
      exact vacant.attempted slot first before same
  case stored =>
    refine monitorWorker_stored name succeeds monitor (fun child runs same => ?_) vacant.stored
    have none := vacant.vacant
    have runs := live_pos runs
    rw [same] at runs
    omega

namespace Accounted

variable {monitor : WorkersMonitor} {child : Child}

/-- The name of a turn of the loop is a new one. -/
theorem vacantTurn (accounted : Accounted monitor) :
    Vacant { monitor with turn := monitor.turn + 1 } (workerName monitor.turn) where
  first := Nat.le_add_left 1 _
  vacant := by
    have bounded := accounted.bounded (workerName monitor.turn)
    rw [started, accounted.unstarted _ le_rfl, if_neg nofun] at bounded
    exact Nat.le_zero.mp bounded
  bounded := fun other _ => accounted.bounded other
  balanced := fun uninterrupted other _ => accounted.balanced uninterrupted other
  unstarted := by
    intro slot later
    have behind : monitor.turn < slot := later
    exact ⟨fun same => behind.ne' (workerName_injective same),
      accounted.unstarted slot behind.le⟩
  attempted := by
    intro slot first before apart
    have earlier : slot ≤ monitor.turn := Nat.lt_succ_iff.mp before
    exact accounted.attempted slot first
      (earlier.lt_of_ne fun same => apart (congrArg workerName same))
  stored := accounted.stored

/-- A child that exits leaves its handler. -/
theorem exit (accounted : Accounted monitor) (runs : child ∈ monitor.running) :
    Accounted { monitor with
      running := monitor.running.erase child
      exited := monitor.exited ++ [child] } := by
  have moved (name : String) :
      live { monitor with
          running := monitor.running.erase child, exited := monitor.exited ++ [child] } name +
        due { monitor with
          running := monitor.running.erase child, exited := monitor.exited ++ [child] } name =
      live monitor name + due monitor name := by
    have positive : child.workerName = name → 0 < live monitor name :=
      fun same => same ▸ live_pos runs
    rw [live] at positive
    simp only [live, due, List.countP_append, List.countP_singleton, List.countP_erase, runs,
      true_and, decide_eq_true_eq]
    split
    next same =>
      have runs := positive same
      omega
    next => omega
  exact ⟨accounted.first, fun name => (moved name).trans_le (accounted.bounded name),
    fun uninterrupted name => (moved name).trans (accounted.balanced uninterrupted name),
    accounted.unstarted, accounted.attempted,
    fun other member => accounted.stored other (List.mem_of_mem_erase member)⟩

/-- Without its handler, the name of a child that has exited is vacant. -/
theorem vacantExit (accounted : Accounted monitor) (pending : child ∈ monitor.exited) :
    Vacant { monitor with exited := monitor.exited.erase child } child.workerName where
  first := accounted.first
  vacant := by
    have bounded := accounted.bounded child.workerName
    have one := started_le_one monitor child.workerName
    rw [due_erase pending, if_pos rfl]
    have positive := due_pos pending
    change live monitor child.workerName + _ = 0
    omega
  bounded := by
    intro other apart
    rw [due_erase pending, if_neg apart]
    exact accounted.bounded other
  balanced := by
    intro uninterrupted other apart
    rw [due_erase pending, if_neg apart]
    exact accounted.balanced uninterrupted other
  unstarted := by
    intro slot later
    have new := accounted.unstarted slot later
    refine ⟨fun same => ?_, new⟩
    rw [same, accounted.started_of_due (due_pos pending)] at new
    contradiction
  attempted := fun slot first before _ => accounted.attempted slot first before
  stored := accounted.stored

/-- Behind a signal, handlers do nothing. -/
theorem dropped (accounted : Accounted monitor) (pending : child ∈ monitor.exited)
    (interrupted : monitor.interrupted = true) :
    Accounted { monitor with exited := monitor.exited.erase child } where
  first := accounted.first
  bounded := by
    intro name
    have bounded := accounted.bounded name
    rw [due_erase pending]
    change live monitor name + _ ≤ started monitor name
    omega
  balanced := fun uninterrupted => absurd (interrupted.symm.trans uninterrupted) nofun
  unstarted := accounted.unstarted
  attempted := accounted.attempted
  stored := accounted.stored

/-- Every step keeps the children accounted for. -/
theorem step {event : Event} {next : WorkersMonitor} (accounted : Accounted monitor)
    (stepped : step monitor event = some next) : Accounted next := by
  cases event with
  | turn succeeds =>
      obtain ⟨_, stepped⟩ := Option.ite_none_right_eq_some.mp stepped
      exact Option.some.inj stepped ▸ accounted.vacantTurn.start succeeds
  | exit child =>
      obtain ⟨runs, stepped⟩ := Option.ite_none_right_eq_some.mp stepped
      exact Option.some.inj stepped ▸ accounted.exit runs
  | onExit child succeeds =>
      obtain ⟨enabled, stepped⟩ := Option.ite_none_right_eq_some.mp stepped
      cases signal : monitor.interrupted with
      | true =>
          rw [if_pos signal] at stepped
          exact Option.some.inj stepped ▸ accounted.dropped enabled.2 signal
      | false =>
          rw [if_neg (by simp [signal])] at stepped
          exact Option.some.inj stepped ▸ (accounted.vacantExit enabled.2).start succeeds
  | interrupt =>
      obtain rfl := Option.some.inj stepped
      exact ⟨accounted.first, accounted.bounded, nofun, accounted.unstarted,
        accounted.attempted, accounted.stored⟩

end Accounted

/-- In every reachable state, the children are accounted for. -/
theorem accounted_of_run {numWorkers : Nat} {events : List Event} {monitor : WorkersMonitor}
    (run : Run step Unguarded (initial numWorkers) events monitor) : Accounted monitor :=
  run.invariant Accounted (.initial numWorkers) fun _ _ _ accounted _ stepped =>
    accounted.step stepped

theorem step_numWorkers {monitor next : WorkersMonitor} {event : Event}
    (stepped : step monitor event = some next) : next.numWorkers = monitor.numWorkers := by
  cases event with
  | turn succeeds =>
      obtain ⟨_, stepped⟩ := Option.ite_none_right_eq_some.mp stepped
      rw [← Option.some.inj stepped, monitorWorker_numWorkers]
  | exit child =>
      obtain ⟨_, stepped⟩ := Option.ite_none_right_eq_some.mp stepped
      rw [← Option.some.inj stepped]
  | onExit child succeeds =>
      obtain ⟨_, stepped⟩ := Option.ite_none_right_eq_some.mp stepped
      dsimp only at stepped
      split at stepped
      · rw [← Option.some.inj stepped]
      · rw [← Option.some.inj stepped, monitorWorker_numWorkers]
  | interrupt => rw [← Option.some.inj stepped]

theorem numWorkers_of_run {numWorkers : Nat} {events : List Event} {monitor : WorkersMonitor}
    (run : Run step Unguarded (initial numWorkers) events monitor) :
    monitor.numWorkers = numWorkers := by
  refine run.invariant (fun monitor => monitor.numWorkers = numWorkers) rfl ?_
  intro _ _ _ same _ stepped
  exact (step_numWorkers stepped).trans same

/-! ## Supervision -/

/-- Behind the loop, the handler of a child that exits starts another one for its name. -/
theorem exit_starts {monitor : WorkersMonitor} {child : Child}
    (runs : child ∈ monitor.running) (behind : monitor.numWorkers < monitor.turn)
    (uninterrupted : monitor.interrupted = false) (succeeds : Bool) :
    ∃ exited next, step monitor (.exit child) = some exited ∧
      step exited (.onExit child succeeds) = some next ∧
      next.lastStart child.workerName = some succeeds := by
  have queued : child ∈ monitor.exited ++ [child] := by simp
  refine ⟨_, _, if_pos runs, (if_pos ⟨behind, queued⟩).trans (if_neg ?_), ?_⟩
  · simp [uninterrupted]
  · rw [monitorWorker_lastStart, Function.update_self]

/-- A start that has failed is the last one for its slot. -/
theorem failed_step {monitor next : WorkersMonitor} {event : Event} {slot : Nat}
    (accounted : Accounted monitor) (failed : Failed monitor slot)
    (stepped : step monitor event = some next) : Failed next slot := by
  rw [Failed] at failed
  cases event with
  | turn succeeds =>
      obtain ⟨_, stepped⟩ := Option.ite_none_right_eq_some.mp stepped
      have apart : workerName slot ≠ workerName monitor.turn := by
        intro same
        rw [same, accounted.unstarted monitor.turn le_rfl] at failed
        contradiction
      rw [← Option.some.inj stepped, Failed, monitorWorker_lastStart,
        Function.update_of_ne apart]
      exact failed
  | exit child =>
      obtain ⟨_, stepped⟩ := Option.ite_none_right_eq_some.mp stepped
      exact Option.some.inj stepped ▸ failed
  | onExit child succeeds =>
      obtain ⟨enabled, stepped⟩ := Option.ite_none_right_eq_some.mp stepped
      have apart : workerName slot ≠ child.workerName := by
        intro same
        rw [same, accounted.started_of_due (due_pos enabled.2)] at failed
        contradiction
      dsimp only at stepped
      split at stepped
      · exact Option.some.inj stepped ▸ failed
      · rw [← Option.some.inj stepped, Failed, monitorWorker_lastStart,
          Function.update_of_ne apart]
        exact failed
  | interrupt => exact Option.some.inj stepped ▸ failed

/-- A slot whose start has failed is given up, whatever happens later. -/
theorem failed_of_run {monitor later : WorkersMonitor} {events : List Event} {slot : Nat}
    (accounted : Accounted monitor) (failed : Failed monitor slot)
    (run : Run step Unguarded monitor events later) : Failed later slot := by
  have both := run.invariant (fun later => Accounted later ∧ Failed later slot)
    ⟨accounted, failed⟩ fun _ _ _ holds _ stepped =>
      ⟨holds.1.step stepped, failed_step holds.1 holds.2 stepped⟩
  exact both.2

/-- Without a signal, a slot has a child, or a start is to come for it, exactly when its last
start has not failed; and it never has two children, or one and a start to come. -/
theorem slots_supervised {numWorkers : Nat} {events : List Event} {monitor : WorkersMonitor}
    (run : Run step Unguarded (initial numWorkers) events monitor)
    (uninterrupted : monitor.interrupted = false) {slot : Nat} (first : 1 ≤ slot)
    (last : slot ≤ numWorkers) :
    live monitor (workerName slot) + due monitor (workerName slot) ≤ 1 ∧
      (Alive monitor slot ∨ Scheduled monitor slot ↔ ¬Failed monitor slot) := by
  have accounted := accounted_of_run run
  have total := numWorkers_of_run run
  have count := accounted.balanced uninterrupted (workerName slot)
  have one := Accounted.started_le_one monitor (workerName slot)
  refine ⟨count.trans_le one, ?_⟩
  rw [Alive, Scheduled, Failed, total]
  by_cases toCome : monitor.turn ≤ slot
  · rw [accounted.unstarted slot toCome]
    exact iff_of_true (.inr (.inl ⟨toCome, last⟩)) nofun
  · cases result : monitor.lastStart (workerName slot) with
    | none => exact absurd result (accounted.attempted slot first (Nat.not_le.mp toCome))
    | some succeeded =>
        rw [started, result] at count
        cases succeeded with
        | true =>
            rw [if_pos rfl] at count
            exact iff_of_true (by omega) nofun
        | false =>
            rw [if_neg nofun] at count
            exact iff_of_false (by omega) fun failed => failed rfl

/-- Two slots: the child of one is replaced, and the start of the other fails. -/
theorem replaced_supervised :
    ∃ monitor, Run step Unguarded (initial 2)
        [.turn true, .turn false, .exit ⟨0, "1"⟩, .onExit ⟨0, "1"⟩ true] monitor ∧
      live monitor (workerName 1) + due monitor (workerName 1) ≤ 1 ∧
      (Alive monitor 1 ∨ Scheduled monitor 1) ∧ ¬(Alive monitor 2 ∨ Scheduled monitor 2) := by
  obtain ⟨monitor, run, check⟩ :=
    Run.exists_of_exec (fun monitor : WorkersMonitor =>
        !monitor.interrupted && !decide (Failed monitor 1) && decide (Failed monitor 2))
      (by decide +kernel :
        (exec step Unguarded (initial 2)
          [.turn true, .turn false, .exit ⟨0, "1"⟩, .onExit ⟨0, "1"⟩ true]).any
            (fun monitor =>
              !monitor.interrupted && !decide (Failed monitor 1) &&
                decide (Failed monitor 2)) = true)
  simp only [Bool.and_eq_true, Bool.not_eq_true', decide_eq_false_iff_not, decide_eq_true_iff]
    at check
  obtain ⟨⟨quiet, replaced⟩, failed⟩ := check
  have first := slots_supervised run quiet (by decide : 1 ≤ 1) (by decide)
  have second := slots_supervised run quiet (by decide : 1 ≤ 2) (by decide)
  exact ⟨monitor, run, first.1, first.2.mpr replaced,
    fun supervised => second.2.mp supervised failed⟩

/-- A slot is given up when its first start fails, or the one behind an exit of its child. -/
theorem failed_start_abandons :
    (∃ monitor, Run step Unguarded (initial 1) [.turn false] monitor ∧
        monitor.interrupted = false ∧ ¬Alive monitor 1 ∧ ¬Scheduled monitor 1) ∧
      ∃ monitor, Run step Unguarded (initial 1)
          [.turn true, .exit ⟨0, "1"⟩, .onExit ⟨0, "1"⟩ false] monitor ∧
        monitor.interrupted = false ∧ ¬Alive monitor 1 ∧ ¬Scheduled monitor 1 := by
  have abandoned (events : List Event)
      (executed : (exec step Unguarded (initial 1) events).any (fun monitor =>
        !monitor.interrupted && !decide (Alive monitor 1) && !decide (Scheduled monitor 1)) =
          true) :
      ∃ monitor, Run step Unguarded (initial 1) events monitor ∧
        monitor.interrupted = false ∧ ¬Alive monitor 1 ∧ ¬Scheduled monitor 1 := by
    obtain ⟨monitor, run, check⟩ := Run.exists_of_exec _ executed
    simp only [Bool.and_eq_true, Bool.not_eq_true', decide_eq_false_iff_not] at check
    exact ⟨monitor, run, check.1.1, check.1.2, check.2⟩
  exact ⟨abandoned _ (by decide +kernel), abandoned _ (by decide +kernel)⟩

end Cdcm.Supervisor

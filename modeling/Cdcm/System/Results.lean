import Cdcm.Backend.Accounting
import Cdcm.Backend.Responses
import Cdcm.Frontend.LocalResults

/-!
# What results carry

A result that leaves the broker or a worker is read by a client, who finds in it the id of
the action and a status that says whether the value is the data or the text of an error.
-/

namespace Cdcm.System

open Json Protocol Zmq SessionsCache Backend Frontend Machine

/-- A worker process that has loaded plugins. -/
def withPlugins (env : WorkerEnvironment) (loaded : List Plugin) : WorkerEnvironment :=
  { env with find := Plugin.reader loaded }

/-! ## Status and value -/

/-- Status and value of a result agree, unless an action has listed the values of a key
or read a value that looks like an error. In a run of a worker in which no action has
listed values, every result is sent with a status, and so is every result of the broker. -/
theorem responses_consistent (env : Environment) (workerEnv : WorkerEnvironment) :
    (∀ (plugin : Plugin) (asset : Asset) (sess : Option Session) (msg : PluginMsg) (exit : Exit)
        (id : ByteString) (filled : ResultMsg), plugin.act asset sess msg = some exit →
      exit.response.fill { ResultMsg.new with id := id } = some filled →
        ((exit.status ≠ .postponed → Consistent exit.response.data filled) ↔
          ¬ ListsValues asset sess msg plugin ∧ ¬ ReadsErrorText asset sess msg plugin)) ∧
      (∀ (identity : ByteString) (connect handle : Int) (first worker : MessageWorker)
          (events : List WorkerEvent),
        MessageWorker.start workerEnv identity connect handle = some first →
        Run (MessageWorker.step workerEnv) (MessageWorker.Admitted workerEnv (FromPlugin workerEnv
          fun asset sess msg plugin => ¬ ListsValues asset sess msg plugin)) first events worker →
          ∀ sent ∈ worker.journal, ∀ answered, sent.answered = some answered →
            ∀ answer ∈ answered.answers, Assigned answer.result.respStatus) ∧
      (∀ (sessions next : SharedMemSessionsCache) (sess : Option Session)
          (input : Frontend.ActInput) (message : ActionMsg) (res filled : ResultMsg),
        message.act env sessions sess input res = some (next, filled) →
          Assigned filled.respStatus) ∧
      ∀ (id : ByteString) (filled : ResultMsg), malformedResult id = some filled →
        Assigned filled.respStatus := by
  refine ⟨?_, ?_, fun _ _ _ _ _ _ _ acted => (act_spec acted).1,
    fun _ _ malformed => malformedResult_assigned malformed⟩
  · intro plugin asset sess msg exit id filled acted fills
    rw [← act_sound_iff acted]
    constructor
    · intro consistent
      by_contra unsound
      have exits : exit.status = .succeeded := by
        apply succeeded_of_not_sound acted
        by_contra neither
        exact unsound ((act_sound_iff acted).mpr (not_or.mp neither))
      apply unsound
      apply (fill_consistent_iff fills).mp
      apply consistent
      rw [exits]
      decide
    · intro sound _
      exact (fill_consistent_iff fills).mpr sound
  · intro identity connect handle first worker events started run
    have produced := MessageWorker.allProduced_of_run started run
    intro sent member answered isAnswered answer isAnswer
    exact (produced.sent sent member answered isAnswered answer isAnswer).assigned

/-- A machine on which every call succeeds. -/
def sampleAsset : Asset where
  connect := ⟨true, 0⟩
  openKey := ⟨true, 0⟩
  subKeys := []
  registryValues := [⟨text "Path", text "REG_SZ", text "C:"⟩]
  enumerated := ⟨true, 0⟩
  value := (⟨true, 0⟩, ⟨text "Path", text "REG_SZ", text "C:"⟩)
  sd := (⟨true, 0⟩, ⟨text "1", [], [], [], []⟩)
  openFile := (true, 0)
  listed := some []
  errno := 0
  fileSize := 0
  lastModified := 0
  peValues := []
  allocates := true
  read := fun _ _ => (0, [])
  shares := (⟨true, 0⟩, [])
  winErrstr := fun _ => text "WERR"
  ntErrstr := fun _ => text "NT_STATUS"
  strerror := fun _ => text "error"
  wildcards := fun _ _ => true

def sampleSession : Session := ⟨1, text "10.0.0.1", ⟨[], text "scan", text "secret", []⟩⟩

/-- Asked for the value of a key, the plugin answers with data and the status `OK`. -/
theorem responses_consistent_query :
    Consistent (some (.string (text "C:")))
      ⟨text "7", ⟨some 1, text "OK", some 101⟩, some (.string (text "C:"))⟩ := by
  apply ((responses_consistent (sampleEnv []) (MessageWorker.sampleWorkerEnv [])).1 .queryValue
    sampleAsset (some sampleSession) (.queryValue (text "7") (text "HKLM") (text "Path"))
    ⟨.succeeded, .success (.string (text "C:"))⟩ (text "7") _ rfl rfl).mpr
  · constructor
    · intro lists
      exact nomatch lists.1
    · intro ⟨_, _, _, _, _, ⟨message, isText⟩, _⟩
      have lengths := congrArg List.length (Value.string.inj isText)
      rw [List.length_append] at lengths
      have short : (sampleAsset.value.2.value).length < (text "Error: ").length := by decide
      omega
  · decide

/-- Asked for all the values of a key, the plugin answers without a status. -/
theorem listed_values_unassigned :
    ∃ exit filled, Plugin.enumerateRegistryValues.act sampleAsset (some sampleSession)
        (.enumerateRegistryValues (text "7") (text "HKLM")) = some exit ∧
      exit.status = .succeeded ∧
      exit.response.fill { ResultMsg.new with id := text "7" } = some filled ∧
      ¬ Assigned filled.respStatus ∧ ¬ Consistent exit.response.data filled := by
  refine ⟨_, _, rfl, rfl, rfl, ?_⟩
  have unset : ¬ Assigned ResultMsg.new.respStatus := by
    intro ⟨group, code, assigned, _⟩
    exact nomatch congrArg RespStatus.codeGroup assigned
  exact ⟨unset, fun consistent => unset consistent.assigned⟩

/-! ## The id -/

/-- A result for an action has the id in the JSON object of the action. -/
def CarriesId (action : Value) (res : ResultMsg) : Prop :=
  ∀ id, actionId action = some id → res.id = id

theorem readFields_id {plugin : Plugin} {id : ByteString}
    {field : ByteString → Except Fault ByteString} {msg : PluginMsg}
    (reads : plugin.readFields id field = .ok msg) : msg.id = id := by
  cases plugin with
  | enumerateShares => rw [← Except.ok.inj reads, PluginMsg.id]
  | queryValue | valueExists | smbListDir =>
      obtain ⟨_, -, rest⟩ := bind_eq_ok.mp reads
      obtain ⟨_, -, made⟩ := bind_eq_ok.mp rest
      rw [← Except.ok.inj made, PluginMsg.id]
  | smbReadFile =>
      obtain ⟨_, -, rest⟩ := bind_eq_ok.mp reads
      obtain ⟨_, -, rest⟩ := bind_eq_ok.mp rest
      obtain ⟨_, -, made⟩ := bind_eq_ok.mp rest
      rw [← Except.ok.inj made, PluginMsg.id]
  | _ =>
      obtain ⟨_, -, made⟩ := bind_eq_ok.mp reads
      rw [← Except.ok.inj made, PluginMsg.id]

/-- The id of a message is the string under `id` in the body of its action. -/
theorem getMessage_id {plugin : Plugin} {action : Value} {msg : PluginMsg}
    (gets : plugin.getMessage action = .ok msg) :
    ∃ body, action.at plugin.name = .ok body ∧
      (body.at (text "id")).bind Value.asString = .ok msg.id := by
  simp only [Plugin.getMessage, bind_eq_ok] at gets
  obtain ⟨body, isBody, id, ⟨value, isValue, isId⟩, reads⟩ := gets
  rw [readFields_id reads]
  exact ⟨body, isBody, bind_eq_ok.mpr ⟨value, isValue, isId⟩⟩

/-- The action with the id of the message that a plugin has read. -/
theorem actionId_of_readId {env : WorkerEnvironment} {loaded : List Plugin} {action : Value}
    {id : ByteString} (reads : readId (withPlugins env loaded) action = .ok (some id)) :
    actionId action = some id := by
  simp only [readId, bind_eq_ok, Value.getObject_eq_ok] at reads
  obtain ⟨members, isObject, key, isFirst, found⟩ := reads
  split at found
  next getMessage isReader =>
    obtain ⟨read, gets, made⟩ := bind_eq_ok.mp found
    rw [Option.some.inj (Except.ok.inj made)] at gets
    obtain ⟨plugin, isFound, rfl⟩ := Option.map_eq_some_iff.mp isReader
    have isName : plugin.name = key := by
      simpa using List.find?_some isFound
    obtain ⟨msg, isMsg, isId⟩ := bind_eq_ok.mp gets
    obtain ⟨body, isBody, isRead⟩ := getMessage_id isMsg
    rw [Except.ok.inj isId] at isRead
    exact actionId_eq_some isObject isFirst (isName ▸ isBody) isRead
  next => exact nomatch Except.ok.inj found

theorem idOrUnknown_eq (action : Value) :
    idOrUnknown action = (actionId action).getD (text "unknown") := by
  fun_cases idOrUnknown action with
  | case1 _ body _ id isId => simp [actionId, isId, Except.toOption]
  | case2 _ body _ fault isFault => simp [actionId, isFault, Except.toOption]
  | case3 _ notObject =>
      rw [actionId]
      · rfl
      · exact notObject

theorem malformedResult_id {id : ByteString} {res : ResultMsg}
    (malformed : malformedResult id = some res) : res.id = id :=
  (setResponseForError_assigned malformed).1

/-- An exception at an action does not hide an id from the client. -/
def Unhidden (env : WorkerEnvironment) (action : Value) (outcome : ActOutcome) : Prop :=
  Raises env action outcome → ∀ id, actionId action = some id → id = text "unknown"

/-- The result of a worker for an action has the id of the action. -/
theorem carriesId_of_produced {env : WorkerEnvironment} {loaded : List Plugin} {answer : Answer}
    {action : Value} (isAction : answer.action = some action)
    (produced : Produced (withPlugins env loaded) (Unhidden (withPlugins env loaded)) answer) :
    CarriesId action answer.result := by
  intro id isId
  cases produced with
  | acted reads _ =>
      obtain rfl := Option.some.inj isAction
      have same := actionId_of_readId reads
      rw [isId] at same
      exact (Option.some.inj same).symm
  | unknown reads malformed =>
      obtain rfl := Option.some.inj isAction
      rw [malformedResult_id malformed, idOrUnknown_eq, isId, Option.getD_some]
  | failed unhidden raises malformed =>
      obtain rfl := Option.some.inj isAction
      rw [malformedResult_id malformed, unhidden raises id isId]
  | unreadable malformed => contradiction

/-- The results of known actions, one by one. -/
theorem carriesId_iff {env : Environment} {sess : Option Session} {acts : Nat → Frontend.ActInput}
    {actions : List Value} {known : List ActionMsg} {results : List ResultMsg} {start : Nat}
    (read : List.Forall₂ (fun action message => actionId action = some message.id) actions known)
    (acted : List.Forall₂ (fun entry res => ∃ sessions after,
      entry.1.act env sessions sess (acts entry.2) .new = some (after, res))
      (known.zipIdx start) results) :
    List.Forall₂ CarriesId actions results ↔
      ∀ entry ∈ known.zipIdx start, entry.1.FillsId sess (acts entry.2) ∨ entry.1.id = [] := by
  induction read generalizing results start with
  | nil =>
      cases acted
      simp
  | @cons action message actions known isId read ih =>
      rw [List.zipIdx_cons] at acted ⊢
      cases acted with
      | cons first rest =>
          obtain ⟨sessions, after, isActed⟩ := first
          rw [List.forall₂_cons, ih rest, List.forall_mem_cons, ← act_id_iff isActed]
          simp [CarriesId, isId]

/-- Results carry the ids of their actions. The broker sends the results of the local
actions of a message with their ids exactly when each of them gets to the line that copies
it, or has an empty one; what it sends for a malformed message has the id `N/A`. In a run
of a worker in which no exception is raised at an action, each result has the id of its
action. -/
theorem results_identified (env : Environment) (workerEnv : WorkerEnvironment)
    (loaded : List Plugin) :
    (∀ (broker next : MessageBroker) (input : ClientInput) (sender mstr : ByteString) (msg : Zmsg)
        (actions : List Value),
      bodyActions env.library mstr = some actions → (extract env.library mstr).1.known ≠ [] →
      broker.runKnown env input (extract env.library mstr).1 sender msg = some next →
        ∃ (acted : MessageBroker) (results : List ResultMsg),
          acted.sendLocalToClient env ⟨(extract env.library mstr).1.hdr, results⟩ sender
              msg.unwrap.1 = some next ∧
            (List.Forall₂ CarriesId (localActions actions) results ↔
              ∀ entry ∈ (extract env.library mstr).1.known.zipIdx,
                entry.1.FillsId (broker.sessionOf env input (extract env.library mstr).1)
                  (input.acts entry.2) ∨ entry.1.id = [])) ∧
      (∀ (broker next : MessageBroker) (now : Int) (hdr : Header) (sender : ByteString)
          (msg rest : Zmsg),
        broker.rejectMalformed env now hdr sender msg = some (next, rest) →
          ∃ (before : MessageBroker) (res : ResultMsg),
            before.sendLocalToClient env ⟨hdr, [res]⟩ sender msg.unwrap.1 = some next ∧
              ∀ action, CarriesId action res ↔ ∀ id, actionId action = some id → id = text "N/A") ∧
      ∀ (identity : ByteString) (connect handle : Int) (first worker : MessageWorker)
          (events : List WorkerEvent),
        MessageWorker.start (withPlugins workerEnv loaded) identity connect handle = some first →
        Run (MessageWorker.step (withPlugins workerEnv loaded))
          (MessageWorker.Admitted (withPlugins workerEnv loaded)
            (Unhidden (withPlugins workerEnv loaded))) first events worker →
          ∀ sent ∈ worker.journal, ∀ answered, sent.answered = some answered →
            ∀ answer ∈ answered.answers, ∀ action, answer.action = some action →
              CarriesId action answer.result := by
  refine ⟨?_, ?_, ?_⟩
  · intro broker next input sender mstr msg actions isBody known ran
    obtain ⟨acted, results, sent, paired⟩ := MessageBroker.runKnown_results known ran
    exact ⟨acted, results, sent, carriesId_iff (known_of_extract isBody) paired⟩
  · intro broker next now hdr sender msg rest rejected
    obtain ⟨before, res, sent, isId, -⟩ := MessageBroker.rejectMalformed_results rejected
    refine ⟨before, res, sent, fun action => ?_⟩
    simp only [CarriesId, isId, eq_comm]
  · intro identity connect handle first worker events started run
    have produced := MessageWorker.allProduced_of_run started run
    intro sent member answered isAnswered answer isAnswer action isAction
    exact carriesId_of_produced isAction
      (produced.sent sent member answered isAnswered answer isAnswer)

/-- A request for the version of the program. -/
def versionAction : Value :=
  .object [(text "get_cdcm_info",
    .object [(text "id", .string (text "7")), (text "what", .string (text "cdcm_version"))])]

def versionEnv : Environment := sampleEnv [sampleBody [versionAction]]

/-- The result for the version has the id of the request. -/
theorem results_identified_version :
    ∃ next acted results,
      sampleBroker.runKnown versionEnv (⟨0, 0, 0, fun _ => ⟨0, 1, .succeeds⟩, 0⟩ : ClientInput)
          (extract versionEnv.library ((sampleBody [versionAction]).print none 0)).1
          (text "client") ⟨[text "cdcm", []]⟩ = some next ∧
        MessageBroker.sendLocalToClient acted versionEnv ⟨⟨text "N/A"⟩, results⟩ (text "client")
          (text "cdcm") = some next ∧
        List.Forall₂ CarriesId [versionAction] results := by
  have isBody : bodyActions versionEnv.library ((sampleBody [versionAction]).print none 0) =
      some [versionAction] := by rfl
  have known : (extract versionEnv.library ((sampleBody [versionAction]).print none 0)).1.known =
      [.getCdcmInfo (text "7") (text "cdcm_version")] := by decide +kernel
  have header : (extract versionEnv.library ((sampleBody [versionAction]).print none 0)).1.hdr =
      ⟨text "N/A"⟩ := by decide +kernel
  obtain ⟨next, ran⟩ := Option.isSome_iff_exists.mp (show (sampleBroker.runKnown versionEnv
      ⟨0, 0, 0, fun _ => ⟨0, 1, .succeeds⟩, 0⟩
      (extract versionEnv.library ((sampleBody [versionAction]).print none 0)).1
      (text "client") ⟨[text "cdcm", []]⟩).isSome = true by decide +kernel)
  obtain ⟨acted, results, sent, carries⟩ := (results_identified versionEnv
    (MessageWorker.sampleWorkerEnv []) []).1 sampleBroker next
    ⟨0, 0, 0, fun _ => ⟨0, 1, .succeeds⟩, 0⟩ (text "client") _ ⟨[text "cdcm", []]⟩
    [versionAction] isBody (by simp [known]) ran
  refine ⟨next, acted, results, ran, header ▸ sent, carries.mpr ?_⟩
  intro entry member
  rw [known] at member
  rw [List.mem_singleton.mp member]
  exact .inl trivial

/-- A start of a session without a remote. -/
def namelessStart : Value :=
  .object [(text "start_session", .object [(text "domain", .string []),
    (text "id", .string (text "7")), (text "password", .string []), (text "remote", .string []),
    (text "username", .string (text "scan")), (text "workstation", .string [])])]

def namelessEnv : Environment := sampleEnv [sampleBody [namelessStart]]

/-- Its result: the id is empty. -/
def namelessResult : ResultMsg :=
  ⟨[], ⟨some 2, text "Error in request", some 207⟩,
    some (.string (text "Error: Remote and username are mandatory"))⟩

/-- The message of an entry on the external socket. -/
def toClient : Traffic → Option Zmsg
  | .sent .external msg _ => some msg
  | _ => none

theorem toClient_eq_some {entry : Traffic} {msg : Zmsg} (sent : toClient entry = some msg) :
    ∃ workers, entry = .sent .external msg workers := by
  unfold toClient at sent
  split at sent
  next other workers => exact ⟨workers, by rw [Option.some.inj sent]⟩
  next => contradiction

/-- The reply with this result leaves for the client. -/
theorem nameless_loses_id :
    ¬ CarriesId namelessStart namelessResult ∧
      ∃ next body workers,
        sampleBroker.step namelessEnv (clientSends "client" (sampleBody [namelessStart]) 0) =
          some next ∧
        ResMsg.print namelessEnv.library (some 2) ⟨⟨text "N/A"⟩, [namelessResult]⟩ = some body ∧
        Traffic.sent .external (MessageBroker.localReply (text "client") (text "cdcm") body)
          workers ∈
          next.journal := by
  constructor
  · intro carries
    have isId : actionId namelessStart = some (text "7") := by decide
    exact absurd (carries _ isId) (by decide)
  · obtain ⟨body, printed⟩ := Option.isSome_iff_exists.mp (show (ResMsg.print namelessEnv.library
      (some 2) ⟨⟨text "N/A"⟩, [namelessResult]⟩).isSome from rfl)
    have leaves : ((sampleBroker.step namelessEnv
        (clientSends "client" (sampleBody [namelessStart]) 0)).any fun next =>
          next.journal.any fun entry =>
            toClient entry = (ResMsg.print namelessEnv.library (some 2)
                ⟨⟨text "N/A"⟩, [namelessResult]⟩).map
                  (MessageBroker.localReply (text "client") (text "cdcm"))) = true := by
      decide +kernel
    obtain ⟨next, stepped, observed⟩ := (Option.any_eq_true _ _).mp leaves
    obtain ⟨entry, member, isReply⟩ := List.any_eq_true.mp observed
    rw [decide_eq_true_eq, printed, Option.map_some] at isReply
    obtain ⟨workers, rfl⟩ := toClient_eq_some isReply
    exact ⟨next, body, workers, stepped, printed, member⟩

end Cdcm.System

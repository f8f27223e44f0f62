import Cdcm.Lib.MultiIndex
import Cdcm.Protocol.MsgTypes

/-!
# The queue of postponed actions

The class `postponed_actions_queue` of `postponed_actions.hpp`: postponed actions
under their id, which is unique, and in the order of their expiration.
-/

namespace Cdcm.Backend

open Json Protocol OrderedIndex MultiIndex

/-- `postponed_action`; the remaining runs are an 8-bit number. -/
structure PostponedAction where
  actionMessage : Value
  replyTo : ByteString
  id : ByteString
  remainingRuns : Fin 256
  expirationTime : Int
  header : Header

/-- The tags of the indices. -/
inductive PostponedTag where
  | id
  | expiration
  deriving DecidableEq, Repr

namespace PostponedActionsQueue

/-- The indices of `p_actions`. -/
@[reducible] def schema : Schema PostponedAction where
  Tag := PostponedTag
  Key
    | .id => ByteString
    | .expiration => Int
  key
    | .id, action => action.id
    | .expiration, action => action.expirationTime
  order
    | .id => List.instLinearOrder
    | .expiration => Int.instLinearOrder
  unique
    | .id => true
    | .expiration => false
  tags := [.id, .expiration]
  complete tag := by cases tag <;> simp
  primary := .id

end PostponedActionsQueue

/-- `postponed_actions_queue`. -/
structure PostponedActionsQueue where
  paq : Container PostponedActionsQueue.schema

namespace PostponedActionsQueue

/-- The queue without actions. -/
def empty : PostponedActionsQueue := ⟨.empty⟩

variable (queue : PostponedActionsQueue)

/-- `decrement_runs_and_update_expiration`. -/
def decrementRunsAndUpdateExpiration (now : Int) (ids : ByteString) :
    PostponedActionsQueue × Bool :=
  match queue.paq.find PostponedTag.id ids with
  | none => (queue, false)
  | some pa =>
      (⟨(queue.paq.modify pa.addr fun x =>
        { x with expirationTime := now + 1, remainingRuns := x.remainingRuns - 1 }).1⟩, true)

/-- `remove_by_id`. -/
def removeById (ids : ByteString) : PostponedActionsQueue × Bool :=
  match queue.paq.find PostponedTag.id ids with
  | none => (queue, false)
  | some pa => (⟨queue.paq.erase pa.addr⟩, true)

/-- `add`. -/
def add (pa : PostponedAction) : PostponedActionsQueue × Bool :=
  let (paq, added) := queue.paq.insert pa
  (⟨paq⟩, added)

/-- The action that expires first; `top` must not be called without one. -/
def top : Option PostponedAction :=
  (queue.paq.index PostponedTag.expiration).head?.map Node.val

/-! ## The actions in the queue -/

/-- The actions in the queue, each as often as it is in there. -/
def actions : Multiset PostponedAction := ↑(queue.paq.nodes.map Node.val)

/-- An action with the id is in the queue. -/
def Has (ids : ByteString) : Prop := (queue.paq.find PostponedTag.id ids).isSome

instance (ids : ByteString) : Decidable (queue.Has ids) :=
  inferInstanceAs (Decidable (_ = true))

variable {queue}

theorem unique_id : schema.unique PostponedTag.id = true := rfl

@[simp] theorem actions_empty : empty.actions = 0 := rfl

theorem has_iff {ids : ByteString} : queue.Has ids ↔ ∃ pa ∈ queue.actions, pa.id = ids := by
  have nodes : (∃ pa ∈ queue.actions, pa.id = ids) ↔
      ∃ node ∈ queue.paq, node.val.id = ids := by
    simp [actions]
  rw [nodes, Has, Option.isSome_iff_exists]
  exact exists_congr fun node => Container.find_eq_some unique_id

/-- The first action is one in the queue. -/
theorem top_mem {pa : PostponedAction} (isTop : queue.top = some pa) :
    pa ∈ queue.actions := by
  obtain ⟨node, first, rfl⟩ := Option.map_eq_some_iff.mp isTop
  have member : node ∈ queue.paq :=
    (Container.mem_index PostponedTag.expiration).mp (List.mem_of_head? first)
  exact List.mem_map_of_mem member

/-- An action is added unless one with its id is in the queue. -/
theorem add_refused_iff {pa : PostponedAction} :
    (queue.add pa).2 = false ↔ queue.Has pa.id := by
  refine Container.insert_refused_iff.trans ?_
  rw [Has, Option.isSome_iff_exists]
  refine exists_congr fun node => ?_
  rw [Container.find_eq_some unique_id, Schema.clash_eq_true]
  refine and_congr_right fun _ => ⟨?_, fun equal => ⟨.id, rfl, equal.symm⟩⟩
  rintro ⟨tag, isUnique, equal⟩
  cases tag with
  | id => exact equal.symm
  | expiration => contradiction

/-- What `add` does to the actions: a second action of an id is dropped. -/
theorem actions_add (pa : PostponedAction) :
    (queue.add pa).1.actions = if queue.Has pa.id then queue.actions else pa ::ₘ queue.actions := by
  cases accepted : (queue.add pa).2 with
  | false =>
      rw [if_pos (add_refused_iff.mp accepted)]
      exact congrArg (fun paq => (⟨paq⟩ : PostponedActionsQueue).actions)
        (Container.insert_of_refused accepted)
  | true =>
      have free : ¬ queue.Has pa.id := by
        intro taken
        rw [add_refused_iff.mpr taken] at accepted
        contradiction
      rw [if_neg free]
      exact Multiset.coe_eq_coe.mpr ((Container.nodes_insert_perm accepted).map Node.val)

/-- Removing the id of an action in the queue takes that action out. -/
theorem actions_removeById {pa : PostponedAction} (member : pa ∈ queue.actions) :
    queue.actions = pa ::ₘ (queue.removeById pa.id).1.actions := by
  obtain ⟨node, stored, rfl⟩ := List.mem_map.mp (Multiset.mem_coe.mp member)
  have found : queue.paq.find PostponedTag.id node.val.id = some node :=
    (Container.find_eq_some unique_id).mpr ⟨stored, rfl⟩
  rw [removeById, found]
  exact Multiset.coe_eq_coe.mpr ((Container.nodes_erase_perm stored).map Node.val)

/-- A postponed action as it waits again. -/
def again (now : Int) (pa : PostponedAction) : PostponedAction :=
  { pa with expirationTime := now + 1, remainingRuns := pa.remainingRuns - 1 }

/-- Waiting again changes no unique key. -/
theorem clash_again (now : Int) (pa other : PostponedAction) :
    schema.clash (again now pa) other = schema.clash pa other := rfl

/-- Updating the id of an action in the queue exchanges that action. -/
theorem actions_decrement (now : Int) {pa : PostponedAction} (member : pa ∈ queue.actions) :
    ∃ rest, queue.actions = pa ::ₘ rest ∧
      (queue.decrementRunsAndUpdateExpiration now pa.id).1.actions = again now pa ::ₘ rest := by
  obtain ⟨node, stored, rfl⟩ := List.mem_map.mp (Multiset.mem_coe.mp member)
  have found : queue.paq.find PostponedTag.id node.val.id = some node :=
    (Container.find_eq_some unique_id).mpr ⟨stored, rfl⟩
  have noClash : ∀ other ∈ queue.paq, other.addr ≠ node.addr →
      schema.clash (again now node.val) other.val = false := by
    intro other otherStored distinct
    rw [clash_again]
    exact Container.clash_eq_false stored otherStored distinct.symm
  rw [decrementRunsAndUpdateExpiration, found]
  exact ⟨Multiset.ofList ((queue.paq.erase node.addr).nodes.map Node.val),
    Multiset.coe_eq_coe.mpr ((Container.nodes_erase_perm stored).map Node.val),
    Multiset.coe_eq_coe.mpr ((Container.nodes_modify_perm stored noClash).map Node.val)⟩

/-- What holds of all actions, and of one that waits again, still holds of all. -/
theorem forall_decrement {P : PostponedAction → Prop} (now : Int) {pa : PostponedAction}
    (member : pa ∈ queue.actions) (keeps : P pa → P (again now pa))
    (all : ∀ other ∈ queue.actions, P other) :
    ∀ other ∈ (queue.decrementRunsAndUpdateExpiration now pa.id).1.actions, P other := by
  obtain ⟨rest, before, after⟩ := actions_decrement now member
  intro other isIn
  rw [after, Multiset.mem_cons] at isIn
  cases isIn with
  | inl same => exact same ▸ keeps (all pa member)
  | inr isIn => exact all other (before ▸ Multiset.mem_cons_of_mem isIn)

/-- Whatever id is removed, no action is new. -/
theorem mem_removeById {ids : ByteString} {pa : PostponedAction}
    (member : pa ∈ (queue.removeById ids).1.actions) : pa ∈ queue.actions := by
  by_cases has : queue.Has ids
  · obtain ⟨removed, isIn, rfl⟩ := has_iff.mp has
    rw [actions_removeById isIn]
    exact Multiset.mem_cons_of_mem member
  · rw [removeById, Option.not_isSome_iff_eq_none.mp has] at member
    exact member

/-- No action expires before the first one. -/
theorem top_le {top pa : PostponedAction} (isTop : queue.top = some top)
    (member : pa ∈ queue.actions) : top.expirationTime ≤ pa.expirationTime := by
  obtain ⟨first, isFirst, rfl⟩ := Option.map_eq_some_iff.mp isTop
  obtain ⟨node, stored, rfl⟩ := List.mem_map.mp (Multiset.mem_coe.mp member)
  obtain ⟨rest, whole⟩ := List.head?_eq_some_iff.mp isFirst
  have linked : node ∈ queue.paq.index PostponedTag.expiration :=
    (Container.mem_index PostponedTag.expiration).mpr stored
  have sorted := queue.paq.sorted PostponedTag.expiration
  rw [whole] at linked sorted
  cases List.mem_cons.mp linked with
  | inl same => exact same ▸ le_rfl
  | inr later => exact (List.pairwise_cons.mp sorted).1 node later

/-- There is a first action unless the queue is empty. -/
theorem top_isSome {pa : PostponedAction} (member : pa ∈ queue.actions) :
    queue.top.isSome := by
  obtain ⟨node, stored, rfl⟩ := List.mem_map.mp (Multiset.mem_coe.mp member)
  have linked : node ∈ queue.paq.index PostponedTag.expiration :=
    (Container.mem_index PostponedTag.expiration).mpr stored
  rw [top, Option.isSome_map, List.isSome_head?]
  exact List.ne_nil_of_mem linked

/-- The id of an action in the queue is that of no other. -/
theorem eq_of_id_eq {left right : PostponedAction} (isLeft : left ∈ queue.actions)
    (isRight : right ∈ queue.actions) (equal : left.id = right.id) : left = right := by
  obtain ⟨leftNode, leftStored, rfl⟩ := List.mem_map.mp (Multiset.mem_coe.mp isLeft)
  obtain ⟨rightNode, rightStored, rfl⟩ := List.mem_map.mp (Multiset.mem_coe.mp isRight)
  exact congrArg Node.val (Container.eq_of_key_eq unique_id leftStored rightStored equal)

/-- An action that is removed has left. -/
theorem not_has_removeById (ids : ByteString) : ¬ (queue.removeById ids).1.Has ids := by
  by_cases has : queue.Has ids
  · obtain ⟨node, found⟩ := Option.isSome_iff_exists.mp has
    rw [removeById, found, Has, Option.not_isSome_iff_eq_none, Container.find_eq_none]
    exact fun other member => ((Container.mem_erase_find unique_id found other).mp member).2
  · rwa [removeById, Option.not_isSome_iff_eq_none.mp has]

/-- Whatever id is updated, no action is for a new client. -/
theorem replyTo_of_mem_decrement {now : Int} {ids : ByteString} {pa : PostponedAction}
    (member : pa ∈ (queue.decrementRunsAndUpdateExpiration now ids).1.actions) :
    ∃ old ∈ queue.actions, pa.replyTo = old.replyTo := by
  by_cases has : queue.Has ids
  · obtain ⟨updated, isIn, rfl⟩ := has_iff.mp has
    obtain ⟨rest, before, after⟩ := actions_decrement now isIn
    rw [after, Multiset.mem_cons] at member
    rcases member with rfl | member
    · exact ⟨updated, isIn, rfl⟩
    · exact ⟨pa, before ▸ Multiset.mem_cons_of_mem member, rfl⟩
  · rw [decrementRunsAndUpdateExpiration, Option.not_isSome_iff_eq_none.mp has] at member
    exact ⟨pa, member, rfl⟩

end PostponedActionsQueue

end Cdcm.Backend

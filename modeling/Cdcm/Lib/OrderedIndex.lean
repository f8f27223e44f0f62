import Mathlib

/-!
# Ordered indices over addressed nodes

One ordered index of a multi-index container: a list of nodes in the order of a
key.  Equivalent keys are allowed; a new node is linked behind the nodes of the
same key, and a node whose key changes stays where it is when its neighbours
still allow it.  Nodes carry an address, so an iterator is an address and stays
meaningful while the values stored in the nodes change.
-/

namespace Cdcm.OrderedIndex

/-- A stored value together with the address of its node. -/
structure Node (α : Type) where
  addr : Nat
  val : α
  deriving DecidableEq, Repr

section Order

variable {α κ : Type} [LinearOrder κ] (key : α → κ)

/-- The nodes stand in the order of their keys. -/
def Sorted (nodes : List (Node α)) : Prop :=
  nodes.Pairwise fun left right => key left.val ≤ key right.val

/-- Link a node at the upper bound of its key. -/
def link (node : Node α) (nodes : List (Node α)) : List (Node α) :=
  nodes.orderedInsert (fun left right => key left.val < key right.val) node

theorem link_perm (node : Node α) (nodes : List (Node α)) :
    (link key node nodes).Perm (node :: nodes) :=
  List.perm_orderedInsert _ node nodes

theorem link_sorted {node : Node α} {nodes : List (Node α)}
    (sorted : Sorted key nodes) : Sorted key (link key node nodes) := by
  induction nodes with
  | nil => exact List.pairwise_singleton _ _
  | cons head tail ih =>
      obtain ⟨headLe, tailSorted⟩ := List.pairwise_cons.mp sorted
      rw [link, List.orderedInsert_cons]
      split
      next before =>
        refine List.pairwise_cons.mpr ⟨?_, sorted⟩
        intro other member
        rcases List.mem_cons.mp member with rfl | member
        · exact before.le
        · exact before.le.trans (headLe other member)
      next notBefore =>
        refine List.pairwise_cons.mpr ⟨?_, ih tailSorted⟩
        intro other member
        rcases List.mem_cons.mp ((link_perm key node tail).mem_iff.mp member) with
          rfl | member
        · exact not_lt.mp notBefore
        · exact headLe other member

/-- Unlink the node at an address. -/
def unlink (addr : Nat) (nodes : List (Node α)) : List (Node α) :=
  nodes.filter fun node => node.addr ≠ addr

@[simp] theorem mem_unlink {addr : Nat} {node : Node α} {nodes : List (Node α)} :
    node ∈ unlink addr nodes ↔ node ∈ nodes ∧ node.addr ≠ addr := by
  simp [unlink]

theorem unlink_sorted {addr : Nat} {nodes : List (Node α)}
    (sorted : Sorted key nodes) : Sorted key (unlink addr nodes) :=
  List.Pairwise.filter _ sorted

theorem unlink_perm {addr : Nat} {left right : List (Node α)}
    (perm : left.Perm right) : (unlink addr left).Perm (unlink addr right) :=
  perm.filter _

/-- The nodes in front of an address. -/
def before (addr : Nat) (nodes : List (Node α)) : List (Node α) :=
  nodes.takeWhile fun node => node.addr ≠ addr

/-- The nodes behind an address. -/
def after (addr : Nat) (nodes : List (Node α)) : List (Node α) :=
  (nodes.dropWhile fun node => node.addr ≠ addr).tail

/-- The neighbours of a position allow a node with this key there. -/
def inPlace (front back : List (Node α)) (node : Node α) : Bool :=
  (front.getLast?.all fun last => decide (key last.val ≤ key node.val)) &&
    back.head?.all fun head => decide (key node.val ≤ key head.val)

/-- Store a changed value in the node of the same address and, when the key no
longer fits between the neighbours, link the node anew. -/
def relocate (node : Node α) (nodes : List (Node α)) : List (Node α) :=
  let front := before node.addr nodes
  let back := after node.addr nodes
  if inPlace key front back node then front ++ node :: back
  else link key node (front ++ back)

omit [LinearOrder κ] in
/-- With distinct addresses, the nodes around an address are the others. -/
theorem before_append_after {addr : Nat} {nodes : List (Node α)}
    (nodup : (nodes.map Node.addr).Nodup) :
    before addr nodes ++ after addr nodes = unlink addr nodes := by
  induction nodes with
  | nil => rfl
  | cons head tail ih =>
      obtain ⟨fresh, tailNodup⟩ := List.nodup_cons.mp nodup
      by_cases equal : head.addr = addr
      · have untouched : unlink addr tail = tail := by
          refine List.filter_eq_self.mpr fun other member => ?_
          have distinct : other.addr ≠ addr := fun same =>
            fresh (List.mem_map.mpr ⟨other, member, same.trans equal.symm⟩)
          simpa using distinct
        simpa [before, after, unlink, equal] using untouched.symm
      · simpa [before, after, unlink, equal] using ih tailNodup

theorem relocate_perm {node : Node α} {nodes : List (Node α)}
    (nodup : (nodes.map Node.addr).Nodup) :
    (relocate key node nodes).Perm (node :: unlink node.addr nodes) := by
  rw [← before_append_after nodup, relocate]
  split
  · exact List.perm_middle
  · exact link_perm key node _

/-- Nodes around a position that `inPlace` accepts form a sorted index. -/
theorem sorted_of_inPlace {front back : List (Node α)} {node : Node α}
    (sorted : Sorted key (front ++ back))
    (fits : inPlace key front back node = true) :
    Sorted key (front ++ node :: back) := by
  obtain ⟨frontSorted, backSorted, across⟩ := List.pairwise_append.mp sorted
  simp only [inPlace, Bool.and_eq_true] at fits
  have frontLe : ∀ other ∈ front, key other.val ≤ key node.val := by
    rcases List.eq_nil_or_concat' front with rfl | ⟨init, last, rfl⟩
    · simp
    · have lastLe : key last.val ≤ key node.val := by simpa using fits.1
      intro other member
      rcases List.mem_append.mp member with member | member
      · exact ((List.pairwise_append.mp frontSorted).2.2 other member last
          (by simp)).trans lastLe
      · rwa [List.mem_singleton.mp member]
  have leBack : ∀ other ∈ back, key node.val ≤ key other.val := by
    cases back with
    | nil => simp
    | cons head tail =>
        have leHead : key node.val ≤ key head.val := by simpa using fits.2
        intro other member
        rcases List.mem_cons.mp member with rfl | member
        · exact leHead
        · exact leHead.trans ((List.pairwise_cons.mp backSorted).1 other member)
  refine List.pairwise_append.mpr
    ⟨frontSorted, List.pairwise_cons.mpr ⟨leBack, backSorted⟩, ?_⟩
  intro left leftMem right rightMem
  rcases List.mem_cons.mp rightMem with rfl | rightMem
  · exact frontLe left leftMem
  · exact across left leftMem right rightMem

theorem relocate_sorted {node : Node α} {nodes : List (Node α)}
    (nodup : (nodes.map Node.addr).Nodup) (sorted : Sorted key nodes) :
    Sorted key (relocate key node nodes) := by
  have others : Sorted key (before node.addr nodes ++ after node.addr nodes) := by
    rw [before_append_after nodup]
    exact unlink_sorted key sorted
  rw [relocate]
  split
  next fits => exact sorted_of_inPlace key others fits
  next => exact link_sorted key others

omit [LinearOrder κ] in
/-- Unlinking another node brings nothing in front of an address. -/
theorem mem_before_unlink {addr other : Nat} (apart : other ≠ addr) {nodes : List (Node α)}
    {node : Node α} (inFront : node ∈ before addr (unlink other nodes)) :
    node ∈ before addr nodes := by
  induction nodes with
  | nil => exact inFront
  | cons head tail ih =>
      by_cases isOther : head.addr = other
      · have dropped : unlink other (head :: tail) = unlink other tail := by
          simp [unlink, isOther]
        have passed : before addr (head :: tail) = head :: before addr tail := by
          simp [before, isOther, apart]
        rw [dropped] at inFront
        rw [passed]
        exact List.mem_cons_of_mem head (ih inFront)
      · have kept : unlink other (head :: tail) = head :: unlink other tail := by
          simp [unlink, isOther]
        rw [kept] at inFront
        by_cases reached : head.addr = addr
        · simp [before, reached] at inFront
        · simp only [before, ne_eq, reached, not_false_eq_true, decide_true,
            List.takeWhile_cons_of_pos, List.mem_cons] at inFront ⊢
          apply inFront.imp_right
          exact ih

/-- In front of a stored node, linking brings at most the new node, and that only when
its key is below. -/
theorem mem_before_link {node first other : Node α} {nodes : List (Node α)}
    (sorted : Sorted key nodes) (member : first ∈ nodes)
    (inFront : other ∈ before first.addr (link key node nodes)) :
    other ∈ before first.addr nodes ∨ other = node ∧ key node.val < key first.val := by
  induction nodes with
  | nil => contradiction
  | cons head tail ih =>
      obtain ⟨headLe, tailSorted⟩ := List.pairwise_cons.mp sorted
      rw [link, List.orderedInsert_cons] at inFront
      split at inFront
      next below =>
        have aboveAll : key node.val < key first.val := by
          rcases List.mem_cons.mp member with rfl | later
          · exact below
          · exact below.trans_le (headLe first later)
        by_cases reached : node.addr = first.addr
        · simp [before, reached] at inFront
        · rw [before, List.takeWhile_cons_of_pos (by simpa using reached)] at inFront
          rcases List.mem_cons.mp inFront with isNode | old
          · exact .inr ⟨isNode, aboveAll⟩
          · exact .inl old
      next notBelow =>
        by_cases reached : head.addr = first.addr
        · simp [before, reached] at inFront
        · have later : first ∈ tail := by
            rcases List.mem_cons.mp member with rfl | later
            · exact absurd rfl reached
            · exact later
          rw [before, List.takeWhile_cons_of_pos (by simpa using reached)] at inFront ⊢
          rcases List.mem_cons.mp inFront with isHead | inTail
          · exact .inl (isHead ▸ List.mem_cons_self)
          · rcases ih tailSorted later inTail with old | isNode
            · exact .inl (List.mem_cons_of_mem head old)
            · exact .inr isNode

/-- A node is linked behind the nodes of no greater key only. -/
theorem mem_before_link_self {node other : Node α} {nodes : List (Node α)}
    (newAddr : ∀ stored ∈ nodes, stored.addr ≠ node.addr)
    (inFront : other ∈ before node.addr (link key node nodes)) :
    other ∈ nodes ∧ key other.val ≤ key node.val := by
  induction nodes with
  | nil => simp [link, before] at inFront
  | cons head tail ih =>
      rw [link, List.orderedInsert_cons] at inFront
      split at inFront
      next => simp [before] at inFront
      next notBelow =>
        have apart := newAddr head List.mem_cons_self
        rw [before, List.takeWhile_cons_of_pos (by simpa using apart)] at inFront
        rcases List.mem_cons.mp inFront with isHead | inTail
        · rw [isHead]
          exact ⟨List.mem_cons_self, not_lt.mp notBelow⟩
        · have rest := ih (fun stored member => newAddr stored (List.mem_cons_of_mem head member))
            inTail
          exact ⟨List.mem_cons_of_mem head rest.1, rest.2⟩

omit [LinearOrder κ] in
/-- A node in the place of another of the same address stands in front of the same
addresses. -/
theorem mem_before_replace {addr : Nat} {front back : List (Node α)} {old node other : Node α}
    (sameAddr : node.addr = old.addr) (inFront : other ∈ before addr (front ++ node :: back)) :
    other ∈ before addr (front ++ old :: back) ∨
      other = node ∧ old ∈ before addr (front ++ old :: back) := by
  induction front with
  | nil =>
      by_cases reached : old.addr = addr
      · simp [before, sameAddr, reached] at inFront
      · have passed : node.addr ≠ addr := sameAddr ▸ reached
        simp only [List.nil_append, before, ne_eq, passed, reached, not_false_eq_true,
          decide_true, List.takeWhile_cons_of_pos, List.mem_cons] at inFront ⊢
        rcases inFront with isNode | behind
        · exact .inr ⟨isNode, .inl trivial⟩
        · exact .inl (.inr behind)
  | cons head front ih =>
      by_cases reached : head.addr = addr
      · simp [before, reached] at inFront
      · simp only [List.cons_append, before, ne_eq, reached, not_false_eq_true, decide_true,
          List.takeWhile_cons_of_pos, List.mem_cons] at inFront ⊢
        rcases inFront with isHead | behind
        · exact .inl (.inl isHead)
        · rcases ih behind with old | isNode
          · exact .inl (.inr old)
          · exact .inr ⟨isNode.1, .inr isNode.2⟩

omit [LinearOrder κ] in
/-- An index around the node at an address. -/
theorem eq_before_append_after {node : Node α} {nodes : List (Node α)} (member : node ∈ nodes)
    (nodup : (nodes.map Node.addr).Nodup) :
    nodes = before node.addr nodes ++ node :: after node.addr nodes := by
  induction nodes with
  | nil => contradiction
  | cons head tail ih =>
      obtain ⟨fresh, tailNodup⟩ := List.nodup_cons.mp nodup
      rcases List.mem_cons.mp member with rfl | later
      · simp [before, after]
      · have apart : head.addr ≠ node.addr := by
          intro same
          exact fresh (same ▸ List.mem_map_of_mem later)
        have rest := ih later tailNodup
        simp only [before, after, ne_eq, apart, not_false_eq_true, decide_true,
          List.takeWhile_cons_of_pos, List.dropWhile_cons_of_pos, List.cons_append,
          List.cons.injEq, true_and] at rest ⊢
        exact rest

/-- In front of another stored node, relocating brings at most the relocated node: in
place it stays in front, and otherwise its key decides. -/
theorem mem_before_relocate {old node first other : Node α} {nodes : List (Node α)}
    (nodup : (nodes.map Node.addr).Nodup) (sorted : Sorted key nodes)
    (oldMem : old ∈ nodes) (sameAddr : node.addr = old.addr) (member : first ∈ nodes)
    (apart : node.addr ≠ first.addr)
    (inFront : other ∈ before first.addr (relocate key node nodes)) :
    other ∈ before first.addr nodes ∨ other = node ∧
      if inPlace key (before node.addr nodes) (after node.addr nodes) node = true then
        old ∈ before first.addr nodes
      else key node.val < key first.val := by
  rw [relocate] at inFront
  split at inFront
  next fits =>
    have whole := eq_before_append_after oldMem nodup
    rw [← sameAddr] at whole
    rw [if_pos fits]
    rcases mem_before_replace sameAddr inFront with stays | moved
    · exact .inl (by rwa [whole])
    · exact .inr ⟨moved.1, by rw [whole]; exact moved.2⟩
  next moves =>
    rw [before_append_after nodup] at inFront
    rw [if_neg moves]
    have others : Sorted key (unlink node.addr nodes) := unlink_sorted key sorted
    rcases mem_before_link key others (mem_unlink.mpr ⟨member, apart.symm⟩) inFront with
      stays | moved
    · exact .inl (mem_before_unlink apart stays)
    · exact .inr moved

/-- In front of a relocated node stand the nodes from before, when it stays in place,
and otherwise the nodes of no greater key. -/
theorem mem_before_relocate_self {node other : Node α} {nodes : List (Node α)}
    (nodup : (nodes.map Node.addr).Nodup)
    (inFront : other ∈ before node.addr (relocate key node nodes)) :
    if inPlace key (before node.addr nodes) (after node.addr nodes) node = true then
      other ∈ before node.addr nodes
    else (other ∈ nodes ∧ other.addr ≠ node.addr) ∧ key other.val ≤ key node.val := by
  rw [relocate] at inFront
  split at inFront
  next fits =>
    rw [if_pos fits]
    have passes : ∀ stored ∈ before node.addr nodes, decide (stored.addr ≠ node.addr) = true := by
      intro stored isIn
      simpa [before] using List.mem_takeWhile_imp isIn
    rw [before, List.takeWhile_append_of_pos passes] at inFront
    simpa using inFront
  next moves =>
    rw [before_append_after nodup] at inFront
    rw [if_neg moves, ← mem_unlink]
    exact mem_before_link_self key (fun stored isIn => (mem_unlink.mp isIn).2) inFront

/-- In front of the first node with a property that later nodes inherit are the
nodes without it. -/
theorem mem_before_find {accept : Node α → Bool} {nodes : List (Node α)}
    {first node : Node α}
    (upward : nodes.Pairwise fun left right => accept left = true → accept right = true)
    (nodup : (nodes.map Node.addr).Nodup) (found : nodes.find? accept = some first)
    (member : node ∈ nodes) :
    node ∈ before first.addr nodes ↔ accept node = false := by
  induction nodes with
  | nil => contradiction
  | cons head tail ih =>
      obtain ⟨headUp, tailUp⟩ := List.pairwise_cons.mp upward
      obtain ⟨headFresh, tailNodup⟩ := List.nodup_cons.mp nodup
      cases reached : accept head with
      | true =>
          obtain rfl : head = first := by simpa [reached] using found
          have above : accept node = true := by
            rcases List.mem_cons.mp member with rfl | member
            · exact reached
            · exact headUp node member reached
          simp [before, above]
      | false =>
          have later : tail.find? accept = some first := by
            simpa [reached] using found
          have apart : head.addr ≠ first.addr := fun equal =>
            headFresh (equal ▸ List.mem_map_of_mem (List.mem_of_find?_eq_some later))
          rcases List.mem_cons.mp member with rfl | member
          · simp [before, apart, reached]
          · have notHead : node ≠ head := fun equal =>
              headFresh (equal ▸ List.mem_map_of_mem member)
            have rest := ih tailUp tailNodup later member
            simpa [before, apart, notHead] using rest

/-- `lower_bound`: the first node whose key is not below a bound. -/
def lowerBound (bound : κ) (nodes : List (Node α)) : Option (Node α) :=
  nodes.find? fun node => bound ≤ key node.val

/-- `upper_bound`: the first node whose key is above a bound. -/
def upperBound (bound : κ) (nodes : List (Node α)) : Option (Node α) :=
  nodes.find? fun node => bound < key node.val

/-- The nodes from one iterator up to another; `none` is the end. -/
def range (first last : Option (Node α)) (nodes : List (Node α)) : List (Node α) :=
  match first with
  | none => []
  | some first =>
      let rest := nodes.dropWhile fun node => node.addr ≠ first.addr
      match last with
      | none => rest
      | some last => before last.addr rest

/-- A range keeps the order of the index. -/
theorem range_sublist (first last : Option (Node α)) (nodes : List (Node α)) :
    (range first last nodes).Sublist nodes := by
  cases first with
  | none => exact List.nil_sublist nodes
  | some first =>
      cases last with
      | none => exact List.dropWhile_sublist _
      | some last => exact (List.takeWhile_sublist _).trans (List.dropWhile_sublist _)

theorem lt_of_lowerBound_eq_none {bound : κ} {nodes : List (Node α)}
    (atEnd : lowerBound key bound nodes = none) :
    ∀ node ∈ nodes, key node.val < bound := by
  simpa [lowerBound] using atEnd

/-- In a sorted index, the nodes in front of the lower bound are those below it. -/
theorem mem_before_lowerBound {bound : κ} {nodes : List (Node α)} {first : Node α}
    (sorted : Sorted key nodes) (nodup : (nodes.map Node.addr).Nodup)
    (found : lowerBound key bound nodes = some first) {node : Node α}
    (member : node ∈ nodes) :
    node ∈ before first.addr nodes ↔ key node.val < bound := by
  have upward : nodes.Pairwise fun left right =>
      decide (bound ≤ key left.val) = true → decide (bound ≤ key right.val) = true :=
    sorted.imp fun ordered reached =>
      decide_eq_true ((of_decide_eq_true reached).trans ordered)
  rw [mem_before_find upward nodup found member, decide_eq_false_iff_not, not_le]

/-- From the lower bound to the end are the nodes that are not below it. -/
theorem mem_range_lowerBound {bound : κ} {nodes : List (Node α)}
    (sorted : Sorted key nodes) (nodup : (nodes.map Node.addr).Nodup)
    {node : Node α} :
    node ∈ range (lowerBound key bound nodes) none nodes ↔
      node ∈ nodes ∧ bound ≤ key node.val := by
  cases found : lowerBound key bound nodes with
  | none =>
      have below := lt_of_lowerBound_eq_none key found
      simp only [range, List.not_mem_nil, false_iff, not_and, not_le]
      exact below node
  | some first =>
      have split : before first.addr nodes ++ range (some first) none nodes = nodes :=
        List.takeWhile_append_dropWhile
      constructor
      · intro member
        have inNodes : node ∈ nodes := split ▸ List.mem_append_right _ member
        refine ⟨inNodes, not_lt.mp fun below => ?_⟩
        have inFront := (mem_before_lowerBound key sorted nodup found inNodes).mpr below
        rw [← split, List.map_append] at nodup
        exact (List.nodup_append.mp nodup).2.2 _ (List.mem_map_of_mem inFront) _
          (List.mem_map_of_mem member) rfl
      · rintro ⟨inNodes, above⟩
        have inEither := inNodes
        rw [← split] at inEither
        rcases List.mem_append.mp inEither with inFront | inRange
        · have below := (mem_before_lowerBound key sorted nodup found inNodes).mp inFront
          exact absurd above (not_le.mpr below)
        · exact inRange

end Order

end Cdcm.OrderedIndex

import Cdcm.Lib.OrderedIndex

/-!
# Multi-index containers

A container that keeps one set of nodes under several ordered indices at once.
A schema names the indices, their keys and which of them admit a key only once.
Insertion is refused by a clash in a unique index, and a modification that
clashes erases the node.  The container carries its well-formedness: every index
orders the same nodes, addresses are distinct and unique keys are unique.
-/

namespace Cdcm.MultiIndex

open OrderedIndex

/-- The indices of a container of `α`. -/
structure Schema (α : Type) where
  Tag : Type
  Key : Tag → Type
  key : (tag : Tag) → α → Key tag
  order : (tag : Tag) → LinearOrder (Key tag)
  unique : Tag → Bool
  tags : List Tag
  complete : ∀ tag, tag ∈ tags
  primary : Tag

variable {α : Type}

instance (schema : Schema α) (tag : schema.Tag) : LinearOrder (schema.Key tag) :=
  schema.order tag

/-- Two values agree on the key of some unique index. -/
def Schema.clash (schema : Schema α) (left right : α) : Bool :=
  schema.tags.any fun tag =>
    schema.unique tag && decide (schema.key tag left = schema.key tag right)

theorem Schema.clash_eq_true {schema : Schema α} {left right : α} :
    schema.clash left right = true ↔
      ∃ tag, schema.unique tag = true ∧
        schema.key tag left = schema.key tag right := by
  simp only [clash, List.any_eq_true, Bool.and_eq_true, decide_eq_true_eq]
  exact ⟨fun ⟨tag, _, found⟩ => ⟨tag, found⟩,
    fun ⟨tag, found⟩ => ⟨tag, schema.complete tag, found⟩⟩

/-- One set of nodes under every index of a schema. -/
structure Container (schema : Schema α) where
  index : schema.Tag → List (Node α)
  nextAddr : Nat
  perm : ∀ tag, (index tag).Perm (index schema.primary)
  sorted : ∀ tag, Sorted (schema.key tag) (index tag)
  nodup : ((index schema.primary).map Node.addr).Nodup
  fresh : ∀ node ∈ index schema.primary, node.addr < nextAddr
  unique_key : ∀ tag, schema.unique tag = true →
    ∀ left ∈ index schema.primary, ∀ right ∈ index schema.primary,
      schema.key tag left.val = schema.key tag right.val → left.addr = right.addr

namespace Container

variable {schema : Schema α}

/-- The nodes of the container, in the order of the primary index. -/
def nodes (container : Container schema) : List (Node α) :=
  container.index schema.primary

instance : Membership (Node α) (Container schema) where
  mem container node := node ∈ container.nodes

@[simp] theorem mem_nodes {container : Container schema} {node : Node α} :
    node ∈ container.nodes ↔ node ∈ container := Iff.rfl

@[simp] theorem mem_index {container : Container schema} {node : Node α}
    (tag : schema.Tag) : node ∈ container.index tag ↔ node ∈ container :=
  (container.perm tag).mem_iff

theorem nodup_index (container : Container schema) (tag : schema.Tag) :
    ((container.index tag).map Node.addr).Nodup :=
  ((container.perm tag).map _).nodup_iff.mpr container.nodup

/-- An address designates at most one node. -/
theorem eq_of_addr_eq {container : Container schema} {left right : Node α}
    (leftMem : left ∈ container) (rightMem : right ∈ container)
    (equal : left.addr = right.addr) : left = right :=
  List.inj_on_of_nodup_map container.nodup leftMem rightMem equal

/-- The key of a unique index designates at most one node. -/
theorem eq_of_key_eq {container : Container schema} {left right : Node α}
    {tag : schema.Tag} (isUnique : schema.unique tag = true)
    (leftMem : left ∈ container) (rightMem : right ∈ container)
    (equal : schema.key tag left.val = schema.key tag right.val) : left = right :=
  eq_of_addr_eq leftMem rightMem
    (container.unique_key tag isUnique left leftMem right rightMem equal)

/-- Different nodes agree on no unique key. -/
theorem clash_eq_false {container : Container schema} {left right : Node α}
    (leftMem : left ∈ container) (rightMem : right ∈ container)
    (distinct : left.addr ≠ right.addr) :
    schema.clash left.val right.val = false := by
  by_contra clashes
  obtain ⟨tag, isUnique, equal⟩ :=
    Schema.clash_eq_true.mp (Bool.eq_true_of_not_eq_false clashes)
  exact distinct (congrArg Node.addr (eq_of_key_eq isUnique leftMem rightMem equal))

/-- The container without nodes. -/
def empty : Container schema where
  index _ := []
  nextAddr := 0
  perm _ := .refl _
  sorted _ := .nil
  nodup := .nil
  fresh := by simp
  unique_key := by simp

@[simp] theorem not_mem_empty {node : Node α} :
    node ∉ (empty : Container schema) := by
  intro member
  exact List.not_mem_nil member

/-- The first node of a key in one index. -/
def find (container : Container schema) (tag : schema.Tag)
    (key : schema.Key tag) : Option (Node α) :=
  (container.index tag).find? fun node => schema.key tag node.val = key

theorem find_eq_none {container : Container schema} {tag : schema.Tag}
    {key : schema.Key tag} :
    container.find tag key = none ↔
      ∀ node ∈ container, schema.key tag node.val ≠ key := by
  simp [find]

theorem mem_of_find {container : Container schema} {tag : schema.Tag}
    {key : schema.Key tag} {node : Node α}
    (found : container.find tag key = some node) : node ∈ container :=
  (mem_index tag).mp (List.mem_of_find?_eq_some found)

theorem key_of_find {container : Container schema} {tag : schema.Tag}
    {key : schema.Key tag} {node : Node α}
    (found : container.find tag key = some node) :
    schema.key tag node.val = key := by
  simpa using List.find?_some found

/-- A unique index finds exactly the node of the key. -/
theorem find_eq_some {container : Container schema} {tag : schema.Tag}
    (isUnique : schema.unique tag = true) {key : schema.Key tag} {node : Node α} :
    container.find tag key = some node ↔
      node ∈ container ∧ schema.key tag node.val = key := by
  constructor
  · exact fun found => ⟨mem_of_find found, key_of_find found⟩
  · rintro ⟨member, equal⟩
    cases found : container.find tag key with
    | none => exact absurd equal (find_eq_none.mp found node member)
    | some other =>
        have same := eq_of_key_eq isUnique (mem_of_find found) member
          ((key_of_find found).trans equal.symm)
        rw [same]

/-- The node an address designates. -/
def at? (container : Container schema) (addr : Nat) : Option (Node α) :=
  container.nodes.find? fun node => node.addr = addr

theorem at?_eq_some {container : Container schema} {addr : Nat} {node : Node α} :
    container.at? addr = some node ↔ node ∈ container ∧ node.addr = addr := by
  constructor
  · intro found
    exact ⟨List.mem_of_find?_eq_some found, by simpa using List.find?_some found⟩
  · rintro ⟨member, equal⟩
    cases found : container.at? addr with
    | none =>
        have absent := List.find?_eq_none.mp found node member
        simp [equal] at absent
    | some other =>
        have sameAddr : other.addr = node.addr := by
          simpa [equal] using List.find?_some found
        rw [eq_of_addr_eq (List.mem_of_find?_eq_some found) member sameAddr]

/-- Erase the node at an address. -/
def erase (container : Container schema) (addr : Nat) : Container schema where
  index tag := unlink addr (container.index tag)
  nextAddr := container.nextAddr
  perm tag := unlink_perm (container.perm tag)
  sorted tag := unlink_sorted _ (container.sorted tag)
  nodup := container.nodup.sublist (List.filter_sublist.map _)
  fresh node member := container.fresh node (mem_unlink.mp member).1
  unique_key tag isUnique left leftMem right rightMem :=
    container.unique_key tag isUnique left (mem_unlink.mp leftMem).1
      right (mem_unlink.mp rightMem).1

@[simp] theorem mem_erase {container : Container schema} {addr : Nat}
    {node : Node α} :
    node ∈ container.erase addr ↔ node ∈ container ∧ node.addr ≠ addr :=
  mem_unlink

theorem mem_foldl_erase {container : Container schema} {erased : List (Node α)}
    {node : Node α} :
    node ∈ erased.foldl (fun rest other => rest.erase other.addr) container ↔
      node ∈ container ∧ ∀ other ∈ erased, node.addr ≠ other.addr := by
  induction erased generalizing container with
  | nil => simp
  | cons head tail ih => simp [ih, and_assoc]

/-- A container with one more node, whose indices are given. The address must be
new and the value must not clash with a stored one. -/
def extend (container : Container schema) (node : Node α) (bound : Nat)
    (index : schema.Tag → List (Node α))
    (perm : ∀ tag, (index tag).Perm (node :: container.nodes))
    (sorted : ∀ tag, Sorted (schema.key tag) (index tag))
    (newAddr : ∀ other ∈ container, other.addr ≠ node.addr)
    (noClash : ∀ other ∈ container, schema.clash node.val other.val = false)
    (below : node.addr < bound) (grows : container.nextAddr ≤ bound) :
    Container schema where
  index := index
  nextAddr := bound
  perm tag := (perm tag).trans (perm schema.primary).symm
  sorted := sorted
  nodup := by
    rw [((perm _).map _).nodup_iff, List.map_cons, List.nodup_cons]
    refine ⟨?_, container.nodup⟩
    simpa using newAddr
  fresh := by
    intro other member
    rcases List.mem_cons.mp ((perm _).mem_iff.mp member) with equal | member
    · exact equal ▸ below
    · exact (container.fresh other member).trans_le grows
  unique_key := by
    have apart : ∀ tag, schema.unique tag = true → ∀ other ∈ container,
        schema.key tag node.val ≠ schema.key tag other.val := by
      intro tag isUnique other member equal
      have clashes := Schema.clash_eq_true.mpr ⟨tag, isUnique, equal⟩
      rw [noClash other member] at clashes
      contradiction
    intro tag isUnique left leftMem right rightMem equal
    rcases List.mem_cons.mp ((perm _).mem_iff.mp leftMem) with leftEq | leftMem
    · rcases List.mem_cons.mp ((perm _).mem_iff.mp rightMem) with rightEq | rightMem
      · rw [leftEq, rightEq]
      · exact absurd (leftEq ▸ equal) (apart tag isUnique right rightMem)
    · rcases List.mem_cons.mp ((perm _).mem_iff.mp rightMem) with rightEq | rightMem
      · exact absurd (rightEq ▸ equal).symm (apart tag isUnique left leftMem)
      · exact container.unique_key tag isUnique left leftMem right rightMem equal

/-- Insert a value; refused, with `false`, when a unique index has its key. -/
def insert (container : Container schema) (value : α) : Container schema × Bool :=
  if refused : ∃ other ∈ container.nodes, schema.clash value other.val = true then
    (container, false)
  else
    let node : Node α := ⟨container.nextAddr, value⟩
    (container.extend node (container.nextAddr + 1)
      (fun tag => link (schema.key tag) node (container.index tag))
      (fun tag => (link_perm _ node _).trans ((container.perm tag).cons node))
      (fun tag => link_sorted _ (container.sorted tag))
      (fun other member => (container.fresh other member).ne)
      (fun other member => by
        simpa using fun clashes => refused ⟨other, member, clashes⟩)
      (Nat.lt_succ_self _) (Nat.le_succ _), true)

/-- Insertion is refused exactly when a stored value clashes. -/
theorem insert_refused_iff {container : Container schema} {value : α} :
    (container.insert value).2 = false ↔
      ∃ other ∈ container, schema.clash value other.val = true := by
  rw [insert]
  split
  next refused => simpa using refused
  next accepted => simpa using accepted

theorem insert_of_refused {container : Container schema} {value : α}
    (refused : (container.insert value).2 = false) :
    (container.insert value).1 = container := by
  rw [insert] at refused ⊢
  split at refused
  next clashes => rw [dif_pos clashes]
  next => contradiction

theorem mem_insert {container : Container schema} {value : α} {node : Node α}
    (accepted : (container.insert value).2 = true) :
    node ∈ (container.insert value).1 ↔
      node = ⟨container.nextAddr, value⟩ ∨ node ∈ container := by
  rw [insert] at accepted ⊢
  split at accepted
  next => contradiction
  next free =>
    rw [dif_neg free]
    exact ((link_perm _ _ _).trans (.refl _)).mem_iff.trans List.mem_cons

/-- Store a changed value in the node at an address. The node moves to the place
of its new keys; on a clash in a unique index it is erased and the result is
`false`. An address without a node is not a valid position; nothing happens. -/
def modify (container : Container schema) (addr : Nat) (change : α → α) :
    Container schema × Bool :=
  match found : container.at? addr with
  | none => (container, false)
  | some old =>
      let node : Node α := ⟨addr, change old.val⟩
      if clashes : ∃ other ∈ (container.erase addr).nodes,
          schema.clash node.val other.val = true then
        (container.erase addr, false)
      else
        ((container.erase addr).extend node container.nextAddr
          (fun tag => relocate (schema.key tag) node (container.index tag))
          (fun tag => (relocate_perm _ (container.nodup_index tag)).trans
            ((unlink_perm (container.perm tag)).cons node))
          (fun tag => relocate_sorted _ (container.nodup_index tag)
            (container.sorted tag))
          (fun other member => (mem_erase.mp member).2)
          (fun other member => by
            simpa using fun same => clashes ⟨other, member, same⟩)
          (by
            obtain ⟨member, equal⟩ := at?_eq_some.mp found
            have bounded := container.fresh old member
            rwa [equal] at bounded)
          (Nat.le_refl _), true)

/-- A modification that clashes with no other stored value is accepted, and relocates the
node under every index. -/
theorem modify_spec {container : Container schema} {addr : Nat} {change : α → α}
    {old : Node α} (found : container.at? addr = some old)
    (noClash : ∀ other ∈ container, other.addr ≠ addr →
      schema.clash (change old.val) other.val = false) :
    (container.modify addr change).2 = true ∧
      ∀ tag, (container.modify addr change).1.index tag =
        relocate (schema.key tag) ⟨addr, change old.val⟩ (container.index tag) := by
  have free : ¬ ∃ other ∈ (container.erase addr).nodes,
      schema.clash (change old.val) other.val = true := by
    rintro ⟨other, member, clashes⟩
    obtain ⟨stored, distinct⟩ := mem_erase.mp member
    rw [noClash other stored distinct] at clashes
    contradiction
  rw [modify]
  split
  next absent => simp [absent] at found
  next same =>
    obtain rfl := Option.some.inj (same.symm.trans found)
    rw [dif_neg free]
    exact ⟨rfl, fun _ => rfl⟩

/-- A modification that clashes with no other stored value is accepted. -/
theorem modify_accepted {container : Container schema} {addr : Nat} {change : α → α}
    {old : Node α} (found : container.at? addr = some old)
    (noClash : ∀ other ∈ container, other.addr ≠ addr →
      schema.clash (change old.val) other.val = false) :
    (container.modify addr change).2 = true :=
  (modify_spec found noClash).1

/-- A modification that clashes with no other stored value keeps every node and
changes the value of one. -/
theorem mem_modify {container : Container schema} {addr : Nat} {change : α → α}
    {old node : Node α} (found : container.at? addr = some old)
    (noClash : ∀ other ∈ container, other.addr ≠ addr →
      schema.clash (change old.val) other.val = false) :
    node ∈ (container.modify addr change).1 ↔
      node = ⟨addr, change old.val⟩ ∨ node ∈ container ∧ node.addr ≠ addr := by
  rw [← mem_nodes, nodes, (modify_spec found noClash).2]
  refine (relocate_perm _ (container.nodup_index _)).mem_iff.trans ?_
  simp

/-- A change of the node found under a unique key, seen as a change of every
node: only the one with that key is affected. -/
theorem mem_modify_find {container : Container schema} {tag : schema.Tag}
    (isUnique : schema.unique tag = true) {key : schema.Key tag}
    [DecidablePred fun value => schema.key tag value = key]
    {change : α → α} {found : Node α} (isFound : container.find tag key = some found)
    (noClash : ∀ other ∈ container, other.addr ≠ found.addr →
      schema.clash (change found.val) other.val = false) (node : Node α) :
    node ∈ (container.modify found.addr change).1 ↔
      ∃ old ∈ container, node =
        ⟨old.addr, if schema.key tag old.val = key then change old.val else old.val⟩ := by
  obtain ⟨member, hasKey⟩ := (find_eq_some isUnique).mp isFound
  rw [mem_modify (at?_eq_some.mpr ⟨member, rfl⟩) noClash]
  constructor
  · rintro (rfl | ⟨stored, distinct⟩)
    · exact ⟨found, member, by rw [if_pos hasKey]⟩
    · have otherKey : schema.key tag node.val ≠ key := fun equal =>
        distinct (congrArg Node.addr
          (eq_of_key_eq isUnique stored member (equal.trans hasKey.symm)))
      exact ⟨node, stored, by rw [if_neg otherKey]⟩
  · rintro ⟨old, stored, rfl⟩
    split
    next equal =>
      obtain rfl := eq_of_key_eq isUnique stored member (equal.trans hasKey.symm)
      exact .inl rfl
    next otherKey =>
      refine .inr ⟨stored, fun sameAddr => otherKey ?_⟩
      obtain rfl := eq_of_addr_eq stored member sameAddr
      exact hasKey

/-- Erasing the node found under a unique key keeps the nodes of other keys. -/
theorem mem_erase_find {container : Container schema} {tag : schema.Tag}
    (isUnique : schema.unique tag = true) {key : schema.Key tag} {found : Node α}
    (isFound : container.find tag key = some found) (node : Node α) :
    node ∈ container.erase found.addr ↔
      node ∈ container ∧ schema.key tag node.val ≠ key := by
  obtain ⟨member, hasKey⟩ := (find_eq_some isUnique).mp isFound
  rw [mem_erase]
  refine and_congr_right fun stored => not_congr ⟨fun sameAddr => ?_, fun equal => ?_⟩
  · rw [eq_of_addr_eq stored member sameAddr, hasKey]
  · rw [eq_of_key_eq isUnique stored member (equal.trans hasKey.symm)]

/-! ## The order of one index -/

@[simp] theorem index_erase {container : Container schema} (addr : Nat) (tag : schema.Tag) :
    (container.erase addr).index tag = unlink addr (container.index tag) := rfl

/-- An accepted insertion links the new node under every index. -/
theorem index_insert {container : Container schema} {value : α}
    (accepted : (container.insert value).2 = true) (tag : schema.Tag) :
    (container.insert value).1.index tag =
      link (schema.key tag) ⟨container.nextAddr, value⟩ (container.index tag) := by
  rw [insert] at accepted ⊢
  split at accepted
  next => contradiction
  next free =>
    rw [dif_neg free]
    rfl

/-- A modification without a clash relocates the node under every index. -/
theorem index_modify {container : Container schema} {addr : Nat} {change : α → α}
    {old : Node α} (found : container.at? addr = some old)
    (noClash : ∀ other ∈ container, other.addr ≠ addr →
      schema.clash (change old.val) other.val = false) (tag : schema.Tag) :
    (container.modify addr change).1.index tag =
      relocate (schema.key tag) ⟨addr, change old.val⟩ (container.index tag) :=
  (modify_spec found noClash).2 tag

/-! ## The nodes as a collection -/

/-- An accepted insertion adds one node. -/
theorem nodes_insert_perm {container : Container schema} {value : α}
    (accepted : (container.insert value).2 = true) :
    (container.insert value).1.nodes.Perm
      (⟨container.nextAddr, value⟩ :: container.nodes) := by
  rw [insert] at accepted ⊢
  split at accepted
  next => contradiction
  next free =>
    rw [dif_neg free]
    exact link_perm _ _ _

/-- An erasure takes out the node at the address. -/
theorem nodes_erase_perm {container : Container schema} {node : Node α}
    (member : node ∈ container) :
    container.nodes.Perm (node :: (container.erase node.addr).nodes) := by
  have nodup : container.nodes.Nodup := container.nodup.of_map
  have erased : (node :: (container.erase node.addr).nodes).Nodup :=
    List.nodup_cons.mpr
      ⟨fun stays => (mem_erase.mp stays).2 rfl, (container.erase node.addr).nodup.of_map⟩
  refine (List.perm_ext_iff_of_nodup nodup erased).mpr fun other => ?_
  rw [List.mem_cons, mem_nodes, mem_nodes, mem_erase]
  constructor
  · intro stored
    by_cases same : other.addr = node.addr
    · exact .inl (eq_of_addr_eq stored member same)
    · exact .inr ⟨stored, same⟩
  · rintro (rfl | ⟨stored, _⟩)
    · exact member
    · exact stored

/-- A modification without a clash puts the changed node back. -/
theorem nodes_modify_perm {container : Container schema} {old : Node α}
    {change : α → α} (member : old ∈ container)
    (noClash : ∀ other ∈ container, other.addr ≠ old.addr →
      schema.clash (change old.val) other.val = false) :
    (container.modify old.addr change).1.nodes.Perm
      (⟨old.addr, change old.val⟩ :: (container.erase old.addr).nodes) := by
  have nodup : (container.modify old.addr change).1.nodes.Nodup :=
    (container.modify old.addr change).1.nodup.of_map
  have changed : ((⟨old.addr, change old.val⟩ : Node α) ::
      (container.erase old.addr).nodes).Nodup :=
    List.nodup_cons.mpr
      ⟨fun stays => (mem_erase.mp stays).2 rfl, (container.erase old.addr).nodup.of_map⟩
  refine (List.perm_ext_iff_of_nodup nodup changed).mpr fun other => ?_
  rw [List.mem_cons, mem_nodes, mem_nodes, mem_erase]
  exact mem_modify (at?_eq_some.mpr ⟨member, rfl⟩) noClash

/-! ## The finite map under a unique index -/

/-- The value stored under a key. -/
def lookup (container : Container schema) (tag : schema.Tag)
    (key : schema.Key tag) : Option α :=
  (container.find tag key).map Node.val

@[simp] theorem lookup_empty (tag : schema.Tag) (key : schema.Key tag) :
    (empty : Container schema).lookup tag key = none := by
  have absent : (empty : Container schema).find tag key = none :=
    find_eq_none.mpr fun node member => absurd member not_mem_empty
  rw [lookup, absent, Option.map_none]

theorem lookup_eq_none {container : Container schema} {tag : schema.Tag}
    {key : schema.Key tag} :
    container.lookup tag key = none ↔
      ∀ node ∈ container, schema.key tag node.val ≠ key := by
  rw [lookup, Option.map_eq_none_iff, find_eq_none]

section Unique

variable {tag : schema.Tag} (isUnique : schema.unique tag = true)
include isUnique

theorem lookup_eq_some {container : Container schema} {key : schema.Key tag}
    {value : α} :
    container.lookup tag key = some value ↔
      ∃ node ∈ container, node.val = value ∧ schema.key tag value = key := by
  simp only [lookup, Option.map_eq_some_iff, find_eq_some isUnique]
  constructor
  · rintro ⟨node, ⟨member, equal⟩, rfl⟩
    exact ⟨node, member, rfl, equal⟩
  · rintro ⟨node, member, rfl, equal⟩
    exact ⟨node, ⟨member, equal⟩, rfl⟩

/-- An accepted insertion adds exactly the key of the value. -/
theorem lookup_insert {container : Container schema} {value : α}
    (accepted : (container.insert value).2 = true) (key : schema.Key tag)
    [Decidable (key = schema.key tag value)] :
    (container.insert value).1.lookup tag key =
      if key = schema.key tag value then some value
      else container.lookup tag key := by
  have noClash : ∀ other ∈ container, schema.clash value other.val = false := by
    intro other member
    by_contra clashes
    have refused := insert_refused_iff.mpr
      ⟨other, member, Bool.eq_true_of_not_eq_false clashes⟩
    rw [refused] at accepted
    contradiction
  apply Option.ext
  intro found
  rw [lookup_eq_some isUnique]
  split
  next equal =>
    subst equal
    constructor
    · rintro ⟨node, member, rfl, sameKey⟩
      rcases (mem_insert accepted).mp member with rfl | old
      · rfl
      · have clashes := Schema.clash_eq_true.mpr ⟨tag, isUnique, sameKey.symm⟩
        rw [noClash node old] at clashes
        contradiction
    · rintro ⟨⟩
      exact ⟨_, (mem_insert accepted).mpr (.inl rfl), rfl, rfl⟩
  next distinct =>
    rw [lookup_eq_some isUnique]
    constructor
    · rintro ⟨node, member, rfl, sameKey⟩
      rcases (mem_insert accepted).mp member with rfl | old
      · exact absurd sameKey.symm distinct
      · exact ⟨node, old, rfl, sameKey⟩
    · rintro ⟨node, member, rfl, sameKey⟩
      exact ⟨node, (mem_insert accepted).mpr (.inr member), rfl, sameKey⟩

/-- A container that keeps the nodes with some property filters the map. -/
theorem lookup_filter {container other : Container schema} {keep : α → Bool}
    (kept : ∀ node, node ∈ other ↔ node ∈ container ∧ keep node.val = true)
    (key : schema.Key tag) :
    other.lookup tag key = (container.lookup tag key).filter keep := by
  apply Option.ext
  intro found
  rw [Option.filter_eq_some_iff, lookup_eq_some isUnique, lookup_eq_some isUnique]
  constructor
  · rintro ⟨node, member, rfl, sameKey⟩
    obtain ⟨stored, keeps⟩ := (kept node).mp member
    exact ⟨⟨node, stored, rfl, sameKey⟩, keeps⟩
  · rintro ⟨⟨node, stored, rfl, sameKey⟩, keeps⟩
    exact ⟨node, (kept node).mpr ⟨stored, keeps⟩, rfl, sameKey⟩

/-- A container that changes the values of nodes, but not their keys, maps the
map. -/
theorem lookup_map {container other : Container schema} {change : α → α}
    (changed : ∀ node, node ∈ other ↔
      ∃ old ∈ container, node = ⟨old.addr, change old.val⟩)
    (keepsKey : ∀ value, schema.key tag (change value) = schema.key tag value)
    (key : schema.Key tag) :
    other.lookup tag key = (container.lookup tag key).map change := by
  apply Option.ext
  intro found
  rw [Option.map_eq_some_iff, lookup_eq_some isUnique]
  simp only [lookup_eq_some isUnique]
  constructor
  · rintro ⟨node, member, rfl, sameKey⟩
    obtain ⟨old, stored, rfl⟩ := (changed node).mp member
    exact ⟨old.val, ⟨old, stored, rfl, (keepsKey old.val).symm.trans sameKey⟩, rfl⟩
  · rintro ⟨_, ⟨old, stored, rfl, sameKey⟩, rfl⟩
    exact ⟨_, (changed _).mpr ⟨old, stored, rfl⟩, rfl,
      (keepsKey old.val).trans sameKey⟩

end Unique

end Container

end Cdcm.MultiIndex

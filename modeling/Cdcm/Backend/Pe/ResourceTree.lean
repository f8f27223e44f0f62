import Cdcm.Backend.Pe.BoundedReading

/-!
# Completeness of the discovered resource tree

A well-formed tree of resources has directories at three levels; the leaves are the data
entries that the entries at level 3 point to.  `discoveryNodesPeres` takes only the first
data entry of a directory at level 3 from the directory's entries, and looks for each later
one behind the one before.  It finds exactly the leaves where the later data entries happen
to be there.
-/

namespace Cdcm.Backend.Pe

open Hoare

/-! ## The tree in a file -/

section Tree

variable (content : ByteString) (resourceDirOffset : Nat)

/-- The number of entries of a directory, named ones and others. -/
def numberOfEntries (directory : Nat) : Nat :=
  field content (directory + 12) 2 + field content (directory + 14) 2

/-- An entry of a directory, counted from 0. -/
def entryAt (directory index : Nat) : Nat := directory + 16 + 8 * index

/-- The entries of a directory, in order. -/
def entriesOf (directory : Nat) : List Nat :=
  (List.range (numberOfEntries content directory)).map (entryAt directory)

/-- What an entry points to. -/
def target (entry : Nat) : Nat := resourceDirOffset + field content (entry + 4) 4 % 2 ^ 31

/-- Whether an entry points to a directory. -/
def pointsToDirectory (entry : Nat) : Prop := field content (entry + 4) 4 / 2 ^ 31 = 1

/-- Whether the name of an entry is a string. -/
def hasName (entry : Nat) : Prop := field content entry 4 / 2 ^ 31 = 1

instance (entry : Nat) : Decidable (hasName content entry) :=
  inferInstanceAs (Decidable (field content entry 4 / 2 ^ 31 = 1))

/-- Where the name of an entry is. -/
def nameOf (entry : Nat) : Nat := resourceDirOffset + field content entry 4 % 2 ^ 31

/-- An entry lies inside the file, with the head of its name. -/
def EntryInside (entry : Nat) : Prop :=
  entry + 8 ≤ content.length ∧
    (hasName content entry → nameOf content resourceDirOffset entry + 4 ≤ content.length)

/-- A directory lies inside the file with its entries, and below them is what it should. -/
def DirectoryOf (below : Nat → Prop) (directory : Nat) : Prop :=
  directory + 16 ≤ content.length ∧
    ∀ entry ∈ entriesOf content directory,
      EntryInside content resourceDirOffset entry ∧ below entry

/-- An entry at level 3 points to a data entry inside the file. -/
def DataBelow (entry : Nat) : Prop :=
  ¬ pointsToDirectory content entry ∧
    target content resourceDirOffset entry + 16 ≤ content.length

/-- An entry points to a directory. -/
def DirectoryBelow (below : Nat → Prop) (entry : Nat) : Prop :=
  pointsToDirectory content entry ∧
    DirectoryOf content resourceDirOffset below (target content resourceDirOffset entry)

/-- A well-formed tree with directories at three levels. -/
def WellFormedTree : Prop :=
  DirectoryOf content resourceDirOffset
    (DirectoryBelow content resourceDirOffset
      (DirectoryBelow content resourceDirOffset (DataBelow content resourceDirOffset)))
    resourceDirOffset

/-- The leaves below an entry at level 2, in order. -/
def leavesOf (entry : Nat) : List Nat :=
  (entriesOf content (target content resourceDirOffset entry)).map
    (target content resourceDirOffset)

/-- The leaves of the tree in depth-first order, each with its entry at level 1. -/
def treeLeaves : List (Nat × Nat) :=
  (entriesOf content resourceDirOffset).flatMap fun root =>
    (entriesOf content (target content resourceDirOffset root)).flatMap fun entry =>
      (leavesOf content resourceDirOffset entry).map fun leaf => (leaf, root)

/-! ## What the code visits -/

/-- `offset` behind an entry and its name. -/
def offsetBehind (entry : Nat) : Nat :=
  if hasName content entry then nameOf content resourceDirOffset entry else entry

/-- Where the code looks for the data entry behind another one: what lies there is taken
for a directory entry, and its name for the data entry. -/
def behind (dataEntry : Nat) : Nat := offsetBehind content resourceDirOffset (dataEntry + 16)

/-- The data entry that the code finds behind another one. -/
def nextData (dataEntry : Nat) : Option Nat :=
  if dataEntry + 24 ≤ content.length ∧
      behind content resourceDirOffset dataEntry + 16 ≤ content.length then
    some (behind content resourceDirOffset dataEntry)
  else none

/-- The data entry that the code finds at a turn of the loop, counted from 0. -/
def visitAt (directory : Nat) : Nat → Option Nat
  | 0 => some (target content resourceDirOffset (entryAt directory 0))
  | turn + 1 => (visitAt directory turn).bind (nextData content resourceDirOffset)

/-- The data entries that the code finds below an entry at level 2. -/
def visits (entry : Nat) : List (Option Nat) :=
  (List.range (numberOfEntries content (target content resourceDirOffset entry))).map
    (visitAt content resourceDirOffset (target content resourceDirOffset entry))

/-- Each data entry of a directory but the first is where the code looks for it. -/
def InLine (directory : Nat) : Prop :=
  ∀ index < numberOfEntries content directory - 1,
    target content resourceDirOffset (entryAt directory index) + 24 ≤ content.length ∧
      target content resourceDirOffset (entryAt directory (index + 1)) =
        behind content resourceDirOffset
          (target content resourceDirOffset (entryAt directory index))

section Decidability

variable (below : Nat → Prop) [DecidablePred below] (place : Nat)

instance : Decidable (pointsToDirectory content place) :=
  inferInstanceAs (Decidable (field content (place + 4) 4 / 2 ^ 31 = 1))

instance : Decidable (EntryInside content resourceDirOffset place) :=
  inferInstanceAs (Decidable (place + 8 ≤ content.length ∧
    (hasName content place → nameOf content resourceDirOffset place + 4 ≤ content.length)))

instance : Decidable (DirectoryOf content resourceDirOffset below place) :=
  inferInstanceAs (Decidable (place + 16 ≤ content.length ∧
    ∀ entry ∈ entriesOf content place, EntryInside content resourceDirOffset entry ∧ below entry))

instance : Decidable (DataBelow content resourceDirOffset place) :=
  inferInstanceAs (Decidable (¬ pointsToDirectory content place ∧
    target content resourceDirOffset place + 16 ≤ content.length))

instance : Decidable (DirectoryBelow content resourceDirOffset below place) :=
  inferInstanceAs (Decidable (pointsToDirectory content place ∧
    DirectoryOf content resourceDirOffset below (target content resourceDirOffset place)))

instance : Decidable (WellFormedTree content resourceDirOffset) :=
  inferInstanceAs (Decidable (DirectoryOf content resourceDirOffset
    (DirectoryBelow content resourceDirOffset
      (DirectoryBelow content resourceDirOffset (DataBelow content resourceDirOffset)))
    resourceDirOffset))

instance : Decidable (InLine content resourceDirOffset place) :=
  inferInstanceAs (Decidable (∀ index < numberOfEntries content place - 1,
    target content resourceDirOffset (entryAt place index) + 24 ≤ content.length ∧
      target content resourceDirOffset (entryAt place (index + 1)) =
        behind content resourceDirOffset
          (target content resourceDirOffset (entryAt place index))))

end Decidability

end Tree

/-- The loops make enough turns for any directory. -/
theorem numberOfEntries_lt (content : ByteString) (directory : Nat) :
    numberOfEntries content directory < 1 + entryTurns := by
  have named := field_lt content (directory + 12) 2
  have others := field_lt content (directory + 14) 2
  unfold numberOfEntries entryTurns
  omega

section Visits

variable {content : ByteString} {resourceDirOffset : Nat}

theorem mem_entriesOf {directory index : Nat} (within : index < numberOfEntries content directory) :
    entryAt directory index ∈ entriesOf content directory :=
  List.mem_map.mpr ⟨index, List.mem_range.mpr within, rfl⟩

/-- The code finds the leaves below an entry exactly when they are in line. -/
theorem visits_eq_leavesOf_iff {entry : Nat}
    (inside : ∀ below ∈ entriesOf content (target content resourceDirOffset entry),
      target content resourceDirOffset below + 16 ≤ content.length) :
    visits content resourceDirOffset entry =
        (leavesOf content resourceDirOffset entry).map some ↔
      InLine content resourceDirOffset (target content resourceDirOffset entry) := by
  generalize directory : target content resourceDirOffset entry = d at inside
  have pointwise : visits content resourceDirOffset entry =
      (leavesOf content resourceDirOffset entry).map some ↔
        ∀ index < numberOfEntries content d, visitAt content resourceDirOffset d index =
          some (target content resourceDirOffset (entryAt d index)) := by
    simp only [visits, leavesOf, entriesOf, List.map_map, directory]
    rw [List.map_inj_left]
    simp only [List.mem_range, Function.comp_apply]
  have leafInside : ∀ index < numberOfEntries content d,
      target content resourceDirOffset (entryAt d index) + 16 ≤ content.length := by
    intro index within
    exact inside _ (mem_entriesOf within)
  rw [pointwise]
  constructor
  · intro every index within
    have later := every (index + 1) (by omega)
    rw [visitAt, every index (by omega), Option.bind_some, nextData] at later
    split at later
    · next found => exact ⟨found.1, (Option.some.inj later).symm⟩
    · exact absurd later (by simp)
  · intro inLine index within
    induction index with
    | zero => rfl
    | succ index ih =>
        obtain ⟨room, same⟩ := inLine index (by omega)
        have leaf := leafInside (index + 1) within
        rw [visitAt, ih (by omega), Option.bind_some, nextData, if_pos ⟨room, same ▸ leaf⟩, same]

end Visits

/-! ## Nodes that are added -/

/-- The data entry of a node, with its root. -/
def Node.leaf (node : Node) : Option (Nat × Option Nat) :=
  match node.resource with
  | .dataEntry pointer => some (pointer, node.rootNode)
  | .resourceDirectory _ | .directoryEntry _ | .dataString _ => none

/-- The directory entry of a node at level 1. -/
def Node.entry (node : Node) : Option Nat :=
  match node.resource with
  | .directoryEntry pointer => if node.nodeLevel = .level1 then some pointer else none
  | .resourceDirectory _ | .dataString _ | .dataEntry _ => none

/-- The data entries among the nodes, each with the directory entry of its root. -/
def dataEntries (nodes : List Node) : List (Nat × Option Nat) :=
  (nodes.filterMap Node.leaf).map fun leaf =>
    (leaf.1, leaf.2.bind fun position => nodes[position]?.bind Node.entry)

/-- The structure of the last node of a type and a level. -/
def LastIs (nodes : List Node) (type : NodeType) (level : NodeLevel) (resource : Resource) :
    Prop :=
  (lastNodeByTypeAndLevel nodes type level).map Node.resource = some resource

/-- Nodes of some kinds are added, and with them leaves below a root. -/
def Adds (kinds : NodeType → NodeLevel → Prop) (root : Option Nat) (leaves : List Nat)
    (start nodes : List Node) : Prop :=
  ∃ added, nodes = start ++ added ∧ (∀ node ∈ added, kinds node.nodeType node.nodeLevel) ∧
    added.filterMap Node.leaf = leaves.map fun leaf => (leaf, root)

/-- The kinds of nodes that the entries of a level are. -/
def EntryKinds (entries : NodeLevel) (type : NodeType) (level : NodeLevel) : Prop :=
  level = entries ∧ type ≠ .resourceDirectory

/-- The kinds of nodes below a directory at level 2. -/
def BelowLevel2 (type : NodeType) (level : NodeLevel) : Prop :=
  level = .level3 ∨ EntryKinds .level2 type level

/-- The kinds of nodes below the directory at level 1. -/
def BelowLevel1 (type : NodeType) (level : NodeLevel) : Prop :=
  ¬ (type = .resourceDirectory ∧ level = .level1)

theorem belowLevel1_of_belowLevel2 (type : NodeType) (level : NodeLevel)
    (is : BelowLevel2 type level) : BelowLevel1 type level := by
  rintro ⟨rfl, rfl⟩
  simp [BelowLevel2, EntryKinds] at is

section Nodes

variable {nodes start middle : List Node} {kinds others : NodeType → NodeLevel → Prop}
  {root : Option Nat} {leaves more : List Nat}

theorem LastIs.append {type : NodeType} {level : NodeLevel} {resource : Resource}
    (last : LastIs nodes type level resource) (added : List Node)
    (differ : ∀ node ∈ added, ¬ (node.nodeType = type ∧ node.nodeLevel = level)) :
    LastIs (nodes ++ added) type level resource := by
  have none : added.reverse.find? (fun node =>
      decide (node.nodeType = type ∧ node.nodeLevel = level)) = none := by
    apply List.find?_eq_none.mpr
    intro node member
    simpa using differ node (List.mem_reverse.mp member)
  unfold LastIs lastNodeByTypeAndLevel at last ⊢
  rw [List.reverse_append, List.find?_append, none, Option.none_or]
  exact last

theorem LastIs.snoc (node : Node) :
    LastIs (nodes ++ [node]) node.nodeType node.nodeLevel node.resource := by
  simp [LastIs, lastNodeByTypeAndLevel]

theorem Adds.refl : Adds kinds root [] nodes nodes :=
  ⟨[], by simp, nofun, rfl⟩

theorem Adds.trans (first : Adds kinds root leaves start middle)
    (second : Adds kinds root more middle nodes) :
    Adds kinds root (leaves ++ more) start nodes := by
  obtain ⟨added, rfl, are, found⟩ := first
  obtain ⟨later, rfl, areLater, foundLater⟩ := second
  refine ⟨added ++ later, List.append_assoc .., ?_, ?_⟩
  · intro node member
    exact (List.mem_append.mp member).elim (are node) (areLater node)
  · rw [List.filterMap_append, List.map_append, found, foundLater]

theorem Adds.mono (adds : Adds kinds root leaves start nodes)
    (widen : ∀ type level, kinds type level → others type level) :
    Adds others root leaves start nodes := by
  obtain ⟨added, same, are, found⟩ := adds
  exact ⟨added, same, fun node member => widen _ _ (are node member), found⟩

theorem Adds.last (adds : Adds kinds root leaves start nodes) {type : NodeType}
    {level : NodeLevel} {resource : Resource} (last : LastIs start type level resource)
    (differ : ¬ kinds type level) : LastIs nodes type level resource := by
  obtain ⟨added, rfl, are, -⟩ := adds
  apply last.append
  rintro node member ⟨rfl, rfl⟩
  exact differ (are node member)

theorem Adds.snoc (node : Node) (is : kinds node.nodeType node.nodeLevel)
    (noLeaf : node.leaf = none) : Adds kinds root [] nodes (nodes ++ [node]) :=
  ⟨[node], rfl, by simpa using is, by simp [noLeaf]⟩

theorem Adds.snocLeaf {level : NodeLevel} {leaf : Nat} (is : kinds .dataEntry level) :
    Adds kinds root [leaf] nodes (nodes ++ [⟨.dataEntry, level, .dataEntry leaf, root⟩]) :=
  ⟨[⟨.dataEntry, level, .dataEntry leaf, root⟩], rfl, by simpa using is, rfl⟩

end Nodes

/-! ## Values in a file -/

section Values

variable {reader : Reader} {content : ByteString} {context : PeContext} {nodes : List Node}
  {resourceDirOffset : Nat} {level : NodeLevel} {root : Option Nat} {stop : Stop → Prop}

/-- An offset of 31 bits is added without a wrap. -/
theorem ptrAdd_target (small : resourceDirOffset < 2 ^ 63) {entry : Nat} :
    ptrAdd resourceDirOffset (field content (entry + 4) 4 % 2 ^ 31) =
      target content resourceDirOffset entry :=
  ptrAdd_eq (by omega)

theorem lastNode_runs {type : NodeType} {resource : Resource} (mapped : Mapped reader context)
    (last : LastIs nodes type level resource) :
    Runs reader context (lastNode nodes type level)
      (fun node next => node.resource = resource ∧ next = context) stop := by
  unfold LastIs at last
  unfold lastNode
  cases found : lastNodeByTypeAndLevel nodes type level with
  | none =>
      rw [found] at last
      cases last
  | some node =>
      rw [found] at last
      exact Runs.pure mapped ⟨Option.some.inj last, rfl⟩

theorem lastDirectory_runs {directory : Nat} (mapped : Mapped reader context)
    (last : LastIs nodes .resourceDirectory level (.resourceDirectory directory)) :
    Runs reader context (lastDirectory nodes level)
      (fun pointer next => pointer = directory ∧ next = context) stop := by
  apply Runs.bind (lastNode_runs mapped last)
  rintro node _ mapped _ ⟨resource, rfl⟩
  unfold resourceDirectory
  rw [resource]
  exact Runs.pure mapped ⟨rfl, rfl⟩

theorem lastEntry_runs {entry : Nat} (mapped : Mapped reader context)
    (last : LastIs nodes .directoryEntry level (.directoryEntry entry)) :
    Runs reader context (lastEntry nodes level)
      (fun pointer next => pointer = entry ∧ next = context) stop := by
  apply Runs.bind (lastNode_runs mapped last)
  rintro node _ mapped _ ⟨resource, rfl⟩
  unfold directoryEntry
  rw [resource]
  exact Runs.pure mapped ⟨rfl, rfl⟩

/-- A field of a structure, where the file has it. -/
theorem member_runs (returns : reader.Returns content) {pointer size offset length : Nat}
    (mapped : Mapped reader context)
    (covers : Covers reader.fileSize context.trace pointer size)
    (fits : offset + length ≤ size) :
    Runs reader context (deref (ptrAdd pointer offset) length) (fun value next =>
      value = field content (pointer + offset) length ∧
        Covers reader.fileSize next.trace pointer size) stop := by
  have small := reader.fileSize_lt
  have within := covers.within
  have kept : ptrAdd pointer offset = pointer + offset := ptrAdd_eq (by omega)
  apply Runs.consequence (deref_runs mapped (covers.member small fits))
  · intro value next grows same
    rw [← kept]
    exact ⟨same.2 content returns, covers.mono grows⟩
  · exact fun _ stopped => stopped

theorem entryCount_runs (returns : reader.Returns content) {directory : Nat}
    (mapped : Mapped reader context)
    (last : LastIs nodes .resourceDirectory level (.resourceDirectory directory))
    (covers : Covers reader.fileSize context.trace directory 16) :
    Runs reader context (entryCount nodes level) (fun count _ =>
      count = numberOfEntries content directory) stop := by
  apply Runs.bind (lastDirectory_runs mapped last)
  rintro _ _ mapped _ ⟨rfl, rfl⟩
  apply Runs.bind (member_runs returns mapped covers (by omega))
  rintro _ _ mapped _ ⟨rfl, covers⟩
  apply Runs.bind (lastDirectory_runs mapped last)
  rintro _ _ mapped _ ⟨rfl, rfl⟩
  apply Runs.bind (member_runs returns mapped covers (by omega))
  rintro _ _ mapped _ ⟨rfl, -⟩
  exact Runs.pure mapped rfl

theorem offsetToDirectory_runs (returns : reader.Returns content) {entry : Nat}
    (mapped : Mapped reader context)
    (last : LastIs nodes .directoryEntry level (.directoryEntry entry))
    (covers : Covers reader.fileSize context.trace entry 8) :
    Runs reader context (offsetToDirectory nodes level) (fun offset _ =>
      offset = field content (entry + 4) 4 % 2 ^ 31) stop := by
  apply Runs.bind (lastEntry_runs mapped last)
  rintro _ _ mapped _ ⟨rfl, rfl⟩
  apply Runs.bind (member_runs returns mapped covers (by omega))
  rintro _ _ mapped _ ⟨rfl, -⟩
  exact Runs.pure mapped rfl

theorem dataIsDirectory_runs (returns : reader.Returns content) {entry : Nat}
    (mapped : Mapped reader context)
    (last : LastIs nodes .directoryEntry level (.directoryEntry entry))
    (covers : Covers reader.fileSize context.trace entry 8)
    (isDirectory : pointsToDirectory content entry) :
    Runs reader context (dataIsDirectory nodes level) (fun answer _ => answer = true) stop := by
  apply Runs.bind (lastEntry_runs mapped last)
  rintro _ _ mapped _ ⟨rfl, rfl⟩
  apply Runs.bind (member_runs returns mapped covers (by omega))
  rintro _ _ mapped _ ⟨rfl, -⟩
  exact Runs.pure mapped (decide_eq_true isDirectory)

/-- What is required is inside the file, and the program stops only where it is not. -/
theorem require_inside (returns : reader.Returns content) {reason : Stop} {pointer size : Nat}
    (mapped : Mapped reader context) (defined : reason ≠ .undefined ∧ reason ≠ .unassigned)
    (positive : 0 < size) (small : size ≤ 2 ^ 63)
    (stops : ¬ pointer + size ≤ content.length → stop reason) :
    Runs reader context (require reason pointer size) (fun _ next =>
      pointer + size ≤ content.length ∧ Covers reader.fileSize next.trace pointer size)
      stop := by
  have required : Runs reader context (require reason pointer size)
      (fun _ next => Covers reader.fileSize next.trace pointer size) stop := by
    apply require_runs mapped defined small
    intro outside
    apply stops
    intro within
    exact outside content returns ⟨within, by omega⟩
  apply Runs.consequence required
  · intro _ _ _ covers
    exact ⟨returns.fileSize ▸ covers.within, covers⟩
  · exact fun _ stopped => stopped

end Values

/-! ## The loops -/

/-- The nodes of a directory entry and of its name. -/
def entryNodes (content : ByteString) (resourceDirOffset : Nat) (level : NodeLevel)
    (root : Option Nat) (entry : Nat) : List Node :=
  ⟨.directoryEntry, level, .directoryEntry entry, root⟩ ::
    if hasName content entry then
      [⟨.dataString, level, .dataString (nameOf content resourceDirOffset entry), root⟩]
    else []

section Loops

variable {reader : Reader} {content : ByteString} {context : PeContext}
  {nodes start : List Node} {resourceDirOffset : Nat} {level : NodeLevel} {root : Option Nat}
  {stop : Stop → Prop}

theorem entryNodes_adds {entry : Nat} :
    Adds (EntryKinds level) root [] nodes
      (nodes ++ entryNodes content resourceDirOffset level root entry) := by
  refine ⟨_, rfl, ?_, ?_⟩
  · unfold entryNodes
    split
    · simp [EntryKinds]
    · simp [EntryKinds]
  · unfold entryNodes
    split
    · rfl
    · rfl

theorem entryNodes_last {entry : Nat} :
    LastIs (nodes ++ entryNodes content resourceDirOffset level root entry) .directoryEntry
      level (.directoryEntry entry) := by
  have last : LastIs (nodes ++ [⟨.directoryEntry, level, .directoryEntry entry, root⟩])
      .directoryEntry level (.directoryEntry entry) := LastIs.snoc _
  unfold entryNodes
  rw [List.append_cons]
  apply last.append
  split
  · simp
  · simp

theorem addEntry_runs (returns : reader.Returns content) (small : resourceDirOffset < 2 ^ 63)
    {entry : Nat} (mapped : Mapped reader context)
    (stops : ¬ EntryInside content resourceDirOffset entry → ∀ reason, stop reason) :
    Runs reader context (addEntry resourceDirOffset level root nodes entry)
      (fun result next =>
        result = (nodes ++ entryNodes content resourceDirOffset level root entry,
          offsetBehind content resourceDirOffset entry) ∧
        EntryInside content resourceDirOffset entry ∧
        Covers reader.fileSize next.trace entry 8) stop := by
  have name : ptrAdd resourceDirOffset (field content entry 4 % 2 ^ 31) =
      nameOf content resourceDirOffset entry := ptrAdd_eq (by omega)
  apply Runs.bind (require_inside returns mapped (by simp) (by omega) (by omega)
    (fun outside => stops (fun inside => outside inside.1) _))
  intro _ _ mapped _ ⟨within, covers⟩
  apply Runs.bind (deref_runs mapped (covers.first (by omega)))
  intro nameIsString _ mapped grows isField
  have covers := covers.mono grows
  rw [isField.2 content returns]
  apply Runs.ite
  · intro (isString : hasName content entry)
    apply Runs.bind (deref_runs mapped (covers.first (by omega)))
    intro nameOffset _ mapped grows isField
    have covers := covers.mono grows
    rw [isField.2 content returns, name]
    apply Runs.bind (require_inside returns mapped (by simp) (by omega) (by omega)
      (fun outside => stops (fun inside => outside (inside.2 isString)) _))
    intro _ _ mapped grows ⟨nameWithin, _⟩
    have covers := covers.mono grows
    apply Runs.pure mapped
    refine ⟨?_, ⟨within, fun _ => nameWithin⟩, covers⟩
    rw [entryNodes, offsetBehind, if_pos isString, if_pos isString, List.append_assoc]
    rfl
  · intro (noString : ¬ hasName content entry)
    apply Runs.pure mapped
    refine ⟨?_, ⟨within, fun isString => absurd isString noString⟩, covers⟩
    rw [entryNodes, offsetBehind, if_neg noString, if_neg noString]

theorem addDirectory_runs (returns : reader.Returns content) {directory : Nat}
    (mapped : Mapped reader context) (inside : directory + 16 ≤ content.length) :
    Runs reader context (addDirectory level root nodes directory)
      (fun result next =>
        result = nodes ++ [⟨.resourceDirectory, level, .resourceDirectory directory, root⟩] ∧
        Covers reader.fileSize next.trace directory 16) stop := by
  apply Runs.bind (require_inside returns mapped (by simp) (by omega) (by omega)
    (fun outside => absurd inside outside))
  intro _ _ mapped _ ⟨_, covers⟩
  exact Runs.pure mapped ⟨rfl, covers⟩

/-- The first turn at level 3 takes the data entry from the directory entry. -/
theorem level3Turn_first (returns : reader.Returns content) (small : resourceDirOffset < 2 ^ 63)
    {entry : Nat} (mapped : Mapped reader context)
    (inside : EntryInside content resourceDirOffset entry)
    (data : target content resourceDirOffset entry + 16 ≤ content.length) :
    Runs reader context (level3Turn resourceDirOffset root 1 (nodes, entry))
      (fun result _ => result.2 = target content resourceDirOffset entry + 16 ∧
        Adds (EntryKinds .level3) root [target content resourceDirOffset entry] nodes
          result.1) stop := by
  have short := returns.signed
  apply Runs.bind (addEntry_runs returns small mapped (absurd inside))
  rintro _ _ mapped _ ⟨rfl, -, covers⟩
  apply Runs.bind (Q := fun offset _ => offset = target content resourceDirOffset entry)
  · apply Runs.bind (offsetToDirectory_runs returns mapped entryNodes_last covers)
    rintro _ _ mapped _ rfl
    exact Runs.pure mapped (ptrAdd_target small)
  rintro _ _ mapped _ rfl
  apply Runs.bind (require_inside returns mapped (by simp) (by omega) (by omega)
    (fun outside => absurd data outside))
  intro _ _ mapped _ _
  apply Runs.pure mapped
  exact ⟨ptrAdd_eq (by omega),
    Adds.trans entryNodes_adds (Adds.snocLeaf ⟨rfl, by simp⟩)⟩

/-- A later turn at level 3 looks behind the data entry of the turn before. -/
theorem level3Turn_later (returns : reader.Returns content) (small : resourceDirOffset < 2 ^ 63)
    {dataEntry y : Nat} (later : y ≠ 1) (mapped : Mapped reader context)
    (stops : nextData content resourceDirOffset dataEntry = none → ∀ reason, stop reason) :
    Runs reader context (level3Turn resourceDirOffset root y (nodes, dataEntry + 16))
      (fun result _ => ∃ next, nextData content resourceDirOffset dataEntry = some next ∧
        result.2 = next + 16 ∧ Adds (EntryKinds .level3) root [next] nodes result.1)
      stop := by
  have short := returns.signed
  apply Runs.bind (addEntry_runs returns small mapped _)
  · rintro _ _ mapped _ ⟨rfl, inside, -⟩
    apply Runs.bind (Q := fun offset _ => offset = behind content resourceDirOffset dataEntry)
    · unfold dataEntryOffset
      rw [if_neg later]
      exact Runs.pure mapped rfl
    rintro _ _ mapped _ rfl
    apply Runs.bind (require_inside returns mapped (by simp) (by omega) (by omega) _)
    · intro _ _ mapped _ ⟨within, _⟩
      apply Runs.pure mapped
      refine ⟨_, if_pos ⟨inside.1, within⟩, ptrAdd_eq (by omega), ?_⟩
      exact Adds.trans entryNodes_adds (Adds.snocLeaf ⟨rfl, by simp⟩)
    · intro outside
      exact stops (if_neg fun found => outside found.2) _
  · intro outside
    apply stops
    apply if_neg
    intro found
    apply outside
    refine ⟨found.1, fun isString => ?_⟩
    have within := found.2
    rw [behind, offsetBehind, if_pos isString] at within
    change nameOf content resourceDirOffset (dataEntry + 16) + 4 ≤ content.length
    omega

/-- Where a turn at level 3 begins, counted from 0. -/
def positionAt (content : ByteString) (resourceDirOffset directory : Nat) : Nat → Option Nat
  | 0 => some (entryAt directory 0)
  | turn + 1 => (visitAt content resourceDirOffset directory turn).map (· + 16)

/-- What the loop at level 3 has done in some turns: it has added what the code visits. -/
def Visited (content : ByteString) (resourceDirOffset directory : Nat) (root : Option Nat)
    (start : List Node) (turns : Nat) (locals : List Node × Nat) : Prop :=
  positionAt content resourceDirOffset directory turns = some locals.2 ∧
    ∃ leaves : List Nat,
      leaves.map some = (List.range turns).map (visitAt content resourceDirOffset directory) ∧
      Adds (EntryKinds .level3) root leaves start locals.1

theorem Visited.snoc {directory turns leaf : Nat} {locals result : List Node × Nat}
    (visited : Visited content resourceDirOffset directory root start turns locals)
    (visit : visitAt content resourceDirOffset directory turns = some leaf)
    (behind : result.2 = leaf + 16)
    (added : Adds (EntryKinds .level3) root [leaf] locals.1 result.1) :
    Visited content resourceDirOffset directory root start (turns + 1) result := by
  obtain ⟨-, leaves, found, adds⟩ := visited
  refine ⟨?_, leaves ++ [leaf], ?_, adds.trans added⟩
  · rw [positionAt, visit, Option.map_some, behind]
  · rw [List.map_append, found, List.range_succ, List.map_append]
    simp only [List.map_cons, List.map_nil, visit]

/-- A turn at level 3 visits the next data entry, and stops where there is none. -/
theorem level3Turn_runs (returns : reader.Returns content) (small : resourceDirOffset < 2 ^ 63)
    {directory turns : Nat} {locals : List Node × Nat} (mapped : Mapped reader context)
    (tree : ∀ entry ∈ entriesOf content directory,
      EntryInside content resourceDirOffset entry ∧ DataBelow content resourceDirOffset entry)
    (within : turns < numberOfEntries content directory)
    (visited : Visited content resourceDirOffset directory root start turns locals)
    (stops : visitAt content resourceDirOffset directory turns = none → ∀ reason, stop reason) :
    Runs reader context (level3Turn resourceDirOffset root (turns + 1) locals)
      (fun result _ =>
        Visited content resourceDirOffset directory root start (turns + 1) result) stop := by
  obtain ⟨nodes, offset⟩ := locals
  cases turns with
  | zero =>
      obtain rfl : entryAt directory 0 = offset := Option.some.inj visited.1
      obtain ⟨inside, -, data⟩ := tree (entryAt directory 0) (mem_entriesOf within)
      apply Runs.consequence (level3Turn_first returns small mapped inside data)
      · intro result _ _ ⟨behind, added⟩
        exact visited.snoc rfl behind added
      · exact fun _ stopped => stopped
  | succ turns =>
      obtain ⟨dataEntry, visit, rfl⟩ := Option.map_eq_some_iff.mp visited.1
      have nextVisit : visitAt content resourceDirOffset directory (turns + 1) =
          nextData content resourceDirOffset dataEntry := by
        rw [visitAt, visit, Option.bind_some]
      apply Runs.consequence (level3Turn_later returns small (by omega) mapped _)
      · intro result _ _ ⟨leaf, isNext, behind, added⟩
        exact visited.snoc (nextVisit.trans isNext) behind added
      · exact fun _ stopped => stopped
      · exact fun nothing => stops (nextVisit.trans nothing)

/-- The loop over the entries of a directory whose entries are all inside. What a turn keeps
holds behind the loop. -/
theorem entries_runs (returns : reader.Returns content) {directory : Nat}
    {body : Nat → List Node × Nat → Method (List Node × Nat)}
    (inv : Nat → List Node × Nat → Prop) {offset : Nat} (mapped : Mapped reader context)
    (last : ∀ turns locals, inv turns locals →
      LastIs locals.1 .resourceDirectory level (.resourceDirectory directory))
    (covers : Covers reader.fileSize context.trace directory 16)
    (turn : ∀ turns locals next, turns < numberOfEntries content directory →
      Mapped reader next → context.trace <+: next.trace → inv turns locals →
      Runs reader next (body (turns + 1) locals) (fun result _ => inv (turns + 1) result) stop)
    (holds : inv 0 (start, offset)) :
    Runs reader context
      (forUpTo (fun locals => entryCount locals.1 level) body entryTurns 1 (start, offset))
      (fun result _ => inv (numberOfEntries content directory) result) stop := by
  have enough := numberOfEntries_lt content directory
  have loop : Runs reader context
      (forUpTo (fun locals => entryCount locals.1 level) body entryTurns 1 (start, offset)) _
        stop :=
    Runs.forUpTo_all (numberOfEntries content directory)
      (fun index locals next => Covers reader.fileSize next.trace directory 16 ∧
        ∃ turns, index = turns + 1 ∧ inv turns locals)
      mapped ?limits ?turn enough (by omega) ?start
  case start => exact ⟨covers, 0, rfl, holds⟩
  case limits =>
    intro index locals next mapped _ ⟨covers, turns, isNext, holds⟩
    apply Runs.consequence (entryCount_runs returns mapped (last turns locals holds) covers)
    · intro _ _ grows same
      exact ⟨same, covers.mono grows, turns, isNext, holds⟩
    · exact fun _ stopped => stopped
  case turn =>
    intro index locals next within mapped grows ⟨covers, turns, isNext, holds⟩
    subst isNext
    apply Runs.consequence (turn turns locals next within mapped grows holds)
    · intro _ _ grows holds
      exact ⟨covers.mono grows, turns + 1, rfl, holds⟩
    · exact fun _ stopped => stopped
  apply Runs.consequence loop
  · intro result _ _ ⟨_, turns, isNext, holds⟩
    obtain rfl : numberOfEntries content directory = turns := by omega
    exact holds
  · exact fun _ stopped => stopped

/-- The loop at level 3 adds what the code visits, and stops where it visits nothing. -/
theorem level3_runs (returns : reader.Returns content) (small : resourceDirOffset < 2 ^ 63)
    {directory : Nat} (mapped : Mapped reader context)
    (last : LastIs start .resourceDirectory .level3 (.resourceDirectory directory))
    (covers : Covers reader.fileSize context.trace directory 16)
    (tree : ∀ entry ∈ entriesOf content directory,
      EntryInside content resourceDirOffset entry ∧ DataBelow content resourceDirOffset entry)
    (stops : ∀ turns < numberOfEntries content directory,
      visitAt content resourceDirOffset directory turns = none → ∀ reason, stop reason) :
    Runs reader context
      (forUpTo (fun locals => entryCount locals.1 .level3) (level3Turn resourceDirOffset root)
        entryTurns 1 (start, directory + 16))
      (fun result _ => Visited content resourceDirOffset directory root start
        (numberOfEntries content directory) result) stop := by
  apply entries_runs returns (Visited content resourceDirOffset directory root start) mapped _
    covers
  · intro turns locals next within mapped _ visited
    exact level3Turn_runs returns small mapped tree within visited (stops turns within)
  · exact ⟨rfl, [], rfl, Adds.refl⟩
  · intro turns locals ⟨_, leaves, found, adds⟩
    exact adds.last last (by simp [EntryKinds])

/-- How far the last entry is behind the start of its directory, after some turns. -/
def offsetAfter (turns : Nat) : Nat := if turns = 0 then 0 else 8 * (turns + 1)

theorem offsetAfter_stride (turns : Nat) :
    offsetAfter turns + entryStride (turns + 1) = offsetAfter (turns + 1) := by
  unfold offsetAfter entryStride
  split
  · next first =>
    subst first
    rfl
  · rw [if_neg (by omega), if_neg (by omega)]
    omega

/-- The entry of a turn is one stride behind the last. -/
theorem ptrAdd_offsetAfter {directory turns : Nat} (small : entryAt directory turns < 2 ^ 64) :
    ptrAdd directory (offsetAfter turns + entryStride (turns + 1)) = entryAt directory turns := by
  rw [entryAt] at small ⊢
  rw [offsetAfter_stride, offsetAfter, if_neg (by omega), ptrAdd_eq (by omega)]
  omega

/-- What the loop at level 2 has done in some turns. -/
def Visited2 (content : ByteString) (resourceDirOffset directory : Nat) (root : Option Nat)
    (start : List Node) (turns : Nat) (locals : List Node × Nat) : Prop :=
  locals.2 = offsetAfter turns ∧
    ∃ leaves : List Nat,
      leaves.map some = (List.range turns).flatMap (fun index =>
        visits content resourceDirOffset (entryAt directory index)) ∧
      Adds BelowLevel2 root leaves start locals.1

/-- A turn at level 2 visits the leaves below its entry. -/
theorem level2Turn_runs (returns : reader.Returns content) (small : resourceDirOffset < 2 ^ 63)
    {entry turns : Nat} {locals : List Node × Nat} (mapped : Mapped reader context)
    (lastEntry : LastIs start .directoryEntry .level1 (.directoryEntry entry))
    (entryCovers : Covers reader.fileSize context.trace entry 8)
    (tree : ∀ below ∈ entriesOf content (target content resourceDirOffset entry),
      EntryInside content resourceDirOffset below ∧
        DirectoryBelow content resourceDirOffset (DataBelow content resourceDirOffset) below)
    (within : turns < numberOfEntries content (target content resourceDirOffset entry))
    (visited : Visited2 content resourceDirOffset (target content resourceDirOffset entry) root
      start turns locals)
    (stops : none ∈ visits content resourceDirOffset
      (entryAt (target content resourceDirOffset entry) turns) → ∀ reason, stop reason) :
    Runs reader context (level2Turn resourceDirOffset root (turns + 1) locals)
      (fun result _ => Visited2 content resourceDirOffset
        (target content resourceDirOffset entry) root start (turns + 1) result) stop := by
  have short := returns.signed
  obtain ⟨offset, leaves, found, adds⟩ := visited
  obtain ⟨inside, isDirectory, directoryInside, below⟩ := tree _ (mem_entriesOf within)
  have length := inside.1
  have head : ptrAdd (target content resourceDirOffset
      (entryAt (target content resourceDirOffset entry) turns)) 16 =
        target content resourceDirOffset
          (entryAt (target content resourceDirOffset entry) turns) + 16 := ptrAdd_eq (by omega)
  have lastEntry := adds.last lastEntry (by simp [BelowLevel2, EntryKinds])
  apply Runs.bind (offsetToDirectory_runs returns mapped lastEntry entryCovers)
  rintro _ _ mapped _ rfl
  rw [ptrAdd_target small, offset, ptrAdd_offsetAfter (by omega)]
  apply Runs.bind (addEntry_runs returns small mapped (absurd inside))
  rintro _ _ mapped _ ⟨rfl, -, covers⟩
  apply Runs.bind (offsetToDirectory_runs returns mapped entryNodes_last covers)
  rintro _ _ mapped _ rfl
  rw [ptrAdd_target small]
  dsimp only
  rw [head]
  apply Runs.bind (addDirectory_runs returns mapped directoryInside)
  rintro _ _ mapped _ ⟨rfl, covers⟩
  apply Runs.bind (level3_runs returns small mapped (LastIs.snoc _) covers below _)
  · intro ⟨nodes, _⟩ _ mapped _ ⟨_, visitedLeaves, foundLeaves, addsLeaves⟩
    apply Runs.pure mapped
    refine ⟨offsetAfter_stride turns, leaves ++ visitedLeaves, ?_, ?_⟩
    · rw [List.map_append, found, foundLeaves, List.range_succ, List.flatMap_append,
        List.flatMap_singleton]
      rfl
    · have addsEntry : Adds BelowLevel2 root [] locals.1
          (locals.1 ++ entryNodes content resourceDirOffset .level2 root
            (entryAt (target content resourceDirOffset entry) turns)) :=
        entryNodes_adds.mono fun _ _ is => .inr is
      have addsDirectory := addsEntry.trans (Adds.snoc ⟨.resourceDirectory, .level3,
        .resourceDirectory (target content resourceDirOffset
          (entryAt (target content resourceDirOffset entry) turns)), root⟩ (.inl rfl) rfl)
      exact adds.trans (addsDirectory.trans (addsLeaves.mono fun _ _ is => .inl is.1))
  · intro turns within nothing
    apply stops
    exact List.mem_map.mpr ⟨turns, List.mem_range.mpr within, nothing⟩

/-- The loop at level 2 visits the leaves below its entries. -/
theorem level2_runs (returns : reader.Returns content) (small : resourceDirOffset < 2 ^ 63)
    {entry : Nat} (mapped : Mapped reader context)
    (lastEntry : LastIs start .directoryEntry .level1 (.directoryEntry entry))
    (entryCovers : Covers reader.fileSize context.trace entry 8)
    (last : LastIs start .resourceDirectory .level2
      (.resourceDirectory (target content resourceDirOffset entry)))
    (covers : Covers reader.fileSize context.trace (target content resourceDirOffset entry) 16)
    (tree : ∀ below ∈ entriesOf content (target content resourceDirOffset entry),
      EntryInside content resourceDirOffset below ∧
        DirectoryBelow content resourceDirOffset (DataBelow content resourceDirOffset) below)
    (stops : ∀ below ∈ entriesOf content (target content resourceDirOffset entry),
      none ∈ visits content resourceDirOffset below → ∀ reason, stop reason) :
    Runs reader context
      (forUpTo (fun locals => entryCount locals.1 .level2) (level2Turn resourceDirOffset root)
        entryTurns 1 (start, 0))
      (fun result _ => Visited2 content resourceDirOffset
        (target content resourceDirOffset entry) root start
        (numberOfEntries content (target content resourceDirOffset entry)) result) stop := by
  apply entries_runs returns (Visited2 content resourceDirOffset
    (target content resourceDirOffset entry) root start) mapped _ covers
  · intro turns locals next within mapped grows visited
    exact level2Turn_runs returns small mapped lastEntry (entryCovers.mono grows) tree within
      visited (stops _ (mem_entriesOf within))
  · exact ⟨rfl, [], rfl, Adds.refl⟩
  · intro turns locals ⟨_, leaves, found, adds⟩
    exact adds.last last (by simp [BelowLevel2, EntryKinds])

/-- What the code visits below an entry at level 1. -/
def visitsBelow (content : ByteString) (resourceDirOffset entry : Nat) : List (Option Nat) :=
  (entriesOf content (target content resourceDirOffset entry)).flatMap
    (visits content resourceDirOffset)

/-- The roots of the data entries are among the nodes. -/
def Rooted (nodes : List Node) : Prop :=
  ∀ leaf ∈ nodes.filterMap Node.leaf, ∃ position, leaf.2 = some position ∧
    position < nodes.length

/-- Leaves that are added below a new root are found with its entry. -/
theorem dataEntries_adds {kinds : NodeType → NodeLevel → Prop} {leaves : List Nat}
    {later : List Node} {entry : Nat} (rooted : Rooted nodes)
    (adds : Adds kinds (some nodes.length) leaves nodes later)
    (isRoot : later[nodes.length]?.bind Node.entry = some entry) :
    dataEntries later = dataEntries nodes ++ leaves.map (fun leaf => (leaf, some entry)) ∧
      Rooted later := by
  obtain ⟨added, rfl, -, found⟩ := adds
  have nonempty : nodes.length < (nodes ++ added).length := by
    by_contra short
    rw [List.getElem?_eq_none (by omega)] at isRoot
    cases isRoot
  constructor
  · unfold dataEntries
    rw [List.filterMap_append, List.map_append, found, List.map_map]
    congr 1
    · apply List.map_congr_left
      intro leaf member
      obtain ⟨position, is, within⟩ := rooted leaf member
      rw [is, Option.bind_some, Option.bind_some, List.getElem?_append_left within]
    · apply List.map_congr_left
      intro leaf _
      exact Prod.ext rfl isRoot
  · intro leaf member
    rw [List.filterMap_append, List.mem_append, found] at member
    cases member with
    | inl earlier =>
        obtain ⟨position, is, within⟩ := rooted leaf earlier
        exact ⟨position, is, by omega⟩
    | inr now =>
        obtain ⟨_, _, rfl⟩ := List.mem_map.mp now
        exact ⟨nodes.length, rfl, nonempty⟩

/-- What the loop at level 1 has done in some turns. -/
def Visited1 (content : ByteString) (resourceDirOffset turns : Nat)
    (locals : List Node × Nat) : Prop :=
  locals.2 = offsetAfter turns ∧
    LastIs locals.1 .resourceDirectory .level1 (.resourceDirectory resourceDirOffset) ∧
    Rooted locals.1 ∧
    (dataEntries locals.1).map (fun leaf => (some leaf.1, leaf.2)) =
      (List.range turns).flatMap fun index =>
        (visitsBelow content resourceDirOffset (entryAt resourceDirOffset index)).map
          fun leaf => (leaf, some (entryAt resourceDirOffset index))

/-- A turn at level 1 visits the leaves below its entry. -/
theorem level1Turn_runs (returns : reader.Returns content) (small : resourceDirOffset < 2 ^ 63)
    {turns : Nat} {locals : List Node × Nat} (mapped : Mapped reader context)
    (tree : WellFormedTree content resourceDirOffset)
    (within : turns < numberOfEntries content resourceDirOffset)
    (visited : Visited1 content resourceDirOffset turns locals)
    (stops : ∀ below ∈ entriesOf content (target content resourceDirOffset
        (entryAt resourceDirOffset turns)),
      none ∈ visits content resourceDirOffset below → ∀ reason, stop reason) :
    Runs reader context (level1Turn resourceDirOffset (turns + 1) locals)
      (fun result _ => Visited1 content resourceDirOffset (turns + 1) result) stop := by
  have short := returns.signed
  obtain ⟨nodes, offset⟩ := locals
  obtain ⟨isOffset, last, rooted, found⟩ := visited
  dsimp only at isOffset last rooted found
  subst isOffset
  obtain ⟨inside, isDirectory, directoryInside, below⟩ := tree.2 _ (mem_entriesOf within)
  have length := inside.1
  unfold level1Turn
  dsimp only
  rw [ptrAdd_offsetAfter (by omega)]
  apply Runs.bind (addEntry_runs returns small mapped (absurd inside))
  rintro _ _ mapped _ ⟨rfl, -, covers⟩
  have lastEntry : LastIs (nodes ++ entryNodes content resourceDirOffset .level1
      (some nodes.length) (entryAt resourceDirOffset turns)) .directoryEntry .level1
      (.directoryEntry (entryAt resourceDirOffset turns)) := entryNodes_last
  apply Runs.bind (dataIsDirectory_runs returns mapped lastEntry covers isDirectory)
  rintro _ _ mapped grows rfl
  have covers := covers.mono grows
  apply Runs.ite _ (fun isFalse => absurd rfl isFalse)
  intro _
  apply Runs.bind (offsetToDirectory_runs returns mapped lastEntry covers)
  rintro _ _ mapped grows rfl
  have covers := covers.mono grows
  rw [ptrAdd_target small]
  apply Runs.bind (addDirectory_runs returns mapped directoryInside)
  rintro _ _ mapped grows ⟨rfl, directoryCovers⟩
  have covers := covers.mono grows
  have lastEntry := lastEntry.append [⟨.resourceDirectory, .level2,
    .resourceDirectory (target content resourceDirOffset (entryAt resourceDirOffset turns)),
    some nodes.length⟩] (by simp)
  apply Runs.bind (level2_runs returns small mapped lastEntry covers (LastIs.snoc _)
    directoryCovers below stops)
  intro ⟨result, _⟩ _ mapped _ ⟨_, leaves, foundLeaves, addsLeaves⟩
  apply Runs.pure mapped
  have addsEntry : Adds BelowLevel1 (some nodes.length) [] nodes
      (nodes ++ entryNodes content resourceDirOffset .level1 (some nodes.length)
        (entryAt resourceDirOffset turns)) :=
    entryNodes_adds.mono fun _ _ is isTop => is.2 isTop.1
  have addsDirectory := addsEntry.trans (Adds.snoc ⟨.resourceDirectory, .level2,
    .resourceDirectory (target content resourceDirOffset (entryAt resourceDirOffset turns)),
    some nodes.length⟩ (by simp [BelowLevel1]) rfl)
  have adds := addsDirectory.trans (addsLeaves.mono belowLevel1_of_belowLevel2)
  have isRoot : result[nodes.length]?.bind Node.entry = some (entryAt resourceDirOffset turns) := by
    obtain ⟨added, rfl, -⟩ := addsLeaves
    simp [entryNodes, Node.entry]
  obtain ⟨entries, rooted⟩ := dataEntries_adds rooted adds isRoot
  refine ⟨offsetAfter_stride turns, adds.last last (fun is => is ⟨rfl, rfl⟩), rooted, ?_⟩
  have visited : leaves.map some =
      visitsBelow content resourceDirOffset (entryAt resourceDirOffset turns) := by
    rw [foundLeaves, visitsBelow, entriesOf, List.flatMap_map]
  rw [entries, List.map_append, found, List.range_succ, List.flatMap_append,
    List.flatMap_singleton, ← visited, List.map_map, List.map_map]
  rfl

/-- What the code visits in the whole tree. -/
def visitsOf (content : ByteString) (resourceDirOffset : Nat) :
    List (Option Nat × Option Nat) :=
  (entriesOf content resourceDirOffset).flatMap fun root =>
    (visitsBelow content resourceDirOffset root).map fun leaf => (leaf, some root)

/-- The discovery finds what the code visits, and stops only where it visits nothing. -/
theorem discoverTree_runs (returns : reader.Returns content) (small : resourceDirOffset < 2 ^ 63)
    (mapped : Mapped reader context) (tree : WellFormedTree content resourceDirOffset)
    (stops : ∀ root ∈ entriesOf content resourceDirOffset,
      ∀ below ∈ entriesOf content (target content resourceDirOffset root),
        none ∈ visits content resourceDirOffset below → ∀ reason, stop reason) :
    Runs reader context (discoverTree resourceDirOffset) (fun nodes _ =>
      (dataEntries nodes).map (fun leaf => (some leaf.1, leaf.2)) =
        visitsOf content resourceDirOffset) stop := by
  apply Runs.bind (addDirectory_runs returns mapped tree.1)
  rintro _ _ mapped _ ⟨rfl, covers⟩
  apply Runs.bind (entries_runs returns (Visited1 content resourceDirOffset) mapped
    (fun _ _ visited => visited.2.1) covers _ _)
  · intro ⟨nodes, _⟩ _ mapped _ ⟨_, _, _, found⟩
    apply Runs.pure mapped
    rw [visitsOf, entriesOf, List.flatMap_map]
    exact found
  · intro turns locals next within mapped _ visited
    exact level1Turn_runs returns small mapped tree within visited
      (stops _ (mem_entriesOf within))
  · exact ⟨rfl, LastIs.snoc _, by simp [Rooted, Node.leaf], rfl⟩

end Loops

/-! ## Completeness -/

/-- Lists that are put together from blocks of the same lengths are equal exactly when the
blocks are. -/
theorem flatMap_eq_flatMap_iff {α β : Type} {list : List α} {first second : α → List β}
    (lengths : ∀ a ∈ list, (first a).length = (second a).length) :
    list.flatMap first = list.flatMap second ↔ ∀ a ∈ list, first a = second a := by
  induction list with
  | nil => simp
  | cons a rest ih =>
      have restLengths := fun b member => lengths b (List.mem_cons_of_mem a member)
      rw [List.flatMap_cons, List.flatMap_cons, List.forall_mem_cons, ← ih restLengths]
      constructor
      · intro same
        exact List.append_inj same (lengths a List.mem_cons_self)
      · intro ⟨head, tail⟩
        rw [head, tail]

section Completeness

variable {reader : Reader} {content : ByteString} {resourceDirOffset : Nat}

/-- The code visits exactly the leaves when the data entries of each directory at level 3
are in line. -/
theorem visitsOf_eq_treeLeaves_iff (tree : WellFormedTree content resourceDirOffset) :
    visitsOf content resourceDirOffset =
        (treeLeaves content resourceDirOffset).map (fun leaf => (some leaf.1, some leaf.2)) ↔
      ∀ root ∈ entriesOf content resourceDirOffset,
        ∀ below ∈ entriesOf content (target content resourceDirOffset root),
          InLine content resourceDirOffset (target content resourceDirOffset below) := by
  have blocks : ∀ below, (visits content resourceDirOffset below).length =
      ((leavesOf content resourceDirOffset below).map some).length := by
    intro below
    simp [visits, leavesOf, entriesOf]
  have leaves : (treeLeaves content resourceDirOffset).map
      (fun leaf => (some leaf.1, some leaf.2)) =
        (entriesOf content resourceDirOffset).flatMap fun root =>
          ((entriesOf content (target content resourceDirOffset root)).flatMap fun below =>
            (leavesOf content resourceDirOffset below).map some).map
              fun leaf => (leaf, some root) := by
    simp only [treeLeaves, List.map_flatMap, List.map_map]
    rfl
  have rooted : ∀ root : Nat, Function.Injective fun leaf : Option Nat => (leaf, some root) := by
    intro root first second same
    exact congrArg Prod.fst same
  rw [leaves, visitsOf, flatMap_eq_flatMap_iff]
  · apply forall₂_congr
    intro root isRoot
    rw [(rooted root).list_map.eq_iff, visitsBelow,
      flatMap_eq_flatMap_iff (fun below _ => blocks below)]
    apply forall₂_congr
    intro below isBelow
    apply visits_eq_leavesOf_iff
    intro entry isEntry
    have directory := (tree.2 root isRoot).2.2.2 below isBelow
    exact (directory.2.2.2 entry isEntry).2.2
  · intro root _
    rw [List.length_map, List.length_map, visitsBelow, List.length_flatMap, List.length_flatMap]
    simp only [blocks]

/-- Where the run of a reader's file finds the directory at level 1. -/
def Located (reader : Reader) (resourceDirOffset : Nat) : Prop :=
  returned (do parse; locateResources) (PeContext.new reader) = some resourceDirOffset

/-- The data entries that the run of a reader's file finds are exactly the leaves of the
tree, each once and in order, each with its entry at level 1. -/
def FindsLeaves (reader : Reader) (content : ByteString) (resourceDirOffset : Nat) : Prop :=
  (returned parseAndDiscover (PeContext.new reader)).map dataEntries =
    some ((treeLeaves content resourceDirOffset).map fun leaf => (leaf.1, some leaf.2))

instance (resourceDirOffset : Nat) : Decidable (Located reader resourceDirOffset) :=
  inferInstanceAs (Decidable (returned (do parse; locateResources) (PeContext.new reader) =
    some resourceDirOffset))

instance : Decidable (FindsLeaves reader content resourceDirOffset) :=
  inferInstanceAs (Decidable ((returned parseAndDiscover (PeContext.new reader)).map dataEntries =
    some ((treeLeaves content resourceDirOffset).map fun leaf => (leaf.1, some leaf.2))))

/-- The discovery finds exactly the leaves of a well-formed tree when in each directory at
level 3 the later data entries are where the code looks for them. -/
theorem findsLeaves_iff (returns : reader.Returns content)
    (located : Located reader resourceDirOffset)
    (tree : WellFormedTree content resourceDirOffset) :
    FindsLeaves reader content resourceDirOffset ↔
      ∀ root ∈ entriesOf content resourceDirOffset,
        ∀ below ∈ entriesOf content (target content resourceDirOffset root),
          InLine content resourceDirOffset (target content resourceDirOffset below) := by
  obtain ⟨context, ran⟩ := returned_eq_some_iff.mp located
  have short := returns.signed
  have head := tree.1
  have mapped : Mapped reader context := by
    have reads : Reads reader (PeContext.new reader) (do parse; locateResources : Method Nat)
        (fun _ _ => True) := by
      apply Runs.bind (parse_reads (mapped_new reader returns.isOpen))
      intro _ _ mapped _ _
      exact locateResources_reads mapped
    have after := reads _ rfl
    rw [ran] at after
    exact after.1
  have split : returned parseAndDiscover (PeContext.new reader) =
      returned (discoverTree resourceDirOffset) context := by
    have parts : parseAndDiscover =
        (do parse; locateResources : Method Nat) >>= discoverTree := by
      rw [bind_assoc]
      rfl
    rw [parts, returned, run_bind ran, returned]
  rw [← visitsOf_eq_treeLeaves_iff tree, FindsLeaves, split]
  have discovers : Runs reader context (discoverTree resourceDirOffset) _ fun _ =>
      ∃ root ∈ entriesOf content resourceDirOffset,
        ∃ below ∈ entriesOf content (target content resourceDirOffset root),
          none ∈ visits content resourceDirOffset below :=
    discoverTree_runs returns (by omega) mapped tree fun root isRoot below isBelow nothing _ =>
      ⟨root, isRoot, below, isBelow, nothing⟩
  have runs := discovers context rfl
  unfold returned
  cases result : (discoverTree resourceDirOffset).run context with
  | ok nodes next =>
      rw [result] at runs
      have injective : Function.Injective
          fun leaf : Nat × Option Nat => (some leaf.1, leaf.2) := by
        intro first second same
        have parts := Prod.mk.inj (same : (some first.1, first.2) = (some second.1, second.2))
        exact Prod.ext (Option.some.inj parts.1) parts.2
      rw [← runs.2.2, Option.map_some, Option.some.injEq, ← injective.list_map.eq_iff,
        List.map_map]
      rfl
  | error reason next =>
      rw [result] at runs
      obtain ⟨-, root, isRoot, below, isBelow, nothing⟩ := runs
      have visited : (none, some root) ∈ visitsOf content resourceDirOffset := by
        apply List.mem_flatMap.mpr
        refine ⟨root, isRoot, List.mem_map.mpr ⟨none, ?_, rfl⟩⟩
        exact List.mem_flatMap.mpr ⟨below, isBelow, nothing⟩
      -- No leaf of the tree is missing.
      have differs : visitsOf content resourceDirOffset ≠
          (treeLeaves content resourceDirOffset).map fun leaf => (some leaf.1, some leaf.2) := by
        intro same
        rw [same] at visited
        obtain ⟨leaf, -, isNone⟩ := List.mem_map.mp visited
        cases congrArg Prod.fst isNone
      simp [differs]

end Completeness

/-- A tree with one resource in two languages, and the places of their data entries. -/
def sampleTree (first second : Nat) : List (Nat × Nat × Nat) :=
  [(262, 2, 1), (264, 4, 16), (268, 4, 2 ^ 31 + 24),
    (286, 2, 1), (288, 4, 1), (292, 4, 2 ^ 31 + 48),
    (310, 2, 2), (312, 4, 1031), (316, 4, first - 248), (320, 4, 1033), (324, 4, second - 248)]

/-- Two data entries with a gap between them. -/
def gapFile : ByteString := fileOf 368 (sampleHeaders ++ sampleTree 328 352)

theorem gapFile_signed : gapFile.length < 2 ^ 63 := by
  decide +kernel

/-- The second data entry is looked for in the gap. -/
theorem gapFile_incomplete :
    (Reader.ofContent gapFile gapFile_signed).Returns gapFile ∧
      Located (Reader.ofContent gapFile gapFile_signed) 248 ∧ WellFormedTree gapFile 248 ∧
      ¬ FindsLeaves (Reader.ofContent gapFile gapFile_signed) gapFile 248 := by
  refine ⟨Reader.ofContent_returns gapFile_signed, ?_, ?_, ?_⟩
  · decide +kernel
  · decide +kernel
  · decide +kernel

/-- The same file without the gap. -/
def lineFile : ByteString := fileOf 368 (sampleHeaders ++ sampleTree 328 344)

theorem lineFile_signed : lineFile.length < 2 ^ 63 := by
  decide +kernel

/-- Without a gap both leaves are found. -/
theorem lineFile_complete :
    FindsLeaves (Reader.ofContent lineFile lineFile_signed) lineFile 248 := by
  apply (findsLeaves_iff (Reader.ofContent_returns lineFile_signed) _ _).mpr
  · decide +kernel
  · decide +kernel
  · decide +kernel

end Cdcm.Backend.Pe

import Cdcm.Backend.Pe.PeContext
import Cdcm.Backend.Pe.Mapping

/-!
# Bounded reading of untrusted files

Whatever a file contains and whatever its reader does, `parse` and `discoveryNodesPeres`
dereference only fields that lie inside a range for which `map_chunk` returned true before,
and never a null pointer or a member of a union that was not written.
-/

namespace Cdcm.Backend.Pe

open Hoare

/-! ## Headers -/

section Headers

variable {reader : Reader} {context : PeContext}

theorem optionalHeaderOf_fields {type : Nat} {layout : OptionalHeader}
    (isSome : optionalHeaderOf type = some layout) :
    20 ≤ layout.length ∧ layout.imageBase + layout.imageBaseSize ≤ layout.length ∧
      layout.numberOfRvaAndSizes + 4 ≤ layout.length ∧ layout.length ≤ 112 := by
  unfold optionalHeaderOf at isSome
  split at isSome
  · cases isSome
    decide
  · split at isSome
    · cases isSome
      decide
    · exact absurd isSome (by simp)

theorem optionalHeaderParse_reads {type p : Nat} {layout : OptionalHeader}
    (mapped : Mapped reader context) (isSome : optionalHeaderOf type = some layout)
    (covers : Covers reader.fileSize context.trace p layout.length) :
    Reads reader context (optionalHeaderParse layout p) (fun _ _ => True) := by
  obtain ⟨entrypoint, imagebase, numbers, -⟩ := optionalHeaderOf_fields isSome
  have small := reader.fileSize_lt
  apply Runs.bind (deref_runs mapped (covers.member small numbers))
  intro numDirectories _ mapped grows _
  have covers := covers.mono grows
  apply Runs.bind (deref_runs mapped (covers.member small (by omega)))
  intro _ _ mapped grows _
  have covers := covers.mono grows
  apply Runs.bind (deref_runs mapped (covers.member small imagebase))
  intro _ _ mapped grows _
  apply Runs.bind (modifyPe_runs mapped mapped.directories mapped.sections)
  intro _ _ mapped _ _
  exact Runs.pure mapped trivial

/-- The elements of an array that is mapped are mapped. -/
theorem allocateElements_covers {trace : List Access} {count pointer size : Nat}
    (small : reader.fileSize < 2 ^ 64)
    (covers : Covers reader.fileSize trace pointer (size * count)) :
    ∀ pointers, allocateElements count pointer size = some pointers →
      ∀ element ∈ pointers, Covers reader.fileSize trace element size := by
  intro pointers isSome element member
  unfold allocateElements at isSome
  split at isSome
  · cases isSome
    obtain ⟨i, inside, rfl⟩ := List.mem_map.mp member
    have before : i + 1 ≤ count := List.mem_range.mp inside
    apply covers.member small
    calc i * size + size = size * (i + 1) := by ring
      _ ≤ size * count := Nat.mul_le_mul_left size before
  · exact absurd isSome (by simp)

theorem parseTables_reads {signaturePtr coffHdr optionalHdrPtr numSections numDirectories
    length : Nat} (mapped : Mapped reader context)
    (header : Covers reader.fileSize context.trace coffHdr 20) :
    Reads reader context
      (parseTables signaturePtr coffHdr optionalHdrPtr numSections numDirectories length)
      (fun _ _ => True) := by
  have small := reader.fileSize_lt
  apply Runs.ite
  · exact fun _ => Runs.throw mapped (by simp) trivial
  intro fewDirectories
  apply Runs.ite
  · exact fun _ => Runs.throw mapped (by simp) trivial
  intro fewSections
  have directoriesSize : 8 * numDirectories ≤ 2 ^ 63 := by
    have := not_lt.mp fewDirectories
    simp only [maxDirectories] at this
    omega
  have sectionsSize : 40 * numSections ≤ 2 ^ 63 := by
    have := not_lt.mp fewSections
    simp only [maxSections] at this
    omega
  apply Runs.bind (require_runs mapped (by simp) directoriesSize (fun _ => trivial))
  intro _ _ mapped grows directories
  have header := header.mono grows
  apply Runs.bind (deref_runs mapped (header.member small (by omega)))
  intro _ _ mapped grows _
  have directories := directories.mono grows
  apply Runs.bind (require_runs mapped (by simp) sectionsSize (fun _ => trivial))
  intro _ _ mapped grows sections
  have directories := directories.mono grows
  exact modifyPe_runs mapped (allocateElements_covers small directories)
    (allocateElements_covers small sections)

theorem parseHeaders_reads {signaturePtr : Nat} (mapped : Mapped reader context) :
    Reads reader context (parseHeaders signaturePtr) (fun _ _ => True) := by
  have small := reader.fileSize_lt
  apply Runs.bind (require_runs mapped (by simp) (by omega) (fun _ => trivial))
  intro _ _ mapped _ header
  apply Runs.bind (deref_runs mapped (header.member small (by omega)))
  intro numSections _ mapped grows _
  have header := header.mono grows
  apply Runs.bind (modifyPe_runs mapped mapped.directories mapped.sections)
  intro _ _ mapped grows _
  have header := header.mono grows
  apply Runs.bind (require_runs mapped (by simp) (by omega) (fun _ => trivial))
  intro _ _ mapped grows typeField
  have header := header.mono grows
  apply Runs.bind (deref_runs mapped typeField)
  intro type _ mapped grows _
  have header := header.mono grows
  cases isSome : optionalHeaderOf type with
  | none => exact Runs.throw mapped (by simp) trivial
  | some layout =>
      have fields := optionalHeaderOf_fields isSome
      apply Runs.bind (require_runs mapped (by simp) (by omega) (fun _ => trivial))
      intro _ _ mapped grows optionalHeader
      have header := header.mono grows
      apply Runs.bind (optionalHeaderParse_reads mapped isSome optionalHeader)
      intro numDirectories _ mapped grows _
      exact parseTables_reads mapped (header.mono grows)

theorem parse_reads (mapped : Mapped reader context) :
    Reads reader context parse (fun _ _ => True) := by
  have small := reader.fileSize_lt
  apply Runs.bind (mapChunk_runs mapped (by omega))
  intro isMapped _ mapped _ dosHeader
  apply Runs.ite
  · exact fun _ => Runs.throw mapped (by simp) trivial
  intro isMapped
  have dosHeader := dosHeader.1 (by simpa using isMapped)
  apply Runs.bind (deref_runs mapped (dosHeader.first (by omega)))
  intro magic _ mapped grows _
  have dosHeader := dosHeader.mono grows
  apply Runs.ite
  · exact fun _ => Runs.throw mapped (by simp) trivial
  intro _
  apply Runs.bind (deref_runs mapped (@Covers.member _ _ _ _ dosHeader small 60 4 (by omega)))
  intro lfanew _ mapped _ _
  apply Runs.bind (require_runs mapped (by simp) (by omega) (fun _ => trivial))
  intro _ _ mapped _ signature
  apply Runs.bind (deref_runs mapped signature)
  intro _ _ mapped _ _
  apply Runs.ite
  · exact fun _ => Runs.throw mapped (by simp) trivial
  · exact fun _ => parseHeaders_reads mapped

end Headers

/-! ## Addresses -/

section Addresses

variable {reader : Reader} {context : PeContext}

theorem sectionSizeOf_reads {sectionPtr : Nat} (mapped : Mapped reader context)
    (header : Covers reader.fileSize context.trace sectionPtr 40) :
    Reads reader context (sectionSizeOf sectionPtr) (fun _ _ => True) := by
  have small := reader.fileSize_lt
  apply Runs.bind (deref_runs mapped (header.member small (by omega)))
  intro virtualSize _ mapped grows _
  have header := header.mono grows
  apply Runs.ite
  · exact fun _ => (deref_runs mapped (header.member small (by omega))).ignore
  · exact fun _ => Runs.pure mapped trivial

theorem findSection_reads {rva : Nat} {sections : List Nat} (mapped : Mapped reader context)
    (covers : ∀ pointer ∈ sections, Covers reader.fileSize context.trace pointer 40) :
    Reads reader context (findSection rva sections) (fun _ _ => True) := by
  have small := reader.fileSize_lt
  induction sections generalizing context with
  | nil => exact Runs.pure mapped trivial
  | cons sectionPtr rest ih =>
      have rests := fun pointer member => covers pointer (List.mem_cons_of_mem _ member)
      have header := covers sectionPtr List.mem_cons_self
      apply Runs.bind (sectionSizeOf_reads mapped header)
      intro sectionSize _ mapped grows _
      have rests := fun pointer member => (rests pointer member).mono grows
      have header := header.mono grows
      apply Runs.bind (deref_runs mapped (header.member small (by omega)))
      intro virtualAddress _ mapped grows _
      have rests := fun pointer member => (rests pointer member).mono grows
      have header := header.mono grows
      apply Runs.ite
      · intro _
        apply Runs.bind (deref_runs mapped (header.member small (by omega)))
        intro _ _ mapped _ _
        exact Runs.pure mapped trivial
      · exact fun _ => ih mapped rests

theorem peRva2ofs_reads {rva : Nat} (mapped : Mapped reader context) :
    Reads reader context (peRva2ofs rva) (fun _ _ => True) := by
  have small := reader.fileSize_lt
  apply Runs.bind (get_runs mapped)
  rintro context _ mapped _ ⟨rfl, rfl⟩
  cases isSome : context.pe.sections with
  | none => exact Runs.pure mapped trivial
  | some sections =>
      have covers := mapped.sections sections isSome
      apply Runs.ite
      · exact fun _ => Runs.pure mapped trivial
      intro _
      apply Runs.bind (findSection_reads mapped covers)
      intro found _ mapped grows _
      cases found with
      | some offset => exact Runs.pure mapped trivial
      | none =>
          match sections, covers with
          | [sectionPtr], covers =>
              have header := (covers sectionPtr List.mem_cons_self).mono grows
              apply Runs.bind (deref_runs mapped (header.member small (by omega)))
              intro _ _ mapped grows _
              have header := header.mono grows
              apply Runs.bind (deref_runs mapped (header.member small (by omega)))
              intro _ _ mapped _ _
              exact Runs.pure mapped trivial
          | [], _ => exact Runs.pure mapped trivial
          | _ :: _ :: _, _ => exact Runs.pure mapped trivial

theorem peDirectoryByEntry_mem {pe : PeFile} {entry pointer : Nat}
    (isSome : peDirectoryByEntry pe entry = some pointer) :
    ∃ pointers, pe.directories = some pointers ∧ pointer ∈ pointers := by
  unfold peDirectoryByEntry at isSome
  cases directories : pe.directories with
  | none =>
      rw [directories] at isSome
      cases isSome
  | some pointers =>
      rw [directories] at isSome
      dsimp only at isSome
      split at isSome
      · cases isSome
      · exact ⟨pointers, rfl, List.mem_of_getElem? isSome⟩

end Addresses

/-! ## Nodes -/

/-- The type whose member of the union was written. -/
def Resource.type : Resource → NodeType
  | .resourceDirectory _ => .resourceDirectory
  | .directoryEntry _ => .directoryEntry
  | .dataString _ => .dataString
  | .dataEntry _ => .dataEntry

/-- The structure that a pointer of the union points to is covered. -/
def Resource.Covered (fileSize : Nat) (trace : List Access) : Resource → Prop
  | .resourceDirectory pointer => Covers fileSize trace pointer 16
  | .directoryEntry pointer => Covers fileSize trace pointer 8
  | .dataString pointer => Covers fileSize trace pointer 4
  | .dataEntry pointer => Covers fileSize trace pointer 16

/-- A root is a directory entry among the nodes. -/
def RootKnown (nodes : List Node) (root : Option Nat) : Prop :=
  ∃ position pointer, root = some position ∧
    nodes[position]?.map Node.resource = some (.directoryEntry pointer)

/-- The nodes have the members of the union that belong to their types, and these are
covered; the roots of data entries are known. -/
def NodesCovered (fileSize : Nat) (nodes : List Node) (context : PeContext) : Prop :=
  ∀ node ∈ nodes, node.resource.type = node.nodeType ∧
    node.resource.Covered fileSize context.trace ∧
    (node.nodeType = .dataEntry → RootKnown nodes node.rootNode)

/-- There is a node of a type and a level. -/
def HasNode (nodes : List Node) (type : NodeType) (level : NodeLevel) : Prop :=
  ∃ node ∈ nodes, node.nodeType = type ∧ node.nodeLevel = level

section Nodes

variable {reader : Reader} {context next : PeContext} {nodes later : List Node}

theorem Resource.Covered.mono {resource : Resource} {trace later : List Access}
    (covered : resource.Covered reader.fileSize trace) (grows : trace <+: later) :
    resource.Covered reader.fileSize later := by
  cases resource with
  | resourceDirectory pointer => exact Covers.mono covered grows
  | directoryEntry pointer => exact Covers.mono covered grows
  | dataString pointer => exact Covers.mono covered grows
  | dataEntry pointer => exact Covers.mono covered grows

theorem NodesCovered.mono (covered : NodesCovered reader.fileSize nodes context)
    (grows : context.trace <+: next.trace) : NodesCovered reader.fileSize nodes next := by
  intro node member
  have stands := covered node member
  exact ⟨stands.1, stands.2.1.mono grows, stands.2.2⟩

theorem RootKnown.mono {root : Option Nat} (known : RootKnown nodes root)
    (grows : nodes <+: later) : RootKnown later root := by
  obtain ⟨position, pointer, is, found⟩ := known
  obtain ⟨node, isNode, resource⟩ := Option.map_eq_some_iff.mp found
  obtain ⟨within, _⟩ := List.getElem?_eq_some_iff.mp isNode
  obtain ⟨rest, rfl⟩ := grows
  refine ⟨position, pointer, is, ?_⟩
  rw [List.getElem?_append_left within, isNode, Option.map_some, resource]

theorem NodesCovered.snoc {node : Node} (covered : NodesCovered reader.fileSize nodes context)
    (written : node.resource.type = node.nodeType)
    (last : node.resource.Covered reader.fileSize context.trace)
    (rooted : node.nodeType = .dataEntry → RootKnown nodes node.rootNode) :
    NodesCovered reader.fileSize (nodes ++ [node]) context := by
  have grows := List.prefix_append nodes [node]
  intro other member
  cases List.mem_append.mp member with
  | inl earlier =>
      have stands := covered other earlier
      exact ⟨stands.1, stands.2.1, fun isData => (stands.2.2 isData).mono grows⟩
  | inr same =>
      rw [List.mem_singleton.mp same]
      exact ⟨written, last, fun isData => (rooted isData).mono grows⟩

theorem HasNode.mono {type : NodeType} {level : NodeLevel} (has : HasNode nodes type level)
    (grows : nodes <+: later) : HasNode later type level := by
  obtain ⟨node, member, is⟩ := has
  exact ⟨node, grows.subset member, is⟩

theorem HasNode.last {node : Node} : HasNode (nodes ++ [node]) node.nodeType node.nodeLevel :=
  ⟨node, by simp, rfl, rfl⟩

/-- The search from the last node on finds a node when there is one. -/
theorem lastNode_reads {type : NodeType} {level : NodeLevel} (mapped : Mapped reader context)
    (covered : NodesCovered reader.fileSize nodes context) (has : HasNode nodes type level) :
    Reads reader context (lastNode nodes type level) (fun node next =>
      node.resource.type = type ∧ node.resource.Covered reader.fileSize next.trace) := by
  unfold lastNode
  cases found : lastNodeByTypeAndLevel nodes type level with
  | none =>
      obtain ⟨node, member, is⟩ := has
      have differs := List.find?_eq_none.mp found node (List.mem_reverse.mpr member)
      exact absurd (decide_eq_true is) differs
  | some node =>
      have member := List.mem_reverse.mp (List.mem_of_find?_eq_some found)
      have holds := List.find?_some found
      have is : node.nodeType = type ∧ node.nodeLevel = level := of_decide_eq_true holds
      have stands := covered node member
      exact Runs.pure mapped ⟨stands.1.trans is.1, stands.2.1⟩

theorem lastDirectory_reads {level : NodeLevel} (mapped : Mapped reader context)
    (covered : NodesCovered reader.fileSize nodes context)
    (has : HasNode nodes .resourceDirectory level) :
    Reads reader context (lastDirectory nodes level)
      (fun pointer next => Covers reader.fileSize next.trace pointer 16) := by
  apply Runs.bind (lastNode_reads mapped covered has)
  intro node _ mapped _ stands
  unfold resourceDirectory
  cases resource : node.resource with
  | resourceDirectory pointer =>
      rw [resource] at stands
      exact Runs.pure mapped stands.2
  | directoryEntry pointer | dataString pointer | dataEntry pointer =>
      rw [resource] at stands
      cases stands.1

theorem lastEntry_reads {level : NodeLevel} (mapped : Mapped reader context)
    (covered : NodesCovered reader.fileSize nodes context)
    (has : HasNode nodes .directoryEntry level) :
    Reads reader context (lastEntry nodes level)
      (fun pointer next => Covers reader.fileSize next.trace pointer 8) := by
  apply Runs.bind (lastNode_reads mapped covered has)
  intro node _ mapped _ stands
  unfold directoryEntry
  cases resource : node.resource with
  | directoryEntry pointer =>
      rw [resource] at stands
      exact Runs.pure mapped stands.2
  | resourceDirectory pointer | dataString pointer | dataEntry pointer =>
      rw [resource] at stands
      cases stands.1

theorem entryCount_reads {level : NodeLevel} (mapped : Mapped reader context)
    (covered : NodesCovered reader.fileSize nodes context)
    (has : HasNode nodes .resourceDirectory level) :
    Reads reader context (entryCount nodes level) (fun _ next =>
      NodesCovered reader.fileSize nodes next) := by
  have small := reader.fileSize_lt
  apply Runs.bind (lastDirectory_reads mapped covered has)
  intro _ _ mapped grows directory
  have covered := covered.mono grows
  apply Runs.bind (deref_runs mapped (directory.member small (by omega)))
  intro _ _ mapped grows _
  have covered := covered.mono grows
  apply Runs.bind (lastDirectory_reads mapped covered has)
  intro _ _ mapped grows directory
  have covered := covered.mono grows
  apply Runs.bind (deref_runs mapped (directory.member small (by omega)))
  intro _ _ mapped grows _
  exact Runs.pure mapped (covered.mono grows)

/-- The second half of the last entry of a level is read. -/
theorem directoryData_reads {α : Type} {level : NodeLevel} {result : Nat → α}
    (mapped : Mapped reader context) (covered : NodesCovered reader.fileSize nodes context)
    (has : HasNode nodes .directoryEntry level) :
    Reads reader context (do
      let directoryData ← deref (ptrAdd (← lastEntry nodes level) 4) 4
      return result directoryData) (fun _ next => NodesCovered reader.fileSize nodes next) := by
  have small := reader.fileSize_lt
  apply Runs.bind (lastEntry_reads mapped covered has)
  intro _ _ mapped grows entry
  have covered := covered.mono grows
  apply Runs.bind (deref_runs mapped (entry.member small (by omega)))
  intro _ _ mapped grows _
  exact Runs.pure mapped (covered.mono grows)

theorem offsetToDirectory_reads {level : NodeLevel} (mapped : Mapped reader context)
    (covered : NodesCovered reader.fileSize nodes context)
    (has : HasNode nodes .directoryEntry level) :
    Reads reader context (offsetToDirectory nodes level) (fun _ next =>
      NodesCovered reader.fileSize nodes next) :=
  directoryData_reads mapped covered has

theorem dataIsDirectory_reads {level : NodeLevel} (mapped : Mapped reader context)
    (covered : NodesCovered reader.fileSize nodes context)
    (has : HasNode nodes .directoryEntry level) :
    Reads reader context (dataIsDirectory nodes level) (fun _ next =>
      NodesCovered reader.fileSize nodes next) :=
  directoryData_reads mapped covered has

end Nodes

/-! ## Discovery -/

/-- The nodes of a loop: those from before it, and all covered. -/
def Discovered (fileSize : Nat) (start nodes : List Node) (context : PeContext) : Prop :=
  start <+: nodes ∧ NodesCovered fileSize nodes context

section Discovery

variable {reader : Reader} {resourceDirOffset : Nat} {context next : PeContext}
  {start nodes later : List Node} {root : Option Nat}

theorem Discovered.trans (first : Discovered reader.fileSize start nodes context)
    (second : Discovered reader.fileSize nodes later next) :
    Discovered reader.fileSize start later next :=
  ⟨first.1.trans second.1, second.2⟩

theorem NodesCovered.discovered (covered : NodesCovered reader.fileSize nodes context)
    (grows : context.trace <+: next.trace) (node : Node)
    (written : node.resource.type = node.nodeType)
    (last : node.resource.Covered reader.fileSize next.trace)
    (rooted : node.nodeType = .dataEntry → RootKnown nodes node.rootNode) :
    Discovered reader.fileSize nodes (nodes ++ [node]) next :=
  ⟨List.prefix_append nodes [node], (covered.mono grows).snoc written last rooted⟩

theorem addEntry_reads {level : NodeLevel} {offset : Nat} (mapped : Mapped reader context)
    (covered : NodesCovered reader.fileSize nodes context) :
    Reads reader context (addEntry resourceDirOffset level root nodes offset)
      (fun result next => Discovered reader.fileSize nodes result.1 next ∧
        HasNode result.1 .directoryEntry level ∧ RootKnown result.1 (some nodes.length)) := by
  apply Runs.bind (require_runs mapped (by simp) (by omega) (fun _ => trivial))
  intro _ _ mapped grows entry
  have discovered := covered.discovered grows
    ⟨.directoryEntry, level, .directoryEntry offset, root⟩ rfl entry nofun
  have has : HasNode (nodes ++ [⟨.directoryEntry, level, .directoryEntry offset, root⟩])
    .directoryEntry level := HasNode.last
  have known : RootKnown (nodes ++ [⟨.directoryEntry, level, .directoryEntry offset, root⟩])
      (some nodes.length) := ⟨nodes.length, offset, rfl, by simp⟩
  apply Runs.bind (deref_runs mapped (entry.first (by omega)))
  intro _ _ mapped grows _
  have covered := discovered.2.mono grows
  have entry := entry.mono grows
  apply Runs.ite
  · intro _
    apply Runs.bind (deref_runs mapped (entry.first (by omega)))
    intro nameOffset _ mapped grows _
    have covered := covered.mono grows
    apply Runs.bind (require_runs mapped (by simp) (by omega) (fun _ => trivial))
    intro _ _ mapped grows name
    have withName := covered.discovered grows ⟨.dataString, level,
      .dataString (ptrAdd resourceDirOffset (nameOffset % 2 ^ 31)), root⟩ rfl name nofun
    exact Runs.pure mapped ⟨discovered.trans withName, has.mono withName.1,
      known.mono withName.1⟩
  · intro _
    exact Runs.pure mapped ⟨⟨discovered.1, covered⟩, has, known⟩

theorem addDirectory_reads {level : NodeLevel} {offset : Nat}
    (mapped : Mapped reader context) (covered : NodesCovered reader.fileSize nodes context) :
    Reads reader context (addDirectory level root nodes offset)
      (fun result next => Discovered reader.fileSize nodes result next ∧
        HasNode result .resourceDirectory level) := by
  apply Runs.bind (require_runs mapped (by simp) (by omega) (fun _ => trivial))
  intro _ _ mapped grows directory
  have discovered := covered.discovered grows
    ⟨.resourceDirectory, level, .resourceDirectory offset, root⟩ rfl directory nofun
  exact Runs.pure mapped ⟨discovered, HasNode.last⟩

theorem dataEntryOffset_reads {y offset : Nat} (mapped : Mapped reader context)
    (covered : NodesCovered reader.fileSize nodes context)
    (has : HasNode nodes .directoryEntry .level3) :
    Reads reader context (dataEntryOffset resourceDirOffset y nodes offset)
      (fun _ next => NodesCovered reader.fileSize nodes next) := by
  apply Runs.ite
  · intro _
    apply Runs.bind (offsetToDirectory_reads mapped covered has)
    intro _ _ mapped _ covered
    exact Runs.pure mapped covered
  · exact fun _ => Runs.pure mapped covered

theorem level3Turn_reads {y : Nat} {locals : List Node × Nat}
    (mapped : Mapped reader context) (known : RootKnown locals.1 root)
    (covered : NodesCovered reader.fileSize locals.1 context) :
    Reads reader context (level3Turn resourceDirOffset root y locals)
      (fun result next => Discovered reader.fileSize locals.1 result.1 next) := by
  apply Runs.bind (addEntry_reads mapped covered)
  intro ⟨nodes, offset⟩ _ mapped _ ⟨discovered, has, _⟩
  apply Runs.bind (dataEntryOffset_reads mapped discovered.2 has)
  intro offset _ mapped _ covered
  apply Runs.bind (require_runs mapped (by simp) (by omega) (fun _ => trivial))
  intro _ _ mapped grows data
  have withData := covered.discovered grows
    ⟨.dataEntry, .level3, .dataEntry offset, root⟩ rfl data
    (fun _ => known.mono discovered.1)
  exact Runs.pure mapped (discovered.trans withData)

/-- The loop over the entries of the last directory of a level. -/
theorem entries_reads {level : NodeLevel} {body : Nat → List Node × Nat →
      Method (List Node × Nat)} {turns first offset : Nat}
    (mapped : Mapped reader context) (covered : NodesCovered reader.fileSize nodes context)
    (has : HasNode nodes .resourceDirectory level)
    (turn : ∀ index locals next, Mapped reader next →
      Discovered reader.fileSize nodes locals.1 next →
      Reads reader next (body index locals)
        (fun result after => Discovered reader.fileSize locals.1 result.1 after)) :
    Reads reader context
      (forUpTo (fun locals => entryCount locals.1 level) body turns first (nodes, offset))
      (fun result next => Discovered reader.fileSize nodes result.1 next) := by
  apply Runs.forUpTo
    (fun (locals : List Node × Nat) next => Discovered reader.fileSize nodes locals.1 next) mapped
  · intro locals next mapped _ discovered
    apply Runs.consequence (entryCount_reads mapped discovered.2 (has.mono discovered.1))
    · intro _ _ _ covered
      exact ⟨discovered.1, covered⟩
    · exact fun _ stopped => stopped
  · intro index locals next mapped _ discovered
    apply Runs.consequence (turn index locals next mapped discovered)
    · intro _ _ _ more
      exact discovered.trans more
    · exact fun _ stopped => stopped
  · exact ⟨List.prefix_rfl, covered⟩

theorem level2Turn_reads {j : Nat} {locals : List Node × Nat}
    (mapped : Mapped reader context) (known : RootKnown locals.1 root)
    (covered : NodesCovered reader.fileSize locals.1 context)
    (has : HasNode locals.1 .directoryEntry .level1) :
    Reads reader context (level2Turn resourceDirOffset root j locals)
      (fun result next => Discovered reader.fileSize locals.1 result.1 next) := by
  apply Runs.bind (offsetToDirectory_reads mapped covered has)
  intro directory _ mapped _ covered
  apply Runs.bind (addEntry_reads mapped covered)
  intro ⟨nodes, _⟩ _ mapped _ ⟨withEntry, has, _⟩
  apply Runs.bind (offsetToDirectory_reads mapped withEntry.2 has)
  intro offset _ mapped _ covered
  apply Runs.bind (addDirectory_reads mapped covered)
  intro nodes _ mapped _ ⟨withDirectory, has⟩
  have known := (known.mono withEntry.1).mono withDirectory.1
  apply Runs.bind (entries_reads mapped withDirectory.2 has
    (fun y locals next mapped discovered =>
      level3Turn_reads mapped (known.mono discovered.1) discovered.2))
  intro ⟨nodes, _⟩ _ mapped _ withEntries
  exact Runs.pure mapped ⟨(withEntry.1.trans withDirectory.1).trans withEntries.1,
    withEntries.2⟩

theorem level1Turn_reads {i : Nat} {locals : List Node × Nat}
    (mapped : Mapped reader context)
    (covered : NodesCovered reader.fileSize locals.1 context) :
    Reads reader context (level1Turn resourceDirOffset i locals)
      (fun result next => Discovered reader.fileSize locals.1 result.1 next) := by
  apply Runs.bind (addEntry_reads mapped covered)
  intro ⟨nodes, _⟩ _ mapped _ ⟨withEntry, has, known⟩
  apply Runs.bind (dataIsDirectory_reads mapped withEntry.2 has)
  intro isDirectory _ mapped _ covered
  apply Runs.ite
  · intro _
    apply Runs.bind (offsetToDirectory_reads mapped covered has)
    intro offset _ mapped _ covered
    apply Runs.bind (addDirectory_reads mapped covered)
    intro nodes _ mapped _ ⟨withDirectory, hasDirectory⟩
    have has := has.mono withDirectory.1
    have known := known.mono withDirectory.1
    apply Runs.bind (entries_reads mapped withDirectory.2 hasDirectory
      (fun j locals next mapped discovered =>
        level2Turn_reads mapped (known.mono discovered.1) discovered.2
          (has.mono discovered.1)))
    intro ⟨nodes, _⟩ _ mapped _ withEntries
    exact Runs.pure mapped ⟨(withEntry.1.trans withDirectory.1).trans withEntries.1,
      withEntries.2⟩
  · exact fun _ => Runs.pure mapped ⟨withEntry.1, covered⟩

theorem discoverTree_reads (mapped : Mapped reader context) :
    Reads reader context (discoverTree resourceDirOffset)
      (fun nodes next => NodesCovered reader.fileSize nodes next) := by
  have noNodes : NodesCovered reader.fileSize [] context := by
    intro node member
    cases member
  apply Runs.bind (addDirectory_reads mapped noNodes)
  intro nodes _ mapped _ ⟨withDirectory, has⟩
  apply Runs.bind (entries_reads mapped withDirectory.2 has
    (fun i locals next mapped discovered => level1Turn_reads mapped discovered.2))
  intro ⟨nodes, _⟩ _ mapped _ withEntries
  exact Runs.pure mapped withEntries.2

theorem locateResources_reads (mapped : Mapped reader context) :
    Reads reader context locateResources (fun _ _ => True) := by
  have small := reader.fileSize_lt
  apply Runs.bind (get_runs mapped)
  rintro context _ mapped _ ⟨rfl, rfl⟩
  cases isSome : peDirectoryByEntry context.pe 2 with
  | none => exact Runs.throw mapped (by simp) trivial
  | some resourceDirectory =>
      obtain ⟨pointers, directories, member⟩ := peDirectoryByEntry_mem isSome
      have entry := mapped.directories pointers directories resourceDirectory member
      apply Runs.bind (deref_runs mapped (entry.member small (by omega)))
      intro size _ mapped grows _
      have entry := entry.mono grows
      apply Runs.ite
      · exact fun _ => Runs.throw mapped (by simp) trivial
      intro _
      apply Runs.bind (deref_runs mapped (entry.first (by omega)))
      intro virtualAddress _ mapped _ _
      exact peRva2ofs_reads mapped

theorem discoveryNodesPeres_reads (mapped : Mapped reader context) :
    Reads reader context discoveryNodesPeres
      (fun nodes next => NodesCovered reader.fileSize nodes next) := by
  apply Runs.bind (locateResources_reads mapped)
  intro resourceDirOffset _ mapped _ _
  exact discoverTree_reads mapped

end Discovery

/-! ## Bounded reading -/

/-- `parse`, and when it succeeds the discovery of the resources. -/
def parseAndDiscover : Method (List Node) := do
  parse
  discoveryNodesPeres

/-- Where a run ends, and why when it stops. -/
def outcome {α : Type} (program : Method α) (context : PeContext) : Option Stop × PeContext :=
  match program.run context with
  | .ok _ next => (none, next)
  | .error reason next => (some reason, next)

/-- Over an open file, only what is mapped is read. -/
theorem parseAndDiscover_reads (reader : Reader) (isOpen : reader.validateOpen = true) :
    Reads reader (PeContext.new reader) parseAndDiscover
      (fun nodes next => NodesCovered reader.fileSize nodes next) := by
  apply Runs.bind (parse_reads (mapped_new reader isOpen))
  intro _ _ mapped _ _
  exact discoveryNodesPeres_reads mapped

/-- Without an open reader, the size that was never assigned is read before anything is
dereferenced. -/
theorem parseAndDiscover_notOpen :
    Triple (fun context => context.fm.allocatedSize = none ∧ context.trace = [])
      parseAndDiscover (fun _ _ => False)
      (fun reason context => reason = .unassigned ∧ context.trace = []) := by
  have noSize : Triple
      (fun context : PeContext => context.fm.allocatedSize = none ∧ context.trace = [])
      (mapChunk 0 64) (fun _ _ => False)
      (fun reason context => reason = .unassigned ∧ context.trace = []) := by
    intro context ⟨unassigned, noTrace⟩
    rw [mapChunk_run, unassigned]
    exact ⟨rfl, noTrace⟩
  apply Triple.bind (Q := fun _ _ => False)
  · apply Triple.bind noSize
    exact fun _ _ impossible => impossible.elim
  · exact fun _ _ impossible => impossible.elim

/-- Whatever the reader does and the file contains: each field that is dereferenced lies
inside a range of the file that was mapped before, neither a null pointer nor a member of a
union that was not written is ever read, and only without an open file is the file's size
not known. -/
theorem parseAndDiscover_bounded (reader : Reader) :
    FieldsCovered reader.fileSize
        (outcome parseAndDiscover (PeContext.new reader)).2.trace ∧
      (outcome parseAndDiscover (PeContext.new reader)).1 ≠ some .undefined ∧
      ((outcome parseAndDiscover (PeContext.new reader)).1 = some .unassigned ↔
        reader.validateOpen = false) := by
  unfold outcome
  cases isOpen : reader.validateOpen with
  | true =>
      have ran := parseAndDiscover_reads reader isOpen (PeContext.new reader) rfl
      cases result : parseAndDiscover.run (PeContext.new reader) with
      | ok nodes next =>
          rw [result] at ran
          exact ⟨ran.1.fields, by simp⟩
      | error reason next =>
          rw [result] at ran
          obtain ⟨⟨fields, isDefined, assigned⟩, -⟩ := ran
          exact ⟨fields, by simpa using isDefined, by simpa using assigned⟩
  | false =>
      have ran := parseAndDiscover_notOpen (PeContext.new reader)
        ⟨by simp [PeContext.new, FileMapper.new, isOpen], rfl⟩
      cases result : parseAndDiscover.run (PeContext.new reader) with
      | ok nodes next =>
          rw [result] at ran
          exact ran.elim
      | error reason next =>
          rw [result] at ran
          obtain ⟨rfl, noTrace⟩ := ran
          dsimp only
          rw [noTrace]
          exact ⟨FieldsCovered.nil, by simp, by simp⟩

/-! ## Files with some fields -/

/-- Bytes of a number, least significant first. -/
def bytesOf : Nat → Nat → ByteString
  | 0, _ => []
  | size + 1, value => Fin.ofNat 256 value :: bytesOf size (value / 256)

/-- The rest of a file of zeros in which some fields are set, from a position on: offset,
size and value of each, in order. -/
def fieldsFrom (length : Nat) : Nat → List (Nat × Nat × Nat) → ByteString
  | position, [] => List.replicate (length - position) 0
  | position, (offset, size, value) :: rest =>
      List.replicate (offset - position) 0 ++
        (bytesOf size value ++ fieldsFrom length (offset + size) rest)

/-- A file of zeros in which some fields are set. -/
def fileOf (length : Nat) (fields : List (Nat × Nat × Nat)) : ByteString :=
  fieldsFrom length 0 fields

/-- The headers of a file with one section, whose directory at level 1 is at 248. -/
def sampleHeaders : List (Nat × Nat × Nat) :=
  [(0, 2, magicMz), (60, 4, 64), (64, 4, signaturePe), (70, 2, 1), (84, 2, 120),
    (88, 2, magicPe32), (180, 4, 3), (200, 4, 248), (204, 4, 1),
    (216, 4, 1000), (220, 4, 248), (224, 4, 1000), (228, 4, 248)]

end Cdcm.Backend.Pe

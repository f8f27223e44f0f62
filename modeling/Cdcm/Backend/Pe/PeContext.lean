import Cdcm.Backend.Pe.FileMapper

/-!
# Parsing of PE files

The methods `parse` and `discoveryNodesPeres` of the class `pe_context`.  Structures of
the file are read field by field, at the offsets of the packed layouts; the nodes of the
resource tree are a list whose last element is the current one.  Allocations succeed.
-/

namespace Cdcm.Backend.Pe

open Hoare

/-! ## Headers -/

/-- Error codes of `parse`. -/
def libpeEAllocationFailure : Int := -23
def libpeENotAPeFile : Int := -18
def libpeEInvalidLfanew : Int := -17
def libpeEMissingCoffHeader : Int := -16
def libpeEMissingOptionalHeader : Int := -15
def libpeEInvalidSignature : Int := -14
def libpeEUnsupportedImage : Int := -13
def libpeETooManyDirectories : Int := -9
def libpeETooManySections : Int := -8

def magicMz : Nat := 0x5a4d
def signatureNe : Nat := 0x454E
def signaturePe : Nat := 0x4550
def magicPe32 : Nat := 0x10b
def magicPe64 : Nat := 0x20b
def maxDirectories : Nat := 16
def maxSections : Nat := 96

/-- A layout of the optional header: its size, and where the fields are. -/
structure OptionalHeader where
  length : Nat
  imageBase : Nat
  imageBaseSize : Nat
  numberOfRvaAndSizes : Nat

/-- `IMAGE_OPTIONAL_HEADER_32`. -/
def imageOptionalHeader32 : OptionalHeader := ⟨96, 28, 4, 92⟩

/-- `IMAGE_OPTIONAL_HEADER_64`. -/
def imageOptionalHeader64 : OptionalHeader := ⟨112, 24, 8, 108⟩

/-- The layout that belongs to a type. -/
def optionalHeaderOf (type : Nat) : Option OptionalHeader :=
  if type = magicPe32 then some imageOptionalHeader32
  else if type = magicPe64 then some imageOptionalHeader64
  else none

/-- `optional_header_parse`. -/
def optionalHeaderParse (layout : OptionalHeader) (p : Nat) : Method Nat := do
  let numDirectories ← deref (ptrAdd p layout.numberOfRvaAndSizes) 4
  let entrypoint ← deref (ptrAdd p 16) 4
  let imagebase ← deref (ptrAdd p layout.imageBase) layout.imageBaseSize
  modifyPe fun pe => { pe with
    numDirectories := numDirectories, entrypoint := entrypoint, imagebase := imagebase }
  return numDirectories

/-- `allocate_elements`: pointers to consecutive elements. -/
def allocateElements (count pointer size : Nat) : Option (List Nat) :=
  if 0 < count then some ((List.range count).map fun i => ptrAdd pointer (i * size))
  else none

/-- The part of `parse` behind the optional header. -/
def parseTables (signaturePtr coffHdr optionalHdrPtr numSections numDirectories length : Nat) :
    Method Unit := do
  if numDirectories > maxDirectories then throw (.returned libpeETooManyDirectories)
  else if numSections > maxSections then throw (.returned libpeETooManySections)
  else do
    let directoriesPtr := ptrAdd optionalHdrPtr length
    require (.returned libpeEAllocationFailure) directoriesPtr (8 * numDirectories)
    let sizeOfOptionalHeader ← deref (ptrAdd coffHdr 16) 2
    let sectionsPtr := ptrAdd signaturePtr (4 + 20 + sizeOfOptionalHeader)
    require (.returned libpeEAllocationFailure) sectionsPtr (40 * numSections)
    modifyPe fun pe => { pe with
      directories := allocateElements numDirectories directoriesPtr 8
      sections := allocateElements numSections sectionsPtr 40 }

/-- The part of `parse` behind the signature. -/
def parseHeaders (signaturePtr : Nat) : Method Unit := do
  let coffHdr := ptrAdd signaturePtr 4
  require (.returned libpeEMissingCoffHeader) coffHdr 20
  let numSections ← deref (ptrAdd coffHdr 2) 2
  modifyPe fun pe => { pe with numSections := numSections }
  let optionalHdrPtr := ptrAdd coffHdr 20
  require (.returned libpeEMissingOptionalHeader) optionalHdrPtr 2
  let type ← deref optionalHdrPtr 2
  match optionalHeaderOf type with
  | none => throw (.returned libpeEUnsupportedImage)
  | some layout => do
      require (.returned libpeEMissingOptionalHeader) optionalHdrPtr layout.length
      let numDirectories ← optionalHeaderParse layout optionalHdrPtr
      parseTables signaturePtr coffHdr optionalHdrPtr numSections numDirectories layout.length

/-- `parse`. -/
def parse : Method Unit := do
  let isMapped ← mapChunk 0 64
  if !isMapped then throw (.returned (-1))
  else do
    let magic ← deref 0 2
    if magic ≠ magicMz then throw (.returned libpeENotAPeFile)
    else do
      let lfanew ← deref 60 4
      let signaturePtr := ptrAdd 0 lfanew
      require (.returned libpeEInvalidLfanew) signaturePtr 4
      let signature ← deref signaturePtr 4
      if signature ≠ signatureNe ∧ signature ≠ signaturePe then
        throw (.returned libpeEInvalidSignature)
      else parseHeaders signaturePtr

/-! ## Addresses -/

/-- `section_size`: the size of the raw data where the virtual size is 0. -/
def sectionSizeOf (sectionPtr : Nat) : Method Nat := do
  let virtualSize ← deref (ptrAdd sectionPtr 8) 4
  if virtualSize = 0 then deref (ptrAdd sectionPtr 16) 4 else return virtualSize

/-- The loop of `pe_rva2ofs` over the sections. -/
def findSection (rva : Nat) : List Nat → Method (Option Nat)
  | [] => return none
  | sectionPtr :: rest => do
      let sectionSize ← sectionSizeOf sectionPtr
      let virtualAddress ← deref (ptrAdd sectionPtr 12) 4
      if virtualAddress ≤ rva ∧ rva < virtualAddress + sectionSize then do
        let pointerToRawData ← deref (ptrAdd sectionPtr 20) 4
        return some (rva - virtualAddress + pointerToRawData)
      else findSection rva rest

/-- `pe_rva2ofs`. -/
def peRva2ofs (rva : Nat) : Method Nat := do
  let context ← get
  match context.pe.sections with
  | none => return 0
  | some sections =>
      if rva = 0 then return 0
      else do
        match ← findSection rva sections with
        | some offset => return offset
        | none =>
            match sections with
            | [sectionPtr] => do
                let virtualAddress ← deref (ptrAdd sectionPtr 12) 4
                let pointerToRawData ← deref (ptrAdd sectionPtr 20) 4
                return ptrAdd ((rva + 2 ^ 64 - virtualAddress) % 2 ^ 64) pointerToRawData
            | _ => return rva

/-- `pe_directory_by_entry`, with a null pointer as `none`. -/
def peDirectoryByEntry (pe : PeFile) (entry : Nat) : Option Nat :=
  match pe.directories with
  | none => none
  | some directories =>
      if entry > (pe.numDirectories + 2 ^ 32 - 1) % 2 ^ 32 then none else directories[entry]?

/-! ## Nodes of the resource tree -/

/-- `NODE_TYPE_PERES`. -/
inductive NodeType where
  | resourceDirectory
  | directoryEntry
  | dataString
  | dataEntry
  deriving DecidableEq, Repr

/-- `NODE_LEVEL_PERES`. -/
inductive NodeLevel where
  | level1
  | level2
  | level3
  deriving DecidableEq, Repr

/-- The union of a node: the member that was written, with its pointer. -/
inductive Resource where
  | resourceDirectory (pointer : Nat)
  | directoryEntry (pointer : Nat)
  | dataString (pointer : Nat)
  | dataEntry (pointer : Nat)
  deriving DecidableEq, Repr

/-- `NODE_PERES`. The position of a node in the list stands for its address. -/
structure Node where
  nodeType : NodeType
  nodeLevel : NodeLevel
  resource : Resource
  rootNode : Option Nat
  deriving DecidableEq, Repr

/-- `lastNodeByTypeAndLevel`, from the last node on. -/
def lastNodeByTypeAndLevel (nodes : List Node) (type : NodeType) (level : NodeLevel) :
    Option Node :=
  nodes.reverse.find? fun node => node.nodeType = type ∧ node.nodeLevel = level

/-- `node->resource.resourceDirectory`; reading another member than the one that was
written is undefined. -/
def resourceDirectory (node : Node) : Method Nat :=
  match node.resource with
  | .resourceDirectory pointer => return pointer
  | _ => throw .undefined

/-- `node->resource.directoryEntry`. -/
def directoryEntry (node : Node) : Method Nat :=
  match node.resource with
  | .directoryEntry pointer => return pointer
  | _ => throw .undefined

/-- `lastNodeByTypeAndLevel` where it is dereferenced. -/
def lastNode (nodes : List Node) (type : NodeType) (level : NodeLevel) : Method Node :=
  match lastNodeByTypeAndLevel nodes type level with
  | some node => return node
  | none => throw .undefined

/-- The pointer to the last directory of a level. -/
def lastDirectory (nodes : List Node) (level : NodeLevel) : Method Nat := do
  resourceDirectory (← lastNode nodes .resourceDirectory level)

/-- The pointer to the last directory entry of a level. -/
def lastEntry (nodes : List Node) (level : NodeLevel) : Method Nat := do
  directoryEntry (← lastNode nodes .directoryEntry level)

/-- The number of entries of the last directory of a level, as the loops compute it. -/
def entryCount (nodes : List Node) (level : NodeLevel) : Method Nat := do
  let numberOfNamedEntries ← deref (ptrAdd (← lastDirectory nodes level) 12) 2
  let numberOfIdEntries ← deref (ptrAdd (← lastDirectory nodes level) 14) 2
  return numberOfNamedEntries + numberOfIdEntries

/-- `OffsetToDirectory` of the last entry of a level. -/
def offsetToDirectory (nodes : List Node) (level : NodeLevel) : Method Nat := do
  let directoryData ← deref (ptrAdd (← lastEntry nodes level) 4) 4
  return directoryData % 2 ^ 31

/-- `DataIsDirectory` of the last entry of a level. -/
def dataIsDirectory (nodes : List Node) (level : NodeLevel) : Method Bool := do
  let directoryData ← deref (ptrAdd (← lastEntry nodes level) 4) 4
  return directoryData / 2 ^ 31 = 1

section Discovery

variable (resourceDirOffset : Nat)

/-- Create the node of a directory entry and, when its name is a string, the node of the
string. The offset is the one that was mapped last. -/
def addEntry (level : NodeLevel) (root : Option Nat) (nodes : List Node) (offset : Nat) :
    Method (List Node × Nat) := do
  require .null offset 8
  let nodes := nodes ++ [⟨.directoryEntry, level, .directoryEntry offset, root⟩]
  let nameIsString ← deref offset 4
  if nameIsString / 2 ^ 31 = 1 then do
    let nameOffset ← deref offset 4
    let offset := ptrAdd resourceDirOffset (nameOffset % 2 ^ 31)
    require .null offset 4
    return (nodes ++ [⟨.dataString, level, .dataString offset, root⟩], offset)
  else return (nodes, offset)

/-- Create the node of a directory. -/
def addDirectory (level : NodeLevel) (root : Option Nat) (nodes : List Node) (offset : Nat) :
    Method (List Node) := do
  require .null offset 16
  return nodes ++ [⟨.resourceDirectory, level, .resourceDirectory offset, root⟩]

/-- How far the entry of a turn is behind the one of the turn before, or the first entry
behind the start of the directory. -/
def entryStride (index : Nat) : Nat := if index = 1 then 16 else 8

/-- No directory has more entries than two 16-bit numbers add up to, and the loop that
finds no more of them takes one turn more. -/
def entryTurns : Nat := 2 * 65535 + 1

/-- `offset` in front of the data entry of a turn: only the first turn takes it from the
directory entry. -/
def dataEntryOffset (y : Nat) (nodes : List Node) (offset : Nat) : Method Nat :=
  if y = 1 then do return ptrAdd resourceDirOffset (← offsetToDirectory nodes .level3)
  else return offset

/-- A turn of the loop over the entries of a directory at level 3. The variable `offset`
is the position of the entry, of its name and of its data. -/
def level3Turn (root : Option Nat) (y : Nat) (locals : List Node × Nat) :
    Method (List Node × Nat) := do
  let (nodes, offset) ← addEntry resourceDirOffset .level3 root locals.1 locals.2
  let offset ← dataEntryOffset resourceDirOffset y nodes offset
  require .null offset 16
  return (nodes ++ [⟨.dataEntry, .level3, .dataEntry offset, root⟩], ptrAdd offset 16)

/-- A turn of the loop over the entries of a directory at level 2. -/
def level2Turn (root : Option Nat) (j : Nat) (locals : List Node × Nat) :
    Method (List Node × Nat) := do
  let offsetDirectory2 := locals.2 + entryStride j
  let directory ← offsetToDirectory locals.1 .level1
  let (nodes, _) ← addEntry resourceDirOffset .level2 root locals.1
    (ptrAdd (ptrAdd resourceDirOffset directory) offsetDirectory2)
  let offset := ptrAdd resourceDirOffset (← offsetToDirectory nodes .level2)
  let nodes ← addDirectory .level3 root nodes offset
  let (nodes, _) ← forUpTo (fun locals => entryCount locals.1 .level3)
    (level3Turn resourceDirOffset root) entryTurns 1 (nodes, ptrAdd offset 16)
  return (nodes, offsetDirectory2)

/-- A turn of the loop over the entries of the directory at level 1. -/
def level1Turn (i : Nat) (locals : List Node × Nat) : Method (List Node × Nat) := do
  let offsetDirectory1 := locals.2 + entryStride i
  let root := some locals.1.length
  let (nodes, _) ← addEntry resourceDirOffset .level1 root locals.1
    (ptrAdd resourceDirOffset offsetDirectory1)
  if ← dataIsDirectory nodes .level1 then do
    let offset := ptrAdd resourceDirOffset (← offsetToDirectory nodes .level1)
    let nodes ← addDirectory .level2 root nodes offset
    let (nodes, _) ← forUpTo (fun locals => entryCount locals.1 .level2)
      (level2Turn resourceDirOffset root) entryTurns 1 (nodes, 0)
    return (nodes, offsetDirectory1)
  else return (nodes, offsetDirectory1)

/-- The nodes below a directory at level 1. -/
def discoverTree : Method (List Node) := do
  let nodes ← addDirectory .level1 none [] resourceDirOffset
  let (nodes, _) ← forUpTo (fun locals => entryCount locals.1 .level1)
    (level1Turn resourceDirOffset) entryTurns 1 (nodes, 0)
  return nodes

end Discovery

/-- `resourceDirOffset`: where the directory at level 1 is; a null pointer stops with
`null`. -/
def locateResources : Method Nat := do
  let context ← get
  match peDirectoryByEntry context.pe 2 with
  | none => throw .null
  | some resourceDirectory => do
      let size ← deref (ptrAdd resourceDirectory 4) 4
      if size = 0 then throw .null
      else do
        let virtualAddress ← deref resourceDirectory 4
        peRva2ofs virtualAddress

/-- `discoveryNodesPeres`. -/
def discoveryNodesPeres : Method (List Node) := do
  let resourceDirOffset ← locateResources
  discoverTree resourceDirOffset

end Cdcm.Backend.Pe

import Cdcm.Backend.Pe.BoundedReading

/-!
# Version information

The method `extract_info` of the class `pe_context`: it looks for the version resource, maps
its data entry, and walks over the strings in it.  Loops that read on are given as many
turns as the buffer has bytes.
-/

namespace Cdcm.Backend.Pe

/-- `std::u16string`. -/
abbrev U16String := List Nat

instance u16StringLawfulBEq : LawfulBEq U16String := inferInstance

/-- A text of the source in UTF-16. -/
def utf16 (characters : String) : U16String :=
  characters.toList.map Char.toNat

/-- `std::map<std::u16string, std::u16string>`, as the list of its entries. -/
abbrev U16Map := List (U16String × U16String)

/-- `ret[k] = v`. -/
def U16Map.assign (ret : U16Map) (k v : U16String) : U16Map :=
  (k, v) :: ret.filter fun entry => entry.1 ≠ k

/-- `ptr_dec`. -/
def ptrDec (p o : Nat) : Nat := (p + 2 ^ 64 - o) % 2 ^ 64

/-- `calculate_padding`, also for a pointer in front of the data. -/
def calculatePadding (p : Nat) : Nat := (4 - p % 4) % 4

/-- A pointer is padded to a multiple of four. -/
def align (p : Nat) : Nat := ptrAdd p (calculatePadding p)

def rtVersion : Nat := 16
def headerSize : Nat := 32
def sizeofVsFixedfileinfo : Nat := 52
def sizeofVersionInfoHeader : Nat := 6
def stringFileVersionLen : Nat := 28
def stringTableKeyLen : Nat := 16

/-- The turns that a loop over the buffer may make. -/
def bufferTurns : Method Nat := do
  let context ← get
  return context.fm.data.length + 1

/-! ## The version resource -/

/-- The loop over the nodes: the first data entry whose root is the version resource. -/
def findVersion (nodes : List Node) : List Node → Method (Option Nat)
  | [] => return none
  | node :: rest =>
      match node.resource with
      | .dataEntry dataEntry => do
          match node.rootNode.bind (nodes[·]?) with
          | none => throw .undefined
          | some root => do
              let entry ← directoryEntry root
              let nameOffset ← deref entry 4
              if nameOffset % 2 ^ 31 = rtVersion then return some dataEntry
              else findVersion nodes rest
      | .resourceDirectory _ | .directoryEntry _ | .dataString _ => findVersion nodes rest

/-- The part of `extract_info` that maps the version resource: its position and its size. -/
def mapVersion : Method (Option (Nat × Nat)) := do
  let nodes ← discoveryNodesPeres
  match ← findVersion nodes nodes with
  | none => return none
  | some dataEntry => do
      let offsetToData ← deref dataEntry 4
      let offsetData ← peRva2ofs offsetToData
      let dataEntrySize ← deref (ptrAdd dataEntry 4) 4
      let buffer := ptrAdd 0 offsetData
      let isMapped ← mapChunkByPointer buffer dataEntrySize
      if isMapped then return some (buffer, dataEntrySize) else return none

/-! ## The strings -/

/-- Read UTF-16 units up to a zero. -/
def readUnits : Nat → Nat → Method U16String
  | 0, _ => throw .endless
  | turns + 1, p => do
      let unit ← deref p 2
      if unit = 0 then return []
      else do
        let rest ← readUnits turns (ptrAdd p 2)
        return unit :: rest

/-- `std::u16string(p)`. -/
def readString (p : Nat) : Method U16String := do
  let turns ← bufferTurns
  readUnits turns p

/-- How far the next child is. -/
def childStep (wLength : Nat) : Nat := if wLength = 0 then 2 else wLength

/-- The scan for the child with the key `StringFileInfo`. -/
def findStringFileInfo : Nat → Nat → Method Nat
  | 0, _ => throw .endless
  | turns + 1, vih => do
      let key ← readString (ptrAdd vih sizeofVersionInfoHeader)
      if key = utf16 "StringFileInfo" then return vih
      else do
        let wLength ← deref vih 2
        findStringFileInfo turns (ptrAdd vih (childStep wLength))

/-- `vstart`: from the end of the entry backwards. -/
def valueStart (vend wValueLength : Nat) : Nat :=
  let vstart := ptrDec vend (2 * wValueLength)
  ptrDec vstart (calculatePadding vstart)

section Strings

variable (wanted : List U16String)

/-- The value of a string that is wanted is read. -/
def readValue (strVih vend : Nat) (k : U16String) (ret : U16Map) : Method U16Map :=
  if k ∈ wanted then do
    let wValueLength ← deref (ptrAdd strVih 2) 2
    let v ← readString (valueStart vend wValueLength)
    return ret.assign k v
  else return ret

/-- The walk over the strings of the table. -/
def readStrings (bufferEnd : Nat) : Nat → Nat → U16Map → Method U16Map
  | 0, _, _ => throw .endless
  | turns + 1, strVih, ret => do
      let wLength ← deref strVih 2
      let vend := ptrAdd strVih wLength
      if 0 < wLength ∧ vend ≤ bufferEnd then do
        let k ← readString (ptrAdd strVih sizeofVersionInfoHeader)
        let ret ← readValue wanted strVih vend k ret
        readStrings bufferEnd turns (align vend) ret
      else return ret

/-- `%u.%u.%u.%u`. -/
def versionFromFixed (ms ls : Nat) : U16String :=
  utf16 (toString (ms / 2 ^ 16) ++ "." ++ toString (ms % 2 ^ 16) ++ "." ++
    toString (ls / 2 ^ 16) ++ "." ++ toString (ls % 2 ^ 16))

/-- `st_vih` and then `str_vih`: where the strings of the first table are. -/
def firstString (vih : Nat) : Nat :=
  let stVih := align (ptrAdd vih (sizeofVersionInfoHeader + stringFileVersionLen))
  align (ptrAdd stVih (sizeofVersionInfoHeader + stringTableKeyLen))

/-- The part of `extract_info` behind the mapping. -/
def readVersion (buffer dataEntrySize : Nat) : Method U16Map := do
  let buffer := ptrAdd buffer headerSize
  let ms ← deref (ptrAdd buffer 16) 4
  let ls ← deref (ptrAdd buffer 20) 4
  let turns ← bufferTurns
  let vih ← findStringFileInfo turns (ptrAdd buffer (sizeofVsFixedfileinfo + 8))
  let bufferEnd := ptrAdd buffer dataEntrySize
  let ret ← readStrings wanted bufferEnd turns (firstString vih) []
  return ret.assign (utf16 "FileVersion") (versionFromFixed ms ls)

/-- The reading of an entry with its addresses; no addition wraps around. -/
theorem readVersion_eq {offset size : Nat} (bound : offset + size < 2 ^ 63) :
    readVersion wanted offset size = (do
      let ms ← deref (offset + 48) 4
      let ls ← deref (offset + 52) 4
      let turns ← bufferTurns
      let vih ← findStringFileInfo turns (offset + headerSize + (sizeofVsFixedfileinfo + 8))
      let ret ← readStrings wanted (offset + headerSize + size) turns (firstString vih) []
      return ret.assign (utf16 "FileVersion") (versionFromFixed ms ls)) := by
  have header : headerSize = 32 := rfl
  have fixed : sizeofVsFixedfileinfo = 52 := rfl
  have buffer : ptrAdd offset headerSize = offset + headerSize := ptrAdd_eq (by omega)
  have msAt : ptrAdd (offset + headerSize) 16 = offset + 48 := ptrAdd_eq (by omega)
  have lsAt : ptrAdd (offset + headerSize) 20 = offset + 52 := ptrAdd_eq (by omega)
  have childAt : ptrAdd (offset + headerSize) (sizeofVsFixedfileinfo + 8) =
      offset + headerSize + (sizeofVsFixedfileinfo + 8) := ptrAdd_eq (by omega)
  have bufferEnd : ptrAdd (offset + headerSize) size = offset + headerSize + size :=
    ptrAdd_eq (by omega)
  unfold readVersion
  rw [buffer]
  dsimp only
  rw [msAt, lsAt, childAt, bufferEnd]

/-- The keys that `get_file_info` wants. -/
def versionKeys : List U16String :=
  ["CompanyName", "FileDescription", "FileVersion", "ProductName", "ProductVersion"].map utf16

/-- `extract_info`. -/
def extractInfo : Method U16Map := do
  match ← mapVersion with
  | none => return []
  | some (buffer, dataEntrySize) => readVersion wanted buffer dataEntrySize

end Strings

/-- The remainder of a signed distance rounds toward zero; the padding is the same. -/
theorem calculatePadding_signed {p : Nat} (bound : p < 2 ^ 64) :
    (((4 : Int) - (if p < 2 ^ 63 then (p : Int) else p - 2 ^ 64).tmod 4).tmod 4) =
      calculatePadding p := by
  have remainder (n : Int) (positive : 0 ≤ n) : n.tmod 4 = n % 4 :=
    Int.tmod_eq_emod_of_nonneg positive
  unfold calculatePadding
  split
  · rw [remainder p (by omega), remainder _ (by omega)]
    omega
  · have negative : (p : Int) - 2 ^ 64 = -(2 ^ 64 - p) := by omega
    rw [negative, Int.neg_tmod, remainder (2 ^ 64 - p) (by omega), remainder _ (by omega)]
    omega

end Cdcm.Backend.Pe

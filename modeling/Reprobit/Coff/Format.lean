import Reprobit.Foundation
import Reprobit.Machine.Bytes
import Reprobit.Machine.Scan
import Mathlib.Data.List.DropRight

/-!
# The COFF reader

`CoffObject`: the strict reader of classic i386 objects, and the queries on what
it read.  A failed check is a `ByteIdentityError`; the other exceptions Python
raises on the way (a name that is not ASCII, an index past the end of a list, a
missing key, sequences of different length zipped strictly) are errors of their
own.
-/

namespace Reprobit.Coff

open Machine

inductive CoffError where
  | byteIdentity (message : String)
  | unicodeDecode
  | indexError
  | keyError (key : String)
  | valueError
  deriving DecidableEq, Repr

def CoffError.isByteIdentity : CoffError -> Bool
  | .byteIdentity _ => true
  | _ => false

abbrev Reading := Except CoffError

/-- A computation whose only refusals are failed checks. -/
def checked {α : Type} (x : Refusing α) : Reading α := x.mapError .byteIdentity

variable (coff : CoffObject) (s : CoffSection) (data : List Byte) (h : CoffHeader) (raw : List Byte)
  (index : Nat) (symbol : CoffSymbol)

def coffUnpack (offset size : Nat) (context : String) : Refusing (List Byte) := do
  require (offset + size <= data.length) (context ++ " is outside the COFF file")
  pure (slice data offset size)

def field (record : List Byte) (start size : Nat) : Nat := leNat (slice record start size)

def signed16 (n : Nat) : Int := if n < 2 ^ 15 then n else (n : Int) - 2 ^ 16

structure CoffHeader where
  machine : Nat
  sectionCount : Nat
  timestamp : Nat
  symbolOffset : Nat
  symbolCount : Nat
  characteristics : Nat
  stringOffset : Nat
  stringEnd : Nat
  deriving DecidableEq, Repr

def CoffHeader.tableEnd : Nat := 20 + h.sectionCount * 40

def readHeader : Refusing CoffHeader := do
  require (20 <= data.length) "COFF header is truncated"
  let record <- coffUnpack data 0 20 "COFF header"
  let sectionCount := field record 2 2
  let symbolOffset := field record 8 4
  let symbolCount := field record 12 4
  require (field record 0 2 = 0x14C) "only i386 COFF objects are supported"
  require (field record 16 2 = 0) "COFF optional headers are unsupported"
  require (0 < sectionCount ∧ sectionCount < 65536) "COFF section count is invalid"
  require (0 < symbolCount) "COFF object has no symbol table"
  let stringOffset := symbolOffset + symbolCount * 18
  let stringRecord <- coffUnpack data stringOffset 4 "COFF string table"
  let stringSize := field stringRecord 0 4
  require (4 <= stringSize ∧
    stringOffset + stringSize <= data.length) "COFF string table is invalid"
  require (stringOffset + stringSize = data.length)
    "bytes after the COFF string table are unsupported"
  require (20 + sectionCount * 40 <= data.length) "COFF section table is truncated"
  pure
    { machine := field record 0 2
      sectionCount := sectionCount
      timestamp := field record 4 4
      symbolOffset := symbolOffset
      symbolCount := symbolCount
      characteristics := field record 18 2
      stringOffset := stringOffset
      stringEnd := stringOffset + stringSize }

def isAscii : Bool := raw.all fun b => b.toNat < 128

def decodeAscii : Reading String :=
  if isAscii raw then .ok (String.ofList (raw.map fun b => Char.ofNat b.toNat))
  else .error .unicodeDecode

def isDigit (b : Byte) : Bool := 48 <= b.toNat && b.toNat <= 57

def decimal (digits : List Byte) : Nat := digits.foldl (fun n b => n * 10 + (b.toNat - 48)) 0

def stripNuls : List Byte := raw.rdropWhile (· = 0#8)

def stringBytes (relative : Nat) (context : String) : Refusing (List Byte) := do
  require (4 <= relative ∧ relative < h.stringEnd - h.stringOffset)
    (context ++ " string offset is invalid")
  let start := h.stringOffset + relative
  match (slice data start (h.stringEnd - start)).findIdx? (· = 0#8) with
  | none => .error (context ++ " is not NUL-terminated")
  | some length => pure (slice data start length)

def sectionNameBytes : Refusing (List Byte) :=
  if raw.head? = some 47#8 then do
    let digits := stripNuls raw.tail
    require (digits ≠ [] ∧ digits.all isDigit) "long COFF section name is invalid"
    stringBytes data h (decimal digits) "section name"
  else pure (stripNuls raw)

def symbolNameBytes : Refusing (List Byte) :=
  if raw.take 4 = [0#8, 0#8, 0#8, 0#8] then do
    let record <- coffUnpack raw 4 4 "long symbol name"
    stringBytes data h (field record 0 4) "symbol name"
  else pure (stripNuls raw)

def readNamed {α : Type} (nameBytes : Refusing (List Byte)) (fields : String -> Refusing α) :
    Reading α := do
  let raw <- checked nameBytes
  let name <- decodeAscii raw
  checked (fields name)

structure CoffSection where
  number : Nat
  headerOffset : Nat
  name : String
  rawSize : Nat
  rawOffset : Nat
  relocationOffset : Nat
  relocationCount : Nat
  lineOffset : Nat
  lineCount : Nat
  characteristics : Nat
  deriving DecidableEq, Repr

def CoffSection.uninitialised : Bool := s.characteristics.testBit 7

def CoffSection.comdat : Bool := s.characteristics.testBit 12

def sectionFields (name : String) : Refusing CoffSection := do
  let title := "section " ++ toString (index + 1)
  let record <- coffUnpack data (20 + index * 40 + 8) 32 (title ++ " header")
  let s : CoffSection :=
    { number := index + 1
      headerOffset := 20 + index * 40
      name := name
      rawSize := field record 8 4
      rawOffset := field record 12 4
      relocationOffset := field record 16 4
      lineOffset := field record 20 4
      relocationCount := field record 24 2
      lineCount := field record 26 2
      characteristics := field record 28 4 }
  require (s.rawSize ≠ 0 -> s.uninitialised = false ->
      h.tableEnd <= s.rawOffset ∧ s.rawOffset + s.rawSize <= data.length)
    (title ++ " raw data is invalid")
  require (s.rawSize ≠ 0 -> s.uninitialised = true -> s.rawOffset = 0)
    (title ++ " uninitialized raw pointer is invalid")
  require (s.rawSize = 0 -> s.rawOffset = 0 ∨ h.tableEnd <= s.rawOffset)
    (title ++ " empty raw pointer is invalid")
  require (s.relocationCount ≠ 0 -> h.tableEnd <= s.relocationOffset ∧
      s.relocationOffset + s.relocationCount * 10 <= data.length)
    (title ++ " relocation table is invalid")
  require (s.lineCount ≠ 0 -> h.tableEnd <= s.lineOffset ∧
      s.lineOffset + s.lineCount * 6 <= data.length)
    (title ++ " line table is invalid")
  pure s

def sectionNameField : List Byte := slice data (20 + index * 40) 8

def readSection : Reading CoffSection :=
  readNamed (sectionNameBytes data h (sectionNameField data index)) (sectionFields data h index)

def readSections : Reading (List CoffSection) :=
  scan (readSection data h) (fun index _ => index + 1) h.sectionCount h.sectionCount 0

structure CoffSymbol where
  index : Nat
  name : String
  value : Nat
  (section' : Int)
  type : Nat
  storage : Nat
  auxCount : Nat
  deriving DecidableEq, Repr

def symbolFields (name : String) : Refusing CoffSymbol := do
  let record <- coffUnpack data (h.symbolOffset + index * 18 + 8) 10 ("symbol " ++ toString index)
  let symbol : CoffSymbol :=
    { index := index
      name := name
      value := field record 0 4, section' := signed16 (field record 4 2)
      type := field record 6 2
      storage := field record 8 1
      auxCount := field record 9 1 }
  require (index + symbol.auxCount < h.symbolCount)
    ("symbol " ++ toString index ++ " auxiliary records are truncated")
  pure symbol

def symbolNameField : List Byte :=
  slice data (h.symbolOffset + index * 18) 8

def readSymbol : Reading CoffSymbol :=
  readNamed (symbolNameBytes data h (symbolNameField data h index)) (symbolFields data h index)

def nextSymbol : Nat := index + 1 + symbol.auxCount

def readSymbols : Reading (List CoffSymbol) :=
  scan (readSymbol data h) nextSymbol h.symbolCount h.symbolCount 0

structure CoffObject where
  data : List Byte
  header : CoffHeader
  sections : List CoffSection
  symbols : List CoffSymbol
  deriving DecidableEq, Repr

def checkSymbolTable : Refusing Unit :=
  require (h.tableEnd <= h.symbolOffset ∧ h.symbolOffset + h.symbolCount * 18 <= data.length)
    "COFF symbol table is invalid"

def coffObject : Reading CoffObject := do
  let header <- checked (readHeader data)
  let sections <- readSections data header
  checked (checkSymbolTable data header)
  let symbols <- readSymbols data header
  pure ⟨data, header, sections, symbols⟩

/-- The symbol record with a given index; auxiliary records have none. -/
def CoffObject.symbolAt : Option CoffSymbol :=
  coff.symbols.find? fun symbol => symbol.index = index

/-- `sections[number - 1]` for a positive section number. -/
def CoffObject.sectionAt (number : Int) : Reading CoffSection :=
  match coff.sections[(number - 1).toNat]? with
  | some s => .ok s
  | none => .error .indexError

def CoffSymbol.definesFunction : Bool :=
  0 < symbol.section' && symbol.value = 0 && symbol.type = 0x20 &&
    (symbol.storage = 2 || symbol.storage = 3)

def functionSection (mangled : String) : Reading CoffSection := do
  let found := coff.symbols.filter fun symbol => symbol.name = mangled && symbol.definesFunction
  match found with
  | [symbol] => do
    let s <- coff.sectionAt symbol.section'
    checked (require (s.name.toList.take 5 = ".text".toList) (reprText mangled ++ " is not text"))
    checked (require (s.comdat = true) (reprText mangled ++ " is not COMDAT"))
    pure s
  | _ => .error (.byteIdentity ("expected one definition of " ++ reprText mangled ++ ", found " ++
      toString found.length))

def coffBody : List Byte :=
  if s.rawSize = 0 ∨ s.uninitialised = true then [] else slice coff.data s.rawOffset s.rawSize

def coffRelocationTable : List Byte :=
  slice coff.data s.relocationOffset (s.relocationCount * 10)

def coffLineTable : List Byte :=
  slice coff.data s.lineOffset (s.lineCount * 6)

def coffAuxiliary : Reading (List Byte) := do
  checked (require (1 <= symbol.auxCount)
    ("symbol " ++ reprText symbol.name ++ " has no auxiliary"))
  pure (slice coff.data (coff.header.symbolOffset + (symbol.index + 1) * 18) 18)

structure SectionDefinition where
  (section' : Nat)
  symbolIndex : Nat
  raw : List Byte
  length : Nat
  relocations : Nat
  lines : Nat
  checksum : Nat
  associated : Nat
  selection : Nat
  deriving DecidableEq, Repr

def definedSection : Option CoffSection :=
  if 0 < symbol.section' ∧ symbol.section' <= coff.sections.length ∧ symbol.storage = 3 ∧
      1 <= symbol.auxCount then
    (coff.sections[(symbol.section' - 1).toNat]?).filter fun s => symbol.name = s.name
  else none

def sectionDefinition : Reading (Option SectionDefinition) :=
  match definedSection coff symbol with
  | none => .ok none
  | some s => do
    let auxiliary <- coffAuxiliary coff symbol
    match auxiliary[14]? with
    | none => .error .indexError
    | some selection =>
      pure (some
        { section' := s.number
          symbolIndex := symbol.index
          raw := auxiliary
          length := field auxiliary 0 4
          relocations := field auxiliary 4 2
          lines := field auxiliary 6 2
          checksum := field auxiliary 8 4
          associated := field auxiliary 12 2 ||| field auxiliary 16 2 * 2 ^ 16
          selection := selection.toNat })

def sectionDefinitions : Reading (List SectionDefinition) :=
  collect (sectionDefinition coff) coff.symbols

/-- The record kept for a section: a later one replaces an earlier one. -/
def definitionFor (definitions : List SectionDefinition) (number : Nat) :
    Option SectionDefinition :=
  definitions.reverse.find? fun d => d.section' = number

def relocationWidths : Nat -> Option Nat
  | 6 => some 4
  | 7 => some 4
  | 10 => some 2
  | 11 => some 4
  | 20 => some 4
  | _ => none

structure Relocation where
  ordinal : Nat
  offset : Nat
  symbolIndex : Nat
  type : Nat
  width : Nat
  addend : Nat
  target : String
  targetSection : Int
  targetValue : Nat
  targetType : Nat
  targetStorage : Nat
  deriving DecidableEq, Repr

/-- At least four lower-case hexadecimal digits. -/
def hex04 (n : Nat) : String :=
  let digits := Nat.toDigits 16 n
  String.ofList (List.replicate (4 - digits.length) '0' ++ digits)

def readRelocation (ordinal : Nat) : Refusing Relocation := do
  let title := "section " ++ toString s.number ++ " relocation " ++ toString ordinal
  let record <- coffUnpack coff.data (s.relocationOffset + ordinal * 10) 10 title
  let virtualAddress := field record 0 4
  let symbolIndex := field record 4 4
  let relocationType := field record 8 2
  match coff.symbolAt symbolIndex with
  | none => .error (title ++ " references auxiliary data")
  | some target =>
    match relocationWidths relocationType with
    | none => .error ("unsupported i386 relocation 0x" ++ hex04 relocationType)
    | some width => do
      require (virtualAddress + width <= s.rawSize) (title ++ " escapes raw data")
      pure
        { ordinal := ordinal
          offset := virtualAddress
          symbolIndex := symbolIndex
          type := relocationType
          width := width
          addend := leNat (slice coff.data (s.rawOffset + virtualAddress) width)
          target := target.name
          targetSection := target.section'
          targetValue := target.value
          targetType := target.type
          targetStorage := target.storage }

def detailedRelocations : Refusing (List Relocation) :=
  scan (readRelocation coff s) (fun ordinal _ => ordinal + 1) s.relocationCount s.relocationCount 0

def functionName : Reading (Option String) :=
  if symbol.definesFunction then do
    let s <- coff.sectionAt symbol.section'
    pure (if s.name.toList.take 5 = ".text".toList ∧ 0 < s.rawSize then some symbol.name else none)
  else .ok none

def functionMultiset : Reading (List String) :=
  collect (functionName coff) coff.symbols

end Reprobit.Coff

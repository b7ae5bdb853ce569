import Reprobit.Coff.Format
import Mathlib.Data.List.Sort

/-!
# COMDAT groups and relocation renames

The associated sections of a COMDAT section, and the comparison of two relocation
tables that differ only in the serial numbers of compiler-local symbols.
-/

namespace Reprobit.Coff

open Machine

inductive RenameKind where
  | L | T | done | S
  deriving DecidableEq, Repr

/-- `str.isdigit` on ASCII text. -/
def allDigits (text : List Char) : Bool := text ≠ [] && text.all Char.isDigit

/-- Compiler-local COFF symbols without their serial number. -/
def localSymbolKind (name : String) : Option RenameKind :=
  let text := name.toList
  if text.take 2 = ['$', 'L'] ∧ allDigits (text.drop 2) then some .L
  else if text.take 2 = ['$', 'T'] ∧ allDigits (text.drop 2) then some .T
  else if text.take 6 = "$done$".toList ∧ allDigits (text.drop 6) then some .done
  else none

/-- The text before and behind the last `$S`. -/
def rpartitionSerial : List Char -> Option (List Char × List Char)
  | [] => none
  | c :: rest =>
    match rpartitionSerial rest with
    | some (base, serial) => some (c :: base, serial)
    | none => if c = '$' ∧ rest.head? = some 'S' then some ([], rest.tail) else none

/-- Two names of one file-static, up to the serial number. -/
def sameStatic (left right : String) : Bool :=
  match rpartitionSerial left.toList, rpartitionSerial right.toList with
  | some (leftBase, leftSerial), some (rightBase, rightSerial) =>
    leftBase ≠ [] && leftBase = rightBase && allDigits leftSerial && allDigits rightSerial
  | _, _ => false

def staticRename (a b : Relocation) : Bool :=
  sameStatic a.target b.target && a.targetType = b.targetType && a.targetStorage = b.targetStorage

def comdatChildren (coff : CoffObject) (primary : CoffSection) : Reading (List CoffSection) := do
  let definitions <- sectionDefinitions coff
  pure (coff.sections.filter fun s =>
    match definitionFor definitions s.number with
    | some d => d.selection = 5 && d.associated = primary.number
    | none => false)

def comdatChildClosure (coff : CoffObject) (primary : CoffSection) : Reading (List String) := do
  let children <- comdatChildren coff primary
  pure ((children.map CoffSection.name).insertionSort fun a b => a.toList <= b.toList)

def comdatChild (coff : CoffObject) (primary : CoffSection) (name : String) :
    Reading CoffSection := do
  let children <- comdatChildren coff primary
  let found := children.filter fun s => s.name = name
  match found with
  | [s] => pure s
  | _ => .error (.byteIdentity ("expected one " ++ name ++ " child, found " ++
      toString found.length))

/-- Donor sections to seed sections; the first entry counts. -/
abbrev SeatMap := List (Int × Int)

def SeatMap.seat (seats : SeatMap) (number : Int) : Int := (seats.lookup number).getD number

def relocationRename (context : String) (seats : SeatMap) (pair : Relocation × Relocation) :
    Refusing (Option (Nat × RenameKind)) := do
  let (a, b) := pair
  let nonLocal := context ++ ": non-local relocation rename " ++ reprText a.target ++ " -> " ++
    reprText b.target
  require ((a.offset, a.type, a.addend) = (b.offset, b.type, b.addend))
    (context ++ ": relocation offset/type/addend differs")
  if a.target = b.target then pure none
  else
    match localSymbolKind a.target with
    | none => do
      require (staticRename a b = true) nonLocal
      pure (some (a.offset, .S))
    | some kind => do
      require (localSymbolKind b.target = some kind) nonLocal
      require (a.targetSection = seats.seat b.targetSection ∧ a.targetValue = b.targetValue ∧
          a.targetType = b.targetType ∧ a.targetStorage = b.targetStorage)
        (context ++ ": renamed local relocation target structure differs")
      pure (some (a.offset, kind))

def normalizedRelocationRenames (seed : CoffObject) (seedSection : CoffSection)
    (donor : CoffObject) (donorSection : CoffSection) (context : String) (seats : SeatMap) :
    Refusing (List (Nat × RenameKind)) := do
  let left <- detailedRelocations seed seedSection
  let right <- detailedRelocations donor donorSection
  require (left.length = right.length) (context ++ ": relocation counts differ")
  collect (relocationRename context seats) (left.zip right)

end Reprobit.Coff

import Reprobit.Foundation
import Mathlib.Data.Finset.Union

/-!
# The closed table of instruction forms

A form says which register fields an opcode has, what it reads and writes
through them, and its complete implicit operand set.  An opcode without a form
is refused.
-/

namespace Reprobit

open Machine

/-- Low byte, high byte, upper half, or a whole register. -/
inductive AtomPart
  | l | h | u | w
  deriving DecidableEq, Repr

instance : Fintype AtomPart where
  elems := {.l, .h, .u, .w}
  complete := by intro p; cases p <;> simp

/-- A liveness atom of a general register. -/
abbrev Atom := Reg × AtomPart

def registerName : Reg -> String
  | .eax => "eax"
  | .ecx => "ecx"
  | .edx => "edx"
  | .ebx => "ebx"
  | .esp => "esp"
  | .ebp => "ebp"
  | .esi => "esi"
  | .edi => "edi"

def ia32GeneralRegisterNames : Finset Reg := Finset.univ
def ia32StructuralRegisters : Finset Reg := {.esp, .ebp}
def ia32CallClobbered : Finset Reg := {.eax, .ecx, .edx}
def ia32ReturnLive : Finset Reg := {.eax, .ebx, .esi, .edi, .ebp, .esp}
def ia32ExternalTransferLive : Finset Reg := ia32GeneralRegisterNames
def ia32ByteAddressable : Finset Reg := {.eax, .ecx, .edx, .ebx}

/-- The liveness atoms of one general register. -/
def ia32AtomsOf (r : Reg) : Finset Atom :=
  if r ∈ ia32ByteAddressable then {(r, .l), (r, .h), (r, .u)} else {(r, .w)}

def ia32RegisterAtoms (names : Finset Reg) : Finset Atom := names.biUnion ia32AtomsOf

/-! ## Forms -/

inductive RegRole
  | gpr | ext
  deriving DecidableEq, Repr

inductive OpregRole
  | read | write | readwrite
  deriving DecidableEq, Repr

inductive Flow
  | fall | jcc | jmp | call | ret | exit
  deriving DecidableEq, Repr

/-- Implicit operands of one ModRM extension. -/
structure Implicit where
  reads : Finset Reg
  writes : Finset Reg
  frozen : Finset Reg
  deriving DecidableEq

structure StringMemory where
  read : Bool
  write : Bool
  deriving DecidableEq, Repr

structure BijectionForm where
  modrm : Bool := false
  reg : Option RegRole := none
  regRead : Bool := false
  regWrite : Bool := false
  rmRead : Bool := false
  rmWrite : Bool := false
  extNoWrite : List Nat := []
  extWrite : List Nat := []
  extAllowed : Option (List Nat) := none
  extImplicit : List (Nat × Implicit) := []
  extFlow : List (Nat × Flow) := []
  implicitFrozen : Finset Reg := ∅
  opreg : Option OpregRole := none
  reads : Finset Reg := ∅
  writes : Finset Reg := ∅
  flow : Flow := .fall
  displacement : Nat := 0
  width : Nat := 32
  rmWidth : Option Nat := none
  x87 : Bool := false
  size16Ok : Bool := false
  size16Ext : Option (List Nat) := none
  stringMemory : Option StringMemory := none

def ia32ShiftDigits : List Nat := [0, 1, 4, 5, 7]

/-- Implicit operands of the one-operand multiplications and divisions. -/
def muldiv : Implicit := ⟨{.eax, .edx}, {.eax, .edx}, {.eax, .edx}⟩

/-- The forms the compiler emits that the first table did not name. -/
def ia32BijectionTableWidening (opcode : Nat) : Option BijectionForm :=
  if opcode = 144 then some {}
  else if opcode ∈ [8, 16, 24, 32, 40, 48] then
    some { modrm := true, reg := some .gpr, regRead := true, rmRead := true, rmWrite := true,
           width := 8 }
  else if opcode ∈ [2, 10, 18, 34, 42, 50] then
    some { modrm := true, reg := some .gpr, regRead := true, regWrite := true, rmRead := true,
           width := 8 }
  else if opcode ∈ [1, 9, 17, 25, 33, 41] then
    some { modrm := true, reg := some .gpr, regRead := true, rmRead := true, rmWrite := true,
           size16Ok := true }
  else if opcode = 19 then
    some { modrm := true, reg := some .gpr, regRead := true, regWrite := true, rmRead := true,
           size16Ok := true }
  else if opcode ∈ [4, 12, 20, 28, 36, 44, 52, 168] then
    some { reads := {.eax}, implicitFrozen := {.eax}, width := 8 }
  else if opcode ∈ [13, 21, 29, 37, 45, 53] then
    some { reads := {.eax}, writes := {.eax}, implicitFrozen := {.eax} }
  else if opcode ∈ [61, 169] then
    some { reads := {.eax}, implicitFrozen := {.eax}, size16Ok := true }
  else if 176 <= opcode ∧ opcode < 184 then some { opreg := some .write, width := 8 }
  else if opcode ∈ [192, 208] then
    some { modrm := true, reg := some .ext, rmRead := true, rmWrite := true, width := 8,
           extAllowed := some ia32ShiftDigits }
  else if opcode ∈ [193, 209] then
    some { modrm := true, reg := some .ext, rmRead := true, rmWrite := true, size16Ok := true,
           extAllowed := some ia32ShiftDigits }
  else if opcode = 210 then
    some { modrm := true, reg := some .ext, rmRead := true, rmWrite := true, width := 8,
           extAllowed := some ia32ShiftDigits, reads := {.ecx}, implicitFrozen := {.ecx} }
  else if opcode = 211 then
    some { modrm := true, reg := some .ext, rmRead := true, rmWrite := true, size16Ok := true,
           extAllowed := some ia32ShiftDigits, reads := {.ecx}, implicitFrozen := {.ecx} }
  else none

def ia32BijectionTable (opcode : Nat) : Option BijectionForm :=
  if opcode = 49 then
    some { modrm := true, reg := some .gpr, regRead := true, rmRead := true, rmWrite := true,
           size16Ok := true }
  else if opcode = 51 then
    some { modrm := true, reg := some .gpr, regRead := true, regWrite := true, rmRead := true,
           size16Ok := true }
  else if opcode ∈ [57, 59, 133] then
    some { modrm := true, reg := some .gpr, regRead := true, rmRead := true, size16Ok := true }
  else if opcode ∈ [3, 11, 27, 35, 43] then
    some { modrm := true, reg := some .gpr, regRead := true, regWrite := true, rmRead := true,
           size16Ok := true }
  else if opcode = 137 then
    some { modrm := true, reg := some .gpr, regRead := true, rmWrite := true, size16Ok := true }
  else if opcode = 139 then
    some { modrm := true, reg := some .gpr, regWrite := true, rmRead := true, size16Ok := true }
  else if opcode = 141 then some { modrm := true, reg := some .gpr, regWrite := true }
  else if opcode ∈ [131, 129] then
    some { modrm := true, reg := some .ext, rmRead := true, rmWrite := true, extNoWrite := [7],
           size16Ok := true }
  else if opcode = 199 then
    some { modrm := true, reg := some .ext, extAllowed := some [0], rmWrite := true,
           size16Ok := true }
  else if opcode ∈ [56, 58, 132] then
    some { modrm := true, reg := some .gpr, regRead := true, rmRead := true, width := 8 }
  else if opcode = 136 then
    some { modrm := true, reg := some .gpr, regRead := true, rmWrite := true, width := 8 }
  else if opcode = 138 then
    some { modrm := true, reg := some .gpr, regWrite := true, rmRead := true, width := 8 }
  else if opcode = 26 then
    some { modrm := true, reg := some .gpr, regRead := true, regWrite := true, rmRead := true,
           width := 8 }
  else if opcode = 128 then
    some { modrm := true, reg := some .ext, rmRead := true, rmWrite := true, extNoWrite := [7],
           width := 8 }
  else if opcode = 198 then
    some { modrm := true, reg := some .ext, extAllowed := some [0], rmWrite := true, width := 8 }
  else if opcode = 246 then
    some { modrm := true, reg := some .ext, rmRead := true, rmWrite := true, extNoWrite := [0],
           extAllowed := some [0, 2, 3], width := 8 }
  else if opcode = 254 then
    some { modrm := true, reg := some .ext, rmRead := true, rmWrite := true,
           extAllowed := some [0, 1], width := 8 }
  else if opcode = 60 then some { reads := {.eax}, implicitFrozen := {.eax} }
  else if opcode = 153 then
    some { reads := {.eax}, writes := {.edx}, implicitFrozen := {.eax, .edx} }
  else if opcode = 247 then
    some { modrm := true, reg := some .ext, rmRead := true, rmWrite := true,
           extNoWrite := [0, 4, 5, 6, 7], extAllowed := some [0, 2, 3, 4, 5, 6, 7],
           extImplicit := [(4, muldiv), (5, muldiv), (6, muldiv), (7, muldiv)] }
  else if 64 <= opcode ∧ opcode < 80 then some { opreg := some .readwrite, size16Ok := true }
  else if 80 <= opcode ∧ opcode < 88 then
    some { opreg := some .read, reads := {.esp}, writes := {.esp} }
  else if 88 <= opcode ∧ opcode < 96 then
    some { opreg := some .write, reads := {.esp}, writes := {.esp} }
  else if 184 <= opcode ∧ opcode < 192 then some { opreg := some .write, size16Ok := true }
  else if opcode = 5 then some { reads := {.eax}, writes := {.eax}, implicitFrozen := {.eax} }
  else if opcode = 161 then some { writes := {.eax}, implicitFrozen := {.eax} }
  else if opcode = 163 then some { reads := {.eax}, implicitFrozen := {.eax} }
  else if opcode ∈ [104, 106] then some { reads := {.esp}, writes := {.esp} }
  else if 112 <= opcode ∧ opcode < 128 then some { flow := .jcc, displacement := 1 }
  else if opcode = 235 then some { flow := .jmp, displacement := 1 }
  else if opcode = 233 then some { flow := .jmp, displacement := 4 }
  else if opcode = 232 then
    some { flow := .call, displacement := 4, reads := {.esp}, writes := ia32CallClobbered }
  else if opcode = 255 then
    some { modrm := true, reg := some .ext, extAllowed := some [0, 1, 2, 4], rmRead := true,
           extWrite := [0, 1], size16Ok := true, size16Ext := some [0, 1], flow := .call,
           extFlow := [(0, .fall), (1, .fall), (2, .call), (4, .exit)],
           extImplicit := [(2, ⟨{.esp}, ia32CallClobbered, ∅⟩),
             (4, ⟨ia32GeneralRegisterNames, ∅, ∅⟩)] }
  else if opcode ∈ [194, 195] then some { flow := .ret, reads := ia32ReturnLive }
  else if 216 <= opcode ∧ opcode < 224 then some { modrm := true, reg := some .ext, x87 := true }
  else ia32BijectionTableWidening opcode

/-- Near branches, SETcc, widening moves, two-operand multiplication. -/
def ia32BijectionTwoByteTable (opcode : Nat) : Option BijectionForm :=
  if 128 <= opcode ∧ opcode < 144 then some { flow := .jcc, displacement := 4 }
  else if opcode ∈ [183, 191] then
    some { modrm := true, reg := some .gpr, regWrite := true, rmRead := true }
  else if opcode ∈ [182, 190] then
    some { modrm := true, reg := some .gpr, regWrite := true, rmRead := true, rmWidth := some 8 }
  else if opcode = 175 then
    some { modrm := true, reg := some .gpr, regRead := true, regWrite := true, rmRead := true }
  else if 144 <= opcode ∧ opcode < 160 then
    some { modrm := true, reg := some .ext, extAllowed := some [0], rmWrite := true, width := 8 }
  else none

def ia32StringForm (reads writes : Finset Reg) (memory : StringMemory) : BijectionForm :=
  { reads := reads, writes := writes, implicitFrozen := reads ∪ writes,
    stringMemory := some memory }

def ia32BijectionRepeatedStringForms (repeatPrefix opcode : Nat) : Option BijectionForm :=
  if repeatPrefix = 243 ∧ opcode ∈ [164, 165] then
    some (ia32StringForm {.ecx, .esi, .edi} {.ecx, .esi, .edi} ⟨true, true⟩)
  else if repeatPrefix = 243 ∧ opcode ∈ [170, 171] then
    some (ia32StringForm {.eax, .ecx, .edi} {.ecx, .edi} ⟨false, true⟩)
  else if repeatPrefix ∈ [242, 243] ∧ opcode ∈ [174, 175] then
    some (ia32StringForm {.eax, .ecx, .edi} {.ecx, .edi} ⟨true, false⟩)
  else if repeatPrefix ∈ [242, 243] ∧ opcode ∈ [166, 167] then
    some (ia32StringForm {.ecx, .esi, .edi} {.ecx, .esi, .edi} ⟨true, false⟩)
  else none

def bijectionFormFor (opcode : Nat) : Option BijectionForm :=
  if opcode / 256 = 15 then ia32BijectionTwoByteTable (opcode % 256)
  else ia32BijectionTable opcode

def msvcMemberFunctionClasses : List Char :=
  ['A', 'B', 'E', 'F', 'I', 'J', 'M', 'N', 'Q', 'R', 'U', 'V']
def msvcStaticFunctionClasses : List Char := ['C', 'D', 'K', 'L', 'S', 'T']
def msvcGlobalFunctionClasses : List Char := ['Y', 'Z']
def msvcThunkFunctionClasses : List Char := ['G', 'H', 'O', 'P', 'W', 'X']
def msvcCvLetters : List Char := ['A', 'B', 'C', 'D']

def msvcCallArgumentTable (c : Char) : Option (Finset Reg) :=
  if c ∈ ['A', 'B', 'C', 'D', 'G', 'H'] then some ∅
  else if c ∈ ['E', 'F'] then some {.ecx}
  else if c ∈ ['I', 'J'] then some {.ecx, .edx}
  else none

/-- `none` is the adjustor thunk, `some none` no reading here. -/
def msvcReadingAt (symbol : List Char) (index : Nat) : Option (Option (Finset Reg)) :=
  let letter? := fun i : Nat => symbol[i]?
  let start? : Option Nat :=
    if letter? index = some '@' ∧ letter? (index + 1) = some '@' then some (index + 2)
    else if letter? index = some '@' ∧
        (letter? (index + 1)).any (fun c => c ∈ msvcGlobalFunctionClasses) then some (index + 1)
    else none
  match start? with
  | none => some none
  | some cursor =>
    match letter? cursor with
    | none => some none
    | some letter =>
      let cursor := cursor + 1
      if letter ∈ msvcThunkFunctionClasses then
        if cursor + 2 < symbol.length ∧ (letter? cursor).any Char.isDigit ∧
            (letter? (cursor + 1)).any (fun c => c ∈ msvcCvLetters) ∧
            ((letter? (cursor + 2)).bind msvcCallArgumentTable).isSome then none
        else some none
      else if letter ∈ msvcMemberFunctionClasses then
        if (letter? cursor).any (fun c => c ∈ msvcCvLetters) then
          some ((letter? (cursor + 1)).bind msvcCallArgumentTable)
        else some none
      else if letter ∈ msvcStaticFunctionClasses ++ msvcGlobalFunctionClasses then
        some ((letter? cursor).bind msvcCallArgumentTable)
      else some none

/-- Collect the distinct readings of the positions below a bound. -/
def msvcReadings (symbol : List Char) : Nat -> Option (List (Finset Reg))
  | 0 => some []
  | index + 1 => do
    let readings <- msvcReadings symbol index
    let reading <- msvcReadingAt symbol index
    match reading with
    | none => some readings
    | some registers =>
      some (if registers ∈ readings then readings else readings ++ [registers])

def msvcCallArgumentRegisters (symbol : String) : Option (Finset Reg) :=
  let letters := symbol.toList
  if letters.head? ≠ some '?' ∨ letters.getLast? ≠ some 'Z' then none
  else
    match msvcReadings letters (letters.length - 1) with
    | some [registers] => some registers
    | _ => none

end Reprobit

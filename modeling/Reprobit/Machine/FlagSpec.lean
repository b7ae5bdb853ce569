import Reprobit.Machine.Isa

/-!
# Architectural use of the arithmetic flags

For every opcode of the two maps: the flags the outcome or the control transfer
of an instruction can depend on, and flags that every execution of it sets or
clears.  The tables follow the sixth-generation processors, conditional moves of
both units included.
-/

namespace Reprobit.Machine

def allFlags : Finset Flag := Finset.univ

/-- The flags `lahf` and `sahf` transfer. -/
def lowFlags : Finset Flag := {.cf, .pf, .af, .zf, .sf}

/-- Flags a conditional move of the floating-point unit reads. -/
def x87FlagReads (opcode : Nat) (m : Byte) : Finset Flag :=
  if (opcode = 0xDA ∨ opcode = 0xDB) ∧ modeOf m = 3#2 then
    match (regOf m).toNat with
    | 0 => {.cf}
    | 1 => {.zf}
    | 2 => {.cf, .zf}
    | 3 => {.pf}
    | _ => ∅
  else ∅

def oneByteFlagReads (opcode digit : Nat) : Finset Flag :=
  if opcode < 0x40 ∧ (opcode / 8 = 2 ∨ opcode / 8 = 3) ∧ opcode % 8 < 6 then {.cf}
  else if opcode = 0x27 ∨ opcode = 0x2F then {.cf, .af}
  else if opcode = 0x37 ∨ opcode = 0x3F then {.af}
  else if 0x70 <= opcode ∧ opcode < 0x80 then condFlags (BitVec.ofNat 4 opcode)
  else if 0x80 <= opcode ∧ opcode < 0x84 then if digit = 2 ∨ digit = 3 then {.cf} else ∅
  else if opcode = 0x9C then allFlags
  else if opcode = 0x9F then lowFlags
  else if opcode ∈ [0xC0, 0xC1, 0xD0, 0xD1, 0xD2, 0xD3] then
    if digit = 2 ∨ digit = 3 then {.cf} else ∅
  else if opcode = 0xCE then {.of}
  else if opcode = 0xE0 ∨ opcode = 0xE1 then {.zf}
  else if opcode = 0xF5 then {.cf}
  else ∅

def twoByteFlagReads (opcode : Nat) : Finset Flag :=
  if (0x40 <= opcode ∧ opcode < 0x50) ∨ (0x80 <= opcode ∧ opcode < 0xA0) then
    condFlags (BitVec.ofNat 4 opcode)
  else ∅

/-- Flags every execution sets or clears. -/
def oneByteFlagWrites (opcode digit : Nat) (repeated : Bool) : Finset Flag :=
  if opcode < 0x40 ∧ opcode % 8 < 6 then allFlags
  else if opcode ∈ [0x27, 0x2F, 0x37, 0x3F] then {.cf, .af}
  else if 0x40 <= opcode ∧ opcode < 0x50 then allFlags.erase .cf
  else if opcode = 0x63 then {.zf}
  else if opcode = 0x69 ∨ opcode = 0x6B then {.cf, .of}
  else if 0x80 <= opcode ∧ opcode < 0x84 then allFlags
  else if opcode ∈ [0x84, 0x85, 0xA8, 0xA9] then allFlags
  else if opcode = 0x9D then allFlags
  else if opcode = 0x9E then lowFlags
  else if opcode ∈ [0xA6, 0xA7, 0xAE, 0xAF] then if repeated then ∅ else allFlags
  else if opcode = 0xD0 ∨ opcode = 0xD1 then if digit < 4 then {.cf, .of} else allFlags
  else if opcode = 0xD4 ∨ opcode = 0xD5 then {.sf, .zf, .pf}
  else if opcode = 0xF5 ∨ opcode = 0xF8 ∨ opcode = 0xF9 then {.cf}
  else if opcode = 0xF6 ∨ opcode = 0xF7 then
    if digit < 2 ∨ digit = 3 then allFlags
    else if digit = 4 ∨ digit = 5 then {.cf, .of}
    else ∅
  else if opcode = 0xFE ∨ opcode = 0xFF then if digit < 2 then allFlags.erase .cf else ∅
  else ∅

def twoByteFlagWrites (opcode digit : Nat) : Finset Flag :=
  if opcode = 0x00 then if digit = 4 ∨ digit = 5 then {.zf} else ∅
  else if opcode = 0x02 ∨ opcode = 0x03 then {.zf}
  else if opcode = 0x2E ∨ opcode = 0x2F then allFlags
  else if opcode ∈ [0xA3, 0xAB, 0xB3, 0xBB] then {.cf}
  else if opcode = 0xBA then if 4 <= digit then {.cf} else ∅
  else if opcode = 0xAF then {.cf, .of}
  else if opcode ∈ [0xB0, 0xB1, 0xC0, 0xC1] then allFlags
  else if opcode = 0xBC ∨ opcode = 0xBD then {.zf}
  else if opcode = 0xC7 then if digit = 1 then {.zf} else ∅
  else ∅

def isX87 (b : Byte) : Bool := 0xD8 <= b.toNat && b.toNat < 0xE0

theorem isX87_iff (b : Byte) : isX87 b = true ↔ 0xD8 <= b.toNat ∧ b.toNat < 0xE0 := by
  simp only [isX87, Bool.and_eq_true, decide_eq_true_eq]

namespace Raw

/-- The flags the outcome or the control transfer can depend on. -/
def flagReads (raw : Raw) : Finset Flag :=
  match raw.opcode with
  | .one b =>
    if isX87 b then x87FlagReads b.toNat (raw.modrm.getD 0)
    else oneByteFlagReads b.toNat raw.digit.toNat
  | .two b => twoByteFlagReads b.toNat

/-- The flags every execution sets or clears. -/
def flagWrites (raw : Raw) : Finset Flag :=
  match raw.opcode with
  | .one b => if isX87 b then ∅ else oneByteFlagWrites b.toNat raw.digit.toNat raw.rep.isSome
  | .two b => twoByteFlagWrites b.toNat raw.digit.toNat

end Raw

end Reprobit.Machine

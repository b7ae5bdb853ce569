import Reprobit.Machine.Alu
import Reprobit.Machine.Format

/-!
# Instruction forms and their meaning

Each opcode resolves to a form: which encoding slots it reads and writes and
which operation connects them.  A repeated string instruction is one iteration
per step, as the architecture restarts it.  The floating-point unit is an
arbitrary interpreter over an arbitrary state.  The direction flag is clear.
-/

namespace Reprobit.Machine

inductive StringOp
  | movs | stos | scas | cmps
  deriving DecidableEq, Repr

inductive Op
  | alu (op : AluOp) (w : Width)
  | test (w : Width)
  | mov
  | inc (w : Width)
  | dec (w : Width)
  | not (w : Width)
  | neg (w : Width)
  | shift (op : ShiftOp) (w : Width)
  | mul (signed : Bool)
  | div (signed : Bool)
  | imul
  | movx (signed : Bool) (w : Width)
  | setcc (cc : BitVec 4)
  | cdq
  | nop
  | push
  | pop
  | jcc (cc : BitVec 4)
  | jmp
  | jmpReg
  | call
  | callReg
  | ret
  | string (op : StringOp) (w : Width) (whileZero : Bool)
  | x87 (opcode modrm : Byte)
  | x87Status
  /-- an undefined encoding of a known opcode -/
  | ud
  deriving DecidableEq, Repr

/-- The new unit, what goes to memory and to the integer flags. -/
structure FpuResult (X : Type) where
  fpu : X
  store : Option Nat
  flags : FlagEffect

structure Fpu (X : Type) where
  exec : (opcode modrm : Byte) -> (operand : Nat) -> (Flag -> Bool) -> X -> FpuResult X
  status : X -> Nat

namespace Op

def flagsRead : Op -> Finset Flag
  | alu op _ => if op.usesCarry then {.cf} else ∅
  | setcc cc => condFlags cc
  | jcc cc => condFlags cc
  | x87 _ _ => Finset.univ
  | _ => ∅

variable {X : Type} (F : Fpu X) (next : Nat)

/-- The values are the count, the pointers and then the data. -/
def stringStep (op : StringOp) (w : Width) (whileZero : Bool) (vals : List Nat) (x : X) :
    Effect X :=
  let v := fun i => vals.getD i 0
  let n := w.bits
  if v 0 = 0 then ⟨[], noFlags, x, .next⟩
  else
    match op with
    | .movs =>
      ⟨[some (v 0 - 1), some (v 1 + w.bytes), some (v 2 + w.bytes), some (v 3)], noFlags, x, .again⟩
    | .stos => ⟨[some (v 0 - 1), some (v 1 + w.bytes), some (v 2)], noFlags, x, .again⟩
    | .scas =>
      let fl := (subWith (BitVec.ofNat n (v 2)) (BitVec.ofNat n (v 3)) false).2
      ⟨[some (v 0 - 1), some (v 1 + w.bytes)], fl, x,
        if fl .zf = some whileZero then .again else .next⟩
    | .cmps =>
      let fl := (subWith (BitVec.ofNat n (v 3)) (BitVec.ofNat n (v 4)) false).2
      ⟨[some (v 0 - 1), some (v 1 + w.bytes), some (v 2 + w.bytes)], fl, x,
        if fl .zf = some whileZero then .again else .next⟩

/-- Division of a double word; `none` is the divide fault. -/
def divide (signed : Bool) (lo hi divisor : Nat) : Option (Nat × Nat) :=
  if signed then
    let a := (BitVec.ofNat 64 (lo + 2 ^ 32 * hi)).toInt
    let b := (BitVec.ofNat 32 divisor).toInt
    let q := a.tdiv b
    if b = 0 ∨ q < -2 ^ 31 ∨ 2 ^ 31 <= q then none
    else some ((BitVec.ofInt 32 q).toNat, (BitVec.ofInt 32 (a.tmod b)).toNat)
  else
    let a := lo + 2 ^ 32 * hi
    if divisor = 0 ∨ 2 ^ 32 <= a / divisor then none else some (a / divisor, a % divisor)

def multiply (signed : Bool) (a b : Nat) : Nat × Nat × Bool :=
  if signed then
    let p := (BitVec.ofNat 32 a).toInt * (BitVec.ofNat 32 b).toInt
    let r := (BitVec.ofInt 64 p).toNat
    (r % 2 ^ 32, r / 2 ^ 32, decide (p ≠ (BitVec.ofInt 32 p).toInt))
  else (a * b % 2 ^ 32, a * b / 2 ^ 32, decide (2 ^ 32 <= a * b))

def carryOverflow (b : Bool) : FlagEffect
  | .cf => some b
  | .of => some b
  | _ => none

def eval (op : Op) (vals : List Nat) (fl : Flag -> Bool) (x : X) : Effect X :=
  let v := fun i => vals.getD i 0
  match op with
  | alu op w =>
    let r := op.apply (BitVec.ofNat w.bits (v 0)) (BitVec.ofNat w.bits (v 1)) (fl .cf)
    ⟨[some r.1.toNat], r.2, x, .next⟩
  | test w =>
    ⟨[], (logic (BitVec.ofNat w.bits (v 0) &&& BitVec.ofNat w.bits (v 1))).2, x, .next⟩
  | mov => ⟨[some (v 0)], noFlags, x, .next⟩
  | inc w =>
    let r := addWith (BitVec.ofNat w.bits (v 0)) 1 false
    ⟨[some r.1.toNat], r.2.keep .cf, x, .next⟩
  | dec w =>
    let r := subWith (BitVec.ofNat w.bits (v 0)) 1 false
    ⟨[some r.1.toNat], r.2.keep .cf, x, .next⟩
  | not w => ⟨[some (~~~ BitVec.ofNat w.bits (v 0)).toNat], noFlags, x, .next⟩
  | neg w =>
    let r := subWith 0 (BitVec.ofNat w.bits (v 0)) false
    ⟨[some r.1.toNat], r.2, x, .next⟩
  | shift op w =>
    let r := op.apply (BitVec.ofNat w.bits (v 0)) (v 1)
    ⟨[some r.1.toNat], r.2, x, .next⟩
  | mul signed =>
    let (lo, hi, c) := multiply signed (v 0) (v 1)
    ⟨[some lo, some hi], carryOverflow c, x, .next⟩
  | div signed =>
    match divide signed (v 0) (v 1) (v 2) with
    | none => ⟨[], noFlags, x, .fault⟩
    | some (q, r) => ⟨[some q, some r], noFlags, x, .next⟩
  | imul =>
    let (lo, _, c) := multiply true (v 0) (v 1)
    ⟨[some lo], carryOverflow c, x, .next⟩
  | movx signed w =>
    let r := BitVec.ofNat w.bits (v 0)
    ⟨[some (if signed then (r.signExtend 32).toNat else r.toNat)], noFlags, x, .next⟩
  | setcc cc => ⟨[some (condHolds cc fl).toNat], noFlags, x, .next⟩
  | cdq => ⟨[some (if (BitVec.ofNat 32 (v 0)).msb then 2 ^ 32 - 1 else 0)], noFlags, x, .next⟩
  | nop => ⟨[], noFlags, x, .next⟩
  | push => ⟨[some (v 0), some (v 1 + (2 ^ 32 - 4))], noFlags, x, .next⟩
  -- the stack pointer moves first, so that popping into it keeps the popped value
  | pop => ⟨[some (v 1 + 4), some (v 0)], noFlags, x, .next⟩
  | jcc cc => ⟨[], noFlags, x, if condHolds cc fl then .branch else .next⟩
  | jmp => ⟨[], noFlags, x, .branch⟩
  | jmpReg => ⟨[], noFlags, x, .jump (v 0)⟩
  | call => ⟨[some next, some (v 0 + (2 ^ 32 - 4))], noFlags, x, .call none⟩
  | callReg => ⟨[some next, some (v 0 + (2 ^ 32 - 4))], noFlags, x, .call (some (v 1))⟩
  | ret => ⟨[some (v 0 + 4 + v 1)], noFlags, x, .ret⟩
  | string op w whileZero => stringStep op w whileZero vals x
  | x87 opcode modrm =>
    let r := F.exec opcode modrm (v 0) fl x
    ⟨[r.store], r.flags, r.fpu, .next⟩
  | x87Status => ⟨[some (F.status x)], noFlags, x, .next⟩
  | ud => ⟨[], noFlags, x, .fault⟩

end Op

/-! ## Slots -/

/-- A place of the encoding, or an implicit operand of the opcode. -/
inductive Slot
  | reg (w : Width)
  | rm (w : Width)
  | opreg (w : Width)
  | fixed (r : Reg) (part : Part)
  | address
  | memory (size : Nat)
  | imm
  | simm
  | one
  | pushed
  | popped
  | moffs (w : Width)
  | source (w : Width)
  | target (w : Width)
  deriving DecidableEq, Repr

structure Form where
  srcs : List Slot
  dsts : List Slot
  op : Op
  deriving DecidableEq, Repr

def fieldOperand (w : Width) (field : BitVec 3) : Operand :=
  match w with
  | .byte => .reg (Reg.ofField (field &&& 3)) (if field < 4 then .low else .high)
  | .word => .reg (Reg.ofField field) .word
  | .dword => .reg (Reg.ofField field) .full

def segOf (b : Byte) : Option Seg :=
  match b.toNat with
  | 0x26 => some .es
  | 0x2E => some .cs
  | 0x36 => some .ss
  | 0x3E => some .ds
  | 0x64 => some .fs
  | 0x65 => some .gs
  | _ => none

/-- Link-time amounts added to the displacement and to the immediate. -/
structure Fixups where
  disp : Word
  imm : Word
  deriving DecidableEq, Repr

namespace Raw

variable (raw : Raw)

def seg : Option Seg := raw.prefixes.findSome? segOf

def rep : Option Bool :=
  if raw.prefixes.contains 0xF3 then some true
  else if raw.prefixes.contains 0xF2 then some false
  else none

def lock : Bool := raw.prefixes.contains 0xF0

def mode : BitVec 2 := (raw.modrm.map modeOf).getD 0
def rm : BitVec 3 := (raw.modrm.map rmOf).getD 0

def dispWord : Word :=
  if raw.disp.length = 1 then (BitVec.ofNat 8 (leNat raw.disp)).signExtend 32
  else BitVec.ofNat 32 (leNat raw.disp)

def baseReg : Option Reg :=
  match raw.sib with
  | some s => if raw.mode = 0#2 ∧ baseOf s = 5#3 then none else some (Reg.ofField (baseOf s))
  | none => if raw.mode = 0#2 ∧ raw.rm = 5#3 then none else some (Reg.ofField raw.rm)

def indexReg : Option Reg :=
  match raw.sib with
  | some s => if indexOf s = 4#3 then none else some (Reg.ofField (indexOf s))
  | none => none

def addr (fix : Word) : Addr where
  seg := raw.seg
  base := raw.baseReg
  index := raw.indexReg
  shift := ((raw.sib.map scaleOf).getD 0).toNat
  disp := raw.dispWord + fix

def simm : Nat := ((BitVec.ofNat 8 (leNat raw.imm)).signExtend 32).toNat

def stackAddr (disp : Word) : Addr := ⟨none, some .esp, none, 0, disp⟩

def operand (fix : Fixups) : Slot -> Operand
  | .reg w => fieldOperand w raw.digit
  | .rm w => if raw.mode = 3#2 then fieldOperand w raw.rm else .mem (raw.addr fix.disp) w.bytes
  | .opreg w => fieldOperand w (rmOf raw.opcode.last)
  | .fixed r part => .reg r part
  | .address => .address { raw.addr fix.disp with seg := none }
  | .memory size => .mem (raw.addr fix.disp) size
  | .imm => .const (BitVec.ofNat 32 (leNat raw.imm) + fix.imm).toNat
  | .simm => .const raw.simm
  | .one => .const 1
  | .pushed => .mem (stackAddr (-4)) 4
  | .popped => .mem (stackAddr 0) 4
  | .moffs w => .mem ⟨raw.seg, none, none, 0, BitVec.ofNat 32 (leNat raw.imm) + fix.imm⟩ w.bytes
  | .source w => .mem ⟨raw.seg, some .esi, none, 0, 0⟩ w.bytes
  | .target w => .mem ⟨none, some .edi, none, 0, 0⟩ w.bytes

end Raw

/-! ## The opcode map -/

variable (w : Width) (digit : Nat) (opcode : Nat)

def aluOf : AluOp :=
  match digit % 8 with
  | 0 => .add
  | 1 => .or
  | 2 => .adc
  | 3 => .sbb
  | 4 => .and
  | 5 => .sub
  | 6 => .xor
  | _ => .cmp

def shiftOf : Option ShiftOp :=
  match digit with
  | 0 => some .rol
  | 1 => some .ror
  | 4 => some .shl
  | 5 => some .shr
  | 7 => some .sar
  | _ => none

def accumulator : Slot :=
  match w with
  | .byte => .fixed .eax .low
  | .word => .fixed .eax .word
  | .dword => .fixed .eax .full

/-- A two-operand form; the comparison delivers only flags. -/
def aluForm (op : AluOp) (w : Width) (dst src : Slot) : Form :=
  ⟨[dst, src], if op = .cmp then [] else [dst], .alu op w⟩

def shiftForm (w : Width) (count : Slot) : Option Form :=
  (shiftOf digit).map fun op => ⟨[.rm w, count], [.rm w], .shift op w⟩

def x87Size (opcode digit : Nat) : Nat :=
  match opcode, digit with
  | 0xD9, 4 => 28
  | 0xD9, 5 => 2
  | 0xD9, 6 => 28
  | 0xD9, 7 => 2
  | 0xDB, 5 => 10
  | 0xDB, 7 => 10
  | 0xDC, _ => 8
  | 0xDD, 4 => 108
  | 0xDD, 6 => 108
  | 0xDD, 7 => 2
  | 0xDD, _ => 8
  | 0xDE, _ => 2
  | 0xDF, 4 => 10
  | 0xDF, 5 => 8
  | 0xDF, 6 => 10
  | 0xDF, 7 => 8
  | 0xDF, _ => 2
  | _, _ => 4

def x87Loads (opcode digit : Nat) : Bool :=
  match opcode, digit with
  | 0xD9, 2 => false
  | 0xD9, 3 => false
  | 0xD9, 6 => false
  | 0xD9, 7 => false
  | 0xDB, 1 => false
  | 0xDB, 2 => false
  | 0xDB, 3 => false
  | 0xDB, 7 => false
  | 0xDD, 1 => false
  | 0xDD, 2 => false
  | 0xDD, 3 => false
  | 0xDD, 6 => false
  | 0xDD, 7 => false
  | 0xDF, 1 => false
  | 0xDF, 2 => false
  | 0xDF, 3 => false
  | 0xDF, 6 => false
  | 0xDF, 7 => false
  | _, _ => true

def x87Form (opcode modrm : Byte) : Form :=
  let digit := (regOf modrm).toNat
  if modeOf modrm = 3#2 then
    if opcode = 0xDF ∧ modrm = 0xE0 then ⟨[], [.fixed .eax .word], .x87Status⟩
    else ⟨[], [], .x87 opcode modrm⟩
  else
    -- of the ModRM byte only the extension selects the operation on a memory operand
    let place := Slot.memory (x87Size opcode.toNat digit)
    if x87Loads opcode.toNat digit then ⟨[place], [], .x87 opcode (modrm &&& 0x38#8)⟩
    else ⟨[], [place], .x87 opcode (modrm &&& 0x38#8)⟩

/-- Operand width selected by the operand-size prefix. -/
def sized (opsize : Bool) : Width := if opsize then .word else .dword

def group3 : Option Form :=
  match digit with
  | 0 => some ⟨[.rm w, .imm], [], .test w⟩
  | 2 => some ⟨[.rm w], [.rm w], .not w⟩
  | 3 => some ⟨[.rm w], [.rm w], .neg w⟩
  | _ => none

def wideMulDiv : Option Form :=
  let eax := Slot.fixed .eax .full
  let edx := Slot.fixed .edx .full
  match digit with
  | 4 => some ⟨[eax, .rm .dword], [eax, edx], .mul false⟩
  | 5 => some ⟨[eax, .rm .dword], [eax, edx], .mul true⟩
  | 6 => some ⟨[eax, edx, .rm .dword], [eax, edx], .div false⟩
  | 7 => some ⟨[eax, edx, .rm .dword], [eax, edx], .div true⟩
  | _ => none

def stringForm (op : StringOp) (w : Width) (whileZero : Bool) : Form :=
  let ecx := Slot.fixed .ecx .full
  let esi := Slot.fixed .esi .full
  let edi := Slot.fixed .edi .full
  match op with
  | .movs => ⟨[ecx, esi, edi, .source w], [ecx, esi, edi, .target w], .string op w whileZero⟩
  | .stos => ⟨[ecx, edi, accumulator w], [ecx, edi, .target w], .string op w whileZero⟩
  | .scas => ⟨[ecx, edi, accumulator w, .target w], [ecx, edi], .string op w whileZero⟩
  | .cmps => ⟨[ecx, esi, edi, .source w, .target w], [ecx, esi, edi], .string op w whileZero⟩

def repeatedForm (whileZero : Bool) : Option Form :=
  match opcode with
  | 0xA4 => some (stringForm .movs .byte whileZero)
  | 0xA5 => some (stringForm .movs .dword whileZero)
  | 0xA6 => some (stringForm .cmps .byte whileZero)
  | 0xA7 => some (stringForm .cmps .dword whileZero)
  | 0xAA => some (stringForm .stos .byte whileZero)
  | 0xAB => some (stringForm .stos .dword whileZero)
  | 0xAE => some (stringForm .scas .byte whileZero)
  | 0xAF => some (stringForm .scas .dword whileZero)
  | _ => none

def stackSlots : List Slot := [.pushed, .fixed .esp .full]

/-- Opcodes outside the escape; `direct` is a register operand. -/
def oneByteForm (opcode digit : Nat) (direct opsize : Bool) : Option Form :=
  let v := sized opsize
  let cc := BitVec.ofNat 4 opcode
  if opcode < 0x40 then
    let op := aluOf (opcode / 8)
    match opcode % 8 with
    | 0 => some (aluForm op .byte (.rm .byte) (.reg .byte))
    | 1 => some (aluForm op v (.rm v) (.reg v))
    | 2 => some (aluForm op .byte (.reg .byte) (.rm .byte))
    | 3 => some (aluForm op v (.reg v) (.rm v))
    | 4 => some (aluForm op .byte (accumulator .byte) .imm)
    | 5 => some (aluForm op v (accumulator v) .imm)
    | _ => none
  else if opcode < 0x48 then some ⟨[.opreg v], [.opreg v], .inc v⟩
  else if opcode < 0x50 then some ⟨[.opreg v], [.opreg v], .dec v⟩
  else if opcode < 0x58 then
    if opsize then none else some ⟨[.opreg .dword, .fixed .esp .full], stackSlots, .push⟩
  else if opcode < 0x60 then
    if opsize then none
    else some ⟨[.popped, .fixed .esp .full], [.fixed .esp .full, .opreg .dword], .pop⟩
  else if 0x70 <= opcode ∧ opcode < 0x80 then
    if opsize then none else some ⟨[], [], .jcc cc⟩
  else if 0xB0 <= opcode ∧ opcode < 0xB8 then some ⟨[.imm], [.opreg .byte], .mov⟩
  else if 0xB8 <= opcode ∧ opcode < 0xC0 then some ⟨[.imm], [.opreg v], .mov⟩
  else
    match opcode with
    | 0x68 => if opsize then none else some ⟨[.imm, .fixed .esp .full], stackSlots, .push⟩
    | 0x6A => if opsize then none else some ⟨[.simm, .fixed .esp .full], stackSlots, .push⟩
    | 0x80 => some (aluForm (aluOf digit) .byte (.rm .byte) .imm)
    | 0x81 => some (aluForm (aluOf digit) v (.rm v) .imm)
    | 0x83 => some (aluForm (aluOf digit) v (.rm v) .simm)
    | 0x84 => some ⟨[.rm .byte, .reg .byte], [], .test .byte⟩
    | 0x85 => some ⟨[.rm v, .reg v], [], .test v⟩
    | 0x88 => some ⟨[.reg .byte], [.rm .byte], .mov⟩
    | 0x89 => some ⟨[.reg v], [.rm v], .mov⟩
    | 0x8A => some ⟨[.rm .byte], [.reg .byte], .mov⟩
    | 0x8B => some ⟨[.rm v], [.reg v], .mov⟩
    | 0x8D =>
      if opsize then none
      else if direct then some ⟨[], [], .ud⟩
      else some ⟨[.address], [.reg .dword], .mov⟩
    | 0x90 => some ⟨[], [], .nop⟩
    | 0x99 => if opsize then none else some ⟨[.fixed .eax .full], [.fixed .edx .full], .cdq⟩
    | 0xA1 => some ⟨[.moffs v], [accumulator v], .mov⟩
    | 0xA3 => some ⟨[accumulator v], [.moffs v], .mov⟩
    | 0xA8 => some ⟨[accumulator .byte, .imm], [], .test .byte⟩
    | 0xA9 => some ⟨[accumulator v, .imm], [], .test v⟩
    | 0xC0 => shiftForm digit .byte .imm
    | 0xC1 => shiftForm digit v .imm
    | 0xD0 => shiftForm digit .byte .one
    | 0xD1 => shiftForm digit v .one
    | 0xD2 => shiftForm digit .byte (.fixed .ecx .low)
    | 0xD3 => shiftForm digit v (.fixed .ecx .low)
    | 0xC2 => if opsize then none else some ⟨[.fixed .esp .full, .imm], [.fixed .esp .full], .ret⟩
    | 0xC3 => if opsize then none else some ⟨[.fixed .esp .full], [.fixed .esp .full], .ret⟩
    | 0xC6 => if digit = 0 then some ⟨[.imm], [.rm .byte], .mov⟩ else none
    | 0xC7 => if digit = 0 then some ⟨[.imm], [.rm v], .mov⟩ else none
    | 0xE8 => if opsize then none else some ⟨[.fixed .esp .full], stackSlots, .call⟩
    | 0xE9 => if opsize then none else some ⟨[], [], .jmp⟩
    | 0xEB => if opsize then none else some ⟨[], [], .jmp⟩
    | 0xF6 => group3 .byte digit
    | 0xF7 =>
      match group3 v digit with
      | some form => some form
      | none => if opsize then none else wideMulDiv digit
    | 0xFE =>
      match digit with
      | 0 => some ⟨[.rm .byte], [.rm .byte], .inc .byte⟩
      | 1 => some ⟨[.rm .byte], [.rm .byte], .dec .byte⟩
      | _ => none
    | 0xFF =>
      match digit with
      | 0 => some ⟨[.rm v], [.rm v], .inc v⟩
      | 1 => some ⟨[.rm v], [.rm v], .dec v⟩
      | 2 => if opsize then none else some ⟨[.fixed .esp .full, .rm .dword], stackSlots, .callReg⟩
      | 4 => if opsize then none else some ⟨[.rm .dword], [], .jmpReg⟩
      | _ => none
    | _ => none

def twoByteForm (opsize : Bool) : Option Form :=
  let cc := BitVec.ofNat 4 opcode
  if 0x80 <= opcode ∧ opcode < 0x90 then
    if opsize then none else some ⟨[], [], .jcc cc⟩
  else if 0x90 <= opcode ∧ opcode < 0xA0 then some ⟨[], [.rm .byte], .setcc cc⟩
  else if opsize then none
  else
    match opcode with
    | 0xAF => some ⟨[.reg .dword, .rm .dword], [.reg .dword], .imul⟩
    | 0xB6 => some ⟨[.rm .byte], [.reg .dword], .movx false .byte⟩
    | 0xB7 => some ⟨[.rm .word], [.reg .dword], .movx false .word⟩
    | 0xBE => some ⟨[.rm .byte], [.reg .dword], .movx true .byte⟩
    | 0xBF => some ⟨[.rm .word], [.reg .dword], .movx true .word⟩
    | _ => none

def immZ (opsize : Bool) : Nat := if opsize then 2 else 4

def oneByteShape : Option Shape :=
  let plain (n : Nat) : Option Shape := some ⟨false, fun _ _ => n⟩
  let coded (n : Nat) : Option Shape := some ⟨true, fun _ _ => n⟩
  if opcode < 0x40 then
    match opcode % 8 with
    | 4 => plain 1
    | 5 => some ⟨false, fun opsize _ => immZ opsize⟩
    | 6 => none
    | 7 => none
    | _ => coded 0
  else if opcode < 0x60 then plain 0
  else if 0x70 <= opcode ∧ opcode < 0x80 then plain 1
  else if 0xB0 <= opcode ∧ opcode < 0xB8 then plain 1
  else if 0xB8 <= opcode ∧ opcode < 0xC0 then some ⟨false, fun opsize _ => immZ opsize⟩
  else if 0xD0 <= opcode ∧ opcode < 0xD4 then coded 0
  else if 0xD8 <= opcode ∧ opcode < 0xE0 then coded 0
  else if opcode ∈ [0x68, 0xA9, 0xE8, 0xE9] then some ⟨false, fun opsize _ => immZ opsize⟩
  else if opcode ∈ [0x6A, 0xA8, 0xEB] then plain 1
  else if opcode ∈ [0x81, 0xC7] then some ⟨true, fun opsize _ => immZ opsize⟩
  else if opcode ∈ [0x80, 0x83, 0xC0, 0xC1, 0xC6] then coded 1
  else if opcode ∈ [0x84, 0x85, 0x88, 0x89, 0x8A, 0x8B, 0x8D, 0xFE, 0xFF] then coded 0
  else if opcode ∈ [0x90, 0x99, 0xA4, 0xA5, 0xA6, 0xA7, 0xAA, 0xAB, 0xAE, 0xAF, 0xC3] then plain 0
  else if opcode ∈ [0xA1, 0xA3] then plain 4
  else if opcode = 0xC2 then plain 2
  else if opcode = 0xF6 then some ⟨true, fun _ digit => if digit < 2 then 1 else 0⟩
  else if opcode = 0xF7 then some ⟨true, fun opsize digit => if digit < 2 then immZ opsize else 0⟩
  else none

def twoByteShape : Option Shape :=
  if 0x80 <= opcode ∧ opcode < 0x90 then some ⟨false, fun opsize _ => immZ opsize⟩
  else if 0x90 <= opcode ∧ opcode < 0xA0 then some ⟨true, fun _ _ => 0⟩
  else if opcode ∈ [0xAF, 0xB6, 0xB7, 0xBE, 0xBF] then some ⟨true, fun _ _ => 0⟩
  else none

def isaMap : OpcodeMap
  | .one b => oneByteShape b.toNat
  | .two b => twoByteShape b.toNat

/-- The form of an instruction, if the machine knows it. -/
def Raw.form (raw : Raw) : Option Form :=
  if raw.lock then none
  else
    match raw.opcode, raw.rep with
    | .one b, none =>
      if 0xD8 <= b.toNat ∧ b.toNat < 0xE0 then
        if raw.opsize then none else some (x87Form b (raw.modrm.getD 0))
      else oneByteForm b.toNat raw.digit.toNat (raw.mode == 3#2) raw.opsize
    | .one b, some whileZero => if raw.opsize then none else repeatedForm b.toNat whileZero
    | .two b, none => twoByteForm b.toNat raw.opsize
    | .two _, some _ => none

def Form.action {X : Type} (F : Fpu X) (next : Nat) (form : Form) (operand : Slot -> Operand) :
    Action X where
  srcs := form.srcs.map operand
  dsts := form.dsts.map operand
  flagsRead := form.op.flagsRead
  fn := form.op.eval F next

end Reprobit.Machine

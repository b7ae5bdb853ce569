import Reprobit.Decode.Length
import Reprobit.Register.Forms

/-!
# Decoding with the closed table

One instruction is decoded to its register fields, its complete register reads
and writes, its memory operand and its control flow; a body is decoded to
exhaustion.
-/

namespace Reprobit

open Machine

/-- `unknown` is the span of a repeated string operation. -/
structure MemoryOperand where
  base : Option Reg
  index : Option Reg
  scale : Nat
  displacement : Int
  absolute : Bool
  width : Nat
  read : Bool
  write : Bool
  unknown : Bool
  deriving DecidableEq, Repr

/-- Where the ModRM, SIB and displacement bytes stand. -/
structure Encoding where
  modrmAt : Nat
  mode : BitVec 2
  rm : BitVec 3
  reg : BitVec 3
  sibAt : Option Nat
  displacementAt : Option Nat
  displacementSize : Nat
  absolute : Bool
  deriving DecidableEq, Repr

/-- A register field: the byte that holds it and its bit shift. -/
structure Field where
  byte : Nat
  shift : Nat
  deriving DecidableEq, Repr

structure Instruction where
  offset : Nat
  length : Nat
  opcode : Nat
  fields : List Field
  reads : Finset Reg
  writes : Finset Reg
  flow : Flow
  target : Option Int
  frozen : Finset Reg
  memory : Option MemoryOperand
  encoding : Option Encoding
  indirect : Bool
  readAtoms : Finset Atom
  writeAtoms : Finset Atom
  deriving DecidableEq

/-- The sets the decoder accumulates while it walks over the encoding. -/
structure Touched where
  fields : List Field
  frozen : Finset Reg
  reads : Finset Reg
  writes : Finset Reg
  readAtoms : Finset Atom
  writeAtoms : Finset Atom

namespace Touched

def ofForm (form : BijectionForm) : Touched where
  fields := []
  frozen := form.implicitFrozen
  reads := form.reads
  writes := form.writes
  readAtoms := ia32RegisterAtoms form.reads ∪ ia32RegisterAtoms form.implicitFrozen
  writeAtoms := ia32RegisterAtoms form.writes

variable (t : Touched)

def addField (byte shift : Nat) : Touched :=
  { t with fields := t.fields ++ [⟨byte, shift⟩] }

def fieldName (width : Nat) (value : BitVec 3) : Reg :=
  if width = 8 then Reg.ofField (value &&& 3) else Reg.ofField value

def fieldAtoms (width : Nat) (value : BitVec 3) : Finset Atom :=
  let name := fieldName width value
  if width = 8 then {(name, if value < 4 then .l else .h)}
  else if width = 16 ∧ name ∈ ia32ByteAddressable then {(name, .l), (name, .h)}
  else ia32AtomsOf name

/-- A narrow write reads the register, and kills its atoms. -/
def touch (width : Nat) (value : BitVec 3) (isRead isWrite : Bool) : Touched :=
  let name := fieldName width value
  let atoms := fieldAtoms width value
  let kills := width = 32 ∨ name ∈ ia32ByteAddressable
  { t with
    frozen := if width = 8 then insert name t.frozen else t.frozen
    reads := if isRead ∨ (isWrite ∧ width ≠ 32) then insert name t.reads else t.reads
    writes := if isWrite ∧ width = 32 then insert name t.writes else t.writes
    readAtoms := if isRead ∨ (isWrite ∧ ¬ kills) then t.readAtoms ∪ atoms else t.readAtoms
    writeAtoms := if isWrite ∧ kills then t.writeAtoms ∪ atoms else t.writeAtoms }

def readAddress (r : Reg) : Touched :=
  { t with reads := insert r t.reads, readAtoms := t.readAtoms ∪ ia32AtomsOf r }

def addImplicit (i : Implicit) : Touched :=
  { t with
    reads := t.reads ∪ i.reads
    writes := t.writes ∪ i.writes
    frozen := t.frozen ∪ i.frozen
    readAtoms := t.readAtoms ∪ ia32RegisterAtoms (i.reads ∪ i.frozen)
    writeAtoms := t.writeAtoms ∪ ia32RegisterAtoms i.writes }

def readRegisters (names : Finset Reg) : Touched :=
  { t with reads := t.reads ∪ names, readAtoms := t.readAtoms ∪ ia32RegisterAtoms names }

end Touched

structure PrefixState where
  segment : Bool
  operandSize16 : Bool
  repeated : Option Byte
  deriving DecidableEq, Repr

def ia32InertSegmentPrefixes : List Byte := [38, 46, 54, 62, 100, 101]
def ia32RepeatPrefixes : List Byte := [242, 243]

variable (st : PrefixState) (form : BijectionForm) (opcode width : Nat) (encoded : List Byte)
  (b : OperandBytes) (context : String) (t : Touched)

def admitPrefix (b : Byte) (st : PrefixState) : Refusing PrefixState :=
  if b ∈ ia32InertSegmentPrefixes then do
    require (st.segment = false) (context ++ ": repeated segment prefix")
    pure { st with segment := true }
  else if b = 0x66#8 then do
    require (st.operandSize16 = false) (context ++ ": repeated operand-size prefix")
    pure { st with operandSize16 := true }
  else if b ∈ ia32RepeatPrefixes then do
    require (st.repeated = none) (context ++ ": repeated repeat prefix")
    pure { st with repeated := some b }
  else .error (context ++ ": prefixed instructions are outside the register-bijection table")

def scanPrefixes (context : String) : List Byte -> Nat -> PrefixState ->
    Refusing (Nat × PrefixState)
  | [], cursor, st => .ok (cursor, st)
  | b :: rest, cursor, st =>
    if isPrefix b then do
      let st <- admitPrefix context b st
      require (rest ≠ []) (context ++ ": instruction is only prefixes")
      scanPrefixes context rest (cursor + 1) st
    else .ok (cursor, st)

def readOpcode (cursor : Nat) (context : String) : Refusing (Nat × Nat) := do
  let opcode := (encoded.getD cursor 0).toNat
  if opcode = 15 then
    require (cursor + 1 < encoded.length) (context ++ ": truncated two-byte opcode")
    pure (3840 + (encoded.getD (cursor + 1) 0).toNat, cursor + 2)
  else pure (opcode, cursor + 1)

def lookupForm (opcode : Nat) (context : String) : Refusing (Option BijectionForm) :=
  match st.repeated with
  | some b => do
    let form? := ia32BijectionRepeatedStringForms b.toNat opcode
    require (form?.isSome) (context ++ ": the repeat prefix 0x" ++ hex02 b.toNat ++
      " on opcode 0x" ++ hex02 opcode ++ " is outside the register-bijection table")
    require (st.operandSize16 = false) (context ++ ": an operand-size prefix on a repeated " ++
      "string operation is outside the register-bijection table")
    pure form?
  | none => pure (bijectionFormFor opcode)

def selectForm (opcode : Nat) (context : String) : Refusing (BijectionForm × Nat) := do
  let some form <- lookupForm st opcode context |
    .error (context ++ ": opcode 0x" ++ hex02 opcode ++ " is outside the register-bijection table")
  if st.operandSize16 then
    require (form.size16Ok ∧ form.width = 32) (context ++ ": the operand-size prefix is outside " ++
      "the register-bijection table for this opcode")
    pure (form, 16)
  else pure (form, form.width)

/-! ## ModRM operands -/

/-- The ModRM byte and its followers, with their offsets. -/
structure OperandBytes where
  modrmAt : Nat
  modrm : Byte
  sibAt : Option Nat
  sib : Byte
  displacementAt : Option Nat
  displacement : List Byte

def absoluteOperand (modrm sib : Byte) : Bool :=
  modeOf modrm == 0#2 && (rmOf modrm == 5#3 || (rmOf modrm == 4#3 && baseOf sib == 5#3))

def readDisplacement (offset cursor : Nat) (modrm sib : Byte) (context : String) :
    Refusing (Option Nat × List Byte) := do
  if modeOf modrm = 1#2 then
    require (cursor < encoded.length) (context ++ ": instruction lacks its disp8")
    pure (some (offset + cursor), (encoded.drop cursor).take 1)
  else if modeOf modrm = 2#2 ∨ absoluteOperand modrm sib then
    require (cursor + 4 <= encoded.length) (context ++ ": instruction lacks its disp32")
    pure (some (offset + cursor), (encoded.drop cursor).take 4)
  else pure (none, [])

def readOperandBytes (offset cursor : Nat) (context : String) : Refusing OperandBytes := do
  require (cursor < encoded.length) (context ++ ": instruction lacks ModRM")
  let modrm := encoded.getD cursor 0
  if modeOf modrm = 3#2 then pure ⟨offset + cursor, modrm, none, 0#8, none, []⟩
  else if rmOf modrm = 4#3 then
    require (cursor + 1 < encoded.length) (context ++ ": instruction lacks SIB")
    let sib := encoded.getD (cursor + 1) 0
    let (at?, displacement) <- readDisplacement encoded offset (cursor + 2) modrm sib context
    pure ⟨offset + cursor, modrm, some (offset + (cursor + 1)), sib, at?, displacement⟩
  else
    let (at?, displacement) <- readDisplacement encoded offset (cursor + 1) modrm 0#8 context
    pure ⟨offset + cursor, modrm, none, 0#8, at?, displacement⟩

/-- Signed little-endian value. -/
def signedLe (bs : List Byte) : Int := (BitVec.ofNat (8 * bs.length) (leNat bs)).toInt

/-- Does the form write its r/m operand under this extension. -/
def BijectionForm.writesRm (digit : Nat) : Bool :=
  if form.reg = some .gpr then form.rmWrite
  else if digit ∈ form.extWrite then true
  else if digit ∈ form.extNoWrite then false
  else form.rmWrite

def touchRegField : Refusing Touched :=
  let field := regOf b.modrm
  if form.reg = some .gpr then
    let t := if width ≠ 8 then t.addField b.modrmAt 3 else t
    pure (t.touch width field form.regRead form.regWrite)
  else do
    require (form.reg = some .ext) (context ++ ": ModRM register field role is undeclared")
    require (form.extAllowed.all (fun allowed => field.toNat ∈ allowed))
      (context ++ ": ModRM extension /" ++ toString field.toNat ++ " of opcode 0x" ++
        hex02 opcode ++ " is outside the register-bijection table")
    require (width ≠ 16 ∨ form.size16Ext.all (fun allowed => field.toNat ∈ allowed))
      (context ++ ": the operand-size prefix on extension /" ++ toString field.toNat ++
        " of opcode 0x" ++ hex02 opcode ++ " is outside the register-bijection table")
    match form.extImplicit.lookup field.toNat with
    | some implicit => pure (t.addImplicit implicit)
    | none => pure t

def touchRmRegister : Touched :=
  if form.x87 then
    if opcode = 223 ∧ b.modrm = 224 then
      { t with
        writeAtoms := t.writeAtoms ∪ {(.eax, .l), (.eax, .h)}
        frozen := insert .eax t.frozen }
    else t
  else
    let width := form.rmWidth.getD width
    let t := if width ≠ 8 then t.addField b.modrmAt 0 else t
    t.touch width (rmOf b.modrm) form.rmRead (form.writesRm (regOf b.modrm).toNat)

def addressRegisters : Option Reg × Option Reg :=
  if rmOf b.modrm = 4#3 then
    (if absoluteOperand b.modrm b.sib then none else some (Reg.ofField (baseOf b.sib)),
      if indexOf b.sib = 4#3 then none else some (Reg.ofField (indexOf b.sib)))
  else (if absoluteOperand b.modrm b.sib then none else some (Reg.ofField (rmOf b.modrm)), none)

def Touched.addressField (byte shift : Nat) : Option Reg -> Touched
  | some r => (t.addField byte shift).readAddress r
  | none => t

def touchAddress : Touched :=
  let byte := b.sibAt.getD b.modrmAt
  (t.addressField byte 0 (addressRegisters b).1).addressField byte 3 (addressRegisters b).2

def memoryOperand (width : Nat) (b : OperandBytes) : Option MemoryOperand :=
  let rmWrite := form.writesRm (regOf b.modrm).toNat
  if form.rmRead || rmWrite || form.x87 then
    some {
      base := (addressRegisters b).1
      index := (addressRegisters b).2
      scale := if b.sibAt.isSome then 2 ^ (scaleOf b.sib).toNat else 1
      displacement := signedLe b.displacement
      absolute := absoluteOperand b.modrm b.sib
      width := max (width / 8) 1
      read := form.rmRead || form.x87
      write := rmWrite
      unknown := false }
  else none

/-- What the ModRM part of an encoding contributes. -/
structure ModrmView where
  touched : Touched
  memory : Option MemoryOperand
  encoding : Encoding

def decodeModrm : Refusing ModrmView := do
  let t <- touchRegField form opcode width b context t
  let direct := modeOf b.modrm = 3#2
  let t := if direct then touchRmRegister form opcode width b t else touchAddress b t
  require (form.reg ≠ some .gpr ∨ ¬ (form.regWrite ∧ form.rmWrite))
    (context ++ ": instruction form writes two operands")
  pure {
    touched := t
    memory := if direct then none else memoryOperand form width b
    encoding := {
      modrmAt := b.modrmAt
      mode := modeOf b.modrm
      rm := rmOf b.modrm
      reg := regOf b.modrm
      sibAt := b.sibAt
      displacementAt := b.displacementAt
      displacementSize := b.displacement.length
      absolute := absoluteOperand b.modrm b.sib } }

def BijectionForm.flowOf (digit : Option Nat) : Flow :=
  match digit with
  | some d => if form.reg = some .gpr then form.flow else (form.extFlow.lookup d).getD form.flow
  | none => form.flow

def decodeFlow (flow : Flow) (encoded : List Byte) (offset : Nat) (relocations : RelocationMap)
    (context : String) (t : Touched) : Refusing (Flow × Option Int × Touched) :=
  if (flow = .jcc ∨ flow = .jmp ∨ flow = .call) ∧ form.displacement ≠ 0 then
    let length := encoded.length
    let row := relocations.get (offset + length - form.displacement)
    let external := row.any (fun row => row.width = form.displacement)
    if flow = .call then
      let argument := if external then row.bind (fun row => msvcCallArgumentRegisters row.target)
        else none
      pure (flow, none, t.readRegisters (argument.getD ia32CallClobbered))
    else if external ∧ flow = .jmp then
      pure (.exit, none, { t with
        reads := ia32ExternalTransferLive
        writes := ∅
        readAtoms := ia32RegisterAtoms ia32ExternalTransferLive
        writeAtoms := ∅ })
    else if external then
      .error (context ++ ": a relocated conditional branch is outside the register-bijection table")
    else
      let relative := signedLe (encoded.drop (length - form.displacement))
      pure (flow, some (offset + length + relative), t)
  else if flow = .call then pure (flow, none, t.readRegisters ia32CallClobbered)
  else pure (flow, none, t)

/-- A repeated string operation has no address of its own. -/
def stringOperand (m : StringMemory) : MemoryOperand where
  base := none
  index := none
  scale := 1
  displacement := 0
  absolute := false
  width := 0
  read := m.read
  write := m.write
  unknown := true

/-- The register an `xor r, r` clears without reading it. -/
def zeroedRegister (modrm : Option Byte) : Option Reg :=
  match modrm with
  | some m =>
    if (opcode = 49 ∨ opcode = 51) ∧ width = 32 ∧ modeOf m = 3#2 ∧ rmOf m = regOf m then
      some (Reg.ofField (rmOf m))
    else none
  | none => none

def Touched.zeroed : Option Reg -> Touched
  | none => t
  | some r =>
    { t with
      reads := t.reads.erase r
      writes := insert r t.writes
      readAtoms := t.readAtoms \ ia32AtomsOf r
      writeAtoms := t.writeAtoms ∪ ia32AtomsOf r }

@[simp] theorem Touched.zeroed_fields (r : Option Reg) :
    (t.zeroed r).fields = t.fields := by cases r <;> rfl

@[simp] theorem Touched.zeroed_frozen (r : Option Reg) :
    (t.zeroed r).frozen = t.frozen := by cases r <;> rfl

def touchOpreg (width opcodeAt opcode : Nat) (t : Touched) : Touched :=
  match form.opreg with
  | none => t
  | some role =>
    let t := if width ≠ 8 then t.addField opcodeAt 0 else t
    t.touch width (BitVec.ofNat 3 opcode) (role ≠ .write) (role ≠ .read)

def decodeModrmPart (offset cursor : Nat) (context : String) (t : Touched) :
    Refusing (Touched × Option MemoryOperand × Option Encoding × Option Byte) :=
  if form.modrm then do
    let b <- readOperandBytes encoded offset cursor context
    let view <- decodeModrm form opcode width b context t
    pure (view.touched, view.memory, some view.encoding, some b.modrm)
  else pure (t, none, none, none)

def decodeOperands (offset opcodeAt opcode cursor : Nat) (relocations : RelocationMap)
    (context : String) : Refusing Instruction := do
  let (form, width) <- selectForm st opcode context
  let t := touchOpreg form width (offset + opcodeAt) opcode (Touched.ofForm form)
  let (t, memory, encoding, modrm) <-
    decodeModrmPart form opcode width encoded offset cursor context t
  let flow := form.flowOf (modrm.map fun m => (regOf m).toNat)
  let indirect := flow = .exit ∧ form.modrm
  let (flow, target, t) <- decodeFlow form flow encoded offset relocations context t
  let t := t.zeroed (zeroedRegister opcode width modrm)
  pure {
    offset := offset
    length := encoded.length
    opcode := opcode
    fields := t.fields
    reads := t.reads
    writes := t.writes
    flow := flow
    target := target
    frozen := t.frozen
    memory := match form.stringMemory with
      | some m => some (stringOperand m)
      | none => memory
    encoding := encoding
    indirect := indirect
    readAtoms := t.readAtoms
    writeAtoms := t.writeAtoms }

def decodeIa32BijectionInstruction (body : List Byte) (offset : Nat) (context : String)
    (relocations : RelocationMap) : Refusing Instruction := do
  require (offset < body.length) (context ++ ": instruction offset is out of range")
  let window := body.drop offset
  let length <- supportedIa32InstructionLength window context
  let encoded := window.take length
  require (encoded.length = length) (context ++ ": instruction is truncated")
  let (cursor, st) <- scanPrefixes context encoded 0 ⟨false, false, none⟩
  let (opcode, cursor') <- readOpcode encoded cursor context
  decodeOperands st encoded offset cursor opcode cursor' relocations context

def decodeFrom (code : List Byte) (context : String) (relocations : RelocationMap) :
    Nat -> Nat -> Refusing (List Instruction)
  | 0, _ => .ok []
  | fuel + 1, offset =>
    if offset < code.length then do
      let item <- decodeIa32BijectionInstruction code offset
        (context ++ " at " ++ toString offset) relocations
      let rest <- decodeFrom code context relocations fuel (offset + item.length)
      pure (item :: rest)
    else .ok []

def decodedEnd (instructions : List Instruction) : Nat :=
  (instructions.getLast?.map fun item => item.offset + item.length).getD 0

def decodeIa32BijectionBody (body : List Byte) (context : String) (relocations : RelocationMap)
    (codeLength : Option Nat) : Refusing (List Instruction) := do
  require (body ≠ []) (context ++ ": body is empty")
  let limit := codeLength.getD body.length
  require (0 < limit ∧ limit <= body.length) (context ++ ": code length is out of range")
  let code := body.take limit
  let instructions <- decodeFrom code context relocations code.length 0
  require (decodedEnd instructions = code.length)
    (context ++ ": body does not decode to exhaustion")
  require (limit < body.length -> instructions.getLast?.any
      (fun item => item.flow = .ret ∨ item.flow = .jmp ∨ item.flow = .exit))
    (context ++ ": code falls through into the body's data tail")
  let starts := instructions.map fun item => (item.offset : Int)
  requireEach instructions (fun item => item.target.all (fun target => target ∈ starts))
    fun item => context ++ ": branch at " ++ toString item.offset ++
      " does not target an instruction boundary in this body"
  pure instructions

end Reprobit

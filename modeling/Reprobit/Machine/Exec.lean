import Reprobit.Machine.Isa

/-!
# Running a function body

A body is a byte string with its load address and its relocations.  Control
that leaves it through a relocated transfer, a computed jump to a place outside
the declared landing offsets or a return ends the run.  A call is one step: the
callee is an arbitrary function of the memory, the stack pointer, the
floating-point unit and of those registers it is declared to read.
-/

namespace Reprobit.Machine

variable {X : Type}

/-- A link-time fixup of a field of the given width. -/
structure Reloc where
  width : Nat
  value : Word

structure Program where
  code : List Byte
  origin : Word
  reloc : Nat -> Option Reloc
  landings : Finset Nat

namespace Program

/-- What linking adds to a field that a fixup covers exactly. -/
def fixAt (P : Program) (at' size : Nat) : Word :=
  match P.reloc at' with
  | some r => if r.width = size then r.value else 0
  | none => 0

/-- Is the field covered by a fixup of its own width. -/
def relocated (P : Program) (at' size : Nat) : Bool :=
  match P.reloc at' with
  | some r => r.width == size
  | none => false

end Program

def Raw.dispAt (raw : Raw) : Nat :=
  raw.prefixes.length + raw.opcode.bytes.length + raw.modrm.toList.length + raw.sib.toList.length

def Raw.immAt (raw : Raw) : Nat := raw.dispAt + raw.disp.length

theorem Raw.length_eq (raw : Raw) : raw.length = raw.immAt + raw.imm.length := by
  simp [Raw.length, Raw.encode, Raw.immAt, Raw.dispAt, Nat.add_assoc]

theorem Raw.encode_drop_immAt (raw : Raw) : raw.encode.drop raw.immAt = raw.imm := by
  have : raw.encode = (raw.prefixes ++ raw.opcode.bytes ++ raw.modrm.toList ++ raw.sib.toList ++
      raw.disp) ++ raw.imm := rfl
  rw [this, List.drop_left']
  simp [Raw.immAt, Raw.dispAt, Nat.add_assoc]

def Program.fixups (P : Program) (pc : Nat) (raw : Raw) : Fixups where
  disp := P.fixAt (pc + raw.dispAt) raw.disp.length
  imm := P.fixAt (pc + raw.immAt) raw.imm.length

structure CallIn (X : Type) where
  site : Nat
  target : Option Nat
  args : Reg -> Option Word
  esp : Word
  memory : Word -> Byte
  fpu : X

structure CallOut (X : Type) where
  eax : Word
  ecx : Word
  edx : Word
  esp : Word
  memory : Word -> Byte
  flag : Flag -> Bool
  fpu : X

structure Env (X : Type) where
  fpu : Fpu X
  /-- The registers the callee of a call site reads as arguments. -/
  argRegs : Nat -> Finset Reg
  /-- The callee; `none` when it does not return. -/
  callee : CallIn X -> Option (CallOut X)

def Env.idle : Env Unit where
  fpu := ⟨fun _ _ _ _ x => ⟨x, none, noFlags⟩, fun _ => 0⟩
  argRegs _ := ∅
  callee _ := none

def callIn (E : Env X) (site : Nat) (target : Option Nat) (s : State X) : CallIn X where
  site := site
  target := target
  args r := if r ∈ E.argRegs site then some (s.regWord r) else none
  esp := s.regWord .esp
  memory a := s.cell (.mem a)
  fpu := s.fpu

/-- Scratch registers and stack pointer come from the callee. -/
def callReg (out : CallOut X) : Reg -> Option Word
  | .eax => some out.eax
  | .ecx => some out.ecx
  | .edx => some out.edx
  | .esp => some out.esp
  | _ => none

def afterCall (s : State X) (out : CallOut X) : State X where
  cell
    | .reg r k =>
      match callReg out r with
      | some v => byteAt v.toNat k
      | none => s.cell (.reg r k)
    | .mem a => out.memory a
  flag := out.flag
  segBase := s.segBase
  fpu := out.fpu

inductive Event (X : Type)
  | store (a : Word) (b : Byte)
  | call (c : CallIn X)

inductive Outcome (X : Type)
  | running (pc : Nat) (s : State X)
  | returned (s : State X)
  | left (target : Option Nat) (s : State X)
  | noReturn (s : State X)
  | fault (s : State X)
  | off (pc : Nat) (s : State X)
  | stuck (pc : Nat) (s : State X)

def storeEvents (us : List (Cell × Byte)) : List (Event X) :=
  us.filterMap fun u => match u.1 with
    | .mem a => some (.store a u.2)
    | .reg _ _ => none

/-- Signed relative displacement of a transfer. -/
def Raw.rel (raw : Raw) : Int := (BitVec.ofNat (8 * raw.imm.length) (leNat raw.imm)).toInt

/-- Where a taken relative transfer goes, if it stays in the body. -/
def branchTo (P : Program) (pc : Nat) (raw : Raw) (s : State X) : Outcome X :=
  if P.relocated (pc + raw.immAt) raw.imm.length then .left none s
  else
    let target := (pc + raw.length : Int) + raw.rel
    if 0 <= target then .running target.toNat s else .left none s

def jumpTo (P : Program) (v : Nat) (s : State X) : Outcome X :=
  let at' := (BitVec.ofNat 32 v - P.origin).toNat
  if at' ∈ P.landings then .running at' s else .left (some v) s

def callTo (E : Env X) (pc next : Nat) (target : Option Nat) (s : State X) :
    List (Event X) × Outcome X :=
  let view := callIn E pc target s
  ([.call view],
    match E.callee view with
    | none => .noReturn s
    | some out => .running next (afterCall s out))

def instrAction (P : Program) (E : Env X) (pc : Nat) (raw : Raw) (form : Form) : Action X :=
  form.action E.fpu (P.origin + BitVec.ofNat 32 (pc + raw.length)).toNat
    (raw.operand (P.fixups pc raw))

/-- Where control goes after an instruction's action. -/
def transfer (P : Program) (E : Env X) (pc : Nat) (raw : Raw) (ctl : Ctl) (s : State X) :
    List (Event X) × Outcome X :=
  match ctl with
  | .next => ([], .running (pc + raw.length) s)
  | .again => ([], .running pc s)
  | .branch => ([], branchTo P pc raw s)
  | .jump v => ([], jumpTo P v s)
  | .call target => callTo E pc (pc + raw.length) target s
  | .ret => ([], .returned s)
  | .fault => ([], .fault s)

def step (P : Program) (E : Env X) (pc : Nat) (s : State X) : List (Event X) × Outcome X :=
  if P.code.length <= pc then ([], .off pc s)
  else
    match parse isaMap (P.code.drop pc) with
    | none => ([], .stuck pc s)
    | some (raw, _) =>
      match raw.form with
      | none => ([], .stuck pc s)
      | some form =>
        let a := instrAction P E pc raw form
        let r := transfer P E pc raw (a.effect s).ctl (a.exec s)
        (storeEvents (a.updates s) ++ r.1, r.2)

end Reprobit.Machine

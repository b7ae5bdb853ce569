import Reprobit.Machine.Bounded
import Mathlib.Data.Fintype.Basic

/-!
# Byte-cell state of a flat 32-bit register machine

The eight general registers and the linear memory are one family of byte
cells, so that a sub-register write, a store and a renaming of either are all
statements about cells.  Flags and the floating-point unit stay apart from the
cells; the latter is a type parameter that no lemma below looks into.
-/

namespace Reprobit.Machine

abbrev Byte := BitVec 8
abbrev Word := BitVec 32

inductive Reg
  | eax | ecx | edx | ebx | esp | ebp | esi | edi
  deriving DecidableEq, Repr

namespace Reg

instance : Fintype Reg where
  elems := {eax, ecx, edx, ebx, esp, ebp, esi, edi}
  complete := by intro r; cases r <;> simp

def ofField (field : BitVec 3) : Reg :=
  match field.toNat with
  | 0 => eax
  | 1 => ecx
  | 2 => edx
  | 3 => ebx
  | 4 => esp
  | 5 => ebp
  | 6 => esi
  | _ => edi

end Reg

inductive Flag
  | cf | pf | af | zf | sf | of
  deriving DecidableEq, Repr

instance : Fintype Flag where
  elems := {.cf, .pf, .af, .zf, .sf, .of}
  complete := by intro f; cases f <;> simp

inductive Seg
  | es | cs | ss | ds | fs | gs
  deriving DecidableEq, Repr

/-- One byte of architectural storage. -/
inductive Cell
  | reg (r : Reg) (k : Fin 4)
  | mem (a : Word)
  deriving DecidableEq, Repr

structure State (X : Type) where
  cell : Cell -> Byte
  flag : Flag -> Bool
  segBase : Seg -> Word
  fpu : X

def leNat : List Byte -> Nat
  | [] => 0
  | b :: bs => b.toNat + 256 * leNat bs

/-- The `k`-th byte of a value. -/
def byteAt (v k : Nat) : Byte := BitVec.ofNat 8 (v / 256 ^ k)

/-- The part of a general register an operand field denotes. -/
inductive Part
  | low | high | word | full
  deriving DecidableEq, Repr

def Part.bytes : Part -> List (Fin 4)
  | low => [0]
  | high => [1]
  | word => [0, 1]
  | full => [0, 1, 2, 3]

structure Addr where
  seg : Option Seg
  base : Option Reg
  index : Option Reg
  shift : Nat
  disp : Word
  deriving DecidableEq, Repr

inductive Operand
  | reg (r : Reg) (part : Part)
  | mem (a : Addr) (size : Nat)
  | address (a : Addr)
  | const (v : Nat)
  deriving DecidableEq, Repr

namespace State

variable {X : Type}

variable (s : State X)

def regNat (r : Reg) : Nat :=
  leNat (Part.full.bytes.map fun k => s.cell (.reg r k))

def regWord (r : Reg) : Word := BitVec.ofNat 32 (s.regNat r)

def optWord : Option Reg -> Word
  | none => 0
  | some r => s.regWord r

/-- An absent segment override is the flat zero base. -/
def effective (a : Addr) : Word :=
  (match a.seg with | none => 0 | some g => s.segBase g) +
    s.optWord a.base + (s.optWord a.index <<< a.shift) + a.disp

def memCells (a : Word) (size : Nat) : List Cell :=
  (List.range size).map fun k => .mem (a + BitVec.ofNat 32 k)

def cells : Operand -> List Cell
  | .reg r part => part.bytes.map (Cell.reg r)
  | .mem a size => memCells (s.effective a) size
  | .address _ => []
  | .const _ => []

def read : Operand -> Nat
  | .reg r part => leNat ((s.cells (.reg r part)).map s.cell)
  | .mem a size => leNat ((s.cells (.mem a size)).map s.cell)
  | .address a => (s.effective a).toNat
  | .const v => v

def stores (o : Operand) (v : Nat) : List (Cell × Byte) :=
  (s.cells o).mapIdx fun k c => (c, byteAt v k)

end State

def applyUpdates (us : List (Cell × Byte)) (f : Cell -> Byte) : Cell -> Byte :=
  us.foldl (fun f u => Function.update f u.1 u.2) f

@[simp] theorem applyUpdates_nil (f : Cell -> Byte) : applyUpdates [] f = f := rfl

end Reprobit.Machine

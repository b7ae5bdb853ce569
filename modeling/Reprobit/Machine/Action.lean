import Reprobit.Machine.State

/-!
# Actions

An action is what one instruction does once its encoding has been resolved:
the operands it reads, the operands it may write, the flags it may read and a
function from the values read to the values written.  Whatever the function
is, the action can observe nothing but its sources and can change nothing but
its destinations; every renaming and independence argument rests on that.
-/

namespace Reprobit.Machine

inductive Ctl
  | next
  | again
  | branch
  | jump (target : Nat)
  | call (target : Option Nat)
  | ret
  | fault
  deriving DecidableEq, Repr

structure Effect (X : Type) where
  outs : List (Option Nat)
  flags : Flag -> Option Bool
  fpu : X
  ctl : Ctl

structure Action (X : Type) where
  srcs : List Operand
  dsts : List Operand
  flagsRead : Finset Flag
  fn : List Nat -> (Flag -> Bool) -> X -> Effect X

variable {X : Type}

namespace Action

def effect (a : Action X) (s : State X) : Effect X :=
  a.fn (a.srcs.map s.read) (fun f => decide (f ∈ a.flagsRead) && s.flag f) s.fpu

def updatesOf (s : State X) (p : Operand × Option Nat) : List (Cell × Byte) :=
  match p.2 with
  | none => []
  | some v => s.stores p.1 v

def updates (a : Action X) (s : State X) : List (Cell × Byte) :=
  (a.dsts.zip (a.effect s).outs).flatMap (updatesOf s)

def exec (a : Action X) (s : State X) : State X where
  cell := applyUpdates (a.updates s) s.cell
  flag f := ((a.effect s).flags f).getD (s.flag f)
  segBase := s.segBase
  fpu := (a.effect s).fpu

end Action

namespace State

end State

end Reprobit.Machine

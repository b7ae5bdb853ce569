import Reprobit.Machine.Action

/-!
# Integer arithmetic and condition codes

Results and flag effects at any width.  A flag the architecture leaves
undefined after an operation is given some fixed value; a flag it leaves
unchanged is reported as `none`.
-/

namespace Reprobit.Machine

inductive Width
  | byte | word | dword
  deriving DecidableEq, Repr

namespace Width

def bits : Width -> Nat
  | byte => 8
  | word => 16
  | dword => 32

def bytes : Width -> Nat
  | byte => 1
  | word => 2
  | dword => 4

end Width

inductive AluOp
  | add | or | adc | sbb | and | sub | xor | cmp
  deriving DecidableEq, Repr

inductive ShiftOp
  | rol | ror | shl | shr | sar
  deriving DecidableEq, Repr

abbrev FlagEffect := Flag -> Option Bool

def noFlags : FlagEffect := fun _ => none

/-- Even parity of the low byte. -/
def parity {n : Nat} (r : BitVec n) : Bool :=
  (List.range 8).foldl (fun p i => p ^^ r.getLsbD i) true

def resultFlags {n : Nat} (r : BitVec n) (cf of af : Bool) : FlagEffect
  | .cf => some cf
  | .of => some of
  | .af => some af
  | .zf => some (r == 0)
  | .sf => some r.msb
  | .pf => some (parity r)

def FlagEffect.keep (e : FlagEffect) (f : Flag) : FlagEffect := fun g => if g = f then none else e g

def addWith {n : Nat} (a b : BitVec n) (c : Bool) : BitVec n × FlagEffect :=
  let r := a + b + BitVec.ofNat n c.toNat
  (r, resultFlags r (decide (2 ^ n <= a.toNat + b.toNat + c.toNat))
    (a.msb == b.msb && r.msb != a.msb)
    (decide (16 <= a.toNat % 16 + b.toNat % 16 + c.toNat)))

def subWith {n : Nat} (a b : BitVec n) (c : Bool) : BitVec n × FlagEffect :=
  let r := a - b - BitVec.ofNat n c.toNat
  (r, resultFlags r (decide (a.toNat < b.toNat + c.toNat)) (a.msb != b.msb && r.msb != a.msb)
    (decide (a.toNat % 16 < b.toNat % 16 + c.toNat)))

def logic {n : Nat} (r : BitVec n) : BitVec n × FlagEffect := (r, resultFlags r false false false)

def AluOp.apply {n : Nat} (op : AluOp) (a b : BitVec n) (carry : Bool) : BitVec n × FlagEffect :=
  match op with
  | add => addWith a b false
  | or => logic (a ||| b)
  | adc => addWith a b carry
  | sbb => subWith a b carry
  | and => logic (a &&& b)
  | sub => subWith a b false
  | xor => logic (a ^^^ b)
  | cmp => subWith a b false

def AluOp.usesCarry : AluOp -> Bool
  | adc => true
  | sbb => true
  | _ => false

def ShiftOp.apply {n : Nat} (op : ShiftOp) (a : BitVec n) (count : Nat) : BitVec n × FlagEffect :=
  let k := count % 32
  if k = 0 then (a, noFlags)
  else
    match op with
    | rol =>
      let r := a.rotateLeft k
      (r, fun f => match f with
        | .cf => some (r.getLsbD 0)
        | .of => some (r.msb != r.getLsbD 0)
        | _ => none)
    | ror =>
      let r := a.rotateRight k
      (r, fun f => match f with
        | .cf => some r.msb
        | .of => some (r.msb != r.getLsbD (n - 2))
        | _ => none)
    | shl =>
      let r := a <<< k
      let c := decide (k <= n) && a.getLsbD (n - k)
      (r, resultFlags r c (r.msb != c) false)
    | shr =>
      let r := a >>> k
      (r, resultFlags r (a.getLsbD (k - 1)) a.msb false)
    | sar =>
      let r := a.sshiftRight k
      (r, resultFlags r ((a.sshiftRight (k - 1)).getLsbD 0) false false)

/-- The flags a condition code looks at. -/
def condFlags (cc : BitVec 4) : Finset Flag :=
  match cc.toNat / 2 with
  | 0 => {.of}
  | 1 => {.cf}
  | 2 => {.zf}
  | 3 => {.cf, .zf}
  | 4 => {.sf}
  | 5 => {.pf}
  | 6 => {.sf, .of}
  | _ => {.zf, .sf, .of}

/-- Odd condition codes negate the even code before them. -/
def condHolds (cc : BitVec 4) (fl : Flag -> Bool) : Bool :=
  let base :=
    match cc.toNat / 2 with
    | 0 => fl .of
    | 1 => fl .cf
    | 2 => fl .zf
    | 3 => fl .cf || fl .zf
    | 4 => fl .sf
    | 5 => fl .pf
    | 6 => fl .sf != fl .of
    | _ => fl .zf || (fl .sf != fl .of)
  base != cc.getLsbD 0

theorem exists_condHolds_false (cc : BitVec 4) : ∃ fl : Flag -> Bool,
    condHolds cc (fun f => decide (f ∈ condFlags cc) && fl f) = false := by
  have key : ∀ cc : BitVec 4, ∃ a b : Bool,
      condHolds cc (fun f => decide (f ∈ condFlags cc) && if f = .of then a else b) = false := by
    decide
  obtain ⟨a, b, h⟩ := key cc
  exact ⟨_, h⟩

end Reprobit.Machine

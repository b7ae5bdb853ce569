import Reprobit.Machine.Isa
import Mathlib.Algebra.Group.WithOne.Basic
import Mathlib.Algebra.BigOperators.Fin

/-!
# The x87 register stack

Eight slots addressed from the top, each empty or holding a value.  Pushing on
an occupied slot and using an empty one is a stack fault, after which the unit
has no state to compare.  The arithmetic is a parameter, and so is every
instruction of the unit that is not described here.
-/

namespace Reprobit.Machine

variable {α : Type}

/-- How the unit reads memory operands, and its operations, without laws. -/
structure FpArith (α : Type) where
  single : Nat -> α
  double : Nat -> α
  add : α -> α -> α
  sub : α -> α -> α
  mul : α -> α -> α

/-- The slots `st(0)` to `st(7)`. -/
abbrev FpSlots (α : Type) := Fin 8 -> Option α

/-- The state of the unit; `none` once a stack fault was raised. -/
abbrev FpStack (α : Type) := Option (FpSlots α)

namespace FpSlots

def push (v : α) (s : FpSlots α) : FpStack α :=
  match s 7 with
  | none => some fun i => if i = 0 then some v else s (i - 1)
  | some _ => none

def mapTop (f : α -> α) (s : FpSlots α) : FpStack α :=
  (s 0).map fun v => Function.update s 0 (some (f v))

def addPop (add : α -> α -> α) (s : FpSlots α) : FpStack α :=
  match s 0, s 1 with
  | some top, some below => some fun i =>
    if i = 0 then some (add below top) else if i = 7 then none else s (i + 1)
  | _, _ => none

def exchange (k : Fin 8) (s : FpSlots α) : FpStack α :=
  match s 0, s k with
  | some _, some _ => some (s ∘ Equiv.swap 0 k)
  | _, _ => none

theorem push_eq_some {v : α} {s t : FpSlots α} :
    s.push v = some t ↔ s 7 = none ∧ t = fun i => if i = 0 then some v else s (i - 1) := by
  unfold push
  cases s 7 <;> simp [eq_comm]

theorem addPop_eq_some {add : α -> α -> α} {s t : FpSlots α} :
    s.addPop add = some t ↔ ∃ top below, s 0 = some top ∧ s 1 = some below ∧
      t = fun i => if i = 0 then some (add below top) else if i = 7 then none else s (i + 1) := by
  unfold addPop
  cases s 0 <;> cases s 1 <;> simp [eq_comm]

end FpSlots

/-! ## Instructions -/

inductive FpInstr
  | loadSingle | loadDouble | addSingle | subSingle | mulSingle | mulDouble
  | addPop
  | exchange (k : Fin 8)
  | square
  deriving DecidableEq, Repr

namespace FpInstr

/-- With a memory operand only the extension digit counts. -/
def decode (opcode modrm : Byte) : Option FpInstr :=
  let digit := (regOf modrm).toNat
  if modeOf modrm = 3#2 then
    if opcode = 0xDE ∧ modrm = 0xC1 then some .addPop
    else if opcode = 0xD9 ∧ digit = 1 then some (.exchange (rmOf modrm).toFin)
    else if (opcode = 0xD8 ∨ opcode = 0xDC) ∧ modrm = 0xC8 then some .square
    else none
  else if opcode = 0xD9 ∧ digit = 0 then some .loadSingle
  else if opcode = 0xDD ∧ digit = 0 then some .loadDouble
  else if opcode = 0xD8 ∧ digit = 0 then some .addSingle
  else if opcode = 0xD8 ∧ digit = 4 then some .subSingle
  else if opcode = 0xD8 ∧ digit = 1 then some .mulSingle
  else if opcode = 0xDC ∧ digit = 1 then some .mulDouble
  else none

def exec (A : FpArith α) (operand : Nat) : FpInstr -> FpSlots α -> FpStack α
  | loadSingle => FpSlots.push (A.single operand)
  | loadDouble => FpSlots.push (A.double operand)
  | addSingle => FpSlots.mapTop fun v => A.add v (A.single operand)
  | subSingle => FpSlots.mapTop fun v => A.sub v (A.single operand)
  | mulSingle => FpSlots.mapTop fun v => A.mul v (A.single operand)
  | mulDouble => FpSlots.mapTop fun v => A.mul v (A.double operand)
  | addPop => FpSlots.addPop A.add
  | exchange k => FpSlots.exchange k
  | square => FpSlots.mapTop fun v => A.mul v v

end FpInstr

/-- `rest` executes what is not described here. -/
def FpArith.unit (A : FpArith α) (rest : Fpu (FpStack α)) : Fpu (FpStack α) where
  exec opcode modrm operand flags x :=
    match FpInstr.decode opcode modrm with
    | some i => ⟨x.bind (i.exec A operand), none, noFlags⟩
    | none => rest.exec opcode modrm operand flags x
  status := rest.status

/-! ## Pushing and folding

A program that pushes values and folds the two topmost slots.  Where the value
of a slot ends up depends on the program alone: every push moves it one slot
down, every fold one slot up, and the topmost slot stays. -/

inductive StackOp (β : Type)
  | push (v : β)
  | fold
  deriving DecidableEq, Repr

namespace StackOp

variable {β : Type}

def exec (add : α -> α -> α) (value : β -> α) : StackOp β -> FpSlots α -> FpStack α
  | push v => FpSlots.push (value v)
  | fold => FpSlots.addPop add

def execAll (add : α -> α -> α) (value : β -> α) : List (StackOp β) -> FpSlots α -> FpStack α
  | [], s => some s
  | op :: ops, s => (op.exec add value s).bind (execAll add value ops)

/-- The slot the value of slot `p` is in after the program. -/
def land : List (StackOp β) -> Nat -> Nat
  | [], p => p
  | push _ :: ops, p => land ops (p + 1)
  | fold :: ops, p => land ops (p - 1)

/-- The pushed values, each with the slot it ends up in. -/
def landings : List (StackOp β) -> List (Nat × β)
  | [] => []
  | push v :: ops => (land ops 0, v) :: landings ops
  | fold :: ops => landings ops

/-- The values that end up in a slot. -/
def addends (ops : List (StackOp β)) (k : Nat) : Multiset β :=
  (((landings ops).filter fun q => q.1 = k).map Prod.snd : List β)

theorem addends_push (v : β) (ops : List (StackOp β)) (k : Nat) :
    addends (push v :: ops) k = (if land ops 0 = k then {v} else 0) + addends ops k := by
  by_cases hk : land ops 0 = k
  · simp [addends, landings, hk, <- Multiset.cons_coe]
  · simp [addends, landings, hk]

@[simp] theorem addends_fold (ops : List (StackOp β)) (k : Nat) :
    addends (fold :: ops) k = addends ops k := rfl

end StackOp

def slotSum : Option α -> WithZero α
  | none => 0
  | some v => v

@[simp] theorem slotSum_none : slotSum (none : Option α) = 0 := rfl
@[simp] theorem slotSum_some (v : α) : slotSum (some v) = v := rfl

theorem slotSum_injective : Function.Injective (slotSum : Option α -> WithZero α) := by
  intro a b h
  cases a with
  | none => cases b <;> simp_all
  | some a => cases b <;> simp_all

namespace StackOp

variable {β : Type} [AddCommSemigroup α] {s t : FpSlots α}

theorem land_sum_push (v : β) (ops : List (StackOp β)) {w : α} (k : Fin 8)
    (h : s.push w = some t) :
    (∑ p : Fin 8, if land ops p = k then slotSum (t p) else 0) =
      (if land ops 0 = k then (w : WithZero α) else 0) +
        ∑ p : Fin 8, if land (push v :: ops) p = k then slotSum (s p) else 0 := by
  obtain ⟨hlast, rfl⟩ := FpSlots.push_eq_some.mp h
  simp only [Fin.sum_univ_eight]
  simp [hlast, add_assoc]
  rfl

theorem land_sum_fold (ops : List (StackOp β)) (k : Fin 8)
    (h : s.addPop (· + ·) = some t) :
    (∑ p : Fin 8, if land ops p = k then slotSum (t p) else 0) =
      ∑ p : Fin 8, if land (fold :: ops) p = k then slotSum (s p) else 0 := by
  obtain ⟨top, below, htop, hbelow, rfl⟩ := FpSlots.addPop_eq_some.mp h
  simp only [Fin.sum_univ_eight, land]
  by_cases h0 : land ops 0 = k
  · simp [htop, hbelow, h0, add_comm]
    rfl
  · simp [h0]
    rfl

theorem execAll_slot {value : β -> α} (ops : List (StackOp β))
    (h : execAll (· + ·) value ops s = some t) (k : Fin 8) :
    slotSum (t k) = (∑ p : Fin 8, if land ops p = k then slotSum (s p) else 0) +
      ((addends ops k).map fun v => (value v : WithZero α)).sum := by
  induction ops generalizing s with
  | nil =>
    cases h
    simp [land, addends, landings, Fin.val_inj]
  | cons op ops ih =>
    obtain ⟨s', hs', hrest⟩ := Option.bind_eq_some_iff.mp h
    rw [ih hrest]
    cases op with
    | push v =>
      rw [land_sum_push v ops k hs', addends_push, add_assoc, add_left_comm]
      split <;> simp
    | fold => rw [land_sum_fold ops k hs', addends_fold]

end StackOp

/-! ## Faults

Whether a program raises a fault depends on which slots are occupied only. -/

def FpSlots.SameTags {γ : Type} (s : FpSlots α) (t : FpSlots γ) : Prop :=
  ∀ i, (s i).isSome = (t i).isSome

namespace StackOp

variable {β γ : Type} {t : FpSlots γ} (add : α -> α -> α) (value : β -> α) (add' : γ -> γ -> γ)
  (value' : β -> γ)

theorem exec_sameTags (op : StackOp β) {s : FpSlots α} (h : s.SameTags t) :
    (∃ s' t', op.exec add value s = some s' ∧ op.exec add' value' t = some t' ∧ s'.SameTags t') ∨
      (op.exec add value s = none ∧ op.exec add' value' t = none) := by
  cases op with
  | push v =>
    have h7 := h 7
    cases hs : s 7 <;> cases ht : t 7 <;> simp [hs, ht] at h7
    · refine .inl ⟨_, _, FpSlots.push_eq_some.mpr ⟨hs, rfl⟩, FpSlots.push_eq_some.mpr ⟨ht, rfl⟩, ?_⟩
      intro i
      dsimp only
      split
      · rfl
      · exact h _
    · exact .inr ⟨by simp [exec, FpSlots.push, hs], by simp [exec, FpSlots.push, ht]⟩
  | fold =>
    have h0 := h 0
    have h1 := h 1
    cases hs0 : s 0 <;> cases ht0 : t 0 <;> simp [hs0, ht0] at h0
    · exact .inr ⟨by simp [exec, FpSlots.addPop, hs0], by simp [exec, FpSlots.addPop, ht0]⟩
    · cases hs1 : s 1 <;> cases ht1 : t 1 <;> simp [hs1, ht1] at h1
      · exact .inr ⟨by simp [exec, FpSlots.addPop, hs1],
          by simp [exec, FpSlots.addPop, ht1]⟩
      · refine .inl ⟨_, _, FpSlots.addPop_eq_some.mpr ⟨_, _, hs0, hs1, rfl⟩,
          FpSlots.addPop_eq_some.mpr ⟨_, _, ht0, ht1, rfl⟩, ?_⟩
        intro i
        dsimp only
        split
        · rfl
        · split
          · rfl
          · exact h _

theorem execAll_sameTags (ops : List (StackOp β)) {s : FpSlots α} (h : s.SameTags t) :
    (execAll add value ops s).isSome = (execAll add' value' ops t).isSome := by
  induction ops generalizing s t with
  | nil => rfl
  | cons op ops ih =>
    simp only [execAll]
    obtain ⟨s', t', hs', ht', htags⟩ | ⟨hs', ht'⟩ := exec_sameTags add value add' value' op h
    · rw [hs', ht']
      exact ih htags
    · rw [hs', ht']
      rfl

/-- Some starting stack runs the program without a fault. -/
def Fits (ops : List (StackOp β)) : Prop :=
  ∃ s : FpSlots Unit, (execAll (fun _ _ => ()) (fun _ => ()) ops s).isSome

theorem execAll_eq_none {ops : List (StackOp β)} (h : ¬ Fits ops) (add : α -> α -> α)
    (value : β -> α) (s : FpSlots α) : execAll add value ops s = none := by
  by_contra hne
  refine h ⟨fun i => (s i).map fun _ => (), ?_⟩
  rw [<- execAll_sameTags add value (fun _ _ => ()) (fun _ => ()) ops
    (show s.SameTags fun i => (s i).map fun _ => () from fun i => by simp)]
  exact Option.isSome_iff_ne_none.mpr hne

theorem execAll_congr [AddCommSemigroup α] {v w : β -> α} (ops : List (StackOp β))
    (h : ∀ k : Fin 8, (addends ops k).map v = (addends ops k).map w) (s : FpSlots α) :
    execAll (· + ·) v ops s = execAll (· + ·) w ops s := by
  have hsome := execAll_sameTags (· + ·) v (· + ·) w ops (show s.SameTags s from fun _ => rfl)
  cases hv : execAll (· + ·) v ops s with
  | none =>
    cases hw : execAll (· + ·) w ops s with
    | none => rfl
    | some u => simp [hv, hw] at hsome
  | some t =>
    cases hw : execAll (· + ·) w ops s with
    | none => simp [hv, hw] at hsome
    | some u =>
      rw [Option.some.injEq]
      funext k
      apply slotSum_injective
      have hmap := congrArg (fun m : Multiset α => (m.map (WithZero.coe : α -> WithZero α)).sum)
        (h k)
      simp only [Multiset.map_map, Function.comp_def] at hmap
      rw [execAll_slot ops hv k, execAll_slot ops hw k, hmap]

theorem addends_of_execAll {c d : β -> γ} (ops : List (StackOp β)) (hfits : Fits ops)
    (h : ∀ s : FpSlots (Multiset γ),
      execAll (· + ·) (fun i => {c i}) ops s = execAll (· + ·) (fun i => {d i}) ops s)
    (k : Fin 8) : (addends ops k).map c = (addends ops k).map d := by
  obtain ⟨tags, htags⟩ := hfits
  -- every occupied slot starts with the empty sum
  let s : FpSlots (Multiset γ) := fun i => (tags i).map fun _ => 0
  have hsame : s.SameTags tags := fun i => by simp [s]
  have hsum : ∀ e : β -> γ, ∀ t, execAll (· + ·) (fun i => {e i}) ops s = some t ->
      WithZero.lift (AddHom.id (Multiset γ)) (slotSum (t k)) = (addends ops k).map e := by
    intro e t ht
    rw [execAll_slot ops ht k, map_add, map_sum, Finset.sum_eq_zero, zero_add, map_multiset_sum,
      Multiset.map_map]
    · simp only [Function.comp_def]
      exact (congrArg Multiset.sum (Multiset.map_map _ e _)).symm.trans
        (Multiset.sum_map_singleton _)
    · intro p _
      split
      · cases hp : tags p with
        | none => simp [s, hp]
        | some _ => simp [s, hp]
      · exact map_zero _
  obtain ⟨t, ht⟩ := Option.isSome_iff_exists.mp
    ((execAll_sameTags (· + ·) (fun i => {c i}) _ _ ops hsame).trans htags)
  rw [<- hsum c t ht, <- hsum d t ((h s).symm.trans ht)]

end StackOp

end Reprobit.Machine

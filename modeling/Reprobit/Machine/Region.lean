import Reprobit.Machine.Exec
import Reprobit.Machine.X87

/-!
# Executing a stretch of code

Running while control stays inside a range of offsets, and what that does when
the range holds instructions of the floating-point unit only.
-/

namespace Reprobit.Machine

open List

variable {X α : Type} {pc : Nat}

/-- At most `n` steps, as long as control is in `[lo, hi)`. -/
def runWithin (P : Program) (E : Env X) (lo hi : Nat) : Nat -> Outcome X ->
    List (Event X) × Outcome X
  | n + 1, .running pc s =>
    if lo <= pc ∧ pc < hi then
      let r := step P E pc s
      let rest := runWithin P E lo hi n r.2
      (r.1 ++ rest.1, rest.2)
    else ([], .running pc s)
  | _, o => ([], o)

theorem runWithin_outside (P : Program) (E : Env X) {lo hi : Nat} (n : Nat) (s : State X)
    (h : ¬ (lo <= pc ∧ pc < hi)) : runWithin P E lo hi n (.running pc s) = ([], .running pc s) := by
  cases n with
  | zero => rfl
  | succ n => simp [runWithin, h]

theorem runWithin_succ (P : Program) (E : Env X) {lo hi : Nat} (n : Nat) (s : State X)
    (h : lo <= pc ∧ pc < hi) : runWithin P E lo hi (n + 1) (.running pc s) =
      ((step P E pc s).1 ++ (runWithin P E lo hi n (step P E pc s).2).1,
        (runWithin P E lo hi n (step P E pc s).2).2) := by
  simp [runWithin, h]

/-! ## Instructions of the floating-point unit -/

/-- The described instruction that a raw instruction is. -/
def Raw.fpInstr (raw : Raw) : Option FpInstr :=
  match raw.form with
  | some ⟨_, _, .x87 opcode modrm⟩ => FpInstr.decode opcode modrm
  | _ => none

/-- The value of the memory operand, zero without one. -/
def Raw.fpOperand (raw : Raw) (fix : Fixups) (s : State X) : Nat :=
  match raw.form with
  | some form => ((form.srcs.map (raw.operand fix)).map s.read).getD 0 0
  | none => 0

/-- The same machine state with another floating-point unit. -/
def State.withFpu {Y : Type} (s : State Y) (x : X) : State X :=
  ⟨s.cell, s.flag, s.segBase, x⟩

@[simp] theorem State.withFpu_self (s : State X) : s.withFpu s.fpu = s := rfl

variable {Y : Type} {E : Env (FpStack α)} {rest : Fpu (FpStack α)} {A : FpArith α} {P : Program}

@[simp] theorem State.withFpu_fpu (s : State Y) (x : X) : (s.withFpu x).fpu = x := rfl

@[simp] theorem State.withFpu_withFpu {Y Z : Type} (s : State Y) (z : Z) (x : X) :
    (s.withFpu z).withFpu x = s.withFpu x := rfl

@[simp] theorem State.read_withFpu (s : State Y) (x : X) (o : Operand) :
    (s.withFpu x).read o = s.read o := by
  cases o <;> rfl

@[simp] theorem Raw.fpOperand_withFpu (raw : Raw) (fix : Fixups) (s : State Y) (x : X) :
    raw.fpOperand fix (s.withFpu x) = raw.fpOperand fix s := by
  unfold fpOperand
  cases raw.form with
  | none => rfl
  | some form => simp [Function.comp_def]

/-- Such an instruction changes nothing but the unit. -/
theorem step_fp (hE : E.fpu = A.unit rest) (hpc : pc < P.code.length) {raw : Raw} {r : List Byte}
    (hparse : parse isaMap (P.code.drop pc) = some (raw, r)) {i : FpInstr}
    (hi : raw.fpInstr = some i) (s : State (FpStack α)) :
    step P E pc s = ([], .running (pc + raw.length)
      (s.withFpu (s.fpu.bind (i.exec A (raw.fpOperand (P.fixups pc raw) s))))) := by
  unfold Raw.fpInstr at hi
  split at hi
  · next srcs dsts opcode modrm hform =>
      have heffect : (instrAction P E pc raw ⟨srcs, dsts, .x87 opcode modrm⟩).effect s =
          ⟨[none], noFlags, s.fpu.bind (i.exec A (raw.fpOperand (P.fixups pc raw) s)), .next⟩ := by
        simp only [Action.effect, instrAction, Form.action, Op.eval, hE, FpArith.unit, hi,
          Raw.fpOperand, hform]
      have hupdates : (instrAction P E pc raw ⟨srcs, dsts, .x87 opcode modrm⟩).updates s = [] := by
        rw [Action.updates, heffect]
        cases (instrAction P E pc raw ⟨srcs, dsts, .x87 opcode modrm⟩).dsts with
        | nil => rfl
        | cons o os => simp [Action.updatesOf]
      rw [step, if_neg (by omega), hparse]
      simp only [hform, hupdates, heffect, transfer, storeEvents, filterMap_nil, nil_append]
      simp only [Action.exec, hupdates, heffect]
      rfl
  · cases hi

/-- The unit after instructions with the values of operands. -/
def fpRun (A : FpArith α) (instrs : List (FpInstr × Nat)) (x : FpStack α) : FpStack α :=
  instrs.foldl (fun x i => x.bind (i.1.exec A i.2)) x

@[simp] theorem fpRun_nil (A : FpArith α) (x : FpStack α) : fpRun A [] x = x := rfl

@[simp] theorem fpRun_cons (A : FpArith α) (i : FpInstr × Nat) (is : List (FpInstr × Nat))
    (x : FpStack α) : fpRun A (i :: is) x = fpRun A is (x.bind (i.1.exec A i.2)) := rfl

theorem fpRun_append (A : FpArith α) (is js : List (FpInstr × Nat)) (x : FpStack α) :
    fpRun A (is ++ js) x = fpRun A js (fpRun A is x) := by
  simp [fpRun]

@[simp] theorem fpRun_none (A : FpArith α) (is : List (FpInstr × Nat)) :
    fpRun A is none = none := by
  induction is with
  | nil => rfl
  | cons i is ih => simpa using ih

/-- A raw instruction the machine knows as a described one. -/
structure Raw.IsFp (raw : Raw) (i : FpInstr) : Prop where
  wellFormed : raw.WellFormed isaMap
  instr : raw.fpInstr = some i

def fpValues (s : State X) (block : List (Raw × FpInstr)) : List (FpInstr × Nat) :=
  block.map fun p => (p.2, p.1.fpOperand ⟨0, 0⟩ s)

def blockBytes (block : List (Raw × FpInstr)) : List Byte := block.flatMap fun p => p.1.encode

theorem length_le_blockBytes (block : List (Raw × FpInstr)) :
    block.length <= (blockBytes block).length := by
  induction block with
  | nil => simp
  | cons p block ih =>
    have hpos : 0 < p.1.encode.length := p.1.length_pos
    simp only [blockBytes, flatMap_cons, length_append, length_cons] at ih ⊢
    omega

@[simp] theorem fpValues_withFpu (s : State Y) (x : X) (block : List (Raw × FpInstr)) :
    fpValues (s.withFpu x) block = fpValues s block := by
  simp [fpValues]

theorem runWithin_fp (hE : E.fpu = A.unit rest) {lo hi : Nat}
    (hfix : ∀ offset size, lo <= offset -> offset + size <= hi -> P.fixAt offset size = 0)
    {block : List (Raw × FpInstr)} (hblock : ∀ p ∈ block, p.1.IsFp p.2) {n : Nat} (hpc : lo <= pc)
    (hcode : ∃ r, P.code.drop pc = blockBytes block ++ r)
    (hhi : pc + (blockBytes block).length = hi) (hn : block.length <= n) (s : State (FpStack α)) :
    runWithin P E lo hi n (.running pc s) =
      ([], .running hi (s.withFpu (fpRun A (fpValues s block) s.fpu))) := by
  induction block generalizing pc n s with
  | nil =>
    have : pc = hi := by simpa [blockBytes] using hhi
    subst this
    exact runWithin_outside P E n s (by omega)
  | cons p block ih =>
    obtain ⟨raw, i⟩ := p
    obtain ⟨m, rfl⟩ : ∃ m, n = m + 1 := ⟨n - 1, by simp at hn; omega⟩
    obtain ⟨r, hr⟩ := hcode
    have hraw := hblock (raw, i) (by simp)
    have hlen : raw.length + (blockBytes block).length =
      (blockBytes ((raw, i) :: block)).length := by
      simp [blockBytes, Raw.length]
    have hpos := raw.length_pos
    have hdrop : P.code.drop pc = raw.encode ++ (blockBytes block ++ r) := by
      rw [hr]
      simp [blockBytes]
    have hlt : pc < P.code.length := by
      by_contra hge
      rw [drop_eq_nil_of_le (by omega)] at hdrop
      have hzero := congrArg List.length hdrop
      rw [length_nil, length_append, show raw.encode.length = raw.length from rfl]
        at hzero
      omega
    have hfixups : P.fixups pc raw = ⟨0, 0⟩ := by
      have hin : raw.dispAt + raw.disp.length + raw.imm.length = raw.length := by
        rw [raw.length_eq, Raw.immAt]
      rw [Program.fixups, hfix _ _ (by omega) (by omega),
        hfix _ _ (by rw [Raw.immAt]; omega) (by rw [Raw.immAt]; omega)]
    have hparse : parse isaMap (P.code.drop pc) = some (raw, blockBytes block ++ r) := by
      rw [hdrop]
      exact parse_encode hraw.wellFormed _
    rw [runWithin_succ P E m s ⟨hpc, by omega⟩, step_fp hE hlt hparse hraw.instr, hfixups]
    have hlo : lo <= pc + raw.length := by omega
    have hnext := ih (fun q hq => hblock q (by simp [hq])) (n := m) hlo
      ⟨r, by rw [<- drop_drop, hdrop, Raw.length, drop_left]⟩ (by omega)
      (by simpa using hn)
    rw [hnext]
    simp [fpValues]

end Reprobit.Machine

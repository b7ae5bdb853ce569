import Reprobit.Register.Sound
import Reprobit.Machine.FlagSpec

/-!
# The form table against the machine

For every admitted encoding the table agrees with the machine's form on where
control goes, on what an exit reads and on the memory operand: a memory source
is a declared read, and a declared store of four bytes is one.  The comparison is
a decidable check, run once over the opcode space.
-/

namespace Reprobit

open Machine Option

/-! ## The check -/

variable (opcode : Nat) (form : BijectionForm) (width digit : Nat) (direct : Bool)

/-- Registers the table declares read without naming an encoding field. -/
def accountedReads (digit : Nat) : Finset Reg :=
  form.reads ∪ form.implicitFrozen ∪ (match form.extImplicit.lookup digit with
      | some i => i.reads ∪ i.frozen
      | none => ∅)

def x87RealStore (opcode digit : Nat) : Bool :=
  (opcode == 217 || opcode == 221) && (digit == 2 || digit == 3)

def sourceAgrees (digit : Nat) (direct : Bool) : Slot -> Bool
  | .rm _ => form.modrm && form.rmRead && !form.x87 && form.stringMemory.isNone
  | .memory _ => form.modrm && !direct && form.x87 && !x87RealStore opcode digit &&
      form.stringMemory.isNone
  | .address => form.modrm && !direct && opcode == 141
  | _ => true

def storeAgrees (f : Form) : Bool :=
  direct ||
    if form.x87 then
      !x87RealStore opcode digit || f.dsts.contains (.memory 4) || f.dsts.contains (.memory 8)
    else !form.writesRm digit || form.rmRead || width != 32 || f.dsts.contains (.rm .dword)

def memoryAgrees (f : Form) : Bool :=
  decide (width <= 32) && form.x87 == decide (216 <= opcode ∧ opcode <= 223) &&
  f.srcs.all (sourceAgrees opcode form digit direct) &&
  storeAgrees opcode form width digit direct f

def flowAgrees (flow : Flow) (op : Op) : Bool :=
  match op with
  | .jcc _ => flow == .jcc
  | .jmp => flow == .jmp
  | .jmpReg => flow == .exit
  | .call => flow == .call
  | .callReg => flow == .call
  | .ret => flow == .ret
  | _ => flow == .fall

/-- What leaves the body reads what its continuation may look at. -/
def exitReads (digit : Nat) : Bool :=
  match form.flowOf (some digit) with
  | .exit => form.modrm && decide (ia32GeneralRegisterNames ⊆ accountedReads form digit)
  | .ret => decide (ia32ReturnLive ⊆ accountedReads form digit)
  | _ => true

/-- It ends in its displacement, without other operand bytes. -/
def transferShape (digit : Nat) : Bool :=
  (form.displacement == 0 || (!form.modrm && !form.size16Ok)) &&
  ((form.flowOf (some digit) != .jcc && form.flowOf (some digit) != .jmp) ||
    form.displacement != 0)

def isString : Op -> Bool
  | .string _ _ _ => true
  | _ => false

def formAgrees (f : Form) : Bool :=
  flowAgrees (form.flowOf (some digit)) f.op &&
  ((form.extImplicit.isEmpty && form.extFlow.isEmpty) || (form.modrm && form.reg == some .ext)) &&
  exitReads form digit && transferShape form digit &&
  isString f.op == form.stringMemory.isSome &&
  memoryAgrees opcode form width digit direct f

instance : Decidable (ExtensionAdmitted form width digit) :=
  inferInstanceAs (Decidable (_ ∨ _))

/-- All encodings of one form agree with what `machine` makes of them. -/
def allAgree (machine : (digit : Nat) -> (direct opsize : Bool) -> Option Form)
    (form : BijectionForm) : Bool :=
  decide (∀ digit : Fin 8, ∀ direct opsize : Bool,
    (opsize = true -> form.size16Ok = true ∧ form.width = 32) ->
    (form.modrm = true -> ExtensionAdmitted form (if opsize then 16 else form.width) digit) ->
    (machine digit direct opsize).any
      (formAgrees opcode form (if opsize then 16 else form.width) digit direct) = true)

theorem oneByte_agree : ∀ b : Byte, isX87 b = false ->
    (ia32BijectionTable b.toNat).all (allAgree b.toNat (oneByteForm b.toNat)) = true := by
  decide +kernel

theorem twoByte_agree : ∀ b : Byte, (ia32BijectionTwoByteTable b.toNat).all
      (allAgree (3840 + b.toNat) fun _ _ opsize => twoByteForm b.toNat opsize) = true := by
  decide

theorem repeated_agree : ∀ b : Byte, ∀ whileZero : Bool,
    (ia32BijectionRepeatedStringForms (if whileZero then 243 else 242) b.toNat).all
      (allAgree b.toNat fun _ _ opsize =>
        if opsize then none else repeatedForm b.toNat whileZero) = true := by
  decide

theorem x87_agree : ∀ b : Byte, isX87 b = true -> ∀ m : Byte,
    (ia32BijectionTable b.toNat).all (fun form => !form.size16Ok && form.modrm &&
      formAgrees b.toNat form form.width (regOf m).toNat (modeOf m == 3#2)
      (x87Form b m)) = true := by
  decide

theorem rep_eq (raw : Raw) : raw.rep = (repeatOf raw.prefixes).map (· == 0xF3#8) := by
  unfold Raw.rep repeatOf
  by_cases h3 : 0xF3#8 ∈ raw.prefixes
  · simp [h3]
  · by_cases h2 : 0xF2#8 ∈ raw.prefixes
    · simp [h3]
    · simp [h2]

variable {form : BijectionForm}

theorem allAgree_iff {opcode : Nat} {machine : Nat -> Bool -> Bool -> Option Form} :
    allAgree opcode machine form = true ↔ ∀ digit : Fin 8, ∀ direct opsize : Bool,
      (opsize = true -> form.size16Ok = true ∧ form.width = 32) ->
      (form.modrm = true -> ExtensionAdmitted form (if opsize then 16 else form.width) digit) ->
      ∃ f, machine digit direct opsize = some f ∧
        formAgrees opcode form (if opsize then 16 else form.width) digit direct f = true := by
  simp only [allAgree, decide_eq_true_eq, any_eq_true]

theorem Decodes.agrees {relocations : RelocationMap} {offset : Nat} {raw : Raw} {t : Touched}
    {item : Instruction} (hwf : raw.WellFormed lengthMap)
    (h : Decodes relocations offset raw form t item) : ∃ f, raw.form = some f ∧
      formAgrees (opcodeKey raw.opcode) form (widthOf raw form) raw.digit.toNat
      (raw.mode == 3#2) f = true := by
  have hlock : raw.lock = false := by
    have := h.no_lock
    simpa [Raw.lock] using this
  have hsize : raw.opsize = true -> form.size16Ok = true ∧ form.width = 32 :=
    fun ho => ⟨(h.size16 ho).1, (h.size16 ho).2.1⟩
  have hmodrm := (wellFormed_isa h.form_eq hwf).2
  have hext : form.modrm = true ->
      ExtensionAdmitted form (if raw.opsize then 16 else form.width) raw.digit.toNat := by
    intro hm
    rw [hmodrm] at hm
    obtain ⟨m, hm⟩ := isSome_iff_exists.mp hm
    have := h.extension m hm
    simpa [Raw.digit, hm, widthOf] using this
  have hdigit : raw.digit.toNat < 8 := raw.digit.isLt
  have hform := h.form_eq
  unfold formOf at hform
  have hrep := rep_eq raw
  unfold Raw.form
  simp only [hlock, Bool.false_eq_true]
  cases hr : repeatOf raw.prefixes with
  | none =>
    simp only [hr] at hform
    rw [hr, map_none] at hrep
    cases hop : raw.opcode with
    | one b =>
      rw [hop, bijectionFormFor_one] at hform
      simp only [hrep]
      by_cases hx : isX87 b = true
      · have hx' : 0xD8 <= b.toNat ∧ b.toNat < 0xE0 := (isX87_iff b).mp hx
        have hmod : form.size16Ok = false ∧ form.modrm = true := by
          have := x87_agree b hx 0
          rw [hform] at this
          simp only [all_some, Bool.and_eq_true, Bool.not_eq_true'] at this
          exact this.1
        have hos : raw.opsize = false := by
          cases ho : raw.opsize with
          | false => rfl
          | true => rw [(hsize ho).1] at hmod; cases hmod.1
        obtain ⟨m, hm⟩ := isSome_iff_exists.mp (hmodrm ▸ hmod.2)
        have hall := x87_agree b hx m
        rw [hform] at hall
        simp only [all_some, Bool.and_eq_true] at hall
        refine ⟨x87Form b m, by simp [hx', hos, hm], ?_⟩
        simpa [opcodeKey, widthOf, hos, Raw.digit, Raw.mode, hm] using hall.2
      · have hx' : ¬ (0xD8 <= b.toNat ∧ b.toNat < 0xE0) := fun h => hx ((isX87_iff b).mpr h)
        have hall := oneByte_agree b (by simpa using hx)
        rw [hform] at hall
        have := allAgree_iff.mp hall ⟨raw.digit.toNat, hdigit⟩ (raw.mode == 3#2) raw.opsize
          hsize hext
        simpa only [hx', if_false, widthOf, opcodeKey] using this
    | two b =>
      rw [hop, bijectionFormFor_two] at hform
      simp only [hrep]
      have hall := twoByte_agree b
      rw [hform, all_some] at hall
      exact allAgree_iff.mp hall ⟨raw.digit.toNat, hdigit⟩ (raw.mode == 3#2) raw.opsize hsize hext
  | some p =>
    simp only [hr] at hform
    rw [hr] at hrep
    cases hop : raw.opcode with
    | one b =>
      rw [hop] at hform
      simp only [hrep]
      have hall := repeated_agree b (p == 0xF3#8)
      have hp : (if (p == 0xF3#8) = true then 243 else 242) = p.toNat := by
        rcases repeatOf_mem hr with rfl | rfl <;> rfl
      rw [hp, show ia32BijectionRepeatedStringForms p.toNat b.toNat = some form from hform,
        all_some] at hall
      exact allAgree_iff.mp hall ⟨raw.digit.toNat, hdigit⟩ (raw.mode == 3#2) raw.opsize hsize hext
    | two b =>
      rw [hop, repeatedStringForms_two] at hform
      cases hform

end Reprobit

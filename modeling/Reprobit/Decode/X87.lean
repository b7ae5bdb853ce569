import Reprobit.Decode.Length
import Reprobit.Machine.Region
import Mathlib.Tactic.IntervalCases

/-!
# Encodings of x87 instructions

An instruction that starts with an x87 escape byte has no prefix, and the
length tables and the machine read it the same way.
-/

namespace Reprobit

open Machine

/-- The eight escape opcodes of the floating-point unit. -/
def IsEscape (b : Byte) : Prop := 0xD8 <= b.toNat ∧ b.toNat < 0xE0

instance (b : Byte) : Decidable (IsEscape b) := inferInstanceAs (Decidable (_ ∧ _))

theorem isPrefix_escape : ∀ b : Byte, IsEscape b -> isPrefix b = false := by decide

theorem oneByteTable_escape : ∀ b : Byte, IsEscape b -> oneByteTable b.toNat = some [.M] := by
  decide

theorem oneByteShape_escape {n : Nat} (h : 0xD8 <= n ∧ n < 0xE0) :
    oneByteShape n = some ⟨true, fun _ _ => 0⟩ := by
  obtain ⟨h1, h2⟩ := h
  interval_cases n <;> rfl

/-- The parts of an instruction that starts with an escape byte. -/
structure EscapeParts (raw : Raw) (b m : Byte) : Prop where
  prefixes : raw.prefixes = []
  opcode : raw.opcode = .one b
  modrm : raw.modrm = some m
  imm : raw.imm = []
  wellFormed : raw.WellFormed isaMap

theorem escapeParts {raw : Raw} (hwf : raw.WellFormed lengthMap) {b : Byte} (hb : IsEscape b)
    (hhead : raw.encode.head? = some b) : ∃ m, EscapeParts raw b m := by
  have hprefixes : raw.prefixes = [] := by
    cases hp : raw.prefixes with
    | nil => rfl
    | cons p ps =>
      have hpb : p = b := by simpa [Raw.encode, hp] using hhead
      have := hwf.prefixes_prefix p (by simp [hp])
      rw [hpb, isPrefix_escape b hb] at this
      cases this
  have hopcode : raw.opcode = .one b := by
    cases hop : raw.opcode with
    | one c => simpa [Raw.encode, hprefixes, hop, Opcode.bytes] using hhead
    | two c =>
      have h0F : 0x0F#8 = b := by simpa [Raw.encode, hprefixes, hop, Opcode.bytes] using hhead
      rw [<- h0F] at hb
      exact absurd hb (by decide)
  obtain ⟨shape, hshape, hoperand, himm⟩ := hwf.shape
  have hshape' : shape = tokensShape [.M] := by
    rw [hopcode, lengthMap, opcodeTokens, oneByteTable_escape b hb] at hshape
    simpa [eq_comm] using hshape
  subst hshape'
  have himm0 : raw.imm = [] := by simpa [tokensShape, Token.size] using himm
  have hmodrm : (tokensShape [.M]).modrm = true := rfl
  cases hm : raw.modrm with
  | none => rw [hm] at hoperand; exact hoperand.elim
  | some m =>
    refine ⟨m, hprefixes, hopcode, hm, himm0, { hwf with shape := ?_ }⟩
    refine ⟨⟨true, fun _ _ => 0⟩, ?_, hoperand, by simp [himm0]⟩
    rw [hopcode, isaMap, oneByteShape_escape hb]

theorem extension_eq : ∀ m : Byte, m &&& 0x38#8 = (regOf m).setWidth 8 <<< 3 := by decide

namespace EscapeParts

variable {raw : Raw} {b m : Byte}

theorem encode_eq (h : EscapeParts raw b m) :
    raw.encode = b :: m :: (raw.sib.toList ++ raw.disp) := by
  simp [Raw.encode, h.prefixes, h.opcode, h.modrm, h.imm, Opcode.bytes]

theorem form_eq (h : EscapeParts raw b m) (hb : IsEscape b) : raw.form = some (x87Form b m) := by
  have hb' : 0xD8 <= b.toNat ∧ b.toNat < 0xE0 := hb
  simp [Raw.form, Raw.lock, Raw.rep, Raw.opsize, h.prefixes, h.opcode, h.modrm, hb']

theorem isFp_memory (h : EscapeParts raw b m) (hb : IsEscape b) (hm : modeOf m ≠ 3#2)
    {i : FpInstr} (hi : FpInstr.decode b ((regOf m).setWidth 8 <<< 3) = some i) : raw.IsFp i := by
  refine ⟨h.wellFormed, ?_⟩
  rw [Raw.fpInstr, h.form_eq hb, x87Form, if_neg hm]
  rw [<- extension_eq] at hi
  cases x87Loads b.toNat (regOf m).toNat <;> simpa using hi

theorem isFp_register (h : EscapeParts raw b m) (hb : IsEscape b) (hm : modeOf m = 3#2)
    {i : FpInstr} (hi : FpInstr.decode b m = some i) : raw.IsFp i := by
  have hstatus : ¬ (b = 0xDF ∧ m = 0xE0) := by
    rintro ⟨rfl, rfl⟩
    cases hi
  refine ⟨h.wellFormed, ?_⟩
  rw [Raw.fpInstr, h.form_eq hb, x87Form, if_pos hm, if_neg hstatus]
  exact hi

end EscapeParts

end Reprobit

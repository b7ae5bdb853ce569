import Reprobit.Register.Decode
import Reprobit.Machine.Exec

/-!
# What a decoded instruction says about the machine

The cursor walk of the decoder is a view of the parsed instruction: the first
part reads every decoded quantity off the instruction's parts.  The second part
compares the form table with the machine's own forms, opcode by opcode.
-/

namespace Reprobit

open Machine List

/-! ## The cursor walk -/

def opcodeKey : Opcode -> Nat
  | .one b => b.toNat
  | .two b => 3840 + b.toNat

variable {context : String} {b m : Byte} {st : PrefixState} {ps rest : List Byte} {raw : Raw}
  {form : BijectionForm} {opcode cursor width offset : Nat} {op : Opcode}

theorem admitPrefix_cases {st' : PrefixState} (h : admitPrefix context b st = .ok st') :
    (b ∈ ia32InertSegmentPrefixes ∧ st' = { st with segment := true }) ∨
      (b = 0x66#8 ∧ st' = { st with operandSize16 := true }) ∨
      (b ∈ ia32RepeatPrefixes ∧ st.repeated = none ∧ st' = { st with repeated := some b }) := by
  unfold admitPrefix at h
  split at h
  · next hs =>
      replace h := after_require h
      exact .inl ⟨hs, (pure_eq_ok.mp h).symm⟩
  · split at h
    · next h66 =>
        replace h := after_require h
        exact .inr (.inl ⟨h66, (pure_eq_ok.mp h).symm⟩)
    · split at h
      · next hr =>
          obtain ⟨hn, h⟩ := require_bind_eq_ok.mp h
          exact .inr (.inr ⟨hr, hn, (pure_eq_ok.mp h).symm⟩)
      · cases h

/-- The repeat prefix of a prefix run. -/
def repeatOf (ps : List Byte) : Option Byte :=
  if 0xF3#8 ∈ ps then some 0xF3#8 else if 0xF2#8 ∈ ps then some 0xF2#8 else none

/-- What an accepted prefix run leaves behind. -/
theorem scanPrefixes_spec {result : Nat × PrefixState} (hps : ∀ p ∈ ps, isPrefix p = true)
    (hb : isPrefix b = false) (h : scanPrefixes context (ps ++ b :: rest) cursor st = .ok result) :
    result.1 = cursor + ps.length ∧ 0xF0#8 ∉ ps ∧
      result.2.operandSize16 = (st.operandSize16 || ps.contains 0x66#8) ∧
      result.2.repeated = st.repeated.or (repeatOf ps) ∧
      (st.repeated.isSome -> repeatOf ps = none) := by
  induction ps generalizing cursor st with
  | nil =>
    simp only [nil_append, scanPrefixes, hb, Bool.false_eq_true, if_false,
      Except.ok.injEq] at h
    subst h
    simp [repeatOf]
  | cons p ps ih =>
    have hp : isPrefix p = true := hps p (by simp)
    simp only [cons_append, scanPrefixes, hp, if_true, bind_eq_ok] at h
    obtain ⟨st₁, hadmit, _, -, hrest⟩ := h
    obtain ⟨hc, hF0, hsize, hrep, hone⟩ := ih (fun q hq => hps q (by simp [hq])) hrest
    refine ⟨by rw [hc]; simp; omega, ?_⟩
    rcases admitPrefix_cases hadmit with ⟨hs, rfl⟩ | ⟨rfl, rfl⟩ | ⟨hr, hn, rfl⟩
    · have hne : ∀ q ∈ ia32InertSegmentPrefixes,
          q ≠ 0xF0#8 ∧ q ≠ 0x66#8 ∧ q ≠ 0xF2#8 ∧ q ≠ 0xF3#8 := by decide
      obtain ⟨h1, h2, h3, h4⟩ := hne p hs
      have hrp : repeatOf (p :: ps) = repeatOf ps := by
        simp [repeatOf, h3.symm, h4.symm]
      refine ⟨by simp [hF0, h1.symm], ?_, by rw [hrep, hrp], by rw [hrp]; exact hone⟩
      rw [hsize]
      simp [h2.symm]
    · have hrp : repeatOf (0x66#8 :: ps) = repeatOf ps := by simp [repeatOf]
      refine ⟨by simp [hF0], ?_, by rw [hrep, hrp], by rw [hrp]; exact hone⟩
      rw [hsize]
      simp
    · have hnone : repeatOf ps = none := hone rfl
      have hp3 : 0xF3#8 ∉ ps := by
        intro hmem; simp [repeatOf, hmem] at hnone
      have hp2 : 0xF2#8 ∉ ps := by
        intro hmem; simp [repeatOf, hp3, hmem] at hnone
      have hcases : p = 0xF2#8 ∨ p = 0xF3#8 := by simpa [ia32RepeatPrefixes] using hr
      have hrp : repeatOf (p :: ps) = some p := by
        rcases hcases with rfl | rfl <;> simp [repeatOf, hp3]
      refine ⟨?_, ?_, ?_, ?_⟩
      · rcases hcases with rfl | rfl <;> simp [hF0]
      · rw [hsize]
        rcases hcases with rfl | rfl <;> simp
      · rw [hrep, hrp, hn]; simp
      · simp [hn]

theorem readOpcode_encode (hop : op.WellFormed) (context : String) :
    readOpcode (ps ++ op.bytes ++ rest) ps.length context =
      .ok (opcodeKey op, ps.length + op.bytes.length) := by
  cases op with
  | one b =>
    have hb : b.toNat ≠ 15 := fun h => hop (BitVec.eq_of_toNat_eq h)
    simp [readOpcode, Opcode.bytes, opcodeKey, hb, pure, Except.pure]
  | two b =>
    simp [readOpcode, Opcode.bytes, opcodeKey, pure, Except.pure, bind, Except.bind, require]

def operandBytesOf (raw : Raw) (offset : Nat) (m : Byte) : OperandBytes where
  modrmAt := offset + (raw.prefixes.length + raw.opcode.bytes.length)
  modrm := m
  sibAt := raw.sib.map fun _ => offset + (raw.prefixes.length + raw.opcode.bytes.length + 1)
  sib := raw.sib.getD 0#8
  displacementAt := if raw.disp = [] then none else some (offset + raw.dispAt)
  displacement := raw.disp

theorem dispSize_eq {sib : Option Byte} (hsib : sib.isSome = hasSib m) (hmode : modeOf m ≠ 3#2) :
    dispSize m sib =
      if modeOf m = 1#2 then 1
      else if modeOf m = 2#2 ∨ absoluteOperand m (sib.getD 0#8) then 4 else 0 := by
  unfold dispSize absoluteOperand
  have hcases : modeOf m = 0#2 ∨ modeOf m = 1#2 ∨ modeOf m = 2#2 := by
    revert hmode; generalize modeOf m = x; revert x; decide
  rcases hcases with h | h | h
  · by_cases h5 : rmOf m = 5#3
    · simp [h, h5]
    · by_cases h4 : rmOf m = 4#3
      · cases sib with
        | none => simp [hasSib, h, h4] at hsib
        | some s => by_cases hb : baseOf s = 5#3 <;> simp [h, h4]
      · simp [h5, h4]
  · simp [h]
  · simp [h]

theorem readDisplacement_encode {encoded disp : List Byte} (offset : Nat) {s : Byte}
    (context : String) (hdrop : encoded.drop cursor = disp ++ rest)
    (hdisp : disp.length = if modeOf m = 1#2 then 1
      else if modeOf m = 2#2 ∨ absoluteOperand m s then 4 else 0) :
    readDisplacement encoded offset cursor m s context =
      .ok (if disp = [] then none else some (offset + cursor), disp) := by
  have hlen := congrArg List.length hdrop
  simp only [length_drop, length_append] at hlen
  unfold readDisplacement
  split at hdisp
  · next h1 =>
      have hne : disp ≠ [] := by rintro rfl; simp at hdisp
      have hlt : cursor < encoded.length := by omega
      rw [if_pos h1, if_neg hne, hdrop, <- hdisp, take_left]
      simp [require, hlt, bind, Except.bind, pure, Except.pure]
  · next h1 =>
      split at hdisp
      · next h2 =>
          have hne : disp ≠ [] := by rintro rfl; simp at hdisp
          have hlt : cursor + 4 <= encoded.length := by omega
          rw [if_neg h1, if_pos h2, if_neg hne, hdrop, <- hdisp, take_left]
          rw [hdisp]
          simp [require, hlt, bind, Except.bind, pure, Except.pure]
      · next h2 =>
          have hnil : disp = [] := by simpa using hdisp
          rw [if_neg h1, if_neg h2, if_pos hnil, hnil]
          rfl

theorem readOperandBytes_encode {map : OpcodeMap} (hwf : raw.WellFormed map)
    (hm : raw.modrm = some m) (offset : Nat) (context : String) :
    readOperandBytes raw.encode offset (raw.prefixes.length + raw.opcode.bytes.length) context =
      .ok (operandBytesOf raw offset m) := by
  obtain ⟨shape, -, hopd, -⟩ := hwf.shape
  rw [hm] at hopd
  cases hsm : shape.modrm with
  | false => rw [hsm] at hopd; simp [OperandWF] at hopd
  | true =>
    rw [hsm] at hopd
    obtain ⟨hsib, hdisp⟩ := hopd
    obtain ⟨ps, op, modrm, sib, disp, imm⟩ := raw
    subst hm
    generalize hpre : ps ++ op.bytes = pre
    have hlen : ps.length + op.bytes.length = pre.length := by simp [<- hpre]
    have henc : Raw.encode ⟨ps, op, some m, sib, disp, imm⟩ =
        pre ++ m :: (sib.toList ++ (disp ++ imm)) := by simp [Raw.encode, <- hpre]
    simp only [operandBytesOf, Raw.dispAt, hlen, henc]
    unfold readOperandBytes
    have hsome : hasSib m = true ↔ modeOf m ≠ 3#2 ∧ rmOf m = 4#3 := hasSib_iff m
    by_cases h3 : modeOf m = 3#2
    · have hns : sib = none := by
        cases sib with
        | none => rfl
        | some s => simp [hasSib, h3] at hsib
      have hnd : disp = [] := by
        have : disp.length = 0 := by rw [hdisp]; simp [dispSize, h3]
        simpa using this
      subst hns hnd
      simp [h3, require, pure, Except.pure, bind, Except.bind]
    · rw [dispSize_eq hsib h3] at hdisp
      cases sib with
      | none =>
        have h4 : rmOf m ≠ 4#3 := fun h => by
          have := hsome.mpr ⟨h3, h⟩; rw [<- hsib] at this; simp at this
        have hdrop : (pre ++ m :: (disp ++ imm)).drop (pre.length + 1) = disp ++ imm := by
          simp
        have := readDisplacement_encode offset context hdrop hdisp
        simp only [Option.getD_none] at this
        simp [h3, h4, require, bind, Except.bind, pure, Except.pure, this]
      | some s =>
        have h4 : rmOf m = 4#3 := by
          have h : hasSib m = true := by rw [<- hsib]; rfl
          exact (hsome.mp h).2
        have hdrop : (pre ++ m :: s :: (disp ++ imm)).drop (pre.length + 2) = disp ++ imm := by
          simp
        have := readDisplacement_encode offset context hdrop hdisp
        simp only [Option.getD_some] at this
        simp [h3, h4, require, bind, Except.bind, pure, Except.pure, this]

/-- The form the decoder selects for an instruction. -/
def formOf (raw : Raw) : Option BijectionForm :=
  match repeatOf raw.prefixes with
  | some b => ia32BijectionRepeatedStringForms b.toNat (opcodeKey raw.opcode)
  | none => bijectionFormFor (opcodeKey raw.opcode)

def widthOf (raw : Raw) (form : BijectionForm) : Nat := if raw.opsize then 16 else form.width

def regFieldTouched (form : BijectionForm) (width : Nat) (b : OperandBytes) (t : Touched) :
    Touched :=
  if form.reg = some .gpr then
    (if width ≠ 8 then t.addField b.modrmAt 3 else t).touch width (regOf b.modrm)
      form.regRead form.regWrite
  else
    match form.extImplicit.lookup (regOf b.modrm).toNat with
    | some implicit => t.addImplicit implicit
    | none => t

/-- The checks on a ModRM extension. -/
def ExtensionAdmitted (form : BijectionForm) (width : Nat) (digit : Nat) : Prop :=
  form.reg = some .gpr ∨
    (form.reg = some .ext ∧ form.extAllowed.all (fun allowed => digit ∈ allowed) = true ∧
      (width ≠ 16 ∨ form.size16Ext.all (fun allowed => digit ∈ allowed) = true))

theorem touchRegField_eq_ok {b : OperandBytes} {t t' : Touched}
    (h : touchRegField form opcode width b context t = .ok t') :
    ExtensionAdmitted form width (regOf b.modrm).toNat ∧ t' = regFieldTouched form width b t := by
  unfold touchRegField at h
  unfold regFieldTouched ExtensionAdmitted
  by_cases hreg : form.reg = some .gpr
  · simp only [hreg] at h ⊢
    exact ⟨.inl trivial, (pure_eq_ok.mp h).symm⟩
  · simp only [hreg, false_or] at h ⊢
    obtain ⟨hext, h⟩ := require_bind_eq_ok.mp h
    obtain ⟨hallowed, h⟩ := require_bind_eq_ok.mp h
    obtain ⟨hsize, h⟩ := require_bind_eq_ok.mp h
    refine ⟨⟨hext, hallowed, hsize⟩, ?_⟩
    cases hl : form.extImplicit.lookup (regOf b.modrm).toNat with
    | none => rw [hl] at h; exact (pure_eq_ok.mp h).symm
    | some i => rw [hl] at h; exact (pure_eq_ok.mp h).symm

/-- Every encoding field, in the order of the cursor walk. -/
def fieldsTouched (raw : Raw) (offset : Nat) (form : BijectionForm) : Touched :=
  let width := widthOf raw form
  let t := touchOpreg form width (offset + raw.prefixes.length) (opcodeKey raw.opcode)
    (Touched.ofForm form)
  match raw.modrm with
  | none => t
  | some m =>
    let b := operandBytesOf raw offset m
    let t := regFieldTouched form width b t
    if modeOf m = 3#2 then touchRmRegister form (opcodeKey raw.opcode) width b t
    else touchAddress b t

/-- What the decoder reports, read off the parsed instruction. -/
structure Decodes (relocations : RelocationMap) (offset : Nat) (raw : Raw)
    (form : BijectionForm) (flowTouched : Touched) (item : Instruction) : Prop where
  no_lock : 0xF0#8 ∉ raw.prefixes
  form_eq : formOf raw = some form
  size16 : raw.opsize = true -> form.size16Ok = true ∧ form.width = 32 ∧
    repeatOf raw.prefixes = none
  extension : ∀ m, raw.modrm = some m -> ExtensionAdmitted form (widthOf raw form) (regOf m).toNat
  offset_eq : item.offset = offset
  length_eq : item.length = raw.length
  opcode_eq : item.opcode = opcodeKey raw.opcode
  flow_eq : ∃ context, decodeFlow form (form.flowOf (raw.modrm.map fun m => (regOf m).toNat))
    raw.encode offset relocations context (fieldsTouched raw offset form) =
      .ok (item.flow, item.target, flowTouched)
  fields_eq : item.fields = flowTouched.fields
  reads_eq : item.reads = (flowTouched.zeroed
    (zeroedRegister (opcodeKey raw.opcode) (widthOf raw form) raw.modrm)).reads
  writes_eq : item.writes = (flowTouched.zeroed
    (zeroedRegister (opcodeKey raw.opcode) (widthOf raw form) raw.modrm)).writes
  readAtoms_eq : item.readAtoms = (flowTouched.zeroed
    (zeroedRegister (opcodeKey raw.opcode) (widthOf raw form) raw.modrm)).readAtoms
  writeAtoms_eq : item.writeAtoms = (flowTouched.zeroed
    (zeroedRegister (opcodeKey raw.opcode) (widthOf raw form) raw.modrm)).writeAtoms
  frozen_eq : item.frozen = flowTouched.frozen
  indirect_eq : item.indirect = decide (form.flowOf (raw.modrm.map fun m => (regOf m).toNat) =
    .exit ∧ form.modrm = true)
  memory_eq : item.memory = match form.stringMemory with
    | some m => some (stringOperand m)
    | none => raw.modrm.bind fun m => if modeOf m = 3#2 then none
        else memoryOperand form (widthOf raw form) (operandBytesOf raw offset m)
  encoding_eq : item.encoding = raw.modrm.map fun m =>
    { modrmAt := (operandBytesOf raw offset m).modrmAt
      mode := modeOf m
      rm := rmOf m
      reg := regOf m
      sibAt := (operandBytesOf raw offset m).sibAt
      displacementAt := (operandBytesOf raw offset m).displacementAt
      displacementSize := raw.disp.length
      absolute := absoluteOperand m (raw.sib.getD 0#8) }

/-! ## Table facts -/

def shapesAgree (op : Opcode) (form : BijectionForm) : Bool :=
  match lengthMap op, isaMap op with
  | some s, some s' =>
    s.modrm == form.modrm && s'.modrm == form.modrm &&
      (form.displacement == 0 || s'.immSize false 0 == form.displacement) &&
      decide (∀ opsize digit, s.immSize opsize digit = s'.immSize opsize digit)
  | _, _ => false

theorem ia32BijectionTable_shapes : ∀ b : Byte,
    (ia32BijectionTable b.toNat).all (shapesAgree (.one b)) = true := by decide

theorem ia32BijectionTwoByteTable_shapes : ∀ b : Byte,
    (ia32BijectionTwoByteTable b.toNat).all (shapesAgree (.two b)) = true := by decide

theorem repeatedStringForms_shapes : ∀ b : Byte, ∀ p ∈ [242, 243],
    (ia32BijectionRepeatedStringForms p b.toNat).all (shapesAgree (.one b)) = true := by
  decide

theorem bijectionFormFor_one (b : Byte) :
    bijectionFormFor (opcodeKey (.one b)) = ia32BijectionTable b.toNat := by
  have : b.toNat / 256 ≠ 15 := by have := b.isLt; omega
  simp [bijectionFormFor, opcodeKey, this]

theorem bijectionFormFor_two (b : Byte) :
    bijectionFormFor (opcodeKey (.two b)) = ia32BijectionTwoByteTable b.toNat := by
  have h1 : (3840 + b.toNat) / 256 = 15 := by omega
  have h2 : (3840 + b.toNat) % 256 = b.toNat := by omega
  simp [bijectionFormFor, opcodeKey, h1, h2]

theorem repeatOf_mem (h : repeatOf ps = some b) : b = 0xF2#8 ∨ b = 0xF3#8 := by
  unfold repeatOf at h
  split at h
  · cases h; simp
  · split at h
    · cases h; simp
    · cases h

theorem repeatedStringForms_two (p : Nat) (b : Byte) :
    ia32BijectionRepeatedStringForms p (opcodeKey (.two b)) = none := by
  have h : ∀ n, n < 256 -> 3840 + b.toNat ≠ n := by intro n hn; omega
  simp only [ia32BijectionRepeatedStringForms, opcodeKey]
  simp [h 164, h 165, h 166, h 167, h 170, h 171, h 174, h 175]

theorem formOf_shapes (h : formOf raw = some form) : shapesAgree raw.opcode form = true := by
  unfold formOf at h
  cases hr : repeatOf raw.prefixes with
  | none =>
    simp only [hr] at h
    cases hop : raw.opcode with
    | one b =>
      have := ia32BijectionTable_shapes b
      rw [hop, bijectionFormFor_one] at h
      rwa [h] at this
    | two b =>
      have := ia32BijectionTwoByteTable_shapes b
      rw [hop, bijectionFormFor_two] at h
      rwa [h] at this
  | some p =>
    simp only [hr] at h
    cases hop : raw.opcode with
    | one b =>
      rw [hop] at h
      have := repeatedStringForms_shapes b p.toNat
        (by rcases repeatOf_mem hr with rfl | rfl <;> simp)
      rw [show ia32BijectionRepeatedStringForms p.toNat b.toNat = some form from h] at this
      exact this
    | two b =>
      rw [hop, repeatedStringForms_two] at h
      cases h

theorem shapesAgree_iff :
    shapesAgree op form = true ↔ ∃ s s', lengthMap op = some s ∧ isaMap op = some s' ∧
      s.modrm = form.modrm ∧ s'.modrm = form.modrm ∧
      (form.displacement = 0 ∨ s'.immSize false 0 = form.displacement) ∧
      ∀ opsize digit, s.immSize opsize digit = s'.immSize opsize digit := by
  unfold shapesAgree
  cases h : lengthMap op with
  | none => simp
  | some s =>
    cases h' : isaMap op with
    | none => simp
    | some s' => simp [and_assoc]

/-- An instruction with a form is one the machine parses the same way. -/
theorem wellFormed_isa (hform : formOf raw = some form) (hwf : raw.WellFormed lengthMap) :
    raw.WellFormed isaMap ∧ form.modrm = raw.modrm.isSome := by
  obtain ⟨s, s', hs, hs', hm, hm', -, himm⟩ := shapesAgree_iff.mp (formOf_shapes hform)
  obtain ⟨shape, hshape, hopd, hlen⟩ := hwf.shape
  rw [hs] at hshape
  cases hshape
  refine ⟨{ hwf with shape := ⟨s', hs', by rwa [hm', <- hm], by rw [hlen, himm]⟩ }, ?_⟩
  rw [<- hm]
  cases hsm : s.modrm with
  | false => rw [hsm] at hopd; simp [hopd.1]
  | true =>
    rw [hsm] at hopd
    cases hmod : raw.modrm with
    | none => rw [hmod] at hopd; exact hopd.elim
    | some m => rfl

theorem lookupForm_eq_ok {form? : Option BijectionForm}
    (h : lookupForm st opcode context = .ok form?) : form? = (match st.repeated with
      | some b => ia32BijectionRepeatedStringForms b.toNat opcode
      | none => bijectionFormFor opcode) ∧
    (st.repeated.isSome = true -> st.operandSize16 = false) := by
  unfold lookupForm at h
  cases hr : st.repeated with
  | none =>
    rw [hr] at h
    exact ⟨(pure_eq_ok.mp h).symm, by simp⟩
  | some b =>
    rw [hr] at h
    replace h := after_require h
    obtain ⟨hsize, h⟩ := require_bind_eq_ok.mp h
    exact ⟨(pure_eq_ok.mp h).symm, fun _ => hsize⟩

theorem selectForm_eq_ok (h : selectForm st opcode context = .ok (form, width)) :
    (match st.repeated with
      | some b => ia32BijectionRepeatedStringForms b.toNat opcode
      | none => bijectionFormFor opcode) = some form ∧
    width = (if st.operandSize16 then 16 else form.width) ∧
    (st.operandSize16 = true -> form.size16Ok = true ∧ form.width = 32 ∧ st.repeated = none) := by
  obtain ⟨form?, hform?, h⟩ := bind_eq_ok.mp h
  obtain ⟨rfl, hrep⟩ := lookupForm_eq_ok hform?
  split at h
  · next form' hsel =>
      by_cases hs : st.operandSize16 = true
      · rw [if_pos hs] at h
        obtain ⟨⟨hok, h32⟩, h⟩ := require_bind_eq_ok.mp h
        cases h
        refine ⟨hsel, by simp [hs], fun _ => ⟨hok, h32, ?_⟩⟩
        cases hr : st.repeated with
        | none => rfl
        | some b => rw [hrep (by simp [hr])] at hs; cases hs
      · rw [if_neg hs] at h
        cases h
        exact ⟨hsel, by simp [hs], fun h' => absurd h' hs⟩
  · cases h

theorem decodeModrmPart_eq_ok {t : Touched}
    {result : Touched × Option MemoryOperand × Option Encoding × Option Byte}
    (hwf : raw.WellFormed lengthMap) (hmodrm : form.modrm = raw.modrm.isSome)
    (h : decodeModrmPart form (opcodeKey raw.opcode) (widthOf raw form) raw.encode offset
      (raw.prefixes.length + raw.opcode.bytes.length) context t = .ok result) :
    (∀ m, raw.modrm = some m -> ExtensionAdmitted form (widthOf raw form) (regOf m).toNat) ∧
    result.1 = (match raw.modrm with
      | none => t
      | some m =>
        if modeOf m = 3#2 then
          touchRmRegister form (opcodeKey raw.opcode) (widthOf raw form)
            (operandBytesOf raw offset m)
            (regFieldTouched form (widthOf raw form) (operandBytesOf raw offset m) t)
        else touchAddress (operandBytesOf raw offset m)
          (regFieldTouched form (widthOf raw form) (operandBytesOf raw offset m) t)) ∧
    result.2.1 = (raw.modrm.bind fun m => if modeOf m = 3#2 then none
        else memoryOperand form (widthOf raw form) (operandBytesOf raw offset m)) ∧
    result.2.2.1 = (raw.modrm.map fun m =>
      { modrmAt := (operandBytesOf raw offset m).modrmAt
        mode := modeOf m
        rm := rmOf m
        reg := regOf m
        sibAt := (operandBytesOf raw offset m).sibAt
        displacementAt := (operandBytesOf raw offset m).displacementAt
        displacementSize := raw.disp.length
        absolute := absoluteOperand m (raw.sib.getD 0#8) }) ∧
    result.2.2.2 = raw.modrm := by
  unfold decodeModrmPart at h
  cases hm : raw.modrm with
  | none =>
    rw [hmodrm, hm] at h
    cases h
    simp
  | some m =>
    rw [hmodrm, hm, Option.isSome_some, if_pos rfl] at h
    obtain ⟨b, hb, h⟩ := bind_eq_ok.mp h
    rw [readOperandBytes_encode hwf hm] at hb
    cases hb
    obtain ⟨view, hview, h⟩ := bind_eq_ok.mp h
    cases h
    obtain ⟨t', ht', hview⟩ := bind_eq_ok.mp hview
    obtain ⟨hext, rfl⟩ := touchRegField_eq_ok ht'
    obtain ⟨-, hview⟩ := require_bind_eq_ok.mp hview
    cases hview
    refine ⟨fun m' hm' => ?_, rfl, rfl, rfl, rfl⟩
    cases hm'
    exact hext

/-- Every decoded quantity is read off the parsed instruction. -/
theorem decode_cases {body : List Byte} {relocations : RelocationMap} {item : Instruction}
    (h : decodeIa32BijectionInstruction body offset context relocations = .ok item) :
    ∃ raw r form t, raw.WellFormed lengthMap ∧ body.drop offset = raw.encode ++ r ∧
      Decodes relocations offset raw form t item := by
  replace h := after_require h
  obtain ⟨length, hlen, h⟩ := bind_eq_ok.mp h
  obtain ⟨raw, r, hparse, rfl⟩ := supportedIa32InstructionLength_eq_ok.mp hlen
  obtain ⟨hwf, hdrop⟩ := parse_eq_some.mp hparse
  have htake : (body.drop offset).take raw.length = raw.encode := by
    rw [hdrop, Raw.length, take_left]
  simp only [htake] at h
  replace h := after_require h
  obtain ⟨⟨cursor, st⟩, hscan, h⟩ := bind_eq_ok.mp h
  obtain ⟨⟨opcode, cursor'⟩, hread, h⟩ := bind_eq_ok.mp h
  have henc : raw.encode = raw.prefixes ++ raw.opcode.bytes ++
      (raw.modrm.toList ++ raw.sib.toList ++ raw.disp ++ raw.imm) := by simp [Raw.encode]
  -- the prefix loop stops at the opcode
  have hfirst : ∃ rest, raw.opcode.bytes ++
      (raw.modrm.toList ++ raw.sib.toList ++ raw.disp ++ raw.imm) = raw.opcode.first :: rest := by
    cases raw.opcode <;> exact ⟨_, rfl⟩
  obtain ⟨rest, hrest⟩ := hfirst
  rw [henc, append_assoc, hrest] at hscan
  obtain ⟨hcursor, hF0, hsize, hrep, -⟩ :=
    scanPrefixes_spec hwf.prefixes_prefix hwf.opcode_first hscan
  simp only [Nat.zero_add] at hcursor hsize hrep
  subst hcursor
  rw [henc, readOpcode_encode hwf.opcode_wf, Except.ok.injEq, Prod.mk.injEq] at hread
  obtain ⟨rfl, rfl⟩ := hread
  -- the form and the operand part
  obtain ⟨⟨form, width⟩, hselect, h⟩ := bind_eq_ok.mp h
  obtain ⟨hform, hwidth, hsize16⟩ := selectForm_eq_ok hselect
  rw [hrep] at hform hsize16
  have hopsize : st.operandSize16 = raw.opsize := hsize
  rw [hopsize] at hwidth hsize16
  have hw : width = widthOf raw form := hwidth
  subst hw
  have hmodrm := (wellFormed_isa hform hwf).2
  obtain ⟨⟨t, memory, encoding, modrm⟩, hpart, h⟩ := bind_eq_ok.mp h
  obtain ⟨hext, ht, hmem, henc', hmod⟩ := decodeModrmPart_eq_ok hwf hmodrm hpart
  simp only at ht hmem henc' hmod
  subst hmem henc' hmod
  obtain ⟨⟨flow, target, t'⟩, hflow, h⟩ := bind_eq_ok.mp h
  cases h
  refine ⟨raw, r, form, t', hwf, hdrop, ?_⟩
  have htouched : t = fieldsTouched raw offset form := by
    rw [ht]; rfl
  rw [htouched] at hflow
  exact {
    no_lock := hF0
    form_eq := hform
    size16 := hsize16
    extension := hext
    offset_eq := rfl
    length_eq := rfl
    opcode_eq := rfl
    flow_eq := ⟨context, hflow⟩
    fields_eq := Touched.zeroed_fields _ _
    reads_eq := rfl
    writes_eq := rfl
    readAtoms_eq := rfl
    writeAtoms_eq := rfl
    frozen_eq := Touched.zeroed_frozen _ _
    indirect_eq := rfl
    memory_eq := rfl
    encoding_eq := rfl }

end Reprobit

import Reprobit.Register.Agreement

/-!
# Accounting for register reads

What the table check says, and that the accumulated sets of a decoded instruction
contain the registers its form declares read; the outcomes of the control-flow
stage.
-/

namespace Reprobit

open Machine

namespace Touched

structure Le (t t' : Touched) : Prop where
  frozen : t.frozen ⊆ t'.frozen
  reads : t.reads ⊆ t'.reads
  writes : t.writes ⊆ t'.writes
  readAtoms : t.readAtoms ⊆ t'.readAtoms
  writeAtoms : t.writeAtoms ⊆ t'.writeAtoms

variable (t : Touched)

theorem Le.refl : t.Le t := ⟨by simp, by simp, by simp, by simp, by simp⟩

theorem Le.trans {t t' t'' : Touched} (h : t.Le t') (h' : t'.Le t'') : t.Le t'' :=
  ⟨h.frozen.trans h'.frozen, h.reads.trans h'.reads, h.writes.trans h'.writes,
    h.readAtoms.trans h'.readAtoms, h.writeAtoms.trans h'.writeAtoms⟩

theorem le_addField (byte shift : Nat) : t.Le (t.addField byte shift) :=
  ⟨by simp [addField], by simp [addField], by simp [addField], by simp [addField],
    by simp [addField]⟩

theorem subset_ite {α : Type} [DecidableEq α] (p : Prop) [Decidable p] {A B : Finset α}
    (h : A ⊆ B) : A ⊆ if p then B else A := by
  split
  · exact h
  · exact Finset.Subset.refl A

theorem le_touch (width : Nat) (value : BitVec 3) (isRead isWrite : Bool) :
    t.Le (t.touch width value isRead isWrite) :=
  ⟨subset_ite _ (Finset.subset_insert _ _), subset_ite _ (Finset.subset_insert _ _),
    subset_ite _ (Finset.subset_insert _ _), subset_ite _ Finset.subset_union_left,
    subset_ite _ Finset.subset_union_left⟩

theorem le_readAddress (r : Reg) : t.Le (t.readAddress r) :=
  ⟨by simp [readAddress], by simp [readAddress], by simp [readAddress], by simp [readAddress],
    by simp [readAddress]⟩

theorem le_addImplicit (i : Implicit) : t.Le (t.addImplicit i) :=
  ⟨by simp [addImplicit], by simp [addImplicit], by simp [addImplicit], by simp [addImplicit],
    by simp [addImplicit]⟩

theorem le_addField_if (p : Prop) [Decidable p] (byte shift : Nat) :
    t.Le (if p then t.addField byte shift else t) := by
  split
  · exact t.le_addField byte shift
  · exact Le.refl t

end Touched

variable (form : BijectionForm)

theorem le_touchOpreg (width opcodeAt opcode : Nat) (t : Touched) :
    t.Le (touchOpreg form width opcodeAt opcode t) := by
  unfold touchOpreg
  cases form.opreg with
  | none => exact .refl t
  | some role => exact (t.le_addField_if _ _ _).trans (Touched.le_touch _ _ _ _ _)

theorem le_regFieldTouched (width : Nat) (b : OperandBytes) (t : Touched) :
    t.Le (regFieldTouched form width b t) := by
  unfold regFieldTouched
  split
  · exact (t.le_addField_if _ _ _).trans (Touched.le_touch _ _ _ _ _)
  · cases form.extImplicit.lookup (regOf b.modrm).toNat with
    | none => exact .refl t
    | some i => exact t.le_addImplicit i

theorem le_touchRmRegister (opcode width : Nat) (b : OperandBytes) (t : Touched) :
    t.Le (touchRmRegister form opcode width b t) := by
  unfold touchRmRegister
  split
  · split
    · exact ⟨Finset.subset_insert _ _, by simp, by simp, by simp, Finset.subset_union_left⟩
    · exact .refl t
  · exact (t.le_addField_if _ _ _).trans (Touched.le_touch _ _ _ _ _)

theorem Touched.le_addressField (t : Touched) (byte shift : Nat) (r : Option Reg) :
    t.Le (t.addressField byte shift r) := by
  cases r with
  | none => exact .refl t
  | some r => exact (t.le_addField byte shift).trans (Touched.le_readAddress _ r)

theorem le_touchAddress (b : OperandBytes) (t : Touched) : t.Le (touchAddress b t) :=
  (t.le_addressField _ _ _).trans (Touched.le_addressField _ _ _ _)

/-- The components of the table check. -/
structure Agrees (opcode : Nat) (form : BijectionForm) (width digit : Nat) (direct : Bool)
    (f : Form) : Prop where
  flow : flowAgrees (form.flowOf (some digit)) f.op = true
  implicit : (form.extImplicit = [] ∧ form.extFlow = []) ∨
    (form.modrm = true ∧ form.reg = some .ext)
  exits : exitReads form digit = true
  transfer : transferShape form digit = true
  string : isString f.op = form.stringMemory.isSome
  width_le : width <= 32
  x87 : form.x87 = decide (216 <= opcode ∧ opcode <= 223)
  sources : ∀ slot ∈ f.srcs, sourceAgrees opcode form digit direct slot = true
  store : storeAgrees opcode form width digit direct f = true

theorem formAgrees_iff {opcode : Nat} {form : BijectionForm} {width digit : Nat} {direct : Bool}
    {f : Form} (h : formAgrees opcode form width digit direct f = true) :
    Agrees opcode form width digit direct f := by
  simp only [formAgrees, memoryAgrees, Bool.and_eq_true, Bool.or_eq_true, List.all_eq_true,
    List.isEmpty_iff, beq_iff_eq, decide_eq_true_eq] at h
  obtain ⟨⟨⟨⟨⟨h1, h2⟩, h3⟩, h4⟩, h5⟩, ⟨⟨h6, h7⟩, h8⟩, h9⟩ := h
  exact ⟨h1, h2, h3, h4, h5, h6, h7, h8, h9⟩

section

variable {raw : Raw} {offset : Nat} {form : BijectionForm} {f : Form}

theorem flowOf_digit (hmodrm : form.modrm = raw.modrm.isSome)
    (h : Agrees (opcodeKey raw.opcode) form (widthOf raw form) raw.digit.toNat
      (raw.mode == 3#2) f) :
    form.flowOf (raw.modrm.map fun m => (regOf m).toNat) =
      form.flowOf (some raw.digit.toNat) := by
  cases hm : raw.modrm with
  | some m => simp [Raw.digit, hm]
  | none =>
    rcases h.implicit with ⟨-, hempty⟩ | ⟨hmod, -⟩
    · simp [BijectionForm.flowOf, hempty]
    · rw [hmodrm, hm] at hmod; cases hmod

theorem ofForm_le (raw : Raw) (offset : Nat) (form : BijectionForm) :
    (Touched.ofForm form).Le (fieldsTouched raw offset form) := by
  unfold fieldsTouched
  have h := le_touchOpreg form (widthOf raw form) (offset + raw.prefixes.length)
    (opcodeKey raw.opcode) (Touched.ofForm form)
  cases raw.modrm with
  | none => exact h
  | some m =>
    have h' := h.trans (le_regFieldTouched form (widthOf raw form) (operandBytesOf raw offset m) _)
    simp only
    split
    · exact h'.trans (le_touchRmRegister _ _ _ _ _)
    · exact h'.trans (le_touchAddress _ _)

theorem regField_le {m : Byte} (hm : raw.modrm = some m) (offset : Nat) (form : BijectionForm) :
    (regFieldTouched form (widthOf raw form) (operandBytesOf raw offset m)
      (touchOpreg form (widthOf raw form) (offset + raw.prefixes.length) (opcodeKey raw.opcode)
        (Touched.ofForm form))).Le (fieldsTouched raw offset form) := by
  unfold fieldsTouched
  simp only [hm]
  split
  · exact le_touchRmRegister _ _ _ _ _
  · exact le_touchAddress _ _

theorem accountedReads_atoms (hmodrm : form.modrm = raw.modrm.isSome)
    (h : Agrees (opcodeKey raw.opcode) form (widthOf raw form) raw.digit.toNat (raw.mode == 3#2) f)
    {r : Reg}
    (hr : r ∈ accountedReads form raw.digit.toNat) :
    ia32AtomsOf r ⊆ (fieldsTouched raw offset form).readAtoms := by
  have hsub : ∀ names : Finset Reg, r ∈ names -> ia32AtomsOf r ⊆ ia32RegisterAtoms names :=
    fun names hmem => Finset.subset_biUnion_of_mem ia32AtomsOf hmem
  simp only [accountedReads, Finset.mem_union] at hr
  rcases hr with (hr | hr) | hr
  · exact (hsub _ hr).trans (Finset.subset_union_left.trans (ofForm_le raw offset form).readAtoms)
  · exact (hsub _ hr).trans (Finset.subset_union_right.trans (ofForm_le raw offset form).readAtoms)
  · rcases h.implicit with ⟨hempty, -⟩ | ⟨hmod, hext⟩
    · simp [hempty] at hr
    · rw [hmodrm] at hmod
      obtain ⟨m, hm⟩ := Option.isSome_iff_exists.mp hmod
      have hdigit : raw.digit = regOf m := by simp [Raw.digit, hm]
      rw [hdigit] at hr
      cases hl : form.extImplicit.lookup (regOf m).toNat with
      | none => simp [hl] at hr
      | some i =>
        rw [hl] at hr
        have hle := (regField_le hm offset form).readAtoms
        unfold regFieldTouched at hle
        simp only [hext, operandBytesOf, hl] at hle
        exact (hsub _ hr).trans (Finset.subset_union_right.trans hle)

end

def externalTransfer (form : BijectionForm) (encoded : List Byte) (offset : Nat)
    (relocations : RelocationMap) : Bool :=
  (relocations.get (offset + encoded.length - form.displacement)).any
    (fun row => row.width = form.displacement)

def callArguments (form : BijectionForm) (encoded : List Byte) (offset : Nat)
    (relocations : RelocationMap) : Finset Reg :=
  if form.displacement ≠ 0 ∧ externalTransfer form encoded offset relocations = true then
    ((relocations.get (offset + encoded.length - form.displacement)).bind
      (fun row => msvcCallArgumentRegisters row.target)).getD ia32CallClobbered
  else ia32CallClobbered

def Touched.external (t : Touched) : Touched :=
  { t with
    reads := ia32ExternalTransferLive
    writes := ∅
    readAtoms := ia32RegisterAtoms ia32ExternalTransferLive
    writeAtoms := ∅ }

/-- The four outcomes of the control-flow stage. -/
inductive FlowStage (form : BijectionForm) (encoded : List Byte) (offset : Nat)
    (relocations : RelocationMap) (t : Touched) : Flow -> Flow -> Option Int -> Touched -> Prop
  | call : FlowStage form encoded offset relocations t .call .call none
      (t.readRegisters (callArguments form encoded offset relocations))
  | external : form.displacement ≠ 0 ->
      externalTransfer form encoded offset relocations = true ->
      FlowStage form encoded offset relocations t .jmp .exit none t.external
  | relative {flow : Flow} : flow = .jcc ∨ flow = .jmp -> form.displacement ≠ 0 ->
      externalTransfer form encoded offset relocations = false ->
      FlowStage form encoded offset relocations t flow flow (some (offset + encoded.length +
          signedLe (encoded.drop (encoded.length - form.displacement)))) t
  | other {flow : Flow} : flow ≠ .call -> (flow = .jcc ∨ flow = .jmp -> form.displacement = 0) ->
      FlowStage form encoded offset relocations t flow flow none t

theorem decodeFlow_cases {form : BijectionForm} {flow flow' : Flow} {encoded : List Byte}
    {offset : Nat} {relocations : RelocationMap} {context : String} {t t' : Touched}
    {target : Option Int}
    (h : decodeFlow form flow encoded offset relocations context t = .ok (flow', target, t')) :
    FlowStage form encoded offset relocations t flow flow' target t' := by
  unfold decodeFlow at h
  split at h
  · next hd =>
      simp only at h
      split at h
      · next hcall =>
          subst hcall
          cases h
          have hargs : callArguments form encoded offset relocations =
              (if externalTransfer form encoded offset relocations = true then
                (relocations.get (offset + encoded.length - form.displacement)).bind
                  (fun row => msvcCallArgumentRegisters row.target)
                else none).getD ia32CallClobbered := by
            unfold callArguments
            cases externalTransfer form encoded offset relocations <;> simp [hd.2]
          have hstage : FlowStage form encoded offset relocations t .call .call none
              (t.readRegisters (callArguments form encoded offset relocations)) := .call
          rw [hargs] at hstage
          exact hstage
      · next hcall =>
          split at h
          · next hext =>
              obtain ⟨hext, rfl⟩ := hext
              cases h
              exact .external hd.2 hext
          · next hext =>
              split at h
              · cases h
              · next hno =>
                  cases h
                  refine .relative ?_ hd.2 (by simpa [externalTransfer] using hno)
                  rcases hd.1 with h | h | h
                  · exact .inl h
                  · exact .inr h
                  · exact absurd h hcall
  · next hd =>
      split at h
      · next hcall =>
          subst hcall
          cases h
          have hz : form.displacement = 0 := by simpa using hd
          have : callArguments form encoded offset relocations = ia32CallClobbered := by
            simp [callArguments, hz]
          rw [<- this]
          exact .call
      · next hcall =>
          cases h
          refine .other hcall fun hj => ?_
          by_contra hne
          exact hd ⟨hj.elim .inl (fun h => .inr (.inl h)), hne⟩

end Reprobit

import Reprobit.Schedule.Walk
import Reprobit.Register.ControlFlow

/-!
# The three body walkers

The register-bijection decoder, the relational flow walk and the schedule walk
read the same instructions from a body.  They differ in two places: the relational
walk ignores a one-byte relocation of a short jump, and the set returned by the
schedule walk holds more than the targets of jumps.
-/

namespace Reprobit

open Machine List

/-- How a walker classifies an instruction. -/
inductive TransferClass
  | straight | call | inBody | computed | leaves
  deriving DecidableEq, Repr

def Instruction.transferClass (item : Instruction) : TransferClass :=
  match item.flow with
  | .fall => .straight
  | .call => .call
  | .jcc | .jmp => .inBody
  | .ret => .leaves
  | .exit => if item.indirect then .computed else .leaves

def RelationalFlow.transferClass : RelationalFlow -> TransferClass
  | .fall => .straight
  | .call => .call
  | .jcc | .jmp => .inBody
  | .computed => .computed
  | .ret | .exit => .leaves

/-! ## The bijection decoder -/

/-- The flow a form must have where the relational walk sees no jump. -/
def plainFlow : RelationalFlow -> Flow
  | .call => .call
  | .ret => .ret
  | .computed => .exit
  | _ => .fall

def jumpFormAgrees (opcode : Nat) (form : BijectionForm) (digit : Option Nat) : Bool :=
  match jumpWidth opcode with
  | some width => form.displacement = width &&
      (form.flowOf digit = .jcc || form.flowOf digit = .jmp)
  | none => form.flowOf digit = plainFlow (flowClass opcode (digit.getD 0)).1 &&
      (form.flowOf digit ≠ .exit || form.modrm)

/-- The check at every ModRM extension the form admits. -/
def jumpFormChecked (opcode : Nat) (form : BijectionForm) : Bool :=
  (form.modrm || jumpFormAgrees opcode form none) &&
  (List.range 8).all fun d =>
    (form.reg ≠ some .gpr && !form.extAllowed.all (fun allowed => d ∈ allowed)) ||
      jumpFormAgrees opcode form (some d)

theorem ia32BijectionTables_jumps : ∀ b : Byte,
    (ia32BijectionTable b.toNat).all (jumpFormChecked b.toNat) = true ∧
    (ia32BijectionTwoByteTable b.toNat).all (jumpFormChecked (3840 + b.toNat)) = true := by
  decide

variable {opcode offset : Nat} {form : BijectionForm} {raw : Raw} {item : Instruction}

theorem ia32BijectionRepeatedStringForms_jumps {repeatPrefix : Nat}
    (h : ia32BijectionRepeatedStringForms repeatPrefix opcode = some form) :
    jumpFormChecked opcode form = true := by
  unfold ia32BijectionRepeatedStringForms at h
  have hwidth : ∀ opcode ∈ [164, 165, 170, 171, 174, 175, 166, 167], ∀ reads writes memory,
      jumpFormChecked opcode (ia32StringForm reads writes memory) = true := by
    intro opcode hop reads writes memory
    simp only [mem_cons, not_mem_nil, or_false] at hop
    rcases hop with rfl | rfl | rfl | rfl | rfl | rfl | rfl | rfl <;> rfl
  split at h
  · next hc => cases h; exact hwidth opcode (by simp at hc ⊢; omega) _ _ _
  split at h
  · next hc => cases h; exact hwidth opcode (by simp at hc ⊢; omega) _ _ _
  split at h
  · next hc => cases h; exact hwidth opcode (by simp at hc ⊢; omega) _ _ _
  split at h
  · next hc => cases h; exact hwidth opcode (by simp at hc ⊢; omega) _ _ _
  · cases h

theorem formOf_jumps (h : formOf raw = some form) :
    jumpFormChecked (opcodeKey raw.opcode) form = true := by
  unfold formOf at h
  cases hr : repeatOf raw.prefixes with
  | some b =>
    simp only [hr] at h
    exact ia32BijectionRepeatedStringForms_jumps h
  | none =>
    simp only [hr] at h
    cases hop : raw.opcode with
    | one b =>
      have := (ia32BijectionTables_jumps b).1
      rw [hop, bijectionFormFor_one] at h
      simpa [h, opcodeKey] using this
    | two b =>
      have := (ia32BijectionTables_jumps b).2
      rw [hop, bijectionFormFor_two] at h
      simpa [h, opcodeKey] using this

variable {relocations : RelocationMap} {t : Touched}

theorem Decodes.jump (h : Decodes relocations offset raw form t item)
    (hmodrm : form.modrm = raw.modrm.isSome) :
    jumpFormAgrees (opcodeKey raw.opcode) form (raw.modrm.map fun m => (regOf m).toNat) = true := by
  have hchecked := formOf_jumps h.form_eq
  simp only [jumpFormChecked, Bool.and_eq_true, all_eq_true, mem_range,
    Bool.or_eq_true] at hchecked
  cases hm : raw.modrm with
  | none => exact hchecked.1.resolve_left (by simp [hmodrm, hm])
  | some m =>
    refine (hchecked.2 _ (regOf m).isLt).resolve_left fun hrefused => ?_
    simp only [decide_not, Bool.not_eq_eq_eq_not, Bool.not_true,
      decide_eq_false_iff_not] at hrefused
    rcases h.extension m hm with hgpr | ⟨-, hallowed, -⟩
    · exact hrefused.1 hgpr
    · rw [hallowed] at hrefused
      exact absurd hrefused.2 (by simp)

/-- The class of an instruction as the decoder sees it. -/
def decodedClass (relocations : RelocationMap) (offset : Nat) (raw : Raw) : TransferClass :=
  match jumpWidth (opcodeKey raw.opcode) with
  | some width => if displacementRelocated relocations offset raw.length width then .leaves
      else .inBody
  | none => (flowClass (opcodeKey raw.opcode) raw.digit.toNat).1.transferClass

theorem flowClass_plain (h : jumpWidth opcode = none) (digit : Nat) :
    (flowClass opcode digit).1 ∈ [.fall, .call, .ret, .computed] := by
  unfold jumpWidth at h
  unfold flowClass
  grind

theorem plainFlow_class : ∀ kind ∈ ([.fall, .call, .ret, .computed] : List RelationalFlow),
    (match plainFlow kind with
      | .fall => TransferClass.straight
      | .call => .call
      | .jcc | .jmp => .inBody
      | .ret => .leaves
      | .exit => .computed) = kind.transferClass := by
  decide

theorem Decodes.transfer (h : Decodes relocations offset raw form t item)
    (hmodrm : form.modrm = raw.modrm.isSome) : item.target = jumpTarget relocations offset raw ∧
      item.transferClass = decodedClass relocations offset raw := by
  have hform := h.jump hmodrm
  have hindirect := h.indirect_eq
  obtain ⟨context, hflow⟩ := h.flow_eq
  have hstage := decodeFlow_cases hflow
  generalize hflow' : form.flowOf (raw.modrm.map fun m => (regOf m).toNat) = flow
    at hstage hindirect
  have hdigit : (raw.modrm.map fun m => (regOf m).toNat).getD 0 = raw.digit.toNat := by
    cases hm : raw.modrm <;> simp [Raw.digit, hm]
  simp only [jumpFormAgrees, hflow', hdigit] at hform
  unfold jumpTarget decodedClass Instruction.transferClass
  cases hw : jumpWidth (opcodeKey raw.opcode) with
  | none =>
    -- not a jump: no stage but the first and the last one applies
    simp only [hw, Bool.and_eq_true, decide_eq_true_eq] at hform
    obtain ⟨hplain, hexit⟩ := hform
    have hkind := flowClass_plain hw raw.digit.toNat
    generalize (flowClass (opcodeKey raw.opcode) raw.digit.toNat).1 = kind at hplain hkind
    have hno : flow ≠ .jcc ∧ flow ≠ .jmp := by
      rw [hplain]
      cases kind <;> decide
    have hclass := plainFlow_class kind hkind
    rw [<- hplain] at hclass
    have hcomputed : flow = .exit -> item.indirect = true := by
      rintro rfl
      rw [hindirect]
      simpa using hexit
    generalize item.flow = flow', item.target = target at hstage
    cases hstage with
    | call => exact ⟨rfl, hclass⟩
    | external => exact absurd rfl hno.2
    | relative hjump => exact (hjump.elim hno.1 hno.2).elim
    | other =>
      refine ⟨rfl, ?_⟩
      cases flow with
      | exit => rw [hcomputed rfl]; exact hclass
      | _ => exact hclass
  | some width =>
    simp only [hw, Bool.and_eq_true, Bool.or_eq_true, decide_eq_true_eq] at hform
    obtain ⟨hd, hjump⟩ := hform
    have hpos : form.displacement ≠ 0 := by
      have := (jumpWidth_cases hw).1
      omega
    have hext : externalTransfer form raw.encode offset relocations =
        displacementRelocated relocations offset raw.length width := by
      rw [<- hd]
      rfl
    have hdirect : item.indirect = false := by
      rw [hindirect]
      rcases hjump with rfl | rfl <;> simp
    rw [Option.bind_some, directTarget, hdirect]
    simp only [<- hext]
    generalize item.flow = flow', item.target = target at hstage
    cases hstage with
    | call => rcases hjump with h | h <;> cases h
    | external _ he => simp [he]
    | relative hj _ he =>
      simp only [he, hd]
      rcases hj with rfl | rfl <;> exact ⟨rfl, rfl⟩
    | other _ hz => exact absurd (hz hjump) hpos

/-- What the decoder says about an instruction of the sweep. -/
structure DecodedFrom (relocations : RelocationMap) (offset : Nat) (raw : Raw)
    (item : Instruction) : Prop where
  no_lock : 0xF0#8 ∉ raw.prefixes
  offset_eq : item.offset = offset
  length_eq : item.length = raw.length
  target_eq : item.target = jumpTarget relocations offset raw
  class_eq : item.transferClass = decodedClass relocations offset raw

variable {code : List Byte}

theorem decode_decodedFrom {context : String}
    (h : decodeIa32BijectionInstruction code offset context relocations = .ok item) :
    ∃ raw r, parse lengthMap (code.drop offset) = some (raw, r) ∧
      DecodedFrom relocations offset raw item := by
  obtain ⟨raw, r, form, t, hwf, hdrop, hdec⟩ := decode_cases h
  obtain ⟨htarget, hclass⟩ := hdec.transfer (wellFormed_isa hdec.form_eq hwf).2
  exact ⟨raw, r, parse_eq_some.mpr ⟨hwf, hdrop⟩, hdec.no_lock, hdec.offset_eq, hdec.length_eq,
    htarget, hclass⟩

theorem decodeFrom_sweep {context : String} {items : List Instruction}
    (h : decodeFrom code context relocations code.length 0 = .ok items) :
    List.Forall₂ (fun entry item => DecodedFrom relocations entry.1 entry.2 item)
      (sweep lengthMap code) items :=
  (decodeFrom_loops.sweeps (fun _ _ => decode_decodedFrom)
    (fun _ _ _ h => ⟨h.offset_eq, h.length_eq⟩) h).1

def relationalTarget (relocations : RelocationMap) (offset : Nat) (raw : Raw) : Option Int :=
  (jumpWidth (opcodeKey raw.opcode)).bind fun width =>
    if width = 4 ∧ displacementRelocated relocations offset raw.length 4 then none
    else some (readTarget raw offset width)

theorem near_iff_jumpWidth {digit : Nat} :
    ((flowClass opcode digit).1 = .jmp ∨ (flowClass opcode digit).1 = .jcc) ∧
      (opcode = 233 ∨ (3968 <= opcode ∧ opcode <= 3983)) ↔ jumpWidth opcode = some 4 := by
  unfold flowClass jumpWidth
  grind

theorem Reports.target_eq {item : RelationalItem}
    (h : Reports relocations offset raw item) :
    item.target = relationalTarget relocations offset raw := by
  have hreloc : ((relocations.get (offset + raw.length - 4)).any fun row => row.width = 4) =
      displacementRelocated relocations offset raw.length 4 := rfl
  have hflow := congrArg (fun found => found.2.1) h.flow_eq
  simp only [relocatedFlow, flowClass_jumpWidth, <- and_assoc, near_iff_jumpWidth, hreloc] at hflow
  rw [hflow, relationalTarget]
  cases hw : jumpWidth (opcodeKey raw.opcode) with
  | none => simp
  | some width =>
    simp only [Option.some.injEq, Option.bind_some]
    split <;> rfl

def relationalClass (relocations : RelocationMap) (offset : Nat) (raw : Raw) : TransferClass :=
  match jumpWidth (opcodeKey raw.opcode) with
  | some width => if width = 4 ∧ displacementRelocated relocations offset raw.length 4 then .leaves
      else .inBody
  | none => (flowClass (opcodeKey raw.opcode) raw.digit.toNat).1.transferClass

theorem flowClass_jump {width : Nat} (h : jumpWidth opcode = some width) (digit : Nat) :
    (flowClass opcode digit).1.transferClass = .inBody := by
  have hkind : (flowClass opcode digit).1 = .jcc ∨ (flowClass opcode digit).1 = .jmp := by
    unfold jumpWidth at h
    unfold flowClass
    grind
  rcases hkind with h | h <;> rw [h] <;> rfl

theorem Reports.class_eq {item : RelationalItem}
    (h : Reports relocations offset raw item) :
    item.flow.transferClass = relationalClass relocations offset raw := by
  have hreloc : ((relocations.get (offset + raw.length - 4)).any fun row => row.width = 4) =
      displacementRelocated relocations offset raw.length 4 := rfl
  have hflow := congrArg (fun found => found.1) h.flow_eq
  simp only [relocatedFlow, <- and_assoc, near_iff_jumpWidth, hreloc] at hflow
  rw [hflow, relationalClass]
  cases hw : jumpWidth (opcodeKey raw.opcode) with
  | none => simp
  | some width =>
    simp only [Option.some.injEq]
    split
    · rfl
    · exact flowClass_jump hw _

theorem string_no_jump (h : opcode ∈ ia32RelationalStringQuiet ∨
    opcode ∈ ia32RelationalStringCompare) :
    jumpWidth opcode = none ∧ opcode ≠ 232 ∧ opcode ≠ 255 := by
  have hall : ∀ opcode ∈ ia32RelationalStringQuiet ++ ia32RelationalStringCompare,
      jumpWidth opcode = none ∧ opcode ≠ 232 ∧ opcode ≠ 255 := by decide
  exact hall opcode (mem_append.mpr h)

theorem Reports.string_no_transfer {item : RelationalItem}
    (h : Reports relocations offset raw item) (hrep : raw.rep.isSome = true) :
    jumpTarget relocations offset raw = none ∧ callTarget relocations offset raw = none ∧
      computedJump raw = false := by
  obtain ⟨b, hop, hstring⟩ := h.string hrep
  have hkey := string_no_jump hstring
  have hk : opcodeKey raw.opcode = b.toNat := by rw [hop]; rfl
  exact ⟨by rw [jumpTarget, hk, hkey.1]; rfl, by rw [callTarget, hk, if_neg hkey.2.1],
    by simp [computedJump, hk, hkey.2.2]⟩

theorem repeat_of_stop (hlock : 0xF0#8 ∉ raw.prefixes) (hstop : raw.prefixes.any stopPrefix = true)
    : raw.rep.isSome = true := by
  obtain ⟨p, hp, hs⟩ := any_eq_true.mp hstop
  have hne : p ≠ 0xF0#8 := fun h => hlock (h ▸ hp)
  simp only [stopPrefix, Bool.or_eq_true, decide_eq_true_eq] at hs
  unfold Raw.rep
  split
  · rfl
  · next h3 =>
      rcases hs with (h | rfl) | rfl
      · exact absurd h hne
      · have h2 : raw.prefixes.contains 0xF2 = true := contains_iff_mem.mpr hp
        rw [if_pos h2]
        rfl
      · exact absurd (contains_iff_mem.mpr hp) h3

theorem StepOf.transfers {other : RelationalItem}
    {step : ScheduleStep} (h : StepOf relocations offset raw step)
    (hitem : DecodedFrom relocations offset raw item)
    (hother : Reports relocations offset raw other) :
    step.target = (jumpTarget relocations offset raw).or (callTarget relocations offset raw) ∧
      step.computed = computedJump raw := by
  cases hstop : raw.prefixes.any stopPrefix with
  | false => exact h.plain hstop
  | true =>
    obtain ⟨ht, hc⟩ := h.stopped hstop
    obtain ⟨h1, h2, h3⟩ := hother.string_no_transfer (repeat_of_stop hitem.no_lock hstop)
    rw [ht, hc, h1, h2, h3]
    exact ⟨rfl, rfl⟩

/-! ## Agreement -/

section

variable {α β γ : Type} {R : α -> β -> Prop} {xs : List α} {ys : List β}

theorem map_eq_of_forall₂ (h : List.Forall₂ R xs ys) {f : α -> γ} {g : β -> γ}
    (hfg : ∀ x y, R x y -> g y = f x) : ys.map g = xs.map f := by
  induction h with
  | nil => rfl
  | cons hxy _ ih => rw [map_cons, map_cons, hfg _ _ hxy, ih]

theorem filterMap_eq_of_forall₂ (h : List.Forall₂ R xs ys) {f : α -> Option γ} {g : β -> Option γ}
    (hfg : ∀ x y, R x y -> g y = f x) : ys.filterMap g = xs.filterMap f := by
  induction h with
  | nil => rfl
  | cons hxy _ ih => rw [filterMap_cons, filterMap_cons, hfg _ _ hxy, ih]

end

/-- Equal spans, equal in-body targets, and the same classes. -/
structure WalkersAgree (instructions : List Instruction) (items : List RelationalItem)
    (spans : List (Nat × Nat)) (targets : Finset Int) : Prop where
  decoded_spans : instructions.map (fun item => (item.offset, item.length)) = spans
  relational_spans : items.map (fun item => (item.offset, item.length)) = spans
  decoded_targets : (instructions.filterMap (·.target)).toFinset = targets
  relational_targets : (items.filterMap (·.target)).toFinset = targets
  classes : instructions.map (·.transferClass) = items.map (·.flow.transferClass)

def jumpTargets (relocations : RelocationMap) (code : List Byte) : Finset Int :=
  ((sweep lengthMap code).filterMap fun entry => jumpTarget relocations entry.1 entry.2).toFinset

/-- No short displacement is relocated, and only jumps enter. -/
structure OnlyJumpsEnter (relocations : RelocationMap) (code : List Byte)
    (internalTargets : Option (List Int)) : Prop where
  short : ∀ entry ∈ sweep lengthMap code, jumpWidth (opcodeKey entry.2.opcode) = some 1 ->
    displacementRelocated relocations entry.1 entry.2.length 1 = false
  calls : ∀ entry ∈ sweep lengthMap code, ∀ target,
    callTarget relocations entry.1 entry.2 = some target -> target ∈ jumpTargets relocations code
  computed : (∃ entry ∈ sweep lengthMap code, computedJump entry.2 = true) ->
    ∀ internal, internalTargets = some internal -> ∀ target ∈ internal,
      target ∈ jumpTargets relocations code

theorem relationalTarget_eq
    (h : jumpWidth (opcodeKey raw.opcode) = some 1 ->
      displacementRelocated relocations offset raw.length 1 = false) :
    relationalTarget relocations offset raw = jumpTarget relocations offset raw ∧
      relationalClass relocations offset raw = decodedClass relocations offset raw := by
  unfold relationalTarget jumpTarget relationalClass decodedClass
  cases hw : jumpWidth (opcodeKey raw.opcode) with
  | none => exact ⟨rfl, rfl⟩
  | some width =>
    rcases (jumpWidth_cases hw).1 with rfl | rfl
    · have hno := h hw
      simp [directTarget, hno]
    · simp [directTarget]

theorem short_of_class_eq
    (h : relationalClass relocations offset raw = decodedClass relocations offset raw)
    (hw : jumpWidth (opcodeKey raw.opcode) = some 1) :
    displacementRelocated relocations offset raw.length 1 = false := by
  unfold relationalClass decodedClass at h
  simpa [hw] using h

section

variable {body : List Byte} {relocations : RelocationMap} {codeLength : Option Nat}
  {context : String} {instructions : List Instruction}

theorem decodeBody_sweep
    (h : decodeIa32BijectionBody body context relocations codeLength = .ok instructions) :
    List.Forall₂ (fun entry item => DecodedFrom relocations entry.1 entry.2 item)
      (sweep lengthMap (body.take (codeLength.getD body.length))) instructions := by
  replace h := after_require h
  replace h := after_require h
  obtain ⟨items, hitems, h⟩ := bind_eq_ok.mp h
  replace h := after_require h
  replace h := after_require h
  obtain ⟨_, -, h⟩ := bind_eq_ok.mp h
  cases h
  exact decodeFrom_sweep hitems

theorem scheduleWalk_sweep {internalTargets : Option (List Int)} {spans : List (Nat × Nat)}
    {targets : Finset Int}
    (h : ia32ScheduleBodyWalk body relocations context codeLength internalTargets =
      .ok (spans, targets)) :
    ∃ steps, List.Forall₂ (fun entry step => StepOf relocations entry.1 entry.2 step)
        (sweep lengthMap (body.take (codeLength.getD body.length))) steps ∧
      spans = steps.map (fun step => (step.offset, step.length)) ∧
      targets = (steps.filterMap (·.target)).toFinset ∪
        (if steps.any (·.computed) then (internalTargets.getD []).toFinset else ∅) := by
  replace h := after_require h
  replace h := after_require h
  obtain ⟨steps, hsteps, h⟩ := bind_eq_ok.mp h
  replace h := after_require h
  obtain ⟨_, -, h⟩ := bind_eq_ok.mp h
  obtain ⟨_, -, h⟩ := bind_eq_ok.mp h
  obtain ⟨internal, hinternal, h⟩ := bind_eq_ok.mp h
  cases h
  refine ⟨steps, scheduleStepsFrom_stepOf hsteps, rfl, ?_⟩
  cases hc : steps.filter (·.computed) with
  | nil =>
    simp only [hc] at hinternal
    cases hinternal
    have hnone : steps.any (·.computed) = false := by
      simpa using hc
    rw [hnone]
    rfl
  | cons first rest =>
    simp only [hc] at hinternal
    have hsome : steps.any (·.computed) = true := by
      have hmem : first ∈ steps.filter (·.computed) := by rw [hc]; simp
      obtain ⟨hin, hfirst⟩ := mem_filter.mp hmem
      exact any_eq_true.mpr ⟨first, hin, hfirst⟩
    rw [hsome, if_pos rfl]
    cases internalTargets with
    | none => cases hinternal
    | some found =>
      obtain ⟨-, hinternal⟩ := require_bind_eq_ok.mp hinternal
      cases hinternal
      rfl

theorem schedule_targets {items : List RelationalItem} {steps : List ScheduleStep}
    (hdec : List.Forall₂ (fun entry item => DecodedFrom relocations entry.1 entry.2 item)
      (sweep lengthMap code) instructions)
    (hrel : List.Forall₂ (fun entry item => Reports relocations entry.1 entry.2 item)
      (sweep lengthMap code) items)
    (hsched : List.Forall₂ (fun entry step => StepOf relocations entry.1 entry.2 step)
      (sweep lengthMap code) steps) :
    steps.filterMap (·.target) = (sweep lengthMap code).filterMap (fun entry =>
        (jumpTarget relocations entry.1 entry.2).or (callTarget relocations entry.1 entry.2)) ∧
      steps.map (·.computed) = (sweep lengthMap code).map fun entry => computedJump entry.2 := by
  have hboth : ∀ entry ∈ sweep lengthMap code,
    (∃ item, DecodedFrom relocations entry.1 entry.2 item) ∧
      ∃ item, Reports relocations entry.1 entry.2 item := fun entry hentry =>
    ⟨(forall₂_mem hdec hentry).imp fun _ h => h.2, (forall₂_mem hrel hentry).imp fun _ h => h.2⟩
  have hall := (List.forall₂_and_left _ _).mpr ⟨hboth, hsched⟩
  refine ⟨filterMap_eq_of_forall₂ hall fun entry step h => ?_,
    map_eq_of_forall₂ hall fun entry step h => ?_⟩
  · obtain ⟨⟨⟨item, hitem⟩, other, hother⟩, hstep⟩ := h
    exact (hstep.transfers hitem hother).1
  · obtain ⟨⟨⟨item, hitem⟩, other, hother⟩, hstep⟩ := h
    exact (hstep.transfers hitem hother).2

theorem mem_transferTargets {target : Int} :
    target ∈ ((sweep lengthMap code).filterMap fun entry =>
        (jumpTarget relocations entry.1 entry.2).or (callTarget relocations entry.1 entry.2)) ↔
      target ∈ jumpTargets relocations code ∨
        ∃ entry ∈ sweep lengthMap code, callTarget relocations entry.1 entry.2 = some target := by
  have hor : ∀ entry : Nat × Raw,
      (jumpTarget relocations entry.1 entry.2).or (callTarget relocations entry.1 entry.2) =
        some target ↔ jumpTarget relocations entry.1 entry.2 = some target ∨
          callTarget relocations entry.1 entry.2 = some target := by
    intro entry
    unfold jumpTarget callTarget
    cases hw : jumpWidth (opcodeKey entry.2.opcode) with
    | none => simp
    | some width => simp [(jumpWidth_cases hw).2.1]
  simp only [mem_filterMap, hor, jumpTargets, mem_toFinset]
  constructor
  · rintro ⟨entry, hentry, h | h⟩
    · exact .inl ⟨entry, hentry, h⟩
    · exact .inr ⟨entry, hentry, h⟩
  · rintro (⟨entry, hentry, h⟩ | ⟨entry, hentry, h⟩)
    · exact ⟨entry, hentry, .inl h⟩
    · exact ⟨entry, hentry, .inr h⟩

end

def shortJumpBody : List Byte := [0xEB, 0x00, 0xC3]

def shortJumpRelocations : RelocationMap := ⟨[(1, ⟨1, "_f"⟩)], by simp⟩

end Reprobit

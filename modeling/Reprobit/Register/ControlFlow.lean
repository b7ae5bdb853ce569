import Reprobit.Register.Body

/-!
# Where control goes after a decoded instruction

Every step of the machine from a decoded instruction is compared with the flow
class, the branch target and the successor edges the decoder derived.
-/

namespace Reprobit

open Machine List Bool

/-- What an operation of each flow class can do to control. -/
inductive FlowCtl (op : Op) : Flow -> Ctl -> Prop
  | next : FlowCtl op .fall .next
  | fault : FlowCtl op .fall .fault
  | again : isString op = true -> FlowCtl op .fall .again
  | taken : FlowCtl op .jcc .branch
  | notTaken : FlowCtl op .jcc .next
  | jmp : FlowCtl op .jmp .branch
  | jump (v : Nat) : FlowCtl op .exit (.jump v)
  | call (v : Option Nat) : FlowCtl op .call (.call v)
  | ret : FlowCtl op .ret .ret

theorem flowCtl_eval {X : Type} (F : Fpu X) (next : Nat) {op : Op} {flow : Flow}
    (h : flowAgrees flow op = true) (vals : List Nat) (fl : Flag -> Bool) (x : X) :
    FlowCtl op flow (op.eval F next vals fl x).ctl := by
  cases op with
  | jcc cc =>
    obtain rfl : flow = .jcc := by simpa [flowAgrees] using h
    simp only [Op.eval]
    cases condHolds cc fl with
    | true => exact .taken
    | false => exact .notTaken
  | jmp =>
    obtain rfl : flow = .jmp := by simpa [flowAgrees] using h
    exact .jmp
  | jmpReg =>
    obtain rfl : flow = .exit := by simpa [flowAgrees] using h
    exact .jump _
  | call =>
    obtain rfl : flow = .call := by simpa [flowAgrees] using h
    exact .call _
  | callReg =>
    obtain rfl : flow = .call := by simpa [flowAgrees] using h
    exact .call _
  | ret =>
    obtain rfl : flow = .ret := by simpa [flowAgrees] using h
    exact .ret
  | div signed =>
    obtain rfl : flow = .fall := by simpa [flowAgrees] using h
    simp only [Op.eval]
    split
    · exact .fault
    · exact .next
  | ud =>
    obtain rfl : flow = .fall := by simpa [flowAgrees] using h
    exact .fault
  | string sop w z =>
    obtain rfl : flow = .fall := by simpa [flowAgrees] using h
    simp only [Op.eval, Op.stringStep]
    split
    · exact .next
    · cases sop with
      | movs => exact .again rfl
      | stos => exact .again rfl
      | scas =>
        simp only
        split
        · exact .again rfl
        · exact .next
      | cmps =>
        simp only
        split
        · exact .again rfl
        · exact .next
  | _ =>
    obtain rfl : flow = .fall := by simpa [flowAgrees] using h
    exact .next

namespace FlowStage

variable {form : BijectionForm} {encoded : List Byte} {offset : Nat} {relocations : RelocationMap}
  {t t' : Touched} {flow flow' : Flow} {target : Option Int}

/-- Only a direct jump can change its class, into an external transfer. -/
theorem flow_eq (h : FlowStage form encoded offset relocations t flow flow' target t')
    (hne : flow ≠ .jmp) : flow' = flow := by
  cases h with
  | call => rfl
  | external => exact absurd rfl hne
  | relative => rfl
  | other => rfl

theorem branch_cases (h : FlowStage form encoded offset relocations t flow flow' target t')
    (hflow : flow = .jcc ∨ flow = .jmp) (hd : form.displacement ≠ 0) :
    (externalTransfer form encoded offset relocations = true ∧ flow' = .exit) ∨
    (externalTransfer form encoded offset relocations = false ∧ flow' = flow ∧
      target = some (offset + encoded.length +
        signedLe (encoded.drop (encoded.length - form.displacement)))) := by
  cases h with
  | call => rcases hflow with h | h <;> cases h
  | external _ hext => exact .inl ⟨hext, rfl⟩
  | relative _ _ hext => exact .inr ⟨hext, rfl, rfl⟩
  | other _ hz => exact absurd (hz hflow) hd

theorem of_ret (h : FlowStage form encoded offset relocations t flow .ret target t') :
    flow = .ret ∧ t' = t := by
  cases h with
  | relative => exact ⟨rfl, rfl⟩
  | other => exact ⟨rfl, rfl⟩

theorem of_exit (h : FlowStage form encoded offset relocations t flow .exit target t') :
    (flow = .exit ∧ t' = t) ∨ (flow = .jmp ∧ t' = t.external) := by
  cases h with
  | external => exact .inr ⟨rfl, rfl⟩
  | relative => exact .inl ⟨rfl, rfl⟩
  | other => exact .inl ⟨rfl, rfl⟩

theorem of_jcc (h : FlowStage form encoded offset relocations t flow .jcc target t') :
    flow = .jcc := by
  cases h with
  | relative => rfl
  | other => rfl

end FlowStage

section

variable {X : Type} {relocations : RelocationMap} {body code : List Byte} {limit : Nat}
  {item : Instruction} {raw : Raw} {form : BijectionForm} {f : Form} {t : Touched}

variable (h : Resolves relocations code item raw form f t)

include h

theorem Resolves.flowStage :
    FlowStage form raw.encode item.offset relocations (fieldsTouched raw item.offset form)
      (form.flowOf (some raw.digit.toNat)) item.flow item.target t := by
  obtain ⟨context, hflow⟩ := h.decodes.flow_eq
  rw [flowOf_digit h.modrm h.agrees] at hflow
  exact decodeFlow_cases hflow

theorem Resolves.imm_length (hd : form.displacement ≠ 0) : raw.imm.length = form.displacement := by
  obtain ⟨s, s', -, hs', -, -, himm, -⟩ := shapesAgree_iff.mp (formOf_shapes h.decodes.form_eq)
  have htr := h.agrees.transfer
  simp only [transferShape, and_eq_true, or_eq_true, beq_iff_eq, not_eq_true'] at htr
  obtain ⟨hmod, hsize⟩ := htr.1.resolve_left hd
  have hnomod : raw.modrm = none := by
    have := h.modrm
    rw [hmod] at this
    simpa using this.symm
  have hops : raw.opsize = false := by
    cases ho : raw.opsize with
    | false => rfl
    | true => have := (h.decodes.size16 ho).1; rw [hsize] at this; cases this
  obtain ⟨shape, hshape, -, hlen⟩ := h.wf.shape
  rw [hs'] at hshape
  cases hshape
  rw [hlen, hops, <- himm.resolve_left hd]
  simp [Raw.digit, hnomod]

theorem Resolves.external_iff
    (hd : form.displacement ≠ 0) (body : List Byte) (origin : Word)
    (value : String -> Word) (landings : Finset Nat) :
    (linkedProgram body relocations origin value landings).relocated (item.offset + raw.immAt)
      raw.imm.length = externalTransfer form raw.encode item.offset relocations := by
  rw [linkedProgram_relocated, h.imm_length hd]
  unfold externalTransfer
  have hlen : raw.encode.length = raw.immAt + form.displacement := by
    rw [<- h.imm_length hd]; exact raw.length_eq
  have : item.offset + raw.encode.length - form.displacement = item.offset + raw.immAt := by omega
  rw [this]

omit h in
theorem Resolves.branch (h : Resolves relocations (body.take limit) item raw form f t)
    (origin : Word) (value : String -> Word) (landings : Finset Nat)
    (hd : form.displacement ≠ 0) (s : State X) :
    branchTo (linkedProgram body relocations origin value landings) item.offset raw s =
      if externalTransfer form raw.encode item.offset relocations then .left none s
      else if 0 <= (item.offset + raw.encode.length : Int) +
          signedLe (raw.encode.drop (raw.encode.length - form.displacement)) then
        .running ((item.offset + raw.encode.length : Int) +
          signedLe (raw.encode.drop (raw.encode.length - form.displacement))).toNat s
      else .left none s := by
  have hlen : raw.encode.length = raw.immAt + form.displacement := by
    rw [<- h.imm_length hd]; exact raw.length_eq
  have hdrop : raw.encode.drop (raw.encode.length - form.displacement) = raw.imm := by
    rw [hlen, Nat.add_sub_cancel, raw.encode_drop_immAt]
  unfold branchTo
  rw [h.external_iff hd body origin value landings, hdrop]
  rfl

/-- What one step from a decoded instruction can lead to. -/
inductive StepOutcome (E : Env X) (item : Instruction) : Outcome X -> Prop
  | next {s : State X} : item.flow = .fall ∨ item.flow = .jcc ->
      StepOutcome E item (.running (item.offset + item.length) s)
  | called {s : State X} {view : CallIn X} {out : CallOut X} : item.flow = .call ->
      view.site = item.offset -> E.callee view = some out ->
      StepOutcome E item (.running (item.offset + item.length) s)
  | fault {s : State X} : item.flow = .fall -> StepOutcome E item (.fault s)
  | again {s : State X} : item.flow = .fall -> item.memory.any (·.unknown) = true ->
      StepOutcome E item (.running item.offset s)
  | taken {target : Int} {s : State X} : item.flow = .jcc ∨ item.flow = .jmp ->
      item.target = some target -> 0 <= target -> StepOutcome E item (.running target.toNat s)
  | below {target : Int} {s : State X} : item.flow = .jcc ∨ item.flow = .jmp ->
      item.target = some target -> target < 0 -> StepOutcome E item (.left none s)
  | noReturn {s : State X} : item.flow = .call -> StepOutcome E item (.noReturn s)
  | returned {s : State X} : item.flow = .ret -> StepOutcome E item (.returned s)
  | left {v : Option Nat} {s : State X} : item.flow = .exit -> StepOutcome E item (.left v s)
  | landed {pc : Nat} {s : State X} : item.flow = .exit -> item.indirect = true ->
      StepOutcome E item (.running pc s)

omit h in
theorem flowCtl_effect (P : Program) (E : Env X) (pc : Nat) (raw : Raw) (s : State X) {flow : Flow}
    (h : flowAgrees flow f.op = true) :
    FlowCtl f.op flow ((instrAction P E pc raw f).effect s).ctl := by
  simp only [instrAction, Form.action, Action.effect]
  exact flowCtl_eval E.fpu _ h _ _ _

omit h in
theorem Resolves.outcome (h : Resolves relocations (body.take limit) item raw form f t)
    (origin : Word) (value : String -> Word) (landings : Finset Nat) (E : Env X) (s : State X) :
    StepOutcome E item
      (step (linkedProgram body relocations origin value landings) E item.offset s).2 := by
  rw [step_resolved E s h]
  have hlen : item.length = raw.length := h.decodes.length_eq
  have hctl := flowCtl_effect (linkedProgram body relocations origin value landings) E
    item.offset raw s h.agrees.flow
  have hstage := h.flowStage
  simp only
  generalize hflow : form.flowOf (some raw.digit.toNat) = flow at hctl hstage
  generalize (instrAction (linkedProgram body relocations origin value landings) E item.offset raw
    f).exec s = s'
  generalize ((instrAction (linkedProgram body relocations origin value landings) E item.offset raw
    f).effect s).ctl = ctl at hctl
  have hjump : flow = .jcc ∨ flow = .jmp -> form.displacement ≠ 0 := by
    intro hj
    have htr := h.agrees.transfer
    simp only [transferShape, hflow, and_eq_true, or_eq_true, bne_iff_ne] at htr
    rcases htr.2 with hno | hd
    · rcases hj with rfl | rfl
      · exact absurd rfl hno.1
      · exact absurd rfl hno.2
    · exact hd
  have hbranch : flow = .jcc ∨ flow = .jmp -> StepOutcome E item
      (branchTo (linkedProgram body relocations origin value landings) item.offset raw s') := by
    intro hj
    rw [h.branch origin value landings (hjump hj)]
    rcases hstage.branch_cases hj (hjump hj) with ⟨hext, hexit⟩ | ⟨hext, hsame, htarget⟩
    · rw [if_pos hext]
      exact .left hexit
    · rw [hext, if_neg (by decide)]
      rw [<- hsame] at hj
      split
      · next hpos => exact .taken hj htarget hpos
      · next hneg => exact .below hj htarget (by omega)
  cases hctl with
  | next =>
    simp only [transfer, <- hlen]
    exact .next (.inl (hstage.flow_eq (by decide)))
  | fault => exact .fault (hstage.flow_eq (by decide))
  | again hs =>
    refine .again (hstage.flow_eq (by decide)) ?_
    rw [h.agrees.string] at hs
    obtain ⟨m, hm⟩ := Option.isSome_iff_exists.mp hs
    rw [h.decodes.memory_eq, hm]
    rfl
  | taken => exact hbranch (.inl rfl)
  | notTaken =>
    simp only [transfer, <- hlen]
    exact .next (.inr (hstage.flow_eq (by decide)))
  | jmp => exact hbranch (.inr rfl)
  | jump v =>
    have hexit := hstage.flow_eq (by decide)
    simp only [transfer, jumpTo]
    split
    · refine .landed hexit ?_
      have hmod := h.agrees.exits
      simp only [exitReads, hflow, and_eq_true] at hmod
      rw [h.decodes.indirect_eq, flowOf_digit h.modrm h.agrees, hflow, hmod.1]
      rfl
    · exact .left hexit
  | call v =>
    have hcall := hstage.flow_eq (by decide)
    simp only [transfer, callTo]
    split
    · exact .noReturn hcall
    · next out hout =>
        rw [<- hlen]
        exact .called hcall rfl hout
  | ret => exact .returned (hstage.flow_eq (by decide))

omit h in
theorem zeroedRegister_form {r : Reg} {digit : Option Nat} (hform : formOf raw = some form)
    (hz : zeroedRegister (opcodeKey raw.opcode) (widthOf raw form) raw.modrm = some r) :
    form.flowOf digit = .fall := by
  have hkey : opcodeKey raw.opcode = 49 ∨ opcodeKey raw.opcode = 51 := by
    unfold zeroedRegister at hz
    split at hz
    · split at hz
      · next h => exact h.1
      · cases hz
    · cases hz
  unfold formOf at hform
  cases hr : repeatOf raw.prefixes with
  | some b =>
    simp only [hr] at hform
    have hnone : ∀ p ∈ [242, 243], ∀ key ∈ [49, 51],
        ia32BijectionRepeatedStringForms p key = none := by decide
    have hb : b.toNat ∈ [242, 243] := by rcases repeatOf_mem hr with rfl | rfl <;> simp
    have := hnone b.toNat hb (opcodeKey raw.opcode) (by simpa using hkey)
    rw [this] at hform
    cases hform
  | none =>
    simp only [hr] at hform
    rcases hkey with hk | hk
    · simp only [hk] at hform
      cases hform
      cases digit <;> rfl
    · simp only [hk] at hform
      cases hform
      cases digit <;> rfl

theorem Resolves.zeroes_none (hflow : form.flowOf (some raw.digit.toNat) ≠ .fall) :
    zeroedRegister (opcodeKey raw.opcode) (widthOf raw form) raw.modrm = none := by
  cases hz : zeroedRegister (opcodeKey raw.opcode) (widthOf raw form) raw.modrm with
  | none => rfl
  | some r => exact absurd (zeroedRegister_form h.decodes.form_eq hz) hflow

theorem accountedReads_subset {names : Finset Reg}
    (hsub : names ⊆ accountedReads form raw.digit.toNat) :
    ia32RegisterAtoms names ⊆ (fieldsTouched raw item.offset form).readAtoms := by
  intro a ha
  obtain ⟨r, hr, har⟩ := Finset.mem_biUnion.mp ha
  exact accountedReads_atoms h.modrm h.agrees (hsub hr) har

theorem Resolves.ret_reads
    (hflow : item.flow = .ret) : ia32RegisterAtoms ia32ReturnLive ⊆ item.readAtoms := by
  have hstage := h.flowStage
  rw [hflow] at hstage
  obtain ⟨hret, ht⟩ := hstage.of_ret
  have hexits := h.agrees.exits
  simp only [exitReads, hret, decide_eq_true_eq] at hexits
  rw [h.decodes.readAtoms_eq, h.zeroes_none (by rw [hret]; decide), ht]
  exact accountedReads_subset h hexits

theorem Resolves.exit_reads (hflow : item.flow = .exit) :
    ia32RegisterAtoms ia32GeneralRegisterNames ⊆ item.readAtoms := by
  have hstage := h.flowStage
  rw [hflow] at hstage
  rcases hstage.of_exit with ⟨hexit, ht⟩ | ⟨hjmp, ht⟩
  · have hexits := h.agrees.exits
    simp only [exitReads, hexit, and_eq_true, decide_eq_true_eq] at hexits
    rw [h.decodes.readAtoms_eq, h.zeroes_none (by rw [hexit]; decide), ht]
    exact accountedReads_subset h hexits.2
  · rw [h.decodes.readAtoms_eq, h.zeroes_none (by rw [hjmp]; decide), ht]
    exact Finset.Subset.refl _

end

section

variable {instructions : List Instruction} {context : String} {index : Nat} {item : Instruction}
  {edges : List Nat}

variable (h : instructionEdges instructions context index item = .ok edges)

include h

theorem instructionEdges_cases : ∃ fall, fallEdges instructions context index item = .ok fall ∧
      ((item.flow = .jcc ∨ item.flow = .jmp) ∧
        (∃ target, instructions.findIdx? (fun other => some (other.offset : Int) = item.target) =
          some target ∧ edges = fall ++ [target]) ∨
      ¬ (item.flow = .jcc ∨ item.flow = .jmp) ∧ edges = fall) := by
  obtain ⟨fall, hfall, h⟩ := bind_eq_ok.mp h
  refine ⟨fall, hfall, ?_⟩
  split at h
  · next hflow =>
      cases hf : instructions.findIdx? (fun other => some (other.offset : Int) = item.target) with
      | none => rw [hf] at h; cases h
      | some target =>
        rw [hf] at h
        cases h
        exact .inl ⟨hflow, target, rfl, rfl⟩
  · next hflow =>
      cases h
      exact .inr ⟨hflow, rfl⟩

theorem instructionEdges_fall (hflow : item.flow = .fall ∨ item.flow = .jcc ∨ item.flow = .call) :
    (index + 1 < instructions.length ∧ index + 1 ∈ edges) ∨
      (instructions.length <= index + 1 ∧ item.flow ≠ .fall) := by
  obtain ⟨fall, hfall, hedges⟩ := instructionEdges_cases h
  have hsub : ∀ e ∈ fall, e ∈ edges := by
    rcases hedges with ⟨-, target, -, rfl⟩ | ⟨-, rfl⟩
    · intro e he; simp [he]
    · intro e he; exact he
  unfold fallEdges at hfall
  rw [if_pos hflow] at hfall
  by_cases hlt : index + 1 < instructions.length
  · rw [if_pos hlt] at hfall
    cases hfall
    exact .inl ⟨hlt, hsub _ (by simp)⟩
  · rw [if_neg hlt] at hfall
    obtain ⟨hne, -⟩ := require_bind_eq_ok.mp hfall
    exact .inr ⟨by omega, hne⟩

theorem instructionEdges_target (hflow : item.flow = .jcc ∨ item.flow = .jmp) :
    ∃ edge ∈ edges, ∃ other, instructions[edge]? = some other ∧
      some (other.offset : Int) = item.target := by
  obtain ⟨fall, -, hedges⟩ := instructionEdges_cases h
  rcases hedges with ⟨-, target, hf, rfl⟩ | ⟨hno, -⟩
  · obtain ⟨hlt, hp, -⟩ := findIdx?_eq_some_iff_getElem.mp hf
    exact ⟨target, by simp, instructions[target], getElem?_eq_getElem hlt, by simpa using hp⟩
  · exact absurd hflow hno

end

/-! ## Completeness of the graph -/

/-- A successor, a repeated iteration, or an exit whose reads are declared. -/
inductive Accounted {X : Type} (instructions : List Instruction) (successors : List (List Nat))
    (index : Nat) (item : Instruction) : Outcome X -> Prop
  | successor {s : State X} {edge : Nat} {other : Instruction} :
      edge ∈ successors.getD index [] -> instructions[edge]? = some other ->
      Accounted instructions successors index item (.running other.offset s)
  | again {s : State X} : item.memory.any (·.unknown) = true ->
      Accounted instructions successors index item (.running item.offset s)
  | computed {pc : Nat} {s : State X} : item.indirect = true ->
      ia32RegisterAtoms ia32GeneralRegisterNames ⊆ item.readAtoms ->
      Accounted instructions successors index item (.running pc s)
  | left {v : Option Nat} {s : State X} :
      ia32RegisterAtoms ia32GeneralRegisterNames ⊆ item.readAtoms ->
      Accounted instructions successors index item (.left v s)
  | returned {s : State X} : ia32RegisterAtoms ia32ReturnLive ⊆ item.readAtoms ->
      Accounted instructions successors index item (.returned s)
  | noReturn {s : State X} : item.flow = .call ->
      Accounted instructions successors index item (.noReturn s)
  | fault {s : State X} : Accounted instructions successors index item (.fault s)

def NoReturnAtEnd {X : Type} (instructions : List Instruction) (E : Env X) : Prop :=
  ∀ item, instructions.getLast? = some item -> item.flow = .call ->
    ∀ view : CallIn X, view.site = item.offset -> E.callee view = none

/-- The graph accounts for wherever control can go. -/
def FlowComplete (body : List Byte) (relocations : RelocationMap)
    (instructions : List Instruction) (successors : List (List Nat)) : Prop :=
  ∀ (X : Type) (origin : Word) (value : String -> Word) (landings : Finset Nat) (E : Env X),
    NoReturnAtEnd instructions E ->
    ∀ index item, instructions[index]? = some item -> ∀ s : State X,
      Accounted instructions successors index item
        (step (linkedProgram body relocations origin value landings) E item.offset s).2

section

variable {body : List Byte} {relocations : RelocationMap} {instructions : List Instruction}
  {limit : Nat} {context : String} {live : LiveSets} {successors : List (List Nat)}

variable {item : Instruction} {index : Nat}

theorem liveSets_edges (h : registerBijectionLiveSets instructions context = .ok (live, successors))
    (hitem : instructions[index]? = some item) :
    instructionEdges instructions context index item = .ok (successors.getD index []) := by
  obtain ⟨succ, hsucc, h⟩ := bind_eq_ok.mp h
  obtain ⟨live', -, h⟩ := bind_eq_ok.mp h
  cases h
  have := (successorsFrom_eq_ok hsucc).2 index item hitem
  rwa [Nat.zero_add] at this

theorem getLast?_of_length_le
    (hitem : instructions[index]? = some item) (hle : instructions.length <= index + 1) :
    instructions.getLast? = some item := by
  have hlt := (List.getElem?_eq_some_iff.mp hitem).1
  rw [getLast?_eq_getElem?, show instructions.length - 1 = index by omega, hitem]

section

variable (hlive : registerBijectionLiveSets instructions context = .ok (live, successors))
  (hitem : instructions[index]? = some item)

include hlive hitem

theorem accounted_next {X : Type} (hbody : BodyDecoded body relocations instructions limit)
    (hflow : item.flow = .fall ∨ item.flow = .jcc ∨ item.flow = .call)
    (hlast : instructions.getLast? = some item -> item.flow = .fall) (s : State X) :
    Accounted instructions successors index item (.running (item.offset + item.length) s) := by
  rcases instructionEdges_fall (liveSets_edges hlive hitem) hflow with ⟨hlt, hedge⟩ | ⟨hend, hne⟩
  · have hnext := hbody.tiles.next hitem
    have hother : instructions[index + 1]? = some instructions[index + 1] :=
      getElem?_eq_getElem hlt
    rw [hother] at hnext
    rw [<- hnext]
    exact .successor hedge hother
  · exact absurd (hlast (getLast?_of_length_le hitem hend)) hne

theorem accounted_taken {X : Type} (hflow : item.flow = .jcc ∨ item.flow = .jmp) {target : Int}
    (htarget : item.target = some target) (s : State X) :
    0 <= target ∧ Accounted instructions successors index item (.running target.toNat s) := by
  obtain ⟨edge, hedge, other, hother, hoff⟩ :=
    instructionEdges_target (liveSets_edges hlive hitem) hflow
  rw [htarget, Option.some.injEq] at hoff
  subst hoff
  exact ⟨by omega, by rw [Int.toNat_natCast]; exact .successor hedge hother⟩

end

theorem flowComplete_of_last (hbody : BodyDecoded body relocations instructions limit)
    (hlive : registerBijectionLiveSets instructions context = .ok (live, successors))
    (hlast : ∀ item, instructions.getLast? = some item -> item.flow ≠ .jcc) :
    FlowComplete body relocations instructions successors := by
  intro X origin value landings E hnoret index item hitem s
  obtain ⟨raw, form, f, t, hres⟩ := hbody.resolves item (mem_of_getElem? hitem)
  have hout := hres.outcome origin value landings E s
  generalize (step (linkedProgram body relocations origin value landings) E item.offset s).2 = o
    at hout
  cases hout with
  | next hflow =>
    refine accounted_next hlive hitem hbody (hflow.imp_right .inl) (fun hl => ?_) _
    exact hflow.resolve_right (hlast item hl)
  | called hflow hsite hcallee =>
    refine accounted_next hlive hitem hbody (.inr (.inr hflow)) (fun hl => ?_) _
    rw [hnoret item hl hflow _ hsite] at hcallee
    cases hcallee
  | fault => exact .fault
  | again _ hstr => exact .again hstr
  | taken hflow htarget _ => exact (accounted_taken hlive hitem hflow htarget _).2
  | below hflow htarget hneg =>
    have := (accounted_taken hlive hitem hflow htarget s).1
    omega
  | noReturn hflow => exact .noReturn hflow
  | returned hflow => exact .returned (hres.ret_reads hflow)
  | left hflow => exact .left (hres.exit_reads hflow)
  | landed hflow hind => exact .computed hind (hres.exit_reads hflow)

theorem exists_notTaken {raw : Raw} {form : BijectionForm} {f : Form}
    {t : Touched} (h : Resolves relocations (body.take limit) item raw form f t)
    (hflow : item.flow = .jcc) (origin : Word) (value : String -> Word) (landings : Finset Nat) :
    ∃ s s' : State Unit, (step (linkedProgram body relocations origin value landings) .idle
      item.offset s).2 = .running (item.offset + item.length) s' := by
  have hstage := h.flowStage
  rw [hflow] at hstage
  have hagree := h.agrees.flow
  rw [hstage.of_jcc] at hagree
  obtain ⟨cc, hcc⟩ : ∃ cc, f.op = .jcc cc := by
    cases hop : f.op <;> rw [hop] at hagree <;> simp [flowAgrees] at hagree
    exact ⟨_, rfl⟩
  obtain ⟨fl, hfl⟩ := exists_condHolds_false cc
  let s : State Unit := ⟨fun _ => 0, fl, fun _ => 0, ()⟩
  let a := instrAction (linkedProgram body relocations origin value landings) .idle item.offset
    raw f
  have hctl : (a.effect s).ctl = .next := by
    simp [a, s, instrAction, Form.action, Action.effect, hcc, Op.eval, Op.flagsRead, hfl]
  refine ⟨s, a.exec s, ?_⟩
  rw [step_resolved _ _ h, h.decodes.length_eq]
  simp only [hctl, transfer, a]

theorem not_flowComplete_of_last (hbody : BodyDecoded body relocations instructions limit)
    (hlast : instructions.getLast? = some item) (hflow : item.flow = .jcc) :
    ¬ FlowComplete body relocations instructions successors := by
  intro hcomplete
  have hmem : item ∈ instructions := mem_of_getLast? hlast
  obtain ⟨raw, form, f, t, hres⟩ := hbody.resolves item hmem
  obtain ⟨s, s', hstep⟩ := exists_notTaken hres hflow 0 (fun _ => 0) ∅
  have hindex : instructions[instructions.length - 1]? = some item := by
    rw [<- getLast?_eq_getElem?]; exact hlast
  have hnoret : NoReturnAtEnd instructions Env.idle := fun _ _ _ _ _ => rfl
  have hacc := hcomplete Unit 0 (fun _ => 0) ∅ .idle hnoret _ item hindex s
  rw [hstep] at hacc
  have hend : item.offset + item.length = limit := by
    have hnext := hbody.tiles.next hindex
    have hnone : instructions[instructions.length - 1 + 1]? = none := by
      rw [List.getElem?_eq_none_iff]; omega
    rw [hnone] at hnext
    exact hnext
  have hpos := (hbody.tiles.mem_bounds hmem).2.2
  generalize hpc : item.offset + item.length = pc at hacc
  cases hacc with
  | successor hedge hother =>
    have := hbody.tiles.mem_bounds (mem_of_getElem? hother)
    omega
  | again => omega
  | computed hind =>
    have hstage := hres.flowStage
    rw [hflow] at hstage
    rw [hres.decodes.indirect_eq, flowOf_digit hres.modrm hres.agrees, hstage.of_jcc] at hind
    simp at hind

end

/-- A lone near return. -/
def retBody : List Byte := [0xC3]

def retItem : Instruction where
  offset := 0
  length := 1
  opcode := 0xC3
  fields := []
  reads := ia32ReturnLive
  writes := ∅
  flow := .ret
  target := none
  frozen := ∅
  memory := none
  encoding := none
  indirect := false
  readAtoms := ia32RegisterAtoms ia32ReturnLive
  writeAtoms := ∅

/-- A conditional branch to itself, and nothing behind it. -/
def branchBody : List Byte := [0x74, 0xFE]

def branchItem : Instruction where
  offset := 0
  length := 2
  opcode := 0x74
  fields := []
  reads := ∅
  writes := ∅
  flow := .jcc
  target := some 0
  frozen := ∅
  memory := none
  encoding := none
  indirect := false
  readAtoms := ∅
  writeAtoms := ∅

end Reprobit

import Reprobit.Relational.FlagFacts

/-!
# The schedule walk

`ia32_schedule_body_walk`: the instruction boundaries of a body and the set of
offsets control can enter from elsewhere in it.  It is the third of the body
walkers; it decodes only as much of an instruction as it needs to find a
displacement.
-/

namespace Reprobit

open Machine List Option

def ia32ScheduleInteriorPrefixes : List Nat := [38, 46, 54, 62, 100, 101, 102]

def ia32ScheduleTerminalOpcodes : List Nat := [194, 195, 202, 203, 233, 235]

/-- Its span, its in-body target and whether it is a computed jump. -/
structure ScheduleStep where
  offset : Nat
  length : Nat
  target : Option Int
  computed : Bool
  deriving DecidableEq, Repr

/-- Step over segment and operand-size prefixes. -/
def skipInteriorPrefixes (code : List Byte) (offset length : Nat) (context : String) :
    Nat -> Nat -> Refusing Nat
  | 0, cursor => .ok cursor
  | fuel + 1, cursor =>
    if codeByte code cursor ∈ ia32ScheduleInteriorPrefixes then do
      require (cursor + 1 < offset + length)
        (context ++ ": instruction at " ++ toString offset ++ " is only prefixes")
      skipInteriorPrefixes code offset length context fuel (cursor + 1)
    else .ok cursor

variable (code : List Byte) (relocations : RelocationMap) (context : String) (offset : Nat)

/-- The width of the displacement at `cursor`, 0 for none. -/
def scheduleWidth (offset length cursor : Nat) : Nat :=
  let opcode := codeByte code cursor
  if (112 <= opcode ∧ opcode < 128) ∨ opcode ∈ [235, 224, 225, 226, 227] then 1
  else if opcode ∈ [233, 232] ∨ (opcode = 15 ∧ cursor + 1 < offset + length ∧
      128 <= codeByte code (cursor + 1) ∧ codeByte code (cursor + 1) <= 143) then 4
  else 0

def scheduleComputed (offset length cursor : Nat) (context : String) : Refusing Bool :=
  if codeByte code cursor = 255 then do
    require (cursor + 1 < offset + length)
      (context ++ ": FF form at " ++ toString offset ++ " lacks its ModRM")
    let extension := codeByte code (cursor + 1) / 8 % 8
    require (extension ≠ 3 ∧ extension ≠ 5) (context ++ ": a far jump at " ++ toString offset ++
        " makes the window's entry set unknowable")
    pure (extension = 4)
  else pure false

def displacementRelocated (offset length width : Nat) : Bool :=
  (relocations.get (offset + length - width)).any fun row => row.width = width

def scheduleStep : Refusing ScheduleStep := do
  let length <- supportedIa32InstructionLength (code.drop offset)
    (context ++ " at " ++ toString offset)
  let cursor <- skipInteriorPrefixes code offset length context length offset
  let width := scheduleWidth code offset length cursor
  let computed <- scheduleComputed code offset length cursor context
  pure {
    offset := offset
    length := length
    target := if width = 0 ∨ displacementRelocated relocations offset length width then none
      else some (displacedTarget code offset length width)
    computed := computed }

def scheduleStepsFrom (code : List Byte) (relocations : RelocationMap) (context : String) :
    Nat -> Nat -> Refusing (List ScheduleStep)
  | 0, _ => .ok []
  | fuel + 1, offset =>
    if offset < code.length then do
      let step <- scheduleStep code relocations context offset
      let rest <- scheduleStepsFrom code relocations context fuel (offset + step.length)
      pure (step :: rest)
    else .ok []

def scheduleEnd (steps : List ScheduleStep) : Nat :=
  (steps.getLast?.map fun step => step.offset + step.length).getD 0

/-- Whether the instruction at an offset ends the flow of control. -/
def scheduleTerminal (step : ScheduleStep) : Refusing Bool := do
  let cursor <- skipInteriorPrefixes code step.offset step.length context step.length step.offset
  let opcode := codeByte code cursor
  pure (if opcode = 255 then codeByte code (cursor + 1) / 8 % 8 = 4
    else opcode ∈ ia32ScheduleTerminalOpcodes)

def scheduleInternal (limit : Nat) (starts : List Int) (computed : List ScheduleStep)
    (internalTargets : Option (List Int)) (context : String) : Refusing (Finset Int) :=
  match computed with
  | [] => pure ∅
  | first :: _ =>
    match internalTargets with
    | none => .error (context ++ ": a computed jump at " ++ toString first.offset ++
        " makes the window's entry set unknowable without the relocated in-body target set")
    | some targets => do
      let stray := (targets.dedup.insertionSort (· <= ·)).filter fun target =>
        target < (limit : Int) ∧ target ∉ starts
      require (stray = [])
        (context ++ ": the relocated in-body target " ++ showInts (stray.take 1) ++
          " is not an instruction boundary of this body")
      pure targets.toFinset

def scheduleTail (body code : List Byte) (limit : Nat) (steps : List ScheduleStep)
    (context : String) : Refusing Unit :=
  if limit < body.length then
    match steps.getLast? with
    | none => .error "IndexError"
    | some last => do
      let terminal <- scheduleTerminal code context last
      require (terminal = true) (context ++ ": code falls through into the body's data tail")
  else pure ()

def ia32ScheduleBodyWalk (body : List Byte) (relocations : RelocationMap) (context : String)
    (codeLength : Option Nat) (internalTargets : Option (List Int)) :
    Refusing (List (Nat × Nat) × Finset Int) := do
  require (body ≠ []) (context ++ ": body is empty")
  let limit := codeLength.getD body.length
  require (0 < limit ∧ limit <= body.length) (context ++ ": code length is out of range")
  let code := body.take limit
  let steps <- scheduleStepsFrom code relocations context code.length 0
  require (scheduleEnd steps = code.length) (context ++ ": body does not decode to exhaustion")
  let starts := steps.map fun step => (step.offset : Int)
  let targets := steps.filterMap (·.target)
  requireEach (targets.dedup.insertionSort (· <= ·)) (fun target => target ∈ starts)
    fun target => context ++ ": a branch targets " ++ toString target ++
      ", which is not an instruction boundary of this body"
  scheduleTail body code limit steps context
  let internal <- scheduleInternal limit starts (steps.filter (·.computed)) internalTargets context
  pure (steps.map (fun step => (step.offset, step.length)), targets.toFinset ∪ internal)

/-! ## What one step says about its instruction -/

def jumpWidth (opcode : Nat) : Option Nat :=
  if (112 <= opcode ∧ opcode <= 127) ∨ opcode ∈ [235, 224, 225, 226, 227] then some 1
  else if opcode = 233 ∨ (3968 <= opcode ∧ opcode <= 3983) then some 4
  else none

def directTarget (raw : Raw) (width : Nat) : Option Int :=
  if displacementRelocated relocations offset raw.length width then none
  else some (readTarget raw offset width)

def jumpTarget (raw : Raw) : Option Int :=
  (jumpWidth (opcodeKey raw.opcode)).bind (directTarget relocations offset raw)

def callTarget (raw : Raw) : Option Int :=
  if opcodeKey raw.opcode = 232 then directTarget relocations offset raw 4 else none

/-- A jump through a register or through memory. -/
def computedJump (raw : Raw) : Bool := opcodeKey raw.opcode = 255 && raw.digit.toNat = 4

/-- A prefix the walk does not step over. -/
def stopPrefix (b : Byte) : Bool := b = 0xF0#8 || b = 0xF2#8 || b = 0xF3#8

/-- A step on an instruction without lock and repeat prefixes. -/
structure StepOf (relocations : RelocationMap) (offset : Nat) (raw : Raw) (step : ScheduleStep) :
    Prop where
  offset_eq : step.offset = offset
  length_eq : step.length = raw.length
  plain : raw.prefixes.any stopPrefix = false ->
    step.target = (jumpTarget relocations offset raw).or (callTarget relocations offset raw) ∧
      step.computed = computedJump raw
  stopped : raw.prefixes.any stopPrefix = true -> step.target = none ∧ step.computed = false

theorem interiorPrefix_table : ∀ b : Byte, (isPrefix b = true ->
      (stopPrefix b = true ∧ b.toNat ∉ ia32ScheduleInteriorPrefixes ∧ b.toNat ∈ [240, 242, 243]) ∨
      (stopPrefix b = false ∧ b.toNat ∈ ia32ScheduleInteriorPrefixes)) ∧
    (isPrefix b = false -> b.toNat ∉ ia32ScheduleInteriorPrefixes) := by
  decide +kernel

variable {code rest : List Byte} {offset length cursor width : Nat} {context : String} {raw : Raw}
  {relocations : RelocationMap}

theorem skipInteriorPrefixes_spec {fuel : Nat} {ps : List Byte} {b : Byte} {result : Nat}
    (hdrop : code.drop cursor = ps ++ b :: rest) (hps : ∀ p ∈ ps, isPrefix p = true)
    (hb : isPrefix b = false) (hfuel : ps.length <= fuel)
    (h : skipInteriorPrefixes code offset length context fuel cursor = .ok result) :
    (ps.any stopPrefix = true ∧ codeByte code result ∈ [240, 242, 243]) ∨
      (ps.any stopPrefix = false ∧ result = cursor + ps.length) := by
  induction ps generalizing fuel cursor with
  | nil =>
    have hcur : codeByte code cursor = b.toNat := by simpa using codeByte_drop hdrop 0
    cases fuel with
    | zero => cases h; simp
    | succ fuel =>
      rw [skipInteriorPrefixes, hcur, if_neg ((interiorPrefix_table b).2 hb)] at h
      cases h
      simp
  | cons p ps ih =>
    have hcur : codeByte code cursor = p.toNat := by simpa using codeByte_drop hdrop 0
    have hnext : code.drop (cursor + 1) = ps ++ b :: rest := by
      rw [<- drop_drop, hdrop]; rfl
    cases fuel with
    | zero => simp at hfuel
    | succ fuel =>
      rw [skipInteriorPrefixes, hcur] at h
      rcases (interiorPrefix_table p).1 (hps p (by simp)) with ⟨hs, hno, hin⟩ | ⟨hs, hin⟩
      · rw [if_neg hno] at h
        cases h
        exact .inl ⟨by simp [hs], hcur ▸ hin⟩
      · rw [if_pos hin] at h
        replace h := after_require h
        rcases ih hnext (fun q hq => hps q (by simp [hq])) (by simpa using hfuel) h
          with ⟨hstop, hat⟩ | ⟨hstop, hat⟩
        · exact .inl ⟨by simp [hstop], hat⟩
        · exact .inr ⟨by simp [hs, hstop], by rw [hat, length_cons]; omega⟩

/-- A lock or repeat prefix is read as an opcode without displacement. -/
theorem scheduleWidth_stopped (h : codeByte code cursor ∈ [240, 242, 243]) :
    scheduleWidth code offset length cursor = 0 := by
  simp only [mem_cons, not_mem_nil, or_false] at h
  unfold scheduleWidth
  rcases h with h | h | h <;> simp [h]

theorem scheduleWidth_opcode {op : Opcode} (hwf : op.WellFormed)
    (hdrop : code.drop cursor = op.bytes ++ rest)
    (hlen : cursor + op.bytes.length <= offset + length) : scheduleWidth code offset length cursor =
      (jumpWidth (opcodeKey op)).getD (if opcodeKey op = 232 then 4 else 0) := by
  unfold scheduleWidth jumpWidth
  cases op with
  | one b =>
    have hcur : codeByte code cursor = b.toNat := by
      simpa [Opcode.bytes] using codeByte_drop hdrop 0
    have hb : b.toNat ≠ 15 := fun h => hwf (BitVec.eq_of_toNat_eq h)
    have hlt := b.isLt
    simp only [opcodeKey]
    grind
  | two b =>
    have hcur : codeByte code cursor = 15 := by
      simpa [Opcode.bytes] using codeByte_drop hdrop 0
    have hcur' : codeByte code (cursor + 1) = b.toNat := by
      simpa [Opcode.bytes] using codeByte_drop hdrop 1
    have hin : cursor + 1 < offset + length := by
      simp only [Opcode.bytes, length_cons] at hlen
      omega
    simp only [hcur, opcodeKey, hin]
    grind

theorem flowClass_jumpWidth (opcode digit : Nat) :
    (flowClass opcode digit).2.1 = jumpWidth opcode := by
  unfold flowClass jumpWidth
  grind

theorem scheduleWidth_le (hwf : raw.WellFormed lengthMap) :
    (jumpWidth (opcodeKey raw.opcode)).getD (if opcodeKey raw.opcode = 232 then 4 else 0) <=
      raw.length := by
  cases hw : jumpWidth (opcodeKey raw.opcode) with
  | some width =>
    exact displacement_width_le hwf ((flowClass_jumpWidth _ raw.digit.toNat).trans hw)
  | none =>
    rw [getD_none]
    split
    · next hcall =>
        have htokens : opcodeTokens raw.opcode = some [.Jz] := by
          cases hop : raw.opcode with
          | one b =>
            rw [hop] at hcall
            obtain rfl : b = 0xE8#8 := BitVec.eq_of_toNat_eq hcall
            rfl
          | two b =>
            rw [hop, opcodeKey] at hcall
            omega
        exact width_le_of_tokens hwf (by rw [htokens]; rfl) (.inr rfl)
    · omega

theorem jumpWidth_cases {opcode : Nat} (h : jumpWidth opcode = some width) :
    (width = 1 ∨ width = 4) ∧ opcode ≠ 232 ∧ opcode ≠ 255 := by
  unfold jumpWidth at h
  grind

/-- The target a step contributes, by the key of its opcode. -/
theorem directTarget_eq {r : List Byte} (hdrop : code.drop offset = raw.encode ++ r)
    (hpos : width ≠ 0) (hle : width <= raw.length) :
    (if width = 0 ∨ displacementRelocated relocations offset raw.length width then none
      else some (displacedTarget code offset raw.length width)) =
      directTarget relocations offset raw width := by
  rw [directTarget, displacedTarget_encode hdrop hle]
  simp only [hpos, false_or]
  rfl

theorem stepTarget_eq {r : List Byte} (hwf : raw.WellFormed lengthMap)
    (hdrop : code.drop offset = raw.encode ++ r) (hwidth : width =
      (jumpWidth (opcodeKey raw.opcode)).getD (if opcodeKey raw.opcode = 232 then 4 else 0)) :
    (if width = 0 ∨ displacementRelocated relocations offset raw.length width then none
      else some (displacedTarget code offset raw.length width)) =
      (jumpTarget relocations offset raw).or (callTarget relocations offset raw) := by
  have hle := scheduleWidth_le hwf
  rw [<- hwidth] at hle
  unfold jumpTarget callTarget
  cases hw : jumpWidth (opcodeKey raw.opcode) with
  | some w =>
    obtain ⟨hcases, hcall, -⟩ := jumpWidth_cases hw
    rw [hw, getD_some] at hwidth
    subst hwidth
    rw [directTarget_eq hdrop (by omega) hle, if_neg hcall, or_none]
    rfl
  | none =>
    rw [hw, getD_none] at hwidth
    rw [bind_none, none_or]
    split at hwidth
    · next hcall =>
        subst hwidth
        rw [directTarget_eq hdrop (by decide) hle, if_pos hcall]
    · next hcall =>
        rw [if_pos (.inl hwidth), if_neg hcall]

theorem scheduleComputed_opcode {computed : Bool} (hwf : raw.WellFormed lengthMap)
    (hdrop : code.drop cursor = raw.opcode.bytes ++ (raw.modrm.toList ++ rest))
    (h : scheduleComputed code offset length cursor context = .ok computed) :
    computed = computedJump raw := by
  have hfirst : codeByte code cursor = 255 ↔ opcodeKey raw.opcode = 255 := by
    cases hop : raw.opcode with
    | one b =>
      rw [hop] at hdrop
      have hcur : codeByte code cursor = b.toNat := by
        simpa [Opcode.bytes] using codeByte_drop hdrop 0
      rw [hcur, opcodeKey]
    | two b =>
      rw [hop] at hdrop
      have hcur : codeByte code cursor = 15 := by
        simpa [Opcode.bytes] using codeByte_drop hdrop 0
      rw [hcur, opcodeKey]
      omega
  unfold scheduleComputed at h
  unfold computedJump
  split at h
  · next h255 =>
      have hkey := hfirst.mp h255
      replace h := after_require h
      replace h := after_require h
      cases h
      rw [digit_read hwf hdrop (.inr hkey)]
      simp [hkey]
  · next h255 =>
      cases h
      have hkey : opcodeKey raw.opcode ≠ 255 := fun hk => h255 (hfirst.mpr hk)
      simp [hkey]

theorem scheduleStep_stepOf {step : ScheduleStep}
    (h : scheduleStep code relocations context offset = .ok step) :
    ∃ raw r, parse lengthMap (code.drop offset) = some (raw, r) ∧
      StepOf relocations offset raw step := by
  obtain ⟨length, hlength, h⟩ := bind_eq_ok.mp h
  obtain ⟨cursor, hskip, h⟩ := bind_eq_ok.mp h
  obtain ⟨computed, hcomputed, h⟩ := bind_eq_ok.mp h
  obtain ⟨raw, r, hparse, rfl⟩ := supportedIa32InstructionLength_eq_ok.mp hlength
  obtain ⟨hwf, hdrop⟩ := parse_eq_some.mp hparse
  refine ⟨raw, r, hparse, ?_⟩
  cases h
  let tail := raw.sib.toList ++ raw.disp ++ raw.imm ++ r
  have henc : code.drop offset = raw.prefixes ++
    (raw.opcode.bytes ++ (raw.modrm.toList ++ tail)) := by
    rw [hdrop]; simp [Raw.encode, tail]
  obtain ⟨rest, hrest⟩ : ∃ rest, raw.opcode.bytes ++ (raw.modrm.toList ++ tail) =
      raw.opcode.first :: rest := by
    cases raw.opcode <;> simp [Opcode.bytes, Opcode.first]
  have hpl : raw.prefixes.length + raw.opcode.bytes.length <= raw.length := by
    simp only [Raw.length, Raw.encode, length_append]
    omega
  have hspec := skipInteriorPrefixes_spec (hrest ▸ henc) hwf.prefixes_prefix hwf.opcode_first
    (by omega) hskip
  refine ⟨rfl, rfl, fun hplain => ?_, fun hstop => ?_⟩
  · obtain ⟨-, rfl⟩ := hspec.resolve_left (by simp [hplain])
    have hop : code.drop (offset + raw.prefixes.length) =
        raw.opcode.bytes ++ (raw.modrm.toList ++ tail) := by
      rw [<- drop_drop, henc, drop_left]
    have hfits : offset + raw.prefixes.length + raw.opcode.bytes.length <=
        offset + raw.length := by omega
    exact ⟨stepTarget_eq hwf hdrop (scheduleWidth_opcode hwf.opcode_wf hop hfits),
      scheduleComputed_opcode hwf hop hcomputed⟩
  · obtain ⟨-, hat⟩ := hspec.resolve_right (by simp [hstop])
    rw [scheduleWidth_stopped hat]
    refine ⟨rfl, ?_⟩
    have hne : codeByte code cursor ≠ 255 := by
      intro h255
      rw [h255] at hat
      exact absurd hat (by decide)
    rw [scheduleComputed, if_neg hne] at hcomputed
    cases hcomputed
    rfl

theorem scheduleStepsFrom_stepOf {steps : List ScheduleStep}
    (h : scheduleStepsFrom code relocations context code.length 0 = .ok steps) :
    List.Forall₂ (fun entry step => StepOf relocations entry.1 entry.2 step)
      (sweep lengthMap code) steps :=
  have hloop : Loops code (scheduleStep code relocations context) ScheduleStep.length
      (scheduleStepsFrom code relocations context) := ⟨fun _ => rfl, fun _ _ => rfl⟩
  (hloop.sweeps (fun _ _ => scheduleStep_stepOf) (fun _ _ _ h => ⟨h.offset_eq, h.length_eq⟩) h).1

end Reprobit

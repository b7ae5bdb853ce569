import Reprobit.Machine.Worklist
import Reprobit.Relational.FlagSafety
import Reprobit.Schedule.Agreement

/-!
# Dead scratch slots

A region rewrite may leave a frame slot `[ebp+disp]` with another value if the slot
is dead at the region's exit.  The proof walks the flow graph from the exit and
stops a path where the slot is overwritten.  It looks at memory operands based on
EBP whose displacement is `disp`, whatever their index register, and at address
computations without a SIB byte; other operands that overlap the slot escape it.
-/

namespace Reprobit.Region

open Machine List Option

variable (body : List Byte) (decoded : List Instruction) (items : List RelationalItem)
  (successors : List (List Nat)) (disp : Int) (raw : Raw)

/-- Where the slot's address is computed, in one form. -/
def scratchLeaOffsets (bodyBytes : List Byte) : List Nat :=
  (decoded.filter fun item => item.opcode = 141 ∧ item.encoding.any fun enc =>
    (enc.mode = 1#2 ∨ enc.mode = 2#2) ∧ enc.rm = 5#3 ∧ enc.sibAt = none ∧ enc.absolute = false ∧
      -- an operand of these modes has a displacement
      signedLe ((bodyBytes.drop (enc.displacementAt.getD 0)).take enc.displacementSize) =
        disp).map (·.offset)

def scratchKills (info : Instruction) (mem : MemoryOperand) : Bool :=
  let reg := info.encoding.map (·.reg.toNat)
  if info.opcode = 217 ∧ (reg = some 2 ∨ reg = some 3) then mem.displacement = disp
  else if info.opcode = 221 ∧ (reg = some 2 ∨ reg = some 3) then true
  else if info.opcode ∈ [216, 220, 217, 221, 219, 223, 218, 222] then false
  else mem.write && !mem.read && mem.width = 4 && mem.displacement = disp

/-- `none` off the slot, otherwise whether it overwrites. -/
def scratchVerdict (info : Instruction) : Option Bool :=
  info.memory.bind fun mem =>
    if mem.base = some .ebp ∧ (mem.displacement = disp ∨ mem.displacement = disp - 4) ∧
        (mem.displacement = disp ∨ 8 <= mem.width) then
      some (scratchKills disp info mem)
    else none

def scratchVisit (context : String) (bodyBytes : List Byte) (index : Nat) : Refusing (List Nat) :=
  match items[index]? with
  | none => .error "IndexError"
  | some item => do
    require (item.offset ∉ scratchLeaOffsets decoded disp bodyBytes)
      (context ++ ": the scratch slot's address is taken at " ++ toString item.offset ++
        " before any write")
    match (decoded.reverse.find? (·.offset = item.offset)).bind (scratchVerdict disp) with
    | some true => pure []
    | some false => .error (context ++ ": the scratch slot is read at " ++
        toString item.offset ++ " before any write")
    | none => pure (successors.getD index [])

def srrSlotScratchProof (exitOffset disp : Int) (context : String) (bodyBytes : List Byte) :
    Refusing Unit :=
  match indexOfOffset items exitOffset with
  | none => .error (context ++ ": the region exit is not a flow boundary")
  | some start =>
    visitLoop (scratchVisit decoded items successors disp context bodyBytes)
      "the walk did not end" (searchFuel successors [start]) [start] []

/-! ## What a dead slot is -/

/-- The segments of the frame have base zero. -/
def Flat (s : State Unit) : Prop := ∀ g, g ≠ .fs -> g ≠ .gs -> s.segBase g = 0

/-- Byte `j` of the slot. -/
def slotCell (s : State Unit) (disp : Int) (j : Nat) : Cell :=
  .mem (s.regWord .ebp + BitVec.ofInt 32 disp + BitVec.ofNat 32 j)

def ThroughEbp (a : Addr) : Prop :=
  (a.base = some .ebp ∨ a.index = some .ebp) ∧ a.seg ≠ some .fs ∧ a.seg ≠ some .gs

/-- Some register values put a byte of the slot under the operand. -/
def MayTouch (a : Addr) (size : Nat) : Prop :=
  ThroughEbp a ∧ ∃ s, Flat s ∧ ∃ j < 4, slotCell s disp j ∈ State.memCells (s.effective a) size

def noFixups : Fixups := ⟨0, 0⟩

def Reads (f : Form) : Prop :=
  ∃ slot ∈ f.srcs, ∃ a size, raw.operand noFixups slot = .mem a size ∧ MayTouch disp a size

def TakesAddress (f : Form) : Prop :=
  ∃ slot ∈ f.srcs, ∃ a, raw.operand noFixups slot = .address a ∧ MayTouch disp a 1

def Accesses (f : Form) : Prop :=
  Reads disp raw f ∨ TakesAddress disp raw f

/-- Whatever the state, the instruction stores to byte `j` of the slot. -/
def Overwrites (j : Nat) (raw : Raw) (f : Form) : Prop :=
  ∃ slot ∈ f.dsts, ∃ a size, raw.operand noFixups slot = .mem a size ∧ ThroughEbp a ∧
    ∀ s, Flat s -> slotCell s disp j ∈ State.memCells (s.effective a) size

def AtIndex (i : Nat) (kind : Raw -> Form -> Prop) : Prop :=
  ∃ item raw r f, items[i]? = some item ∧ parse isaMap (body.drop item.offset) = some (raw, r) ∧
    raw.form = some f ∧ kind raw f

/-- The path from `start` through the items of the list to the last one. -/
inductive Path (successors : List (List Nat)) (start : Nat) : List Nat -> Nat -> Prop
  | exit : Path successors start [] start
  | edge {before : List Nat} {i j : Nat} : Path successors start before i ->
      j ∈ successors.getD i [] -> Path successors start (before ++ [i]) j

/-- Some byte of the slot still has the value it had at the exit. -/
def Pending (before : List Nat) : Prop :=
  ∃ j < 4, ∀ i ∈ before, ¬ AtIndex body items i (Overwrites disp j)

def SlotDead (exitOffset disp : Int) : Prop :=
  ∀ start before i, indexOfOffset items exitOffset = some start ->
    Path successors start before i -> Pending body items disp before ->
    ¬ AtIndex body items i (Accesses disp)

/-- Through another operand, or an address computed otherwise. -/
def Unseen (f : Form) : Prop :=
  (Reads disp raw f ∧ ¬ (raw.baseReg = some .ebp ∧ signedLe raw.disp = disp)) ∨
  (TakesAddress disp raw f ∧
    ¬ (raw.baseReg = some .ebp ∧ raw.sib = none ∧ signedLe raw.disp = disp))

/-- An operand at the slot's displacement that need not be the slot. -/
def Strays (_ : Form) : Prop :=
  raw.baseReg = some .ebp ∧ signedLe raw.disp = disp ∧
    (raw.indexReg ≠ none ∨ raw.seg = some .fs ∨ raw.seg = some .gs)

/-- While the slot is pending no access is unseen. -/
def AccessesSeen (exitOffset disp : Int) : Prop :=
  ∀ start before i, indexOfOffset items exitOffset = some start ->
    Path successors start before i -> Pending body items disp before ->
    ¬ AtIndex body items i (Unseen disp) ∧ ((∃ k ∈ before, AtIndex body items k (Strays disp)) ->
        ¬ AtIndex body items i (Accesses disp))

section

variable {map : OpcodeMap} {raw : Raw} {m : Byte}

theorem sib_isSome (hwf : raw.WellFormed map) (hm : raw.modrm = some m) :
    raw.sib.isSome = hasSib m ∧ raw.disp.length = dispSize m raw.sib := by
  obtain ⟨shape, -, hopd, -⟩ := hwf.shape
  rw [hm] at hopd
  cases hs : shape.modrm with
  | false => rw [hs] at hopd; simp [OperandWF] at hopd
  | true => rw [hs] at hopd; exact hopd

theorem addressRegisters_base (hwf : raw.WellFormed map) (hm : raw.modrm = some m)
    (hmode : modeOf m ≠ 3#2) (offset : Nat) :
    (addressRegisters (operandBytesOf raw offset m)).1 = raw.baseReg := by
  obtain ⟨hsib, -⟩ := sib_isSome hwf hm
  have hmode' : raw.mode = modeOf m := by simp [Raw.mode, hm]
  by_cases h4 : rmOf m = 4#3
  · rw [(hasSib_iff m).mpr ⟨hmode, h4⟩] at hsib
    obtain ⟨s, hs⟩ := isSome_iff_exists.mp hsib
    simp [addressRegisters, operandBytesOf, h4, hs, absoluteOperand, Raw.baseReg, hmode']
  · have hnone : raw.sib = none := by
      rw [show hasSib m = false by simp [hasSib, h4]] at hsib
      simpa using hsib
    have hrm : raw.rm = rmOf m := by simp [Raw.rm, hm]
    simp [addressRegisters, operandBytesOf, h4, hnone, absoluteOperand, Raw.baseReg, hmode', hrm]

theorem signedLe_of_length {bs : List Byte} {n : Nat} (h : bs.length = n) :
    signedLe bs = (BitVec.ofNat (8 * n) (leNat bs)).toInt := by
  subst h
  rfl

theorem dispWord_eq (hwf : raw.WellFormed map) (hm : raw.modrm = some m) :
    raw.dispWord = BitVec.ofInt 32 (signedLe raw.disp) := by
  have hlen := (sib_isSome hwf hm).2
  have hsize : dispSize m raw.sib = 0 ∨ dispSize m raw.sib = 1 ∨ dispSize m raw.sib = 4 := by
    unfold dispSize
    grind
  rcases hsize with h | h | h <;> rw [h] at hlen <;>
    rw [signedLe_of_length hlen, Raw.dispWord, hlen]
  · simp [length_eq_zero_iff.mp hlen, leNat]
  · simp [BitVec.signExtend]
  · simp

/-- An operand `[ebp+disp]` without index register covers the slot. -/
theorem overwrites_of_direct {f : Form} {disp : Int} {slot : Slot} {size j : Nat}
    (hwf : raw.WellFormed map) (hm : raw.modrm = some m) (hbase : raw.baseReg = some .ebp)
    (hdisp : signedLe raw.disp = disp) (hdirect : ¬ Strays disp raw f) (hslot : slot ∈ f.dsts)
    (hop : raw.operand noFixups slot = .mem (raw.addr 0) size) (hsize : 4 <= size) (hj : j < 4) :
    Overwrites disp j raw f := by
  have hplain : raw.indexReg = none ∧ raw.seg ≠ some .fs ∧ raw.seg ≠ some .gs := by
    refine ⟨?_, fun h => hdirect ⟨hbase, hdisp, .inr (.inl h)⟩,
      fun h => hdirect ⟨hbase, hdisp, .inr (.inr h)⟩⟩
    by_contra h
    exact hdirect ⟨hbase, hdisp, .inl h⟩
  obtain ⟨hindex, hfs, hgs⟩ := hplain
  refine ⟨slot, hslot, _, size, hop, ⟨.inl hbase, hfs, hgs⟩, fun s hflat => ?_⟩
  have heff : s.effective (raw.addr 0) = s.regWord .ebp + BitVec.ofInt 32 disp := by
    simp only [State.effective, Raw.addr, hbase, hindex, State.optWord, dispWord_eq hwf hm, hdisp]
    cases hs : raw.seg with
    | none => simp
    | some g => simp [hflat g (fun h => hfs (h ▸ hs)) (fun h => hgs (h ▸ hs))]
  rw [heff]
  exact mem_map.mpr ⟨j, mem_range.mpr (by omega), rfl⟩

end

section

variable {relocations : RelocationMap} {code : List Byte} {info : Instruction} {raw : Raw}
  {form : BijectionForm} {f : Form} {t : Touched} {disp : Int}

/-- The memory operand the decoder reports is the machine's. -/
theorem memory_of_accessed (h : Resolves relocations code info raw form f t) {m : Byte}
    (hm : raw.modrm = some m) (hmode : modeOf m ≠ 3#2) (hstring : form.stringMemory = none)
    (hacc : (form.rmRead || form.writesRm (regOf m).toNat || form.x87) = true) :
    ∃ mem, info.memory = some mem ∧ mem.base = raw.baseReg ∧
      mem.displacement = signedLe raw.disp ∧ mem.width = max (widthOf raw form / 8) 1 ∧
      mem.read = (form.rmRead || form.x87) ∧ mem.write = form.writesRm (regOf m).toNat := by
  rw [h.decodes.memory_eq, hstring, hm]
  simp only [bind_some, if_neg hmode]
  exact ⟨_, if_pos hacc, addressRegisters_base h.wf hm hmode info.offset, rfl, rfl, rfl, rfl⟩

theorem encoded_of_throughEbp {slot : Slot} {a : Addr} {size : Nat}
    (hop : raw.operand noFixups slot = .mem a size) (hebp : ThroughEbp a) :
    (∃ w, slot = .rm w ∧ raw.mode ≠ 3#2) ∨ ∃ n, slot = .memory n := by
  cases slot with
  | rm w =>
    refine .inl ⟨w, rfl, fun hmode => ?_⟩
    simp only [Raw.operand, hmode] at hop
    cases w <;> cases hop
  | memory n => exact .inr ⟨n, rfl⟩
  | reg w => cases w <;> cases hop
  | opreg w => cases w <;> cases hop
  | pushed | popped | moffs | source | target =>
    cases hop
    exact absurd hebp.1 (by simp [Raw.stackAddr])
  | _ => cases hop

/-- The proof refuses a read through `[ebp+disp]`. -/
theorem verdict_of_read (h : Resolves relocations code info raw form f t)
    (hread : Reads disp raw f) (hbase : raw.baseReg = some .ebp)
    (hdisp : signedLe raw.disp = disp) : scratchVerdict disp info = some false := by
  obtain ⟨slot, hslot, a, size, hop, hebp, -⟩ := hread
  have hsource := h.agrees.sources slot hslot
  have hx87 := h.agrees.x87
  -- the source is a declared read of a form with a ModRM byte
  have hfacts : raw.modrm.isSome = true ∧ raw.mode ≠ 3#2 ∧ form.stringMemory = none ∧
      (form.rmRead = true ∧ form.x87 = false ∨
        form.x87 = true ∧ x87RealStore (opcodeKey raw.opcode) raw.digit.toNat = false) := by
    rcases encoded_of_throughEbp hop hebp with ⟨w, rfl, hmode⟩ | ⟨n, rfl⟩
    · simp only [sourceAgrees, h.modrm, Bool.and_eq_true, Bool.not_eq_true',
        isNone_iff_eq_none] at hsource
      exact ⟨hsource.1.1.1, hmode, hsource.2, .inl ⟨hsource.1.1.2, hsource.1.2⟩⟩
    · simp only [sourceAgrees, h.modrm, Bool.and_eq_true, Bool.not_eq_true',
        isNone_iff_eq_none, beq_eq_false_iff_ne] at hsource
      exact ⟨hsource.1.1.1.1, hsource.1.1.1.2, hsource.2, .inr ⟨hsource.1.1.2, hsource.1.2⟩⟩
  obtain ⟨hmodrm, hmode, hstring, hkind⟩ := hfacts
  obtain ⟨m, hm⟩ := isSome_iff_exists.mp hmodrm
  have hmode' : modeOf m ≠ 3#2 := by simpa [Raw.mode, hm] using hmode
  have hdigit : raw.digit = regOf m := by simp [Raw.digit, hm]
  have hreg : info.encoding.map (·.reg.toNat) = some raw.digit.toNat := by
    simp [h.decodes.encoding_eq, hm, hdigit]
  obtain ⟨mem, hmem, hb, hd, -, hr, -⟩ := memory_of_accessed h hm hmode' hstring
    (by rcases hkind with ⟨hk, -⟩ | ⟨hk, -⟩ <;> simp [hk])
  unfold scratchVerdict
  rw [hmem, bind_some, if_pos ⟨hb.trans hbase, .inl (hd.trans hdisp), .inl (hd.trans hdisp)⟩]
  unfold scratchKills
  simp only [hreg, h.decodes.opcode_eq, some.injEq]
  rcases hkind with ⟨hrm, hno⟩ | ⟨hx, hstore⟩
  · -- outside the floating-point escape the read keeps the operand from being a kill
    have hop : ¬ (216 <= opcodeKey raw.opcode ∧ opcodeKey raw.opcode <= 223) := by
      simpa [hno] using hx87
    rw [if_neg (by omega), if_neg (by omega), if_neg (by simp; omega)]
    simp [hr, hrm]
  · have hop : 216 <= opcodeKey raw.opcode ∧ opcodeKey raw.opcode <= 223 := by
      simpa [hx] using hx87
    simp only [x87RealStore, Bool.and_eq_false_iff, Bool.or_eq_false_iff, beq_eq_false_iff_ne]
      at hstore
    rw [if_neg (by omega), if_neg (by omega), if_pos (by simp; omega)]

/-- An overwrite stores four bytes or more through `[ebp+disp]`. -/
theorem store_of_verdict (h : Resolves relocations code info raw form f t)
    (hkill : scratchVerdict disp info = some true) :
    raw.modrm.isSome = true ∧ raw.baseReg = some .ebp ∧ signedLe raw.disp = disp ∧
      ∃ slot ∈ f.dsts, ∃ size, 4 <= size ∧ raw.operand noFixups slot = .mem (raw.addr 0) size := by
  obtain ⟨mem, hmem, hkill⟩ := bind_eq_some_iff.mp hkill
  split at hkill
  · next hon =>
      obtain ⟨hbase, hnear, hcovers⟩ := hon
      have hmemory := hmem
      rw [h.decodes.memory_eq] at hmemory
      cases hstring : form.stringMemory with
      | some string =>
        rw [hstring] at hmemory
        cases hmemory
        cases hbase
      | none =>
        rw [hstring] at hmemory
        obtain ⟨m, hm, hmemory⟩ := bind_eq_some_iff.mp hmemory
        split at hmemory
        · cases hmemory
        · next hmode =>
            have hacc : (form.rmRead || form.writesRm (regOf m).toNat || form.x87) = true := by
              by_contra hno
              exact absurd ((if_neg hno).symm.trans hmemory) (by simp)
            obtain ⟨mem', hmem', hb, hd, hw, hr, hwrite⟩ :=
              memory_of_accessed h hm hmode hstring hacc
            obtain rfl : mem' = mem := some.inj (hmem'.symm.trans hmem)
            -- no operand is reported wider than four bytes
            have hdisp : mem'.displacement = disp := by
              rcases hcovers with hd | hwide
              · exact hd
              · have := h.agrees.width_le
                omega
            refine ⟨by simp [hm], hb.symm.trans hbase, hd.symm.trans hdisp, ?_⟩
            have hmode' : raw.mode ≠ 3#2 := by simpa [Raw.mode, hm] using hmode
            have hdigit : raw.digit = regOf m := by simp [Raw.digit, hm]
            have hreg : info.encoding.map (·.reg.toNat) = some raw.digit.toNat := by
              simp [h.decodes.encoding_eq, hm, hdigit]
            have hstore := h.agrees.store
            have hx87 := h.agrees.x87
            rw [<- hdigit] at hwrite
            simp only [scratchKills, hreg, h.decodes.opcode_eq, some.injEq] at hkill
            simp only [storeAgrees, beq_iff_eq, hmode', Bool.or_eq_true, false_or] at hstore
            cases hx : form.x87 with
            | true =>
              have hop : 216 <= opcodeKey raw.opcode ∧ opcodeKey raw.opcode <= 223 := by
                simpa [hx] using hx87
              have hreal : x87RealStore (opcodeKey raw.opcode) raw.digit.toNat = true := by
                simp only [x87RealStore, Bool.and_eq_true, Bool.or_eq_true, beq_iff_eq]
                by_contra hno
                rw [if_neg (by omega), if_neg (by omega), if_pos (by simp; omega)] at hkill
                cases hkill
              rw [hx] at hstore
              simp only [if_true, hreal, Bool.or_eq_true, contains_iff_mem] at hstore
              rcases hstore with (hfalse | h4) | h8
              · cases hfalse
              · exact ⟨_, h4, 4, Nat.le_refl 4, rfl⟩
              · exact ⟨_, h8, 8, by omega, rfl⟩
            | false =>
              have hop : ¬ (216 <= opcodeKey raw.opcode ∧ opcodeKey raw.opcode <= 223) := by
                simpa [hx] using hx87
              rw [if_neg (by omega), if_neg (by omega), if_neg (by simp; omega)] at hkill
              simp only [hwrite, hr, hx, Bool.or_false, Bool.and_eq_true, Bool.not_eq_true',
                decide_eq_true_eq] at hkill
              obtain ⟨⟨⟨hwrites, hnoread⟩, hwidth⟩, -⟩ := hkill
              have h32 : widthOf raw form = 32 := by
                have := h.agrees.width_le
                omega
              simp only [hx, hwrites, hnoread, h32] at hstore
              refine ⟨.rm .dword, by simpa using hstore, 4, Nat.le_refl 4, ?_⟩
              simp [Raw.operand, hmode', noFixups, Width.bytes]
  · cases hkill

theorem ebp_field : ∀ b : BitVec 3, Reg.ofField b = .ebp -> b = 5#3 := by decide

/-- `lea r, [ebp+disp]` without SIB byte is refused. -/
theorem mem_leaOffsets {body : List Byte} {limit : Nat} {decoded : List Instruction}
    (h : Resolves relocations (body.take limit) info raw form f t) (hinfo : info ∈ decoded)
    (htakes : TakesAddress disp raw f) (hbase : raw.baseReg = some .ebp) (hsib : raw.sib = none)
    (hdisp : signedLe raw.disp = disp) : info.offset ∈ scratchLeaOffsets decoded disp body := by
  obtain ⟨slot, hslot, a, hop, -⟩ := htakes
  obtain rfl : slot = .address := by
    cases slot with
    | address => rfl
    | rm w =>
      simp only [Raw.operand] at hop
      split at hop
      · cases w <;> cases hop
      · cases hop
    | reg w => cases w <;> cases hop
    | opreg w => cases w <;> cases hop
    | _ => cases hop
  have hsource := h.agrees.sources _ hslot
  simp only [sourceAgrees, h.modrm, Bool.and_eq_true, beq_iff_eq] at hsource
  obtain ⟨⟨hmodrm, hmode⟩, hopcode⟩ := hsource
  obtain ⟨m, hm⟩ := isSome_iff_exists.mp hmodrm
  have hmode' : raw.mode = modeOf m := by simp [Raw.mode, hm]
  have hrm : raw.rm = rmOf m := by simp [Raw.rm, hm]
  -- without a SIB byte EBP is the base under two modes only
  have hplace : ¬ (modeOf m = 0#2 ∧ rmOf m = 5#3) ∧ rmOf m = 5#3 := by
    simp only [Raw.baseReg, hsib, hmode', hrm] at hbase
    split at hbase
    · cases hbase
    · next hno => exact ⟨hno, ebp_field _ (some.inj hbase)⟩
  have hmodes : modeOf m = 1#2 ∨ modeOf m = 2#2 := by
    rw [hmode'] at hmode
    have hno : modeOf m ≠ 0#2 := fun h0 => hplace.1 ⟨h0, hplace.2⟩
    generalize modeOf m = mode at hmode hno ⊢
    revert mode
    decide
  have hlen : raw.disp ≠ [] := by
    intro hnil
    have := (sib_isSome h.wf hm).2
    rcases hmodes with hmode | hmode <;> simp [hnil, dispSize, hmode] at this
  obtain ⟨-, r, hbytes⟩ := h.body_bytes
  have hslice : (body.drop (info.offset + raw.dispAt)).take raw.disp.length = raw.disp := by
    rw [<- drop_drop, hbytes, Raw.encode, append_assoc, append_assoc,
      drop_left' (by simp [Raw.dispAt, Nat.add_assoc]), take_left]
  refine mem_map.mpr ⟨info, mem_filter.mpr ⟨hinfo, ?_⟩, rfl⟩
  simp only [h.decodes.opcode_eq, hopcode, h.decodes.encoding_eq, hm, operandBytesOf, hsib,
    map_some, any_some, if_neg hlen, getD_some, hslice, hdisp, hplace.2, absoluteOperand]
  rcases hmodes with hmode | hmode <;> simp [hmode]

end

section

variable {body : List Byte} {relocations : RelocationMap} {codeLength : Option Nat}
  {externalEntries : List Int} {context context' : String} {decoded : List Instruction}
  {items : List RelationalItem} {successors : List (List Nat)} {entries : List Nat}
  {disp : Int} {i : Nat} {edges : List Nat} {info : Instruction} {raw : Raw}

/-- An item passed, with its instruction and verdict. -/
structure Visited (body : List Byte) (decoded : List Instruction) (items : List RelationalItem)
    (disp : Int) (i : Nat) (raw : Raw) (f : Form) (info : Instruction) : Prop where
  kinds : ∀ kind, AtIndex body items i kind ↔ kind raw f
  resolves : ∃ relocations limit form t, Resolves relocations (body.take limit) info raw form f t
  mem : info ∈ decoded
  not_taken : info.offset ∉ scratchLeaOffsets decoded disp body
  not_read : scratchVerdict disp info ≠ some false

section

variable (hdecode : decodeIa32BijectionBody body context relocations codeLength = .ok decoded)
  (hwalk : ia32RelationalFlowWalk body relocations context' codeLength externalEntries = .ok (items,
  successors, entries))

include hdecode hwalk

theorem decoded_at {item : RelationalItem} (hitem : items[i]? = some item) :
    ∃ info ∈ decoded, info.offset = item.offset ∧
      decoded.reverse.find? (·.offset = item.offset) = some info := by
  obtain ⟨entry, hentry, hreport⟩ :=
    (forall₂_getElem? (relationalWalk_of_ok hwalk).reports i).2 item hitem
  obtain ⟨info, hinfo, hfrom⟩ := (forall₂_getElem? (decodeBody_sweep hdecode) i).1 entry hentry
  have hmem : info ∈ decoded := mem_of_getElem? hinfo
  have hoff : info.offset = item.offset := hfrom.offset_eq.trans hreport.offset_eq.symm
  refine ⟨info, hmem, hoff, ?_⟩
  cases hfind : decoded.reverse.find? (·.offset = item.offset) with
  | none =>
    have := find?_eq_none.mp hfind info (mem_reverse.mpr hmem)
    simp [hoff] at this
  | some other =>
    -- the decoded instructions stand one behind the other, so offsets name them
    have hother : other ∈ decoded := mem_reverse.mp (mem_of_find?_eq_some hfind)
    have hoff' : other.offset = item.offset := by simpa using find?_some hfind
    have htiles := (decodeBody_spec hdecode).tiles
    have hpos := (htiles.mem_bounds hother).2.2
    have hpos' := (htiles.mem_bounds hmem).2.2
    rw [htiles.unique hother hmem (o := item.offset) (by omega) (by omega)]

theorem visited_of_ok {context'' : String}
    (h : scratchVisit decoded items successors disp context'' body i = .ok edges) :
    ∃ raw f info, Visited body decoded items disp i raw f info ∧
      (scratchVerdict disp info = some true ∨ edges = successors.getD i []) := by
  unfold scratchVisit at h
  cases hitem : items[i]? with
  | none => rw [hitem] at h; cases h
  | some item =>
    simp only [hitem] at h
    obtain ⟨hlea, h⟩ := require_bind_eq_ok.mp h
    obtain ⟨info, hinfo, hoff, hfind⟩ := decoded_at hdecode hwalk hitem
    obtain ⟨raw, form, f, t, hres⟩ := (decodeBody_spec hdecode).resolves info hinfo
    rw [hfind, bind_some] at h
    obtain ⟨-, r, hbytes⟩ := hres.body_bytes
    have hparse : parse isaMap (body.drop item.offset) = some (raw, r) := by
      rw [<- hoff, hbytes]
      exact parse_encode hres.wf r
    refine ⟨raw, f, info, ⟨fun kind => ⟨?_, fun hkind => ?_⟩, ⟨_, _, form, t, hres⟩, hinfo,
      hoff ▸ hlea, fun hfalse => ?_⟩, ?_⟩
    · rintro ⟨item', raw', r', f', hitem', hparse', hf', hkind⟩
      cases hitem.symm.trans hitem'
      cases hparse.symm.trans hparse'
      cases hres.machine.symm.trans hf'
      exact hkind
    · exact ⟨item, raw, r, f, hitem, hparse, hres.machine, hkind⟩
    · rw [hfalse] at h
      cases h
    · split at h
      · exact .inl ‹_›
      · cases h
      · cases h
        exact .inr rfl

end

theorem Visited.unseen {f : Form} (h : Visited body decoded items disp i raw f info)
    (hacc : Accesses disp raw f) : Unseen disp raw f := by
  obtain ⟨relocations, limit, form, t, hres⟩ := h.resolves
  rcases hacc with hread | htakes
  · exact .inl ⟨hread, fun ⟨hbase, hdisp⟩ => h.not_read (verdict_of_read hres hread hbase hdisp)⟩
  · exact .inr ⟨htakes, fun ⟨hbase, hsib, hdisp⟩ =>
      h.not_taken (mem_leaOffsets hres h.mem htakes hbase hsib hdisp)⟩

/-- Where the walk stops, every byte of the slot is overwritten. -/
theorem Visited.overwrites {f : Form} (h : Visited body decoded items disp i raw f info)
    (hkill : scratchVerdict disp info = some true) (hdirect : ¬ Strays disp raw f) {j : Nat}
    (hj : j < 4) : Overwrites disp j raw f := by
  obtain ⟨relocations, limit, form, t, hres⟩ := h.resolves
  obtain ⟨hmodrm, hbase, hdisp, slot, hslot, size, hsize, hop⟩ := store_of_verdict hres hkill
  obtain ⟨m, hm⟩ := isSome_iff_exists.mp hmodrm
  exact overwrites_of_direct hres.wf hm hbase hdisp hdirect hslot hop hsize hj

/-- For an accepted slot the property and the condition are the same: the slot is
dead exactly when, as long as a byte of it is pending, no path from the exit meets
an access the walk does not look at, or any access behind a store that strays from
the slot. -/
theorem scratchSlotDead_iff {context' context'' : String} {exitOffset : Int}
    (hdecode : decodeIa32BijectionBody body context relocations codeLength = .ok decoded)
    (hwalk : ia32RelationalFlowWalk body relocations context' codeLength externalEntries =
      .ok (items, successors, entries))
    (hproof : srrSlotScratchProof decoded items successors exitOffset disp context'' body =
      .ok ()) :
    SlotDead body items successors exitOffset disp ↔
      AccessesSeen body items successors exitOffset disp := by
  constructor
  · intro hdead start before i hstart hpath hpending
    have hno := hdead start before i hstart hpath hpending
    refine ⟨?_, fun _ => hno⟩
    rintro ⟨item, raw, r, f, hitem, hparse, hf, hunseen⟩
    exact hno ⟨item, raw, r, f, hitem, hparse, hf, hunseen.imp And.left And.left⟩
  · intro hseen start before i hstart hpath hpending hacc
    rw [srrSlotScratchProof, hstart] at hproof
    obtain ⟨S, -, hroot, hclosed⟩ := visitLoop_closed hproof (by simp)
    have hdirect : ∀ k ∈ before, ¬ AtIndex body items k (Strays disp) := fun k hk hstray =>
      (hseen start before i hstart hpath hpending).2 ⟨k, hk, hstray⟩ hacc
    -- along the path nothing stops the walk, so it reaches the access
    have hvisited : i ∈ S := by
      obtain ⟨j, hj, hkept⟩ := hpending
      clear hacc
      induction hpath with
      | exit => exact hroot start (by simp)
      | @edge before k i hpath hedge ih =>
        have hk : k ∈ S := ih (fun k' hk' => hdirect k' (by simp [hk']))
          (fun k' hk' => hkept k' (by simp [hk']))
        obtain ⟨edges, hvisit, hin⟩ := hclosed k hk
        obtain ⟨raw, f, info, hv, hkill | rfl⟩ := visited_of_ok hdecode hwalk hvisit
        · refine absurd ((hv.kinds _).mpr (hv.overwrites hkill ?_ hj)) (hkept k (by simp))
          exact fun hstray => hdirect k (by simp) ((hv.kinds _).mpr hstray)
        · exact hin i hedge
    obtain ⟨edges, hvisit, -⟩ := hclosed i hvisited
    obtain ⟨raw, f, info, hv, -⟩ := visited_of_ok hdecode hwalk hvisit
    exact (hseen start before i hstart hpath hpending).1
      ((hv.kinds _).mpr (hv.unseen ((hv.kinds _).mp hacc)))

end

/-- `mov [ebp-8], eax; mov al, [ebp-7]; ret`. -/
def storeLoadBody : List Byte := [0x89, 0x45, 0xF8, 0x8A, 0x45, 0xF9, 0xC3]

def storeLoadDecoded : List Instruction :=
  (decodeIa32BijectionBody storeLoadBody "f" .empty none).toOption.getD []

def storeLoadItems : List RelationalItem :=
  [⟨0, 3, 0x89, 0, .fall, none, none, ∅, ∅⟩, ⟨3, 3, 0x8A, 3, .fall, none, none, ∅, ∅⟩,
    ⟨6, 1, 0xC3, 6, .ret, none, none, ∅, ∅⟩]

def storeRaw : Raw := ⟨[], .one 0x89, some 0x45, none, [0xF8], []⟩

def loadRaw : Raw := ⟨[], .one 0x8A, some 0x45, none, [0xF9], []⟩

theorem Path.start_mem {successors : List (List Nat)} {start i : Nat} {before : List Nat}
    (h : Path successors start before i) : (before = [] ∧ i = start) ∨ start ∈ before := by
  induction h with
  | exit => exact .inl ⟨rfl, rfl⟩
  | edge _ _ ih =>
    rcases ih with ⟨rfl, rfl⟩ | hmem
    · simp
    · simp [hmem]

/-- Before the store the slot is dead. -/
theorem storeLoad_dead_before : SlotDead storeLoadBody storeLoadItems [[1], [2], []] 0 (-8) := by
  have hdecode : decodeIa32BijectionBody storeLoadBody "f" .empty none = .ok storeLoadDecoded := by
    decide
  have hwalk : ia32RelationalFlowWalk storeLoadBody .empty "f" none [] =
      .ok (storeLoadItems, [[1], [2], []], [0]) := by decide
  have hproof : srrSlotScratchProof storeLoadDecoded storeLoadItems [[1], [2], []] 0 (-8) "f"
      storeLoadBody = .ok () := by decide
  refine (scratchSlotDead_iff hdecode hwalk hproof).mpr fun start before i hstart hpath
    hpending => ?_
  cases (show indexOfOffset storeLoadItems 0 = some 0 by decide).symm.trans hstart
  have hparse : parse isaMap (storeLoadBody.drop 0) = some (storeRaw, storeLoadBody.drop 3) := by
    decide
  rcases hpath.start_mem with ⟨rfl, rfl⟩ | hmem
  · -- the store has no memory source
    refine ⟨?_, by simp⟩
    rintro ⟨item, raw, r, f, hitem, hparse', hf, hunseen⟩
    cases hitem
    cases hparse.symm.trans hparse'
    cases hf
    rcases hunseen with ⟨⟨slot, hslot, a, size, hop, -⟩, -⟩ | ⟨⟨slot, hslot, a, hop, -⟩, -⟩
    · cases mem_singleton.mp hslot; cases hop
    · cases mem_singleton.mp hslot; cases hop
  · obtain ⟨j, hj, hkept⟩ := hpending
    refine absurd ⟨_, storeRaw, _, ⟨[.reg .dword], [.rm .dword], .mov⟩, rfl, hparse,
      by decide, ?_⟩ (hkept 0 hmem)
    exact overwrites_of_direct (parse_eq_some.mp hparse).1 rfl (by decide) (by decide)
      (fun h => absurd h.2.2 (by decide)) (mem_singleton.mpr rfl) rfl (Nat.le_refl 4) hj

/-- Behind the store the walk accepts the slot, though the next instruction reads
its second byte. -/
theorem storeLoad_accepted_behind :
    decodeIa32BijectionBody storeLoadBody "f" .empty none = .ok storeLoadDecoded ∧
      ia32RelationalFlowWalk storeLoadBody .empty "f" none [] =
        .ok (storeLoadItems, [[1], [2], []], [0]) ∧
      srrSlotScratchProof storeLoadDecoded storeLoadItems [[1], [2], []] 3 (-8) "f"
        storeLoadBody = .ok () ∧
      ¬ SlotDead storeLoadBody storeLoadItems [[1], [2], []] 3 (-8) := by
  refine ⟨by decide, by decide, by decide, fun hdead => ?_⟩
  refine hdead 1 [] 1 (by decide) .exit ⟨0, by simp⟩ ⟨_, loadRaw, [0xC3],
    ⟨[.rm .byte], [.reg .byte], .mov⟩, rfl, by decide, by decide, .inl ?_⟩
  refine ⟨.rm .byte, by simp, _, 1, rfl, ⟨.inl rfl, by decide, by decide⟩,
    ⟨fun _ => 0, fun _ => false, fun _ => 0, ()⟩, fun _ _ _ => rfl, 1, by omega, by decide⟩

end Reprobit.Region

import Reprobit.Relational.Flow
import Reprobit.Register.Sound
import Reprobit.Machine.FlagSpec
import Reprobit.Machine.Sweep

/-!
# What the relational flow walk reports

Every item of the walk describes one instruction of the linear sweep.  The flag
facts and the edges of an item are compared with the architecture.
-/

namespace Reprobit

open Machine List

section

variable {code : List Byte} {offset : Nat} {raw : Raw} {r : List Byte}

theorem codeByte_drop {l : List Byte} (h : code.drop offset = l) (k : Nat) :
    codeByte code (offset + k) = (l.getD k 0).toNat := by
  rw [<- h]
  simp [codeByte]

theorem relationalPrefix_table : ∀ b : Byte, (isPrefix b = false ->
      b.toNat ∉ ia32RelationalPrefixes ∧ b.toNat ∉ ia32RelationalRepeatPrefixes) ∧
    (isPrefix b = true ->
      b = 0xF0#8 ∨ (b.toNat ∈ ia32RelationalPrefixes ∧ b ≠ 0xF0#8 ∧ b ≠ 0xF2#8 ∧ b ≠ 0xF3#8) ∨
        (b.toNat ∈ ia32RelationalRepeatPrefixes ∧ (b = 0xF2#8 ∨ b = 0xF3#8))) ∧
    (b ≠ 0xF2#8 -> b ≠ 0xF3#8 -> b.toNat ∉ ia32RelationalRepeatPrefixes) ∧
    (b.toNat ∈ ia32RelationalStringQuiet ∨ b.toNat ∈ ia32RelationalStringCompare ->
      isPrefix b = false) := by
  decide

variable {rest : List Byte}

variable {cursor : Nat}

theorem scanRelationalPrefixes_spec {length fuel : Nat} {context : String} {ps : List Byte}
    {b : Byte} {repeated : Bool} {result : Nat × Bool} (hdrop : code.drop cursor = ps ++ b :: rest)
    (hps : ∀ p ∈ ps, isPrefix p = true) (hb : isPrefix b = false) (hfuel : ps.length <= fuel)
    (h : scanRelationalPrefixes code offset length context fuel cursor repeated = .ok result) :
    codeByte code result.1 = 240 ∨ (0xF0#8 ∉ ps ∧ result.1 = cursor + ps.length ∧
        result.2 = (repeated || (ps.contains 0xF3#8 || ps.contains 0xF2#8)) ∧
        ((ps.contains 0xF3#8 || ps.contains 0xF2#8) = true ->
          b.toNat ∈ ia32RelationalStringQuiet ∨ b.toNat ∈ ia32RelationalStringCompare)) := by
  induction ps generalizing fuel cursor repeated with
  | nil =>
    have hcur : codeByte code cursor = b.toNat := by
      simpa using codeByte_drop hdrop 0
    obtain ⟨h1, h2⟩ := (relationalPrefix_table b).1 hb
    cases fuel with
    | zero =>
      cases h
      simp
    | succ fuel =>
      simp only [scanRelationalPrefixes, hcur, h1, h2] at h
      cases h
      simp
  | cons p ps ih =>
    have hcur : codeByte code cursor = p.toNat := by
      simpa using codeByte_drop hdrop 0
    have hnext : code.drop (cursor + 1) = ps ++ b :: rest := by
      rw [<- drop_drop, hdrop]; rfl
    cases fuel with
    | zero => simp at hfuel
    | succ fuel =>
      rcases (relationalPrefix_table p).2.1 (hps p (by simp))
        with rfl | ⟨hp, h0, h2, h3⟩ | ⟨hp, hcases⟩
      · have hstop : ¬ ((0xF0#8).toNat ∈ ia32RelationalPrefixes ∨
            (0xF0#8).toNat ∈ ia32RelationalRepeatPrefixes) := by decide
        simp only [scanRelationalPrefixes, hcur] at h
        cases h
        exact .inl hcur
      · have hnr := (relationalPrefix_table p).2.2.1 h2 h3
        simp only [scanRelationalPrefixes, hcur, hp, true_or, if_true,
          require_bind_eq_ok] at h
        rcases ih hnext (fun q hq => hps q (by simp [hq])) (by simpa using hfuel) h.2.2
          with hlock | ⟨hF0, hc, hrep, hstr⟩
        · exact .inl hlock
        · right
          refine ⟨by simp [hF0, h0.symm], by rw [hc]; simp; omega, ?_, ?_⟩
          · rw [hrep]; simp [hnr, h2.symm, h3.symm]
          · simpa [h2.symm, h3.symm] using hstr
      · simp only [scanRelationalPrefixes, hcur, hp, or_true, if_true,
          require_bind_eq_ok, true_implies] at h
        obtain ⟨⟨-, hstring⟩, -, h⟩ := h
        -- the next byte is a string opcode, so the prefix run ends here
        have hps' : ps = [] := by
          cases ps with
          | nil => rfl
          | cons q ps =>
            have hq : codeByte code (cursor + 1) = q.toNat := by
              simpa using codeByte_drop hnext 0
            rw [hq] at hstring
            have := (relationalPrefix_table q).2.2.2 hstring
            rw [hps q (by simp)] at this
            cases this
        subst hps'
        have hq : codeByte code (cursor + 1) = b.toNat := by
          simpa using codeByte_drop hnext 0
        rw [hq] at hstring
        rcases ih hnext (by simp) (by simp) h with hlock | ⟨-, hc, hrep, -⟩
        · exact .inl hlock
        · right
          refine ⟨?_, by rw [hc]; simp, ?_, fun _ => hstring⟩
          · rcases hcases with rfl | rfl <;> simp
          · rw [hrep]
            rcases hcases with rfl | rfl <;> simp

theorem readRelationalOpcode_spec {op : Opcode} {length key : Nat} {context : String}
    (hdrop : code.drop cursor = op.bytes ++ rest) (hop : op.WellFormed)
    (h : readRelationalOpcode code offset length cursor context = .ok key) :
    key = opcodeKey op ∧ codeByte code cursor ∉ ia32RelationalRefusedOpcodes := by
  obtain ⟨hrefused, h⟩ := require_bind_eq_ok.mp h
  refine ⟨?_, hrefused⟩
  cases op with
  | one b =>
    have hcur : codeByte code cursor = b.toNat := by
      simpa [Opcode.bytes] using codeByte_drop hdrop 0
    have hb : b.toNat ≠ 15 := fun h => hop (BitVec.eq_of_toNat_eq h)
    rw [hcur, if_neg hb, pure_eq_ok] at h
    exact h.symm
  | two b =>
    have hcur : codeByte code cursor = 15 := by
      simpa [Opcode.bytes] using codeByte_drop hdrop 0
    have hcur' : codeByte code (cursor + 1) = b.toNat := by
      simpa [Opcode.bytes] using codeByte_drop hdrop 1
    rw [hcur, if_pos rfl] at h
    replace h := after_require h
    rw [hcur', pure_eq_ok] at h
    exact h.symm

theorem displacedTarget_encode (hdrop : code.drop offset = raw.encode ++ r) {width : Nat}
    (hw : width <= raw.length) :
    displacedTarget code offset raw.length width =
      (offset : Int) + raw.length + signedLe (raw.encode.drop (raw.length - width)) := by
  have hslice : (code.drop (offset + raw.length - width)).take width =
      raw.encode.drop (raw.length - width) := by
    have hlen : raw.length = raw.encode.length := rfl
    rw [Nat.add_sub_assoc hw, <- drop_drop, hdrop,
      drop_append_of_le_length (by omega), take_append_of_le_length (by simp; omega)]
    exact take_of_length_le (by simp; omega)
  rw [displacedTarget, hslice]

end

def flowClass (opcode digit : Nat) : RelationalFlow × Option Nat × Option Nat :=
  if 112 <= opcode ∧ opcode <= 127 then (.jcc, some 1, some (opcode % 16))
  else if 3968 <= opcode ∧ opcode <= 3983 then (.jcc, some 4, some (opcode % 16))
  else if opcode = 235 ∨ opcode = 233 then (.jmp, some (if opcode = 235 then 1 else 4), none)
  else if opcode = 232 then (.call, none, none)
  else if opcode = 194 ∨ opcode = 195 then (.ret, none, none)
  else if opcode ∈ [224, 225, 226, 227] then (.jcc, some 1, none)
  else if opcode = 255 ∧ digit = 2 then (.call, none, none)
  else if opcode = 255 ∧ digit = 4 then (.computed, none, none)
  else (.fall, none, none)

variable {externalEntries : List Int} {context : String} {width : Nat} {relocations : RelocationMap}

variable {code : List Byte} {offset : Nat}

theorem relationalFlow_eq_ok {length opcode : Nat}
    {found : RelationalFlow × Option Int × Option Nat}
    (h : relationalFlow code offset length cursor opcode externalEntries context = .ok found) :
    let digit := codeByte code (cursor + 1) / 8 % 8
    (found = ((flowClass opcode digit).1,
      (flowClass opcode digit).2.1.map (displacedTarget code offset length),
      (flowClass opcode digit).2.2)) ∧ (opcode = 255 -> digit ≠ 3 ∧ digit ≠ 5) := by
  intro digit
  unfold relationalFlow at h
  unfold flowClass
  split at h
  · next hc => rw [if_pos hc]; cases h; exact ⟨rfl, by omega⟩
  next h0 =>
  rw [if_neg h0]
  split at h
  · next hc => rw [if_pos hc]; cases h; exact ⟨rfl, by omega⟩
  next h1 =>
  rw [if_neg h1]
  split at h
  · next hc => rw [if_pos hc]; cases h; exact ⟨rfl, by omega⟩
  next h2 =>
  rw [if_neg h2]
  split at h
  · next hc => rw [if_pos hc]; cases h; exact ⟨rfl, by omega⟩
  next h3 =>
  rw [if_neg h3]
  split at h
  · next hc => rw [if_pos hc]; cases h; exact ⟨rfl, by omega⟩
  next h4 =>
  rw [if_neg h4]
  split at h
  · next hc =>
      rw [if_pos hc]; cases h
      refine ⟨rfl, fun h255 => ?_⟩
      subst h255
      simp at hc
  next h5 =>
  rw [if_neg h5]
  split at h
  · next hc =>
      subst hc
      replace h := after_require h
      obtain ⟨hfar, h⟩ := require_bind_eq_ok.mp h
      refine ⟨?_, fun _ => hfar⟩
      split at h
      · next h2 => cases h; simp [digit, h2]
      next h2 =>
      split at h
      · next h4 =>
          replace h := after_require h
          cases h
          simp [digit, h4]
      · next h4 => cases h; simp [digit, h2, h4]
  · next hc => cases h; simp [hc]

/-! ## Items -/

/-- The target a displacement of `width` bytes is taken for. -/
def readTarget (raw : Raw) (offset width : Nat) : Int :=
  (offset : Int) + raw.length + signedLe (raw.encode.drop (raw.length - width))

/-- What an item says about the instruction it stands for. -/
structure Reports (relocations : RelocationMap) (offset : Nat) (raw : Raw)
    (item : RelationalItem) : Prop where
  wf : raw.WellFormed lengthMap
  offset_eq : item.offset = offset
  length_eq : item.length = raw.length
  string : raw.rep.isSome -> ∃ b, raw.opcode = .one b ∧
    (b.toNat ∈ ia32RelationalStringQuiet ∨ b.toNat ∈ ia32RelationalStringCompare)
  refused : ∀ b, raw.opcode = .one b -> b.toNat ∉ ia32RelationalRefusedOpcodes
  not_far : opcodeKey raw.opcode = 255 -> raw.digit.toNat ≠ 3 ∧ raw.digit.toNat ≠ 5
  flow_eq : (item.flow, item.target, item.condition) =
    relocatedFlow relocations offset raw.length (opcodeKey raw.opcode)
      ((flowClass (opcodeKey raw.opcode) raw.digit.toNat).1,
        (flowClass (opcodeKey raw.opcode) raw.digit.toNat).2.1.map (readTarget raw offset),
        (flowClass (opcodeKey raw.opcode) raw.digit.toNat).2.2)
  effects_eq : (item.readsFlags, item.writesFlags) =
    relationalEffects (opcodeKey raw.opcode) raw.digit.toNat raw.rep.isSome item.flow item.condition

theorem digit_opcode_modrm : ∀ b : Byte,
    (ia32RelationalGroupFlagEffects b.toNat).isSome = true ∨ b.toNat = 255 ->
      (oneByteTable b.toNat).any (fun tokens => (tokensShape tokens).modrm) = true := by
  decide

theorem regOf_toNat (m : Byte) : m.toNat / 8 % 8 = (regOf m).toNat := by
  rw [regOf, BitVec.extractLsb'_toNat, Nat.shiftRight_eq_div_pow]

variable {raw : Raw} {items : List RelationalItem}

theorem digit_read (hwf : raw.WellFormed lengthMap)
    (hdrop : code.drop cursor = raw.opcode.bytes ++ (raw.modrm.toList ++ rest))
    (hkey : (ia32RelationalGroupFlagEffects (opcodeKey raw.opcode)).isSome = true ∨
      opcodeKey raw.opcode = 255) : codeByte code (cursor + 1) / 8 % 8 = raw.digit.toNat := by
  cases hop : raw.opcode with
  | two b =>
    rw [hop] at hkey
    have hbig : 255 < opcodeKey (.two b) := by rw [opcodeKey]; omega
    have hno : ia32RelationalGroupFlagEffects (opcodeKey (.two b)) = none := by
      unfold ia32RelationalGroupFlagEffects
      grind
    rw [hno] at hkey
    simp at hkey
    omega
  | one b =>
    rw [hop] at hkey hdrop
    obtain ⟨shape, hshape, hopd, -⟩ := hwf.shape
    have hmod := digit_opcode_modrm b hkey
    simp only [lengthMap, opcodeTokens, hop, Option.map_eq_some_iff] at hshape
    obtain ⟨tokens, htokens, rfl⟩ := hshape
    rw [htokens, Option.any_some] at hmod
    rw [hmod] at hopd
    cases hm : raw.modrm with
    | none => rw [hm] at hopd; exact hopd.elim
    | some m =>
      have hcur : codeByte code (cursor + 1) = m.toNat := by
        simpa [Opcode.bytes, hm] using codeByte_drop hdrop 1
      rw [hcur, regOf_toNat]
      simp [Raw.digit, hm]

theorem flowClass_digit {opcode d d' : Nat} (h : opcode = 255 -> d = d') :
    flowClass opcode d = flowClass opcode d' := by
  by_cases hop : opcode = 255
  · rw [h hop]
  · simp [flowClass, hop]

theorem relationalEffects_digit {opcode d d' : Nat} {repeated : Bool} {flow : RelationalFlow}
    {condition : Option Nat}
    (h : (ia32RelationalGroupFlagEffects opcode).isSome = true -> d = d') :
    relationalEffects opcode d repeated flow condition =
      relationalEffects opcode d' repeated flow condition := by
  cases hg : ia32RelationalGroupFlagEffects opcode with
  | some row => rw [h (by simp [hg])]
  | none => simp only [relationalEffects, hg]

theorem flowClass_width_digit (opcode d : Nat) :
    (flowClass opcode d).2.1 = (flowClass opcode 0).2.1 := by
  unfold flowClass
  split_ifs <;> rfl

theorem displacement_table : ∀ b : Byte,
    (flowClass b.toNat 0).2.1.all (fun width => oneByteTable b.toNat =
      if width = 1 then some [.Jb] else some [.Jz]) = true ∧
    (flowClass (3840 + b.toNat) 0).2.1.all (fun width => width = 4 ∧
      twoByteTable b.toNat = some [.Jz]) = true := by
  decide

theorem displacement_tokens {op : Opcode} {digit : BitVec 3}
    (h : (flowClass (opcodeKey op) digit.toNat).2.1 = some width) :
    opcodeTokens op = if width = 1 then some [.Jb] else some [.Jz] := by
  rw [flowClass_width_digit] at h
  cases op with
  | one b =>
    have := (displacement_table b).1
    rw [opcodeKey] at h
    simpa [h, opcodeTokens] using this
  | two b =>
    have := (displacement_table b).2
    rw [opcodeKey] at h
    simp only [h, Option.all_some, decide_eq_true_eq] at this
    rw [opcodeTokens, this.2, this.1, if_neg (by decide)]

theorem flowClass_width {opcode digit : Nat} (h : (flowClass opcode digit).2.1 = some width) :
    width = 1 ∨ width = 4 := by
  unfold flowClass at h
  grind

section

variable (hwf : raw.WellFormed lengthMap)
  (h : opcodeTokens raw.opcode = if width = 1 then some [.Jb] else some [.Jz])

include hwf h

/-- The immediate of an opcode that takes a displacement. -/
theorem imm_of_tokens :
    raw.imm.length = if width = 1 then 1 else if raw.opsize then 2 else 4 := by
  obtain ⟨shape, hshape, -, himm⟩ := hwf.shape
  simp only [lengthMap, h] at hshape
  split at hshape <;> cases hshape <;> simp_all [tokensShape, Token.size]

theorem width_le_of_tokens (hwidth : width = 1 ∨ width = 4) : width <= raw.length := by
  have himm := imm_of_tokens hwf h
  have hop : 1 <= raw.opcode.bytes.length := by cases raw.opcode <;> simp [Opcode.bytes]
  have hlen : raw.length = raw.prefixes.length + raw.opcode.bytes.length +
      raw.modrm.toList.length + raw.sib.toList.length + raw.disp.length + raw.imm.length := by
    simp [Raw.length, Raw.encode, Nat.add_assoc]
  rcases hwidth with rfl | rfl
  · exact raw.length_pos
  · rw [if_neg (by decide)] at himm
    cases hsize : raw.opsize with
    | false => rw [hsize, if_neg (by decide)] at himm; omega
    | true =>
      have hpre : 0 < raw.prefixes.length :=
        length_pos_of_mem (by simpa [Raw.opsize] using hsize)
      rw [hsize, if_pos rfl] at himm
      omega

end

section

variable (hwf : raw.WellFormed lengthMap)
  (h : (flowClass (opcodeKey raw.opcode) raw.digit.toNat).2.1 = some width)

include hwf h

theorem displacement_imm :
    raw.imm.length = if width = 1 then 1 else if raw.opsize then 2 else 4 :=
  imm_of_tokens hwf (displacement_tokens h)

theorem displacement_width_le : width <= raw.length :=
  width_le_of_tokens hwf (displacement_tokens h) (flowClass_width h)

end

theorem relationalItem_reports {item : RelationalItem}
    (h : relationalItem code relocations externalEntries context offset = .ok item) :
    ∃ raw r, parse lengthMap (code.drop offset) = some (raw, r) ∧
      Reports relocations offset raw item := by
  obtain ⟨length, hlength, h⟩ := bind_eq_ok.mp h
  obtain ⟨⟨cursor, repeated⟩, hscan, h⟩ := bind_eq_ok.mp h
  obtain ⟨key, hkey, h⟩ := bind_eq_ok.mp h
  obtain ⟨found, hfound, h⟩ := bind_eq_ok.mp h
  obtain ⟨raw, r, hparse, rfl⟩ := supportedIa32InstructionLength_eq_ok.mp hlength
  obtain ⟨hwf, hdrop⟩ := parse_eq_some.mp hparse
  refine ⟨raw, r, hparse, ?_⟩
  -- the scan ends at the opcode
  let tail := raw.sib.toList ++ raw.disp ++ raw.imm ++ r
  have henc : code.drop offset = raw.prefixes ++
    (raw.opcode.bytes ++ (raw.modrm.toList ++ tail)) := by
    rw [hdrop]; simp [Raw.encode, tail]
  have hfirst : ∃ rest, raw.opcode.bytes ++ (raw.modrm.toList ++ tail) =
      raw.opcode.first :: rest := by
    cases raw.opcode <;> simp [Opcode.bytes, Opcode.first]
  obtain ⟨rest, hrest⟩ := hfirst
  have hpl : raw.prefixes.length <= raw.length := by
    simp [Raw.length, Raw.encode]
  rw [hrest] at henc
  have hspec := scanRelationalPrefixes_spec henc hwf.prefixes_prefix hwf.opcode_first hpl hscan
  have hlock : codeByte code cursor ≠ 240 := by
    obtain ⟨hrefused, -⟩ := require_bind_eq_ok.mp hkey
    exact fun h => hrefused (by rw [h]; decide)
  obtain ⟨-, hcursor, hrep, hstring⟩ := hspec.resolve_left hlock
  simp only [Bool.false_or] at hcursor hrep
  have hreps : raw.rep.isSome = repeated := by
    rw [hrep, Raw.rep]
    split
    · simp_all
    · split <;> simp_all
  subst hcursor
  have hop : code.drop (offset + raw.prefixes.length) =
      raw.opcode.bytes ++ (raw.modrm.toList ++ tail) := by
    rw [<- drop_drop, henc, drop_left, hrest]
  obtain ⟨rfl, hrefused⟩ := readRelationalOpcode_spec hop hwf.opcode_wf hkey
  obtain ⟨rfl, hfar⟩ := relationalFlow_eq_ok hfound
  have hdigit := digit_read hwf hop
  rw [flowClass_digit fun h255 => hdigit (.inr h255)] at h
  have htarget : (flowClass (opcodeKey raw.opcode) raw.digit.toNat).2.1.map
      (displacedTarget code offset raw.length) =
      (flowClass (opcodeKey raw.opcode) raw.digit.toNat).2.1.map (readTarget raw offset) := by
    cases hw : (flowClass (opcodeKey raw.opcode) raw.digit.toNat).2.1 with
    | none => rfl
    | some width =>
      rw [Option.map_some, Option.map_some,
        displacedTarget_encode hdrop (displacement_width_le hwf hw)]
      rfl
  rw [htarget] at h
  cases h
  refine ⟨hwf, rfl, rfl, fun hr => ?_, fun b hb => ?_, fun h255 => ?_, rfl, ?_⟩
  · rw [hreps, hrep] at hr
    cases hopc : raw.opcode with
    | one b =>
      simpa [hopc, Opcode.first] using hstring hr
    | two b =>
      have := hstring hr
      rw [hopc, Opcode.first] at this
      exact absurd this (by decide)
  · have hcur : codeByte code (offset + raw.prefixes.length) = b.toNat := by
      simpa [hb, Opcode.bytes] using codeByte_drop hop 0
    rwa [<- hcur]
  · rw [<- hdigit (.inr h255)]
    exact hfar h255
  · rw [hreps]
    exact relationalEffects_digit fun hg => hdigit (.inl hg)

theorem relationalItemsFrom_reports
    (h : relationalItemsFrom code relocations externalEntries context code.length 0 = .ok items) :
    List.Forall₂ (fun entry item => Reports relocations entry.1 entry.2 item)
        (sweep lengthMap code) items ∧
      Tiled RelationalItem.offset RelationalItem.length 0 items code.length := by
  have hloop : Loops code (relationalItem code relocations externalEntries context)
      RelationalItem.length (relationalItemsFrom code relocations externalEntries context) :=
    ⟨fun _ => rfl, fun _ _ => rfl⟩
  obtain ⟨hreports, htiled⟩ := hloop.sweeps (fun _ _ => relationalItem_reports)
    (fun _ _ _ h => ⟨h.offset_eq, h.length_eq⟩) h
  exact ⟨hreports, htiled (by omega) (by omega)⟩

def declaredEffect (opcode digit : Nat) (repeated : Bool) : RelationalEffect :=
  relationalEffects opcode digit repeated (flowClass opcode digit).1 (flowClass opcode digit).2.2

theorem declaredEffect_repeated {opcode : Nat} (h : opcode ∉ ia32RelationalStringCompare)
    (digit : Nat) (repeated : Bool) :
    declaredEffect opcode digit repeated = declaredEffect opcode digit false := by
  unfold declaredEffect relationalEffects
  simp [h]

theorem oneByteFlagWrites_repeated {opcode : Nat} (h : opcode ∉ ia32RelationalStringCompare)
    (digit : Nat) (repeated : Bool) :
    oneByteFlagWrites opcode digit repeated = oneByteFlagWrites opcode digit false := by
  have h' : opcode ∉ [0xA6, 0xA7, 0xAE, 0xAF] := h
  unfold oneByteFlagWrites
  simp [h']

/-- The opcodes whose use of the flags depends on the ModRM extension. -/
def digitOpcodes : List Nat :=
  [128, 129, 130, 131, 192, 193, 208, 209, 210, 211, 246, 247, 254, 255]

section

variable {opcode : Nat} (h : opcode ∉ digitOpcodes) (digit : Nat) (repeated : Bool)
include h

theorem declaredEffect_digit :
    declaredEffect opcode digit repeated = declaredEffect opcode 0 repeated := by
  simp only [digitOpcodes, mem_cons, not_or] at h
  have hgroup : ia32RelationalGroupFlagEffects opcode = none := by
    simp [ia32RelationalGroupFlagEffects, h]
  simp [declaredEffect, relationalEffects, flowClass, h, hgroup]

theorem oneByteFlags_digit : oneByteFlagReads opcode digit = oneByteFlagReads opcode 0 ∧
    oneByteFlagWrites opcode digit repeated = oneByteFlagWrites opcode 0 repeated := by
  simp only [digitOpcodes, mem_cons, not_or] at h
  have himm : ¬ (0x80 <= opcode ∧ opcode < 0x84) := by omega
  simp [oneByteFlagReads, oneByteFlagWrites, himm, h]

end

theorem oneByte_declared : ∀ b : Byte, isX87 b = false -> ∀ digit : Fin 8,
    oneByteFlagReads b.toNat digit ⊆ (declaredEffect b.toNat digit false).1 ∧
    (declaredEffect b.toNat digit false).2 ⊆ oneByteFlagWrites b.toNat digit false := by
  have hplain : ∀ b : Byte, isX87 b = false ->
      oneByteFlagReads b.toNat 0 ⊆ (declaredEffect b.toNat 0 false).1 ∧
      (declaredEffect b.toNat 0 false).2 ⊆ oneByteFlagWrites b.toNat 0 false := by
    decide +kernel
  have hdigits : ∀ opcode ∈ digitOpcodes, ∀ digit : Fin 8,
      oneByteFlagReads opcode digit ⊆ (declaredEffect opcode digit false).1 ∧
      (declaredEffect opcode digit false).2 ⊆ oneByteFlagWrites opcode digit false := by
    decide +kernel
  intro b hb digit
  by_cases h : b.toNat ∈ digitOpcodes
  · exact hdigits _ h digit
  · rw [declaredEffect_digit h, (oneByteFlags_digit h digit false).1,
      (oneByteFlags_digit h digit false).2]
    exact hplain b hb

/-- A repeated comparison is said to overwrite the flags, and need not. -/
theorem compare_declared : ∀ opcode ∈ ia32RelationalStringCompare, ∀ digit : Fin 8,
    oneByteFlagReads opcode digit ⊆ (declaredEffect opcode digit true).1 ∧
    ¬ (declaredEffect opcode digit true).2 ⊆ oneByteFlagWrites opcode digit true := by
  decide

theorem twoByte_declared : ∀ b : Byte, ∀ digit : Fin 8,
    twoByteFlagReads b.toNat ⊆ (declaredEffect (3840 + b.toNat) digit false).1 ∧
    (declaredEffect (3840 + b.toNat) digit false).2 ⊆ twoByteFlagWrites b.toNat digit := by
  have hplain : ∀ b : Byte, twoByteFlagReads b.toNat ⊆ (declaredEffect (3840 + b.toNat) 0 false).1 ∧
      (declaredEffect (3840 + b.toNat) 0 false).2 ⊆ twoByteFlagWrites b.toNat 0 := by
    decide +kernel
  have hdigits : ∀ opcode ∈ [0x00, 0xBA, 0xC7], ∀ digit : Fin 8,
      (declaredEffect (3840 + opcode) 0 false).2 ⊆ twoByteFlagWrites opcode digit := by
    decide +kernel
  intro b digit
  have hkey : 3840 + b.toNat ∉ digitOpcodes := by simp [digitOpcodes]; omega
  rw [declaredEffect_digit hkey]
  refine ⟨(hplain b).1, ?_⟩
  by_cases h : b.toNat ∈ [0x00, 0xBA, 0xC7]
  · exact hdigits _ h digit
  · simp only [mem_cons, not_mem_nil, or_false, not_or] at h
    have hsame : twoByteFlagWrites b.toNat digit = twoByteFlagWrites b.toNat 0 := by
      simp only [twoByteFlagWrites, h, if_false]
    rw [hsame]
    exact (hplain b).2

theorem x87_declared : ∀ b : Byte, isX87 b = true -> ∀ digit : Fin 8,
    declaredEffect b.toNat digit false = (∅, ∅) := by
  decide

theorem x87_reads (opcode : Nat) (m : Byte) : x87FlagReads opcode m ⊆ ∅ ↔
    ¬ ((opcode = 0xDA ∨ opcode = 0xDB) ∧ modeOf m = 3#2 ∧ (regOf m).toNat < 4) := by
  have key : ∀ m : Byte, x87FlagReads 0xDA m ⊆ ∅ ↔
      ¬ (modeOf m = 3#2 ∧ (regOf m).toNat < 4) := by decide
  unfold x87FlagReads at key ⊢
  by_cases h : opcode = 0xDA ∨ opcode = 0xDB
  · simpa [h] using key m
  · simp [h]

/-- What an accepted walk consists of. -/
structure RelationalWalk (code : List Byte) (relocations : RelocationMap)
    (externalEntries : List Int) (context : String) (items : List RelationalItem)
    (successors : List (List Nat)) : Prop where
  reports : List.Forall₂ (fun entry item => Reports relocations entry.1 entry.2 item)
    (sweep lengthMap code) items
  tiled : Tiled RelationalItem.offset RelationalItem.length 0 items code.length
  targets : ∀ item ∈ items, ∀ t, item.target = some t -> (indexOfOffset items t).isSome
  edges : ∀ index item, items[index]? = some item ->
    relationalEdges items externalEntries context index item = .ok (successors.getD index [])

theorem relationalWalk_of_ok {body : List Byte} {context : String} {codeLength : Option Nat}
    {successors : List (List Nat)} {entries : List Nat}
    (h : ia32RelationalFlowWalk body relocations context codeLength externalEntries =
      .ok (items, successors, entries)) :
    RelationalWalk (body.take (codeLength.getD body.length)) relocations externalEntries context
      items successors := by
  replace h := after_require h
  replace h := after_require h
  obtain ⟨items', hitems, h⟩ := bind_eq_ok.mp h
  replace h := after_require h
  obtain ⟨_, htargets, h⟩ := bind_eq_ok.mp h
  obtain ⟨successors', hsucc, h⟩ := bind_eq_ok.mp h
  obtain ⟨_, -, h⟩ := bind_eq_ok.mp h
  replace h := after_require h
  cases h
  rw [requireEach_eq_ok] at htargets
  obtain ⟨-, hall⟩ := enumerateFrom_eq_ok.mp hsucc
  obtain ⟨hreports, htiled⟩ := relationalItemsFrom_reports hitems
  refine ⟨hreports, htiled, fun item hitem t ht => ?_, fun index item hitem => ?_⟩
  · have := htargets item hitem
    rw [ht] at this
    simpa using this
  · obtain ⟨edges, hedges, hf⟩ := hall index item hitem
    rw [Nat.zero_add] at hf
    rw [hf, getD_eq_getElem?_getD, hedges, Option.getD_some]

end Reprobit

import Reprobit.Machine.Action
import Mathlib.Data.List.TakeWhile

/-!
# The instruction format

Prefixes, one- or two-byte opcode, ModRM, SIB, displacement and immediate.  The
opcode map that says which operands follow an opcode is a parameter.  `parse`
and `encode` are inverse on well-formed instructions, so the encodings under
any one opcode map form a prefix code.
-/

namespace Reprobit.Machine

open List Option

inductive Opcode
  | one (b : Byte)
  | two (b : Byte)
  deriving DecidableEq, Repr

namespace Opcode

def bytes : Opcode -> List Byte
  | one b => [b]
  | two b => [0x0F#8, b]

/-- The byte that decides whether a prefix run has ended. -/
def first : Opcode -> Byte
  | one b => b
  | two _ => 0x0F#8

def last : Opcode -> Byte
  | one b => b
  | two b => b

def WellFormed : Opcode -> Prop
  | one b => b ≠ 0x0F#8
  | two _ => True

instance (op : Opcode) : Decidable op.WellFormed := by
  cases op <;> unfold WellFormed <;> infer_instance

end Opcode

/-- A ModRM byte, and immediate bytes by operand size and digit. -/
structure Shape where
  modrm : Bool
  immSize : Bool -> BitVec 3 -> Nat

abbrev OpcodeMap := Opcode -> Option Shape

def isPrefix (b : Byte) : Bool :=
  [0x26, 0x2E, 0x36, 0x3E, 0x64, 0x65, 0x66, 0xF0, 0xF2, 0xF3].contains b

/-! ## ModRM and SIB fields -/

variable (m : Byte)

def modeOf : BitVec 2 := m.extractLsb' 6 2
def regOf : BitVec 3 := m.extractLsb' 3 3
def rmOf : BitVec 3 := m.extractLsb' 0 3
def scaleOf (s : Byte) : BitVec 2 := s.extractLsb' 6 2
def indexOf (s : Byte) : BitVec 3 := s.extractLsb' 3 3
def baseOf (s : Byte) : BitVec 3 := s.extractLsb' 0 3

def hasSib : Bool := modeOf m != 3#2 && rmOf m == 4#3

theorem hasSib_iff : hasSib m = true ↔ modeOf m ≠ 3#2 ∧ rmOf m = 4#3 := by
  simp [hasSib]

def dispSize (sib : Option Byte) : Nat :=
  if modeOf m = 1#2 then 1
  else if modeOf m = 2#2 then 4
  else if modeOf m = 0#2 then
    if rmOf m = 5#3 then 4
    else if rmOf m = 4#3 then
      match sib with
      | some s => if baseOf s = 5#3 then 4 else 0
      | none => 0
    else 0
  else 0

structure Raw where
  prefixes : List Byte
  opcode : Opcode
  modrm : Option Byte
  sib : Option Byte
  disp : List Byte
  imm : List Byte
  deriving DecidableEq, Repr

namespace Raw

def encode (raw : Raw) : List Byte :=
  raw.prefixes ++ raw.opcode.bytes ++ raw.modrm.toList ++ raw.sib.toList ++ raw.disp ++ raw.imm

def length (raw : Raw) : Nat := raw.encode.length

/-- Is the operand-size prefix present. -/
def opsize (raw : Raw) : Bool := raw.prefixes.contains 0x66

def digit (raw : Raw) : BitVec 3 := (raw.modrm.map regOf).getD 0

end Raw

/-- The ModRM, SIB and displacement bytes fit together. -/
def OperandWF : Bool -> Option Byte -> Option Byte -> List Byte -> Prop
  | false, m, sib, disp => m = none ∧ sib = none ∧ disp = []
  | true, none, _, _ => False
  | true, some m, sib, disp => sib.isSome = hasSib m ∧ disp.length = dispSize m sib

structure Raw.WellFormed (map : OpcodeMap) (raw : Raw) : Prop where
  prefixes_prefix : ∀ b ∈ raw.prefixes, isPrefix b = true
  prefixes_nodup : raw.prefixes.Nodup
  prefixes_length : raw.prefixes.length <= 4
  opcode_wf : raw.opcode.WellFormed
  opcode_first : isPrefix raw.opcode.first = false
  shape : ∃ shape, map raw.opcode = some shape ∧ OperandWF shape.modrm raw.modrm raw.sib raw.disp ∧
    raw.imm.length = shape.immSize raw.opsize raw.digit
  length_le : raw.length <= 15

/-! ## Parsing -/

def takeBytes (n : Nat) (bs : List Byte) : Option (List Byte × List Byte) :=
  if n <= bs.length then some (bs.take n, bs.drop n) else none

theorem takeBytes_eq_some {n : Nat} {bs x r : List Byte} :
    takeBytes n bs = some (x, r) ↔ x.length = n ∧ bs = x ++ r := by
  unfold takeBytes
  constructor
  · intro h
    split at h
    · cases h
      exact ⟨by simp; omega, (take_append_drop n bs).symm⟩
    · cases h
  · rintro ⟨rfl, rfl⟩
    simp

def parseOpcode : List Byte -> Option (Opcode × List Byte)
  | [] => none
  | b :: bs =>
    if b = 0x0F#8 then
      match bs with
      | [] => none
      | c :: cs => some (.two c, cs)
    else some (.one b, bs)

variable {bs r : List Byte} {map : OpcodeMap} {raw : Raw}

theorem parseOpcode_eq_some {op : Opcode} :
    parseOpcode bs = some (op, r) ↔ op.WellFormed ∧ bs = op.bytes ++ r := by
  cases bs with
  | nil => cases op <;> simp [parseOpcode, Opcode.bytes]
  | cons b bs =>
    unfold parseOpcode
    by_cases hb : b = 0x0F#8
    · subst hb
      cases bs with
      | nil =>
        cases op with
        | one d => simp only [Opcode.bytes, Opcode.WellFormed]; grind
        | two d => simp [Opcode.bytes]
      | cons c cs =>
        cases op with
        | one d => simp only [Opcode.bytes, Opcode.WellFormed]; grind
        | two d => simp [Opcode.bytes, Opcode.WellFormed]
    · cases op with
      | one d =>
        simp only [if_neg hb, some.injEq, Prod.mk.injEq, Opcode.one.injEq, Opcode.bytes,
          cons_append, List.cons.injEq]
        constructor
        · rintro ⟨rfl, rfl⟩; exact ⟨hb, rfl, rfl⟩
        · rintro ⟨_, rfl, rfl⟩; exact ⟨rfl, rfl⟩
      | two d => simp [Opcode.bytes, hb]

def parseSib (m : Byte) (bs : List Byte) : Option (Option Byte × List Byte) :=
  if hasSib m then
    match bs with
    | [] => none
    | s :: bs => some (some s, bs)
  else some (none, bs)

theorem parseSib_eq_some {m : Byte} {sib : Option Byte} :
    parseSib m bs = some (sib, r) ↔ sib.isSome = hasSib m ∧ bs = sib.toList ++ r := by
  unfold parseSib
  cases hm : hasSib m with
  | true =>
    cases bs with
    | nil => cases sib <;> simp
    | cons s bs => cases sib <;> simp
  | false => cases sib <;> simp

def parseOperand (modrm : Bool) (bs : List Byte) :
    Option (Option Byte × Option Byte × List Byte × List Byte) :=
  if modrm then
    match bs with
    | [] => none
    | m :: bs => do
      let (sib, bs) <- parseSib m bs
      let (disp, bs) <- takeBytes (dispSize m sib) bs
      some (some m, sib, disp, bs)
  else some (none, none, [], bs)

theorem parseOperand_eq_some {modrm : Bool} {bs r disp : List Byte} {m sib : Option Byte} :
    parseOperand modrm bs = some (m, sib, disp, r) ↔
      OperandWF modrm m sib disp ∧ bs = m.toList ++ sib.toList ++ disp ++ r := by
  cases modrm with
  | false =>
    simp only [parseOperand, OperandWF, Bool.false_eq_true]
    constructor
    · rintro ⟨rfl, rfl, rfl, rfl⟩; simp
    · rintro ⟨⟨rfl, rfl, rfl⟩, rfl⟩; simp
  | true =>
    cases bs with
    | nil => cases m <;> simp [parseOperand, OperandWF]
    | cons b bs =>
      simp only [parseOperand, if_true, bind_eq_bind, bind_eq_some_iff,
        Prod.exists, some.injEq, Prod.mk.injEq]
      constructor
      · rintro ⟨sib', bs', hs, disp', r', hd, rfl, rfl, rfl, rfl⟩
        obtain ⟨hsib, rfl⟩ := parseSib_eq_some.mp hs
        obtain ⟨hdisp, rfl⟩ := takeBytes_eq_some.mp hd
        exact ⟨⟨hsib, hdisp⟩, by simp⟩
      · rintro ⟨hwf, heq⟩
        cases m with
        | none => exact hwf.elim
        | some m =>
          cases heq
          refine ⟨sib, disp ++ r, parseSib_eq_some.mpr ⟨hwf.1, by simp⟩, disp, r,
            takeBytes_eq_some.mpr ⟨hwf.2, rfl⟩, rfl, rfl, rfl, rfl⟩

def parse (map : OpcodeMap) (bs : List Byte) : Option (Raw × List Byte) := do
  let prefixes := bs.takeWhile isPrefix
  let (opcode, bs) <- parseOpcode (bs.dropWhile isPrefix)
  let shape <- map opcode
  let (modrm, sib, disp, bs) <- parseOperand shape.modrm bs
  let (imm, bs) <- takeBytes (shape.immSize (prefixes.contains 0x66) ((modrm.map regOf).getD 0)) bs
  let raw : Raw := ⟨prefixes, opcode, modrm, sib, disp, imm⟩
  if prefixes.Nodup ∧ prefixes.length <= 4 ∧ raw.length <= 15 then some (raw, bs) else none

theorem takeWhile_dropWhile_eq {ps r : List Byte} (op : Opcode)
    (hps : ∀ b ∈ ps, isPrefix b = true) (hop : isPrefix op.first = false) :
    (ps ++ op.bytes ++ r).takeWhile isPrefix = ps ∧
      (ps ++ op.bytes ++ r).dropWhile isPrefix = op.bytes ++ r := by
  induction ps with
  | nil => cases op <;> simp_all [Opcode.bytes, Opcode.first]
  | cons p ps ih =>
    simp_all

/-- Parsed are the strings that start with a well-formed instruction. -/
theorem parse_eq_some :
    parse map bs = some (raw, r) ↔ raw.WellFormed map ∧ bs = raw.encode ++ r := by
  constructor
  · intro h
    simp only [parse, bind_eq_bind, bind_eq_some_iff, Prod.exists] at h
    obtain ⟨op, b₁, hop, shape, hshape, m, sib, disp, b₂, hopd, imm, b₃, himm, h⟩ := h
    split at h
    · next hg =>
        cases h
        obtain ⟨hwf, hb₁⟩ := parseOpcode_eq_some.mp hop
        obtain ⟨hfit, rfl⟩ := parseOperand_eq_some.mp hopd
        obtain ⟨hlen, rfl⟩ := takeBytes_eq_some.mp himm
        refine ⟨⟨fun b hb => mem_takeWhile_imp hb, hg.1, hg.2.1, hwf, ?_,
          ⟨shape, hshape, hfit, hlen⟩, hg.2.2⟩, ?_⟩
        · have hne : bs.dropWhile isPrefix ≠ [] := by
            rw [hb₁]; cases op <;> simp [Opcode.bytes]
          have hhead := head_dropWhile_not isPrefix hne
          have : (bs.dropWhile isPrefix).head hne = op.first := by
            simp only [hb₁]; cases op <;> simp [Opcode.bytes, Opcode.first]
          rwa [this] at hhead
        · conv_lhs => rw [<- takeWhile_append_dropWhile (p := isPrefix) (l := bs), hb₁]
          simp [Raw.encode]
    · cases h
  · rintro ⟨hwf, rfl⟩
    obtain ⟨shape, hshape, hopd, himm⟩ := hwf.shape
    have hsplit := takeWhile_dropWhile_eq raw.opcode
      (r := raw.modrm.toList ++ raw.sib.toList ++ raw.disp ++ raw.imm ++ r)
      hwf.prefixes_prefix hwf.opcode_first
    have henc : raw.encode ++ r = raw.prefixes ++ raw.opcode.bytes ++
        (raw.modrm.toList ++ raw.sib.toList ++ raw.disp ++ raw.imm ++ r) := by
      simp [Raw.encode]
    simp only [parse, bind_eq_bind, bind_eq_some_iff, Prod.exists, henc,
      hsplit.1, hsplit.2]
    refine ⟨raw.opcode, _, parseOpcode_eq_some.mpr ⟨hwf.opcode_wf, rfl⟩, shape, hshape,
      raw.modrm, raw.sib, raw.disp, raw.imm ++ r,
      parseOperand_eq_some.mpr ⟨hopd, by simp⟩, raw.imm, r,
      takeBytes_eq_some.mpr ⟨himm, rfl⟩, ?_⟩
    rw [if_pos ⟨hwf.prefixes_nodup, hwf.prefixes_length, hwf.length_le⟩]

theorem parse_encode (h : raw.WellFormed map) (r : List Byte) :
    parse map (raw.encode ++ r) = some (raw, r) :=
  parse_eq_some.mpr ⟨h, rfl⟩

theorem Raw.length_pos (raw : Raw) : 0 < raw.length := by
  cases h : raw.opcode <;> simp [Raw.length, Raw.encode, h, Opcode.bytes]

end Reprobit.Machine

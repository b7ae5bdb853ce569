import Reprobit.Machine.Patches
import Reprobit.Register.ControlFlow

/-!
# Branch repair

A re-encoded body is a list of pieces, one for each instruction.  A piece may be a
byte longer or shorter than its instruction was, so the displacements of the branches
within the body are recomputed, round after round, until a round changes nothing.
-/

namespace Reprobit

open Machine List

def ia32RepairableBranchWidths : List Nat := [1, 4]
def registerBijectionReencodingFixpointRounds : Nat := 64

def pieceStart (lengths : List Nat) (index : Nat) : Nat := (lengths.take index).sum

def Instruction.branchWidth (item : Instruction) : Nat :=
  ((bijectionFormFor item.opcode).map (·.displacement)).getD 0

/-- The little-endian two's complement of a displacement. -/
def signedBytes (width : Nat) (delta : Int) : List Byte :=
  leBytes width (delta % 256 ^ width).toNat

variable (instructions : List Instruction) (context : String) (lengths : List Nat) (index : Nat)

def reencodingBranchWidth (item : Instruction) (raw : List Byte) : Refusing Nat := do
  let branch := context ++ ": the branch at " ++ toString item.offset
  require (item.branchWidth ∈ ia32RepairableBranchWidths)
    (branch ++ " has no repairable displacement field")
  require (raw.length = item.length) (branch ++ " changed its own encoding length")
  pure item.branchWidth

def branchDelta (length : Nat) (target : Int) : Option Int :=
  (instructions.findIdx? fun other => (other.offset : Int) = target).map fun destination =>
    pieceStart lengths destination - (pieceStart lengths index + length : Nat)

def repairBranch (slot : Instruction × List Byte) : Refusing (List Byte × Option Nat) :=
  let (item, patched) := slot
  match item.target with
  | none => pure (patched, none)
  | some target =>
    if item.flow = .jcc ∨ item.flow = .jmp then do
      let width <- reencodingBranchWidth context item patched
      let some delta := branchDelta instructions lengths index patched.length target |
        .error "KeyError"
      require (-2 ^ (8 * width - 1) <= delta ∧ delta < 2 ^ (8 * width - 1))
        (context ++ ": the branch at " ++ toString item.offset ++
          " no longer reaches its target in " ++ toString width ++
          " displacement byte(s); widening it would be a code change, not a renaming")
      if patched.drop (patched.length - width) = signedBytes width delta then pure (patched, none)
      else pure (patched.take (patched.length - width) ++ signedBytes width delta, item.offset)
    else pure (patched, none)

def repairRound (pieces : List (List Byte)) : Refusing (List (List Byte × Option Nat)) :=
  enumerateFrom (repairBranch instructions context (pieces.map length)) (instructions.zip pieces) 0

def repairRounds : Nat -> List (List Byte) -> Finset Nat -> Refusing (List (List Byte) × Finset Nat)
  | 0, _, _ => .error (context ++ ": the branch-displacement fixpoint did not converge")
  | rounds + 1, pieces, repaired => do
    let out <- repairRound instructions context pieces
    let fresh := (out.filterMap (·.2)).toFinset
    if fresh = ∅ then pure (out.map (·.1), repaired)
    else repairRounds rounds (out.map (·.1)) (repaired ∪ fresh)

def repairBranches (pieces : List (List Byte)) : Refusing (List (List Byte) × Finset Nat) :=
  repairRounds instructions context registerBijectionReencodingFixpointRounds pieces ∅

variable {instructions context lengths index} {pieces : List (List Byte)} {item : Instruction}
  {target : Int} {piece next : List Byte} {fresh : Option Nat} {relocations : RelocationMap}

theorem signedLe_signedBytes {width : Nat} {delta : Int} (hw : width ∈ ia32RepairableBranchWidths)
    (h : -2 ^ (8 * width - 1) <= delta ∧ delta < 2 ^ (8 * width - 1)) :
    signedLe (signedBytes width delta) = delta := by
  rw [signedLe, signedBytes, leNat_leBytes, leBytes_length, BitVec.toInt_eq_toNat_cond,
    BitVec.toNat_ofNat]
  simp only [ia32RepairableBranchWidths, mem_cons, not_mem_nil, or_false] at hw
  rcases hw with rfl | rfl <;> simp at h ⊢ <;> omega

theorem Resolves.branchWidth_le {code : List Byte} {raw : Raw} {form : BijectionForm} {f : Form}
    {t : Touched} (h : Resolves relocations code item raw form f t)
    (htarget : item.target = some target) : item.branchWidth <= item.length := by
  have hd : form.displacement ≠ 0 := by
    have hstage := h.flowStage
    rw [htarget] at hstage
    generalize form.flowOf (some raw.digit.toNat) = flow, item.flow = flow' at hstage
    cases hstage with
    | relative _ hd => exact hd
  have hform := h.decodes.form_eq
  unfold formOf at hform
  split at hform
  · -- the string operations a repeat prefix selects have no displacement
    unfold ia32BijectionRepeatedStringForms at hform
    split_ifs at hform <;> cases hform <;> exact absurd rfl hd
  · rw [Instruction.branchWidth, h.decodes.opcode_eq, hform, h.decodes.length_eq, raw.length_eq,
      h.imm_length hd]
    exact Nat.le_add_left _ _

theorem reencodingBranchWidth_eq_ok {width : Nat} :
    reencodingBranchWidth context item piece = .ok width ↔
      item.branchWidth ∈ ia32RepairableBranchWidths ∧ piece.length = item.length ∧
        item.branchWidth = width := by
  simp [reencodingBranchWidth, require_bind_eq_ok]

/-- A branch within the body is checked and given its distance. -/
theorem repairBranch_eq_ok (htarget : item.target = some target)
    (hflow : item.flow = .jcc ∨ item.flow = .jmp) {out : List Byte × Option Nat} :
    repairBranch instructions context lengths index (item, piece) = .ok out ↔
      (item.branchWidth ∈ ia32RepairableBranchWidths ∧ piece.length = item.length) ∧
      ∃ delta, branchDelta instructions lengths index piece.length target = some delta ∧
        (-2 ^ (8 * item.branchWidth - 1) <= delta ∧ delta < 2 ^ (8 * item.branchWidth - 1)) ∧
        out = if piece.drop (piece.length - item.branchWidth) = signedBytes item.branchWidth delta
          then (piece, none)
          else (piece.take (piece.length - item.branchWidth) ++ signedBytes item.branchWidth delta,
            some item.offset) := by
  simp only [repairBranch, htarget, if_pos hflow, bind_eq_ok, reencodingBranchWidth_eq_ok]
  constructor
  · rintro ⟨_, ⟨hw, hlen, rfl⟩, h⟩
    split at h
    · next delta hdelta =>
        obtain ⟨hrange, h⟩ := require_bind_eq_ok.mp h
        refine ⟨⟨hw, hlen⟩, delta, hdelta, hrange, ?_⟩
        split_ifs at h ⊢ <;> exact (pure_eq_ok.mp h).symm
    · cases h
  · rintro ⟨⟨hw, hlen⟩, delta, hdelta, hrange, rfl⟩
    refine ⟨_, ⟨hw, hlen, rfl⟩, ?_⟩
    rw [hdelta]
    refine require_bind_eq_ok.mpr ⟨hrange, ?_⟩
    split_ifs <;> rfl

/-- A visit keeps the length and sets the displacement, once for all. -/
theorem repairBranch_spec (hroom : ∀ target, item.target = some target ->
    item.branchWidth <= item.length)
    (h : repairBranch instructions context lengths index (item, piece) = .ok (next, fresh)) :
    next.length = piece.length ∧
      repairBranch instructions context lengths index (item, next) = .ok (next, none) ∧
      ∀ target, item.target = some target -> item.flow = .jcc ∨ item.flow = .jmp ->
        item.branchWidth ∈ ia32RepairableBranchWidths ∧ item.branchWidth <= next.length ∧
        branchDelta instructions lengths index next.length target =
          some (signedLe (next.drop (next.length - item.branchWidth))) := by
  by_cases hb : ∃ target, item.target = some target ∧ (item.flow = .jcc ∨ item.flow = .jmp)
  · obtain ⟨target, htarget, hflow⟩ := hb
    obtain ⟨⟨hw, hlen⟩, delta, hdelta, hrange, hout⟩ := (repairBranch_eq_ok htarget hflow).mp h
    have hwidth := hroom target htarget
    have hnext : next.length = piece.length ∧
        next.drop (next.length - item.branchWidth) = signedBytes item.branchWidth delta := by
      split_ifs at hout with hsame <;> cases hout
      · exact ⟨rfl, hsame⟩
      · have htake : (piece.take (piece.length - item.branchWidth)).length =
            piece.length - item.branchWidth := by simp
        have hsum : (piece.take (piece.length - item.branchWidth) ++
            signedBytes item.branchWidth delta).length = piece.length := by
          rw [length_append, htake, signedBytes, leBytes_length]
          omega
        rw [hsum]
        exact ⟨rfl, drop_left' htake⟩
    obtain ⟨hkept, htail⟩ := hnext
    refine ⟨hkept, ?_, fun target' htarget' _ => ?_⟩
    · refine (repairBranch_eq_ok htarget hflow).mpr
        ⟨⟨hw, hkept.trans hlen⟩, delta, hkept ▸ hdelta, hrange, ?_⟩
      rw [if_pos htail]
    · cases htarget.symm.trans htarget'
      rw [htail, signedLe_signedBytes hw hrange, hkept]
      exact ⟨hw, hlen ▸ hwidth, hdelta⟩
  · have hskip (piece : List Byte) :
        repairBranch instructions context lengths index (item, piece) = .ok (piece, none) := by
      rw [repairBranch]
      split
      · rfl
      · next target htarget => rw [if_neg fun hflow => hb ⟨target, htarget, hflow⟩]; rfl
    rw [hskip] at h
    cases h
    exact ⟨rfl, hskip piece, fun target htarget hflow => absurd ⟨target, htarget, hflow⟩ hb⟩

/-- Every branch ends in the distance to its target. -/
def Repaired (instructions : List Instruction) (pieces : List (List Byte)) : Prop :=
  ∀ k item target, instructions[k]? = some item -> item.target = some target ->
    item.flow = .jcc ∨ item.flow = .jmp -> ∃ piece, pieces[k]? = some piece ∧
      item.branchWidth ∈ ia32RepairableBranchWidths ∧ item.branchWidth <= piece.length ∧
      branchDelta instructions (pieces.map length) k piece.length target =
        some (signedLe (piece.drop (piece.length - item.branchWidth)))

theorem repairRound_spec {out : List (List Byte × Option Nat)}
    (hlen : pieces.length = instructions.length)
    (hroom : ∀ item ∈ instructions, ∀ target, item.target = some target ->
      item.branchWidth <= item.length)
    (h : repairRound instructions context pieces = .ok out) :
    Repaired instructions (out.map (·.1)) ∧
      repairRound instructions context (out.map (·.1)) = .ok (out.map fun o => (o.1, none)) := by
  obtain ⟨hout, hall⟩ := enumerateFrom_eq_ok.mp h
  rw [length_zip, hlen, Nat.min_self] at hout
  have hvisit (k : Nat) (item : Instruction) (hitem : instructions[k]? = some item) :
      ∃ piece next fresh, pieces[k]? = some piece ∧ out[k]? = some (next, fresh) ∧
        repairBranch instructions context (pieces.map length) k (item, piece) =
          .ok (next, fresh) := by
    have hk : k < pieces.length := hlen ▸ (List.getElem?_eq_some_iff.mp hitem).1
    obtain ⟨⟨next, fresh⟩, hnext, hok⟩ :=
      hall k (item, pieces[k]) (getElem?_zip_eq_some.mpr ⟨hitem, getElem?_eq_getElem hk⟩)
    rw [Nat.zero_add] at hok
    exact ⟨pieces[k], next, fresh, getElem?_eq_getElem hk, hnext, hok⟩
  have hstarts : (out.map (·.1)).map length = pieces.map length := by
    refine ext_getElem? fun k => ?_
    cases hitem : instructions[k]? with
    | none =>
      have hk := getElem?_eq_none_iff.mp hitem
      rw [getElem?_eq_none (by simpa [hout]), getElem?_eq_none (by simpa [hlen])]
    | some item =>
      obtain ⟨piece, next, fresh, hpiece, hnext, hok⟩ := hvisit k item hitem
      simp [hpiece, hnext, (repairBranch_spec (hroom item (mem_of_getElem? hitem)) hok).1]
  constructor
  · intro k item target hitem htarget hflow
    obtain ⟨piece, next, fresh, -, hnext, hok⟩ := hvisit k item hitem
    rw [hstarts]
    exact ⟨next, by simp [hnext],
      (repairBranch_spec (hroom item (mem_of_getElem? hitem)) hok).2.2 target htarget hflow⟩
  · refine enumerateFrom_eq_ok.mpr ⟨by simp [hout], fun k slot hslot => ?_⟩
    obtain ⟨hitem, hpiece⟩ := getElem?_zip_eq_some.mp hslot
    obtain ⟨piece, next, fresh, -, hnext, hok⟩ := hvisit k slot.1 hitem
    have hslot : slot = (slot.1, next) := by
      rw [getElem?_map, hnext] at hpiece
      cases hpiece
      rfl
    rw [hstarts, Nat.zero_add, hslot]
    exact ⟨(next, none), by simp [hnext],
      (repairBranch_spec (hroom slot.1 (mem_of_getElem? hitem)) hok).2.1⟩

/-- Branch repair converges: under any limit from two rounds on the loop ends with what
its first round leaves, and then every branch reaches its target.  The pieces are
arbitrary, so they may be those of any regions. -/
theorem repairBranches_converges {body : List Byte} {codeLength : Option Nat}
    (hdecode : decodeIa32BijectionBody body context relocations codeLength = .ok instructions)
    (hlen : pieces.length = instructions.length) :
    (∀ rounds, repairRounds instructions context (rounds + 2) pieces ∅ =
      (fun out => (out.map (·.1), (out.filterMap (·.2)).toFinset)) <$>
        repairRound instructions context pieces) ∧
    ∀ result repaired, repairBranches instructions context pieces = .ok (result, repaired) ->
      Repaired instructions result := by
  have hroom : ∀ item ∈ instructions, ∀ target, item.target = some target ->
      item.branchWidth <= item.length := by
    intro item hitem target htarget
    obtain ⟨raw, form, f, t, hresolves⟩ := (decodeBody_spec hdecode).resolves item hitem
    exact hresolves.branchWidth_le htarget
  cases h : repairRound instructions context pieces with
  | error e => exact ⟨fun rounds => by rw [repairRounds, h]; rfl, fun _ _ hok => by
      rw [repairBranches, registerBijectionReencodingFixpointRounds, repairRounds, h] at hok
      cases hok⟩
  | ok out =>
    obtain ⟨hrepaired, hagain⟩ := repairRound_spec hlen hroom h
    have hloop (rounds : Nat) : repairRounds instructions context (rounds + 2) pieces ∅ =
        .ok (out.map (·.1), (out.filterMap (·.2)).toFinset) := by
      by_cases hfresh : (out.filterMap (·.2)).toFinset = ∅ <;>
        simp [repairRounds, h, hagain, bind, Except.bind, hfresh, Function.comp_def] <;> rfl
    refine ⟨hloop, fun result repaired hok => ?_⟩
    cases (hloop 62).symm.trans hok
    exact hrepaired

/-- `jmp` to `ret`, over a store that grows by one byte. -/
def jumpOver : List Instruction :=
  (decodeIa32BijectionBody [0xEB, 0x02, 0x89, 0x08, 0xC3] "f" .empty none).toOption.getD []

theorem jumpOver_repaired :
    repairBranches jumpOver "f" [[0xEB, 0x02], [0x89, 0x4D, 0x00], [0xC3]] =
      .ok ([[0xEB, 0x03], [0x89, 0x4D, 0x00], [0xC3]], {0}) ∧
    Repaired jumpOver [[0xEB, 0x03], [0x89, 0x4D, 0x00], [0xC3]] := by
  have hdecode : decodeIa32BijectionBody [0xEB, 0x02, 0x89, 0x08, 0xC3] "f" .empty none =
      .ok jumpOver := by decide
  have hrun : repairBranches jumpOver "f" [[0xEB, 0x02], [0x89, 0x4D, 0x00], [0xC3]] =
      .ok ([[0xEB, 0x03], [0x89, 0x4D, 0x00], [0xC3]], {0}) := by decide
  exact ⟨hrun, (repairBranches_converges hdecode (by decide)).2 _ _ hrun⟩

end Reprobit

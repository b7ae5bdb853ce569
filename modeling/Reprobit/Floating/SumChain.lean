import Reprobit.Relational.Flow
import Reprobit.Machine.Bytes

/-!
# Sums of products on the x87 stack

`apply_fp_sum_reassociation` permutes the product pairs `fld m64; fmul m64` of
the declared chains.  Between the pairs stand `faddp st(1)` instructions, which
keep their places.
-/

namespace Reprobit.Floating

open Machine

def requireUnentered (noun : String) (start stop : Nat) (items : List RelationalItem)
    (entries : List Nat) (internalTargets : List Int) (context : String) : Refusing Unit := do
  let inside := fun target : Int => (start : Int) < target ∧ target < stop
  require (∀ item ∈ items, item.target.all (fun target => ¬ inside target))
    (context ++ ": a branch targets the " ++ noun ++ " interior")
  require (∀ entry ∈ entries.tail, (items[entry]?).all (fun item => ¬ inside item.offset))
    (context ++ ": an external entry lies inside the " ++ noun)
  require (∀ target ∈ internalTargets, ¬ inside target)
    (context ++ ": a relocated target lies inside the " ++ noun)

inductive FpSumKind
  | pair | faddp
  deriving DecidableEq, Repr

structure FpSumSlot where
  kind : FpSumKind
  offset : Nat
  length : Nat
  deriving DecidableEq, Repr

inductive FpSumToken
  | fld | fmul | faddp
  deriving DecidableEq, Repr

/-- The three instructions a chain consists of. -/
def fpSumToken (encoded : List Byte) : Option FpSumToken :=
  let modrm := encoded.getD 1 0
  if encoded.getD 0 0 = 221 ∧ 2 <= encoded.length ∧ modeOf modrm ≠ 3#2 ∧ regOf modrm = 0#3 then
    some .fld
  else if encoded.getD 0 0 = 220 ∧ 2 <= encoded.length ∧ modeOf modrm ≠ 3#2 ∧ regOf modrm = 1#3 then
    some .fmul
  else if encoded = [0xDE, 0xC1] then some .faddp
  else none

/-- `pending` is an `fld` whose `fmul` has not come yet. -/
def fpSumAdvance (token : Option FpSumToken) (pending : Option (Nat × Nat)) (offset length : Nat)
    (context : String) : Refusing (Option (Nat × Nat) × List FpSumSlot) :=
  match token, pending with
  | some .fld, none => .ok (some (offset, length), [])
  | some .fld, some _ =>
    .error (context ++ ": two fld in a row at " ++ toString offset ++ " -- not a product pair")
  | some .fmul, some fld => .ok (none, [⟨.pair, fld.1, fld.2 + length⟩])
  | some .fmul, none => .error (context ++ ": fmul without its fld at " ++ toString offset)
  | some .faddp, none => .ok (none, [⟨.faddp, offset, 2⟩])
  | some .faddp, some _ =>
    .error (context ++ ": faddp splits a product pair at " ++ toString offset)
  | none, _ => .error (context ++ ": the instruction at " ++ toString offset ++
      " is not an fld m64, fmul m64 or faddp st(1)")

def fpSumParseFrom (body : List Byte) (stop : Nat) (context : String) :
    Nat -> Nat -> Option (Nat × Nat) -> Refusing (List FpSumSlot)
  | 0, _, _ => .error (context ++ ": the chain does not end on an instruction boundary")
  | fuel + 1, offset, pending =>
    if offset < stop then do
      let length <- supportedIa32InstructionLength (body.drop offset) context
      require (offset + length <= stop)
        (context ++ ": an instruction straddles the chain boundary at " ++ toString offset)
      let (pending, found) <-
        fpSumAdvance (fpSumToken (slice body offset length)) pending offset length context
      let slots <- fpSumParseFrom body stop context fuel (offset + length) pending
      pure (found ++ slots)
    else do
      require (offset = stop) (context ++ ": the chain does not end on an instruction boundary")
      require (pending = none) (context ++ ": the chain ends inside a product pair")
      pure []

def pairSlots (slots : List FpSumSlot) : List FpSumSlot := slots.filter
    fun slot => slot.kind = .pair

/-- Parse `[start, stop)` into pair and `faddp` slots, or refuse. -/
def fpSumParseChain (body : List Byte) (start stop : Nat) (context : String) :
    Refusing (List FpSumSlot) := do
  let slots <- fpSumParseFrom body stop context (stop - start + 1) start none
  require (2 <= (pairSlots slots).length ∧ ∃ slot ∈ slots, slot.kind = .faddp)
    (context ++ ": a chain is at least two product pairs and one faddp")
  pure slots

structure FpChain where
  chainStart : Nat
  chainEnd : Nat
  order : List Nat
  deriving DecidableEq, Repr

structure FpChainProof where
  chainStart : Nat
  chainEnd : Nat
  order : List Nat
  pairCount : Nat
  faddpCount : Nat
  rewrittenOffsets : List Nat
  deriving DecidableEq, Repr

def slotBytes (body : List Byte) (slot : FpSumSlot) : List Byte :=
  slice body slot.offset slot.length

def rebuildSlots (body : List Byte) (pairs : List (List Byte)) :
    List FpSumSlot -> List Nat -> List (List Byte)
  | [], _ => []
  | slot :: slots, order =>
    if slot.kind = .pair then
      pairs.getD (order.headD 0) [] :: rebuildSlots body pairs slots order.tail
    else slotBytes body slot :: rebuildSlots body pairs slots order

def changedOffsets (before after : List Byte) (offsets : List Nat) : List Nat :=
  offsets.filter fun offset => before[offset]? ≠ after[offset]?

/-- One round: the new image and what was proved. -/
def reassociateChain (body : List Byte) (relocationOffsets : List Nat) (items : List RelationalItem)
    (entries : List Nat) (internalTargets : List Int) (context : String) (previousEnd : Nat)
    (image : List Byte) (chain : FpChain) : Refusing (List Byte × FpChainProof) := do
  let start := chain.chainStart
  let stop := chain.chainEnd
  require (0 < start ∧ start < stop ∧ stop <= body.length) (context ++ ": bounds are out of range")
  require (previousEnd <= start) (context ++ ": chains are unsorted or overlapping")
  require (∀ offset ∈ relocationOffsets, ¬ (start <= offset ∧ offset < stop))
    (context ++ ": a relocation lies inside the chain")
  requireUnentered "chain" start stop items entries internalTargets context
  let slots <- fpSumParseChain body start stop context
  let pairs := (pairSlots slots).map (slotBytes body)
  require (chain.order.insertionSort (· <= ·) = List.range pairs.length)
    (context ++ ": the order is not a permutation of the " ++ toString pairs.length ++
      " product pairs")
  let permuted := (rebuildSlots body pairs slots chain.order).flatten
  require (permuted.length = stop - start) (context ++ ": the permuted chain changed length")
  let image := overwrite image start permuted
  let imageSlots <- fpSumParseChain image start stop (context ++ " image")
  require (imageSlots.map FpSumSlot.kind = slots.map FpSumSlot.kind)
    (context ++ ": the image slot skeleton differs")
  require (((pairSlots imageSlots).map (slotBytes image)).Perm pairs)
    (context ++ ": the image pair multiset differs")
  pure (image, {
    chainStart := start
    chainEnd := stop
    order := chain.order
    pairCount := pairs.length
    faddpCount := (slots.filter fun slot => slot.kind = .faddp).length
    rewrittenOffsets := changedOffsets body image ((List.range (stop - start)).map (start + ·)) })

def reassociateChains (body : List Byte) (relocationOffsets : List Nat)
    (items : List RelationalItem) (entries : List Nat) (internalTargets : List Int)
    (context : String) : Nat -> Nat -> List Byte -> List FpChain ->
    Refusing (List Byte × List FpChainProof)
  | _, _, image, [] => .ok (image, [])
  | ordinal, previousEnd, image, chain :: chains => do
    let (image, proof) <- reassociateChain body relocationOffsets items entries internalTargets
      (context ++ " chain " ++ toString ordinal) previousEnd image chain
    let (image, proofs) <- reassociateChains body relocationOffsets items entries internalTargets
      context (ordinal + 1) chain.chainEnd image chains
    pure (image, proof :: proofs)

def branchTargets (items : List RelationalItem) : List Int := items.filterMap (·.target)

/-- The image, what was proved of each chain, and the number of instructions. -/
def applyFpSumReassociation (body : List Byte) (chains : List FpChain)
    (relocationOffsets : List Nat) (context : String) (relocations : RelocationMap)
    (codeLength : Option Nat) (externalEntries internalTargets : List Int) :
    Refusing (List Byte × List FpChainProof × Nat) := do
  require (body ≠ []) (context ++ ": body is empty")
  require (chains ≠ []) (context ++ ": no chain is declared")
  let (items, _, entries) <-
    ia32RelationalFlowWalk body relocations context codeLength externalEntries
  let (output, proved) <- reassociateChains body relocationOffsets items entries internalTargets
    context 0 0 body chains
  require (output ≠ body) (context ++ ": the image does not move the body")
  require (∀ offset ∈ changedOffsets body output (List.range body.length),
      ∃ proof ∈ proved, offset ∈ proof.rewrittenOffsets)
    (context ++ ": the image changed a byte outside the declared chains")
  let (imageItems, _, imageEntries) <- ia32RelationalFlowWalk output relocations
    (context ++ " image") codeLength externalEntries
  require ((branchTargets imageItems).toFinset = (branchTargets items).toFinset ∧
      imageEntries = entries)
    (context ++ ": the image changed a branch target or an entry")
  pure (output, proved, imageItems.length)

theorem perm_range_of_sorted {order : List Nat} {n : Nat}
    (h : order.insertionSort (· <= ·) = List.range n) :
    order.Perm (List.range n) ∧ ∀ i ∈ order, i < n := by
  have hperm := (List.perm_insertionSort (· <= ·) order).symm
  rw [h] at hperm
  exact ⟨hperm, fun i hi => by simpa using hperm.mem_iff.mp hi⟩

end Reprobit.Floating

import Reprobit.Floating.SumChain
import Reprobit.Machine.FoldTree
import Reprobit.Decode.X87

/-!
# Exchanging squared addends

`apply_x87_squared_addend_exchange` permutes the units `fld m32; fsub m32` (or
`fadd m32`) of the declared windows.  Behind a window the code squares every
unit and folds the squares into one sum; the order must be exact for the tree of
that sum.
-/

namespace Reprobit.Floating

open Machine

structure SquaredUnit where
  offset : Nat
  length : Nat
  fldLength : Nat
  deriving DecidableEq, Repr

variable (body : List Byte) (relocationOffsets : List Nat) (items : List RelationalItem)

def x87M32Base (offset : Nat) (modrm : Byte) : Refusing (Nat × BitVec 3) :=
  if rmOf modrm = 4#3 then
    match body[offset + 2]? with
    | some sib => pure (1, baseOf sib)
    | none => .error "IndexError"
  else pure (0, rmOf modrm)

/-- Length of an `m32` instruction, from its ModRM byte. -/
def x87M32Length (offset : Nat) (context : String) : Refusing Nat := do
  let modrm := body.getD (offset + 1) 0
  require (modeOf modrm ≠ 3#2) (context ++ ": not a memory operand at " ++ toString offset)
  let base <- x87M32Base body offset modrm
  pure (2 + base.1 + if modeOf modrm = 1#2 then 1
    else if modeOf modrm = 2#2 ∨ (modeOf modrm = 0#2 ∧ base.2 = 5#3) then 4 else 0)

def squaredUnitsFrom (body : List Byte) (stop : Nat) (context : String) :
    Nat -> Nat -> Refusing (List SquaredUnit × Nat)
  | 0, cursor => .ok ([], cursor)
  | fuel + 1, cursor =>
    if cursor < stop then do
      require (cursor + 2 <= stop ∧ body.getD cursor 0 = 217 ∧
          regOf (body.getD (cursor + 1) 0) = 0#3 ∧ modeOf (body.getD (cursor + 1) 0) ≠ 3#2)
        (context ++ ": the instruction at " ++ toString cursor ++ " is not an fld m32")
      let fldLength <- x87M32Length body cursor context
      let subAt := cursor + fldLength
      require (subAt + 2 <= stop ∧ body.getD subAt 0 = 216 ∧
          (regOf (body.getD (subAt + 1) 0) = 0#3 ∨ regOf (body.getD (subAt + 1) 0) = 4#3) ∧
          modeOf (body.getD (subAt + 1) 0) ≠ 3#2)
        (context ++ ": the instruction at " ++ toString subAt ++ " is not an fsub/fadd m32")
      let subLength <- x87M32Length body subAt context
      let (units, last) <- squaredUnitsFrom body stop context fuel (subAt + subLength)
      pure (⟨cursor, fldLength + subLength, fldLength⟩ :: units, last)
    else .ok ([], cursor)

def squaredUnits (start stop : Nat) (context : String) : Refusing (List SquaredUnit) := do
  let (units, last) <- squaredUnitsFrom body stop context (stop - start + 1) start
  require (last = stop ∧ 2 <= units.length)
    (context ++ ": the window is not a whole number of fld/fsub units")
  pure units

def carriedRunsFrom (relocationOffsets : List Nat) (stop : Nat) :
    Nat -> Nat -> Option Nat -> List (Nat × Nat)
  | 0, _, _ => []
  | count + 1, offset, run =>
    if offset < stop ∧ offset ∈ relocationOffsets then
      carriedRunsFrom relocationOffsets stop count (offset + 1) (some (run.getD offset))
    else (run.map fun first => (first, offset)).toList ++
      carriedRunsFrom relocationOffsets stop count (offset + 1) none

def carriedRuns (start stop : Nat) : List (Nat × Nat) :=
  carriedRunsFrom relocationOffsets stop (stop + 1 - start) start none

/-- The symbolic stack of the region, and which units were squared. -/
structure FoldState where
  stack : List (FoldTree Nat)
  squared : List Bool
  deriving DecidableEq, Repr

def FoldState.initial (count : Nat) : FoldState where
  stack := ((List.range count).reverse).map .leaf
  squared := List.replicate count false

def isUnit : FoldTree Nat -> Bool
  | .leaf _ => true
  | .node _ _ => false

def summable (squared : List Bool) : FoldTree Nat -> Bool
  | .leaf unit => squared.getD unit false
  | .node _ _ => true

/-- One x87 instruction; `none` ends the region. -/
def consumeStep (op modrm : Byte) (context : String) (s : FoldState) :
    Refusing (Option FoldState) :=
  if op = 217 ∧ 200 <= modrm.toNat ∧ modrm.toNat <= 207 then do
    let k := modrm.toNat - 200
    require (k < s.stack.length) (context ++ ": fxch exchanges below the unit stack")
    pure (some { s with
      stack := (s.stack.set 0 (s.stack.getD k (.leaf 0))).set k (s.stack.getD 0 (.leaf 0)) })
  else if (op = 216 ∨ op = 220) ∧ modrm = 200 then
    match s.stack with
    | .leaf unit :: _ => do
      require (s.squared.getD unit false = false)
        (context ++ ": a unit is multiplied twice or a folded slot is squared")
      pure (some { s with squared := s.squared.set unit true })
    | _ => .error (context ++ ": a unit is multiplied twice or a folded slot is squared")
  else if op = 222 ∧ modrm = 193 then
    match s.stack with
    | top :: nxt :: rest => do
      require (summable s.squared top ∧ summable s.squared nxt)
        (context ++ ": a unit is summed before it is squared")
      pure (some { s with stack := .node nxt top :: rest })
    | _ => .error (context ++ ": faddp folds below the unit stack")
  else pure none

def FoldState.folded (s : FoldState) : Bool :=
  match s.stack with
  | [tree] => !isUnit tree
  | _ => false

def straightItem (scan : Nat) (context : String) : Refusing RelationalItem :=
  match items.find? (fun item => item.offset = scan) with
  | some item => do
    require (item.flow = .fall) (context ++ ": a non-x87 instruction at " ++ toString scan ++
      " in the consumption region is not straight-line")
    pure item
  | none => .error (context ++ ": a non-x87 instruction at " ++ toString scan ++
      " in the consumption region is not straight-line")

def consumeFrom (body : List Byte) (items : List RelationalItem) (context : String) :
    Nat -> Nat -> FoldState -> Refusing (FoldState × Nat)
  | 0, _, _ => .error (context ++ ": the consumption region runs off the body")
  | fuel + 1, scan, s => do
    require (scan + 2 <= body.length) (context ++ ": the consumption region runs off the body")
    let op := body.getD scan 0
    if ¬ IsEscape op ∧ op ≠ 155 then do
      let item <- straightItem items scan context
      consumeFrom body items context fuel (scan + item.length) s
    else do
      let next <- consumeStep op (body.getD (scan + 1) 0) context s
      match next with
      | none => pure (s, scan)
      | some s =>
        if s.folded then pure (s, scan + 2)
        else consumeFrom body items context fuel (scan + 2) s

def foldTree (stop count : Nat) (context : String) : Refusing (FoldTree Nat × Nat) := do
  let (s, scan) <- consumeFrom body items context (body.length + 1) stop (.initial count)
  require (s.folded ∧ ∀ b ∈ s.squared, b = true) (context ++
    ": the consumption region does not fold every squared unit into one commutative sum")
  pure (s.stack.headD (.leaf 0), scan)

/-- The sorted code under the labels; `none` is a mixed comparison. -/
def canonical (labels : List Nat) : FoldTree Nat -> Option (List CodeItem)
  | .leaf unit => some [.leafMark, .label (labels.getD unit 0)]
  | .node first second => do
    let left <- canonical labels first
    let right <- canonical labels second
    let sorted <- CodeItem.tupleLe left right
    some (.nodeMark :: if sorted then left ++ right else right ++ left)

def comparable (code : Option (List CodeItem)) : Refusing (List CodeItem) :=
  match code with
  | some code => .ok code
  | none => .error "TypeError"

structure SquaredChain where
  chainStart : Nat
  chainEnd : Nat
  order : List Nat
  expectedRewrittenOffsets : List Nat
  relocationReseat : List (Nat × Nat)
  deriving DecidableEq, Repr

structure SquaredChainProof where
  chainStart : Nat
  chainEnd : Nat
  order : List Nat
  unitCount : Nat
  relocationReseat : List (Nat × Nat)
  instructionMoves : List (Nat × Nat)
  rewrittenOffsets : List Nat
  deriving DecidableEq, Repr

def placements (units : List SquaredUnit) : Nat -> List Nat -> List (SquaredUnit × Nat)
  | _, [] => []
  | cursor, index :: order =>
    let unit := units.getD index ⟨0, 0, 0⟩
    (unit, cursor) :: placements units (cursor + unit.length) order

def unitReseat (runs : List (Nat × Nat)) (unit : SquaredUnit) (cursor : Nat) : List (Nat × Nat) :=
  if cursor ≠ unit.offset then
    (runs.filter fun run => unit.offset <= run.1 ∧ run.2 <= unit.offset + unit.length).map
      fun run => (run.1, cursor + (run.1 - unit.offset))
  else []

def unitMoves (unit : SquaredUnit) (cursor : Nat) : List (Nat × Nat) :=
  if cursor ≠ unit.offset then
    [(unit.offset, cursor), (unit.offset + unit.fldLength, cursor + unit.fldLength)]
  else []

def sortPairs (pairs : List (Nat × Nat)) : List (Nat × Nat) :=
  pairs.insertionSort fun a b => a.1 < b.1 ∨ (a.1 = b.1 ∧ a.2 <= b.2)

def unitBytes (unit : SquaredUnit) : List Byte :=
  slice body unit.offset unit.length

def rebuildUnits (units : List SquaredUnit) (order : List Nat) : List Byte :=
  order.flatMap fun index => unitBytes body (units.getD index ⟨0, 0, 0⟩)

def requireWholeRuns (start stop : Nat) (context : String) : Refusing (List (Nat × Nat)) := do
  require (¬ (start - 1 ∈ relocationOffsets ∧ start ∈ relocationOffsets) ∧
      ¬ (stop - 1 ∈ relocationOffsets ∧ stop ∈ relocationOffsets))
    (context ++ ": a relocated record crosses the chain edge")
  let runs := carriedRuns relocationOffsets start stop
  require (∀ run ∈ runs, run.2 - run.1 <= 4 ∧ run.1 - 1 ∉ relocationOffsets ∧
      run.2 ∉ relocationOffsets)
    (context ++ ": a relocated run inside the chain is not one whole record")
  pure runs

/-- One round: the new image and what was proved. -/
def exchangeChain (entries : List Nat) (internalTargets : List Int) (context : String)
    (previousEnd : Nat) (image : List Byte) (chain : SquaredChain) :
    Refusing (List Byte × SquaredChainProof) := do
  let start := chain.chainStart
  let stop := chain.chainEnd
  require (0 < start ∧ start < stop ∧ stop <= body.length) (context ++ ": bounds are out of range")
  require (previousEnd <= start) (context ++ ": chains are unsorted or overlapping")
  requireUnentered "chain" start stop items entries internalTargets context
  let runs <- requireWholeRuns relocationOffsets start stop context
  let units <- squaredUnits body start stop context
  require (∀ run ∈ runs, ∃ unit ∈ units, unit.offset <= run.1 ∧ run.2 <= unit.offset + unit.length)
    (context ++ ": a relocated record straddles a unit boundary")
  let (tree, _) <- foldTree body items stop units.length context
  require (chain.order.insertionSort (· <= ·) = List.range units.length)
    (context ++ ": the order is not a permutation of the " ++ toString units.length ++ " units")
  require (chain.order ≠ List.range units.length) (context ++ ": the order is the identity")
  let permuted <- comparable (canonical chain.order tree)
  let identity <- comparable (canonical (List.range units.length) tree)
  require (permuted = identity)
    (context ++ ": the order is not commutativity-exact for the fold tree")
  let rebuilt := rebuildUnits body units chain.order
  require (rebuilt.length = stop - start) (context ++ ": the permutation changed the length")
  let image := overwrite image start rebuilt
  let placed := placements units start chain.order
  let reseat := placed.flatMap fun p => unitReseat runs p.1 p.2
  let rewritten := changedOffsets body image ((List.range (stop - start)).map (start + ·))
  require (rewritten = chain.expectedRewrittenOffsets)
    (context ++ ": rewrote a different byte set from its declaration")
  require (reseat.Perm chain.relocationReseat)
    (context ++ ": reseated a different relocation set from its declaration")
  pure (image, {
    chainStart := start
    chainEnd := stop
    order := chain.order
    unitCount := units.length
    relocationReseat := sortPairs reseat
    instructionMoves := sortPairs (placed.flatMap fun p => unitMoves p.1 p.2)
    rewrittenOffsets := rewritten })

def exchangeChains (body : List Byte) (relocationOffsets : List Nat)
    (items : List RelationalItem) (entries : List Nat) (internalTargets : List Int)
    (context : String) : Nat -> Nat -> List Byte -> List SquaredChain ->
    Refusing (List Byte × List SquaredChainProof)
  | _, _, image, [] => .ok (image, [])
  | ordinal, previousEnd, image, chain :: chains => do
    let (image, proof) <- exchangeChain body relocationOffsets items entries internalTargets
      (context ++ " x87 chain " ++ toString ordinal) previousEnd image chain
    let (image, proofs) <- exchangeChains body relocationOffsets items entries internalTargets
      context (ordinal + 1) chain.chainEnd image chains
    pure (image, proof :: proofs)

/-- Permute the units of the declared windows, or refuse. -/
def applyX87SquaredAddendExchange (chains : List SquaredChain) (relocationOffsets : List Nat)
    (context : String) (relocations : RelocationMap) (codeLength : Option Nat)
    (externalEntries internalTargets : List Int) :
    Refusing (List Byte × List SquaredChainProof) := do
  require (body ≠ []) (context ++ ": body is empty")
  require (chains ≠ []) (context ++ ": no chain is declared")
  let (items, _, entries) <-
    ia32RelationalFlowWalk body relocations context codeLength externalEntries
  exchangeChains body relocationOffsets items entries internalTargets context 0 0 body chains

end Reprobit.Floating

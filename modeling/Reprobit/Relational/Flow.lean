import Reprobit.Register.Decode
import Mathlib.Data.List.Sort

/-!
# The relational flow walk

Instruction boundaries, flow classification, control-flow graph and flag facts
of a body.  An opcode outside the tables reads every flag and writes none.
-/

namespace Reprobit

open Machine

def ia32ArithmeticFlags : Finset Flag := {.cf, .pf, .af, .zf, .sf, .of}

def ia32ConditionFlags : Nat -> Finset Flag
  | 0 => {.of}
  | 1 => {.of}
  | 2 => {.cf}
  | 3 => {.cf}
  | 4 => {.zf}
  | 5 => {.zf}
  | 6 => {.cf, .zf}
  | 7 => {.cf, .zf}
  | 8 => {.sf}
  | 9 => {.sf}
  | 10 => {.pf}
  | 11 => {.pf}
  | 12 => {.sf, .of}
  | 13 => {.sf, .of}
  | 14 => {.zf, .sf, .of}
  | 15 => {.zf, .sf, .of}
  | _ => ∅

def ia32RelationalPrefixes : List Nat := [38, 46, 54, 62, 100, 101, 102]

def ia32RelationalRepeatPrefixes : List Nat := [242, 243]

def ia32RelationalStringQuiet : List Nat := [108, 109, 110, 111, 164, 165, 170, 171, 172, 173]

def ia32RelationalStringCompare : List Nat := [166, 167, 174, 175]

def ia32RelationalRefusedOpcodes : List Nat := [154, 234, 204, 205, 206, 207, 240, 241, 244]

abbrev RelationalEffect := Finset Flag × Finset Flag

def quietEffect : RelationalEffect := (∅, ∅)

def ia32RelationalFlagEffects (opcode : Nat) : Option RelationalEffect :=
  if opcode ∈ [136, 137, 138, 139, 140, 141, 142, 160, 161, 162, 163, 198, 199, 134, 135, 152,
      153, 200, 201, 96, 97, 104, 106, 6, 14, 22, 30, 7, 23, 31, 252, 253] then some quietEffect
  else if 176 <= opcode ∧ opcode < 192 then some quietEffect
  else if 80 <= opcode ∧ opcode < 96 then some quietEffect
  else if 144 <= opcode ∧ opcode < 152 then some quietEffect
  else if 216 <= opcode ∧ opcode < 224 then some quietEffect
  else if opcode ∈ ia32RelationalStringQuiet then some quietEffect
  else if opcode < 64 ∧ opcode / 8 ∈ [0, 1, 4, 5, 6, 7] ∧ opcode % 8 < 6 then
    some (∅, ia32ArithmeticFlags)
  else if opcode < 64 ∧ opcode / 8 ∈ [2, 3] ∧ opcode % 8 < 6 then
    some ({.cf}, ia32ArithmeticFlags)
  else if opcode ∈ [132, 133, 168, 169] then some (∅, ia32ArithmeticFlags)
  else if opcode ∈ ia32RelationalStringCompare then some (∅, ia32ArithmeticFlags)
  else if 64 <= opcode ∧ opcode < 80 then some (∅, ia32ArithmeticFlags \ {.cf})
  else if opcode ∈ [105, 107, 4015] then some (∅, {.cf, .of})
  else if opcode ∈ [4022, 4023, 4030, 4031] then some quietEffect
  else if opcode ∈ [4003, 4011, 4019, 4027] then some (∅, {.cf})
  else if opcode ∈ [4028, 4029] then some (∅, {.zf})
  else if 3984 <= opcode ∧ opcode < 4000 then some (ia32ConditionFlags (opcode - 3984), ∅)
  else if 3904 <= opcode ∧ opcode < 3920 then some (ia32ConditionFlags (opcode - 3904), ∅)
  else if opcode = 156 then some (ia32ArithmeticFlags, ∅)
  else if opcode = 157 then some (∅, ia32ArithmeticFlags)
  else if opcode = 158 then some (∅, ia32ArithmeticFlags \ {.of})
  else if opcode = 159 then some (ia32ArithmeticFlags \ {.of}, ∅)
  else if opcode = 245 then some ({.cf}, {.cf})
  else if opcode = 248 then some (∅, {.cf})
  else if opcode = 249 then some (∅, {.cf})
  else none

def group1 (digit : Nat) : RelationalEffect :=
  (if digit ∈ [2, 3] then {.cf} else ∅, ia32ArithmeticFlags)

def group3 : Nat -> RelationalEffect
  | 0 => (∅, ia32ArithmeticFlags)
  | 1 => (∅, ia32ArithmeticFlags)
  | 3 => (∅, ia32ArithmeticFlags)
  | 4 => (∅, {.cf, .of})
  | 5 => (∅, {.cf, .of})
  | _ => (∅, ∅)

def group5 (digit : Nat) : RelationalEffect :=
  (∅, if digit ∈ [0, 1] then ia32ArithmeticFlags \ {.cf} else ∅)

def shiftOne (digit : Nat) : RelationalEffect :=
  (if digit ∈ [2, 3] then {.cf} else ∅, {.cf, .of})

def shiftVar (digit : Nat) : RelationalEffect :=
  (if digit ∈ [2, 3] then {.cf} else ∅, ∅)

def ia32RelationalGroupFlagEffects (opcode : Nat) : Option (Nat -> RelationalEffect) :=
  if opcode ∈ [128, 129, 131] then some group1
  else if opcode ∈ [246, 247] then some group3
  else if opcode ∈ [254, 255] then some group5
  else if opcode ∈ [208, 209] then some shiftOne
  else if opcode ∈ [192, 193, 210, 211] then some shiftVar
  else none

inductive RelationalFlow
  | fall | jcc | jmp | call | ret | exit | computed
  deriving DecidableEq, Repr

structure RelationalItem where
  offset : Nat
  length : Nat
  opcode : Nat
  opcodeAt : Nat
  flow : RelationalFlow
  target : Option Int
  condition : Option Nat
  readsFlags : Finset Flag
  writesFlags : Finset Flag
  deriving DecidableEq

variable (code : List Byte) (relocations : RelocationMap) (items : List RelationalItem)
  (externalEntries : List Int) (context : String) (item : RelationalItem)

def codeByte (i : Nat) : Nat := (code.getD i 0).toNat

/-- The cursor at the opcode, and whether a repeat prefix was seen. -/
def scanRelationalPrefixes (code : List Byte) (offset length : Nat) (context : String) :
    Nat -> Nat -> Bool -> Refusing (Nat × Bool)
  | 0, cursor, repeated => .ok (cursor, repeated)
  | fuel + 1, cursor, repeated =>
    if codeByte code cursor ∈ ia32RelationalPrefixes ∨
        codeByte code cursor ∈ ia32RelationalRepeatPrefixes then do
      require (codeByte code cursor ∈ ia32RelationalRepeatPrefixes -> cursor + 1 < offset + length ∧
          (codeByte code (cursor + 1) ∈ ia32RelationalStringQuiet ∨
            codeByte code (cursor + 1) ∈ ia32RelationalStringCompare))
        (context ++ ": the repeat prefix at " ++ toString offset ++
          " does not prefix a string opcode")
      require (cursor + 1 < offset + length)
        (context ++ ": instruction at " ++ toString offset ++ " is only prefixes")
      scanRelationalPrefixes code offset length context fuel (cursor + 1)
        (repeated || codeByte code cursor ∈ ia32RelationalRepeatPrefixes)
    else .ok (cursor, repeated)

def readRelationalOpcode (offset length cursor : Nat) (context : String) : Refusing Nat := do
  let opcode := codeByte code cursor
  require (opcode ∉ ia32RelationalRefusedOpcodes)
    (context ++ ": opcode 0x" ++ hex02 opcode ++ " at " ++ toString offset ++
      " is outside the relational-form flow table")
  if opcode = 15 then
    require (cursor + 1 < offset + length)
      (context ++ ": truncated two-byte opcode at " ++ toString offset)
    pure (3840 + codeByte code (cursor + 1))
  else pure opcode

/-- The offset a displacement at the end names. -/
def displacedTarget (offset length width : Nat) : Int :=
  (offset : Int) + length + signedLe ((code.drop (offset + length - width)).take width)

def relationalFlow (offset length cursor opcode : Nat) (externalEntries : List Int)
    (context : String) : Refusing (RelationalFlow × Option Int × Option Nat) :=
  if 112 <= opcode ∧ opcode <= 127 then
    pure (.jcc, some (displacedTarget code offset length 1), some (opcode % 16))
  else if 3968 <= opcode ∧ opcode <= 3983 then
    pure (.jcc, some (displacedTarget code offset length 4), some (opcode % 16))
  else if opcode = 235 ∨ opcode = 233 then
    pure (.jmp, some (displacedTarget code offset length (if opcode = 235 then 1 else 4)), none)
  else if opcode = 232 then pure (.call, none, none)
  else if opcode = 194 ∨ opcode = 195 then pure (.ret, none, none)
  else if opcode ∈ [224, 225, 226, 227] then
    pure (.jcc, some (displacedTarget code offset length 1), none)
  else if opcode = 255 then do
    require (cursor + 1 < offset + length)
      (context ++ ": FF form at " ++ toString offset ++ " lacks its ModRM")
    let extension := codeByte code (cursor + 1) / 8 % 8
    require (extension ≠ 3 ∧ extension ≠ 5) (context ++ ": a far transfer at " ++ toString offset ++
        " makes the control-flow graph unknowable")
    if extension = 2 then pure (.call, none, none)
    else if extension = 4 then
      require (externalEntries ≠ []) (context ++ ": a computed jump at " ++ toString offset ++
          " makes the control-flow graph unknowable")
      pure (.computed, none, none)
    else pure (.fall, none, none)
  else pure (.fall, none, none)

/-- A transfer whose 32-bit displacement is relocated leaves the body. -/
def relocatedFlow (offset length opcode : Nat) :
    RelationalFlow × Option Int × Option Nat -> RelationalFlow × Option Int × Option Nat
  | (flow, target, condition) =>
    if (flow = .jmp ∨ flow = .jcc) ∧ (opcode = 233 ∨ (3968 <= opcode ∧ opcode <= 3983)) ∧
        (relocations.get (offset + length - 4)).any (fun row => row.width = 4) then
      (.exit, none, none)
    else (flow, target, condition)

/-- The flags an instruction reads and writes. -/
def relationalEffects (opcode digit : Nat) (repeated : Bool) (flow : RelationalFlow)
    (condition : Option Nat) : RelationalEffect :=
  match flow, condition with
  | .jcc, some c => (ia32ConditionFlags c, ∅)
  | _, _ =>
    if flow ∈ [.jcc, .jmp, .call, .ret, .exit] then
      (if opcode = 224 ∨ opcode = 225 then {.zf} else ∅, ∅)
    else
      match ia32RelationalGroupFlagEffects opcode with
      | some row => row digit
      | none =>
        let effect := (ia32RelationalFlagEffects opcode).getD (ia32ArithmeticFlags, ∅)
        if repeated ∧ opcode ∈ ia32RelationalStringCompare then
          (effect.1 ∪ {.zf}, effect.2)
        else effect

def relationalItem (offset : Nat) : Refusing RelationalItem := do
  let length <- supportedIa32InstructionLength (code.drop offset)
    (context ++ " at " ++ toString offset)
  let (cursor, repeated) <- scanRelationalPrefixes code offset length context length offset false
  let opcode <- readRelationalOpcode code offset length cursor context
  let found <- relationalFlow code offset length cursor opcode externalEntries context
  let (flow, target, condition) := relocatedFlow relocations offset length opcode found
  let digit := codeByte code (cursor + 1) / 8 % 8
  let (reads, writes) := relationalEffects opcode digit repeated flow condition
  pure {
    offset := offset
    length := length
    opcode := opcode
    opcodeAt := cursor
    flow := flow
    target := target
    condition := condition
    readsFlags := reads
    writesFlags := writes }

def relationalItemsFrom (code : List Byte) (relocations : RelocationMap)
    (externalEntries : List Int) (context : String) : Nat -> Nat -> Refusing (List RelationalItem)
  | 0, _ => .ok []
  | fuel + 1, offset =>
    if offset < code.length then do
      let item <- relationalItem code relocations externalEntries context offset
      let rest <- relationalItemsFrom code relocations externalEntries context fuel
        (offset + item.length)
      pure (item :: rest)
    else .ok []

def relationalEnd : Nat :=
  (items.getLast?.map fun item => item.offset + item.length).getD 0

def indexOfOffset (target : Int) : Option Nat :=
  items.findIdx? fun item => (item.offset : Int) = target

def relationalFallEdges (count : Nat) (context : String) (index : Nat)
    (flow : RelationalFlow) : Refusing (List Nat) :=
  if flow ∈ [.fall, .jcc, .call] then
    if index + 1 < count then pure [index + 1]
    else do
      require (flow ≠ .fall) (context ++ ": body falls off its end")
      pure []
  else pure []

def relationalTargetEdges : Refusing (List Nat) :=
  if item.flow = .jcc ∨ item.flow = .jmp then
    match item.target with
    | none => pure []
    | some target =>
      match indexOfOffset items target with
      | some index => pure [index]
      | none => .error "KeyError"
  else pure []

def relationalComputedEdges : List Nat :=
  if item.flow = .computed then
    (externalEntries.dedup.insertionSort (· <= ·)).filterMap (indexOfOffset items)
  else []

def relationalEdges (index : Nat) (item : RelationalItem) : Refusing (List Nat) := do
  let fall <- relationalFallEdges items.length context index item.flow
  let jump <- relationalTargetEdges items item
  pure ((fall ++ jump ++ relationalComputedEdges items externalEntries item).dedup.insertionSort
    (· <= ·))

/-- Depth-first search; the stack and the edges are enough fuel. -/
def relationalSeen (successors : List (List Nat)) : Nat -> List Nat -> List Nat -> List Nat
  | 0, seen, _ => seen
  | _ + 1, seen, [] => seen
  | fuel + 1, seen, index :: stack =>
    if index ∈ seen then relationalSeen successors fuel seen stack
    else relationalSeen successors fuel (index :: seen)
      ((successors.getD index []).reverse ++ stack)

def searchFuel (successors : List (List Nat)) (entries : List Nat) : Nat :=
  entries.length + (successors.map List.length).sum

def ia32RelationalFlowWalk (body : List Byte) (relocations : RelocationMap) (context : String)
    (codeLength : Option Nat) (externalEntries : List Int) :
    Refusing (List RelationalItem × List (List Nat) × List Nat) := do
  require (body ≠ []) (context ++ ": body is empty")
  let limit := codeLength.getD body.length
  require (0 < limit ∧ limit <= body.length) (context ++ ": code length is out of range")
  let code := body.take limit
  let items <- relationalItemsFrom code relocations externalEntries context code.length 0
  require (relationalEnd items = code.length) (context ++ ": body does not decode to exhaustion")
  requireEach items (fun item => item.target.all fun target => (indexOfOffset items target).isSome)
    fun item => context ++ ": the branch at " ++ toString item.offset ++
      " does not target an instruction boundary of this body"
  let successors <- enumerateFrom (relationalEdges items externalEntries context) items 0
  let external := (externalEntries.dedup.filter fun target => target < (relationalEnd items : Int))
    |>.insertionSort (· <= ·)
  requireEach external (fun target => (indexOfOffset items target).isSome)
    fun target => context ++ ": the external entry " ++ toString target ++
      " is not an instruction boundary of this body"
  let entries := 0 :: (external.filter (· ≠ 0)).filterMap (indexOfOffset items)
  let seen := relationalSeen successors (searchFuel successors entries) [] entries.reverse
  let unreachable := (List.range items.length).filter (· ∉ seen)
  require (unreachable = []) (context ++ ": the instruction at " ++
      showNats ((unreachable.filterMap fun index => items[index]?.map (·.offset)).take 1) ++
      " is reachable neither from the entry nor from a declared external entry, so the " ++
      "control-flow graph is incomplete")
  pure (items, successors, entries)

end Reprobit

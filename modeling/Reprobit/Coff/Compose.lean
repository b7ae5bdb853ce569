import Reprobit.Coff.Comdat

/-!
# The equal-body composition

`compose_equal_body_comdat` copies the body of one COMDAT function from a donor
object over the body in the seed object and, under the relocation-layout class,
reseats the offsets of the relocation records.  The seed is patched as a file: the
ranges written are those the header fields name.
-/

namespace Reprobit.Coff

open Machine

/-- The shape of a value, as far as the payload check looks. -/
inductive Declared where
  | value
  | bytes
  | list (items : List Declared)
  | dict (entries : List (String × Declared))

def forbiddenDeclarationPayloadKeys : List String :=
  ["body", "bytes", "oracle_body", "oracle_bytes", "oracle_payload", "payload", "reference_body",
    "reference_bytes", "reference_payload", "retail_body", "retail_bytes", "retail_payload",
    "target_body", "target_bytes", "target_payload"]

def forbiddenKey (key : String) : Bool :=
  forbiddenDeclarationPayloadKeys.contains key ||
    ["_bytes", "_payload", "_body"].any fun ending => ending.toList.isSuffixOf key.toList

def requireKeys (path : String) (keys : List String) : Refusing Unit :=
  requireEach keys (fun key => forbiddenKey key = false) fun key =>
    path ++ "." ++ key ++ " is an embedded payload field"

mutual

/-- Refuse embedded payloads; the last child is visited first. -/
def Declared.requirePayloadFree (path : String) : Declared -> Refusing Unit
  | .value => .ok ()
  | .bytes => .error (path ++ " embeds a byte payload")
  | .list items => requireItems path 0 items
  | .dict entries => do
    requireKeys path (entries.map Prod.fst)
    requireEntries path entries

def requireItems (path : String) (index : Nat) : List Declared -> Refusing Unit
  | [] => .ok ()
  | item :: items => do
    requireItems path (index + 1) items
    item.requirePayloadFree (path ++ "[" ++ toString index ++ "]")

def requireEntries (path : String) : List (String × Declared) -> Refusing Unit
  | [] => .ok ()
  | (key, item) :: entries => do
    requireEntries path entries
    item.requirePayloadFree (path ++ "." ++ key)

end

inductive SpliceClass where
  | equalBodyStrict
  | equalBodyEhStructuralLocal
  | equalBodyEhRelocLayout
  | other (name : String)
  deriving DecidableEq, Repr

/-- One composed function; `others` are the keys not read. -/
structure EqualBodyEntry where
  mangled : Option String
  spliceClass : Option SpliceClass
  expectedBodyLength : Option Nat
  expectedBodySha256 : Option String
  expectedChangedOffsets : Option (List Nat)
  expectedRelocationMoves : Option (List (Nat × Nat))
  expectedXdataRenameOffsets : Option (List Nat)
  expectedCodeRenames : Option (List (Nat × RenameKind))
  expectedDonorSectionNumber : Option Nat
  others : List (String × Declared)

/-- `function[key]`. -/
def getKey {α : Type} (key : String) : Option α -> Reading α
  | some a => .ok a
  | none => .error (.keyError key)

structure Selected where
  seed : CoffObject
  donor : CoffObject
  seedPrimary : CoffSection
  donorPrimary : CoffSection
  changed : List Nat
  closure : List String

def Selected.donorBody (sel : Selected) : List Byte := coffBody sel.donor sel.donorPrimary

def changedOffsets (left right : List Byte) : Reading (List Nat) :=
  if left.length = right.length then
    .ok ((List.range left.length).filter fun i => left[i]? ≠ right[i]?)
  else .error .valueError

/-- `a == b == function["expected_body_length"]`, read only if `a == b`. -/
def lengthPinned (entry : EqualBodyEntry) (seedPrimary donorPrimary : CoffSection) : Reading Bool :=
  if seedPrimary.rawSize = donorPrimary.rawSize then do
    let length <- getKey "expected_body_length" entry.expectedBodyLength
    pure (donorPrimary.rawSize = length)
  else .ok false

def requireDefinitions (seedDefinition donorDefinition : Option SectionDefinition) :
    Refusing Unit :=
  match seedDefinition, donorDefinition with
  | some s, some d =>
    require (s.selection = d.selection ∧ s.associated = d.associated ∧ s.length = d.length ∧
        s.relocations = d.relocations)
      "target COMDAT definition record differs"
  | _, _ => .error "target COMDAT definition record is missing"

section Composer

variable (sha256 : List Byte -> String)

def selectTarget (seedBytes donorBytes : List Byte) (entry : EqualBodyEntry) :
    Reading Selected := do
  checked (Declared.requirePayloadFree "equal-body declaration" (.dict entry.others))
  checked (require ("target_source_refactor" ∉ entry.others.map Prod.fst)
    "equal-body source permutations are unsupported")
  let seed <- coffObject seedBytes
  let donor <- coffObject donorBytes
  let mangled <- getKey "mangled" entry.mangled
  let _ <- getKey "splice_class" entry.spliceClass
  let seedPrimary <- functionSection seed mangled
  let donorPrimary <- functionSection donor mangled
  let pinned <- lengthPinned entry seedPrimary donorPrimary
  checked (require (pinned = true) "target COMDAT body length changed")
  checked (require (seedPrimary.name = donorPrimary.name) "target section name differs")
  checked (require (seedPrimary.characteristics = donorPrimary.characteristics)
    "target section characteristics differs")
  let seedDefinitions <- sectionDefinitions seed
  let donorDefinitions <- sectionDefinitions donor
  checked (requireDefinitions (definitionFor seedDefinitions seedPrimary.number)
    (definitionFor donorDefinitions donorPrimary.number))
  let digest <- getKey "expected_body_sha256" entry.expectedBodySha256
  checked (require (sha256 (coffBody donor donorPrimary) = digest)
    "donor body differs from its pinned compiler output")
  let changed <- changedOffsets (coffBody seed seedPrimary) (coffBody donor donorPrimary)
  let expected <- getKey "expected_changed_offsets" entry.expectedChangedOffsets
  checked (require (changed = expected) "seed/donor body delta changed")
  let closure <- comdatChildClosure seed seedPrimary
  let donorClosure <- comdatChildClosure donor donorPrimary
  checked (require (closure = donorClosure) "target COMDAT child closure differs")
  pure ⟨seed, donor, seedPrimary, donorPrimary, changed, closure⟩

end Composer

def layoutRename (a b : Relocation) : Bool :=
  match localSymbolKind a.target with
  | none => staticRename a b
  | some kind =>
    localSymbolKind b.target = some kind && a.targetSection = b.targetSection &&
      a.targetValue = b.targetValue && a.targetType = b.targetType &&
      a.targetStorage = b.targetStorage

def layoutMove (pair : Relocation × Relocation) : Refusing (Option (Nat × Nat)) := do
  let (a, b) := pair
  require (a.type = b.type ∧ a.addend = b.addend)
    "reloc-layout splice: relocation type/addend differs"
  require (a.target ≠ b.target -> layoutRename a b = true)
    "reloc-layout splice: non-local relocation rename"
  pure (if a.offset = b.offset then none else some (a.offset, b.offset))

variable (entry : EqualBodyEntry) (sel : Selected) (moves : List (Nat × Nat))

def layoutMoves : Refusing (List (Nat × Nat)) := do
  let left <- detailedRelocations sel.seed sel.seedPrimary
  let right <- detailedRelocations sel.donor sel.donorPrimary
  require (left.length = right.length) "reloc-layout splice: relocation counts differ"
  collect layoutMove (left.zip right)

def relocationMoves : Reading (List (Nat × Nat)) :=
  if entry.spliceClass = some .equalBodyEhRelocLayout then do
    let moves <- checked (layoutMoves sel)
    let expected <- getKey "expected_relocation_moves" entry.expectedRelocationMoves
    checked (require (moves = expected) "reloc-layout splice: relocation move set changed")
    pure moves
  else .ok []

structure ComposeDetail where
  codeRenames : Option (List (Nat × RenameKind))
  relocationMoves : Option (List (Nat × Nat))
  xdataRenameOffsets : Option (List Nat)
  deriving DecidableEq, Repr

def strictDetail : Refusing ComposeDetail := do
  require (sel.closure = [".debug$F", ".debug$S"]) "strict splice requires the FPO debug closure"
  let renames <- normalizedRelocationRenames sel.seed sel.seedPrimary sel.donor sel.donorPrimary
    "code" []
  require (renames = []) "strict splice forbids relocation renames"
  pure ⟨some [], none, none⟩

/-- The seats of the associates, later ones in front. -/
def childSeats (sel : Selected) : List String -> SeatMap -> Reading SeatMap
  | [], seats => .ok seats
  | name :: names, seats => do
    let seedChild <- comdatChild sel.seed sel.seedPrimary name
    let donorChild <- comdatChild sel.donor sel.donorPrimary name
    childSeats sel names ((donorChild.number, seedChild.number) :: seats)

def seatMap : Reading SeatMap :=
  match entry.expectedDonorSectionNumber with
  | some number => do
    checked (require (sel.donorPrimary.number = number) "declared cross-lane donor seat changed")
    childSeats sel sel.closure [(sel.donorPrimary.number, sel.seedPrimary.number)]
  | none => do
    checked (require (sel.seedPrimary.number = sel.donorPrimary.number)
      "target closure seats differ")
    pure []

def fpoClosure (closure : List String) : Bool :=
  closure = [".debug$F", ".debug$S"] || closure = [".debug$S"]

/-- The offsets of the renamed records of the exception tables. -/
def xdataRenames (seats : SeatMap) : Reading (List Nat) :=
  if fpoClosure sel.closure then do
    let expected <- getKey "expected_xdata_rename_offsets" entry.expectedXdataRenameOffsets
    checked (require (expected = []) "FPO-closure splice cannot declare xdata renames")
    pure []
  else do
    let seedXdata <- comdatChild sel.seed sel.seedPrimary ".xdata$x"
    let donorXdata <- comdatChild sel.donor sel.donorPrimary ".xdata$x"
    checked (require (coffBody sel.seed seedXdata = coffBody sel.donor donorXdata)
      "EH xdata raw bytes differ")
    let renames <- checked (normalizedRelocationRenames sel.seed seedXdata sel.donor donorXdata
      "xdata" seats)
    let expected <- getKey "expected_xdata_rename_offsets" entry.expectedXdataRenameOffsets
    checked (require (renames.map Prod.fst = expected) "xdata local-relocation rename set changed")
    pure (renames.map Prod.fst)

def codeRenames (seats : SeatMap) : Reading (List (Nat × RenameKind)) := do
  let renames <- checked (normalizedRelocationRenames sel.seed sel.seedPrimary sel.donor
    sel.donorPrimary "code" seats)
  let expected <- getKey "expected_code_renames" entry.expectedCodeRenames
  checked (require (renames = expected) "code local-relocation rename set changed")
  let rows <- checked (detailedRelocations sel.donor sel.donorPrimary)
  checked (require (∀ offset ∈ sel.changed, ∀ row ∈ rows,
      ¬ (row.offset <= offset ∧ offset < row.offset + row.width))
    "donor changes a relocated operand")
  pure renames

def ehDetail : Reading ComposeDetail := do
  checked (require (sel.closure = [".debug$S", ".xdata$x"] ∨ fpoClosure sel.closure = true)
    "splice closure kind is unsupported for this class")
  let seats <- seatMap entry sel
  let offsets <- xdataRenames entry sel seats
  if entry.spliceClass = some .equalBodyEhStructuralLocal then do
    let renames <- codeRenames entry sel seats
    pure ⟨some renames, none, some offsets⟩
  else pure ⟨none, some moves, some offsets⟩

def composeDetail : Reading ComposeDetail :=
  match entry.spliceClass with
  | some .equalBodyStrict => checked (strictDetail sel)
  | some .equalBodyEhStructuralLocal => ehDetail entry sel moves
  | some .equalBodyEhRelocLayout => ehDetail entry sel moves
  | _ => .error (.byteIdentity "unsupported equal-body splice class")

/-- The offset fields of a relocation table, written over in order. -/
def reseatOffsets (table : Nat) : List Nat -> Nat -> List Byte -> List Byte
  | [], _, image => image
  | offset :: offsets, ordinal, image =>
    reseatOffsets table offsets (ordinal + 1)
      (sliceAssign image (table + ordinal * 10) 4 (leBytes 4 offset))

def reseatedOffsets : Reading (List Nat) :=
  if moves = [] then .ok []
  else do
    let rows <- checked (detailedRelocations sel.donor sel.donorPrimary)
    pure (rows.map Relocation.offset)

def composedImage (seedBytes : List Byte) (sel : Selected) (offsets : List Nat) : List Byte :=
  reseatOffsets sel.seedPrimary.relocationOffset offsets 0
    (sliceAssign seedBytes sel.seedPrimary.rawOffset sel.seedPrimary.rawSize sel.donorBody)

def requireRelocations (rows : List Relocation) : Reading Unit := do
  let seedRows <- checked (detailedRelocations sel.seed sel.seedPrimary)
  if moves = [] then
    checked (require (rows = seedRows) "composed relocations differ from the seed")
  else do
    let donorRows <- checked (detailedRelocations sel.donor sel.donorPrimary)
    if donorRows.length = seedRows.length then
      checked (require (rows.map (fun r => (r.offset, r.type, r.addend, r.symbolIndex)) =
          (donorRows.zip seedRows).map fun (d, s) => (d.offset, d.type, d.addend, s.symbolIndex))
        "composed relocations differ from the donor layout")
    else .error .valueError

def allowedOffset (o : Nat) : Bool :=
  (sel.seedPrimary.rawOffset <= o && o < sel.seedPrimary.rawOffset + sel.seedPrimary.rawSize) ||
    (moves ≠ [] && (List.range sel.seedPrimary.relocationCount).any fun ordinal =>
      sel.seedPrimary.relocationOffset + ordinal * 10 <= o &&
        o < sel.seedPrimary.relocationOffset + ordinal * 10 + 4)

/-- The output is read back and compared. -/
def recheck (seedBytes : List Byte) (mangled : String) (sel : Selected) (moves : List (Nat × Nat))
    (image : List Byte) : Reading Unit := do
  let output <- coffObject image
  let primary <- functionSection output mangled
  checked (require (coffBody output primary = sel.donorBody) "composed body differs from the donor")
  let rows <- checked (detailedRelocations output primary)
  requireRelocations sel moves rows
  let changed <- changedOffsets seedBytes image
  checked (require (∀ o ∈ changed, allowedOffset sel moves o = true)
    "composition changed bytes outside the selected body")

structure ComposeReport where
  mangled : String
  spliceClass : SpliceClass
  sectionNumber : Nat
  bodyLength : Nat
  bodyChangedOffsets : List Nat
  detail : ComposeDetail
  deriving DecidableEq, Repr

def composeEqualBodyComdat (sha256 : List Byte -> String) (seedBytes donorBytes : List Byte)
    (entry : EqualBodyEntry) : Reading (List Byte × ComposeReport) := do
  let sel <- selectTarget sha256 seedBytes donorBytes entry
  let mangled <- getKey "mangled" entry.mangled
  let spliceClass <- getKey "splice_class" entry.spliceClass
  let moves <- relocationMoves entry sel
  let detail <- composeDetail entry sel moves
  let offsets <- reseatedOffsets sel moves
  let image := composedImage seedBytes sel offsets
  recheck seedBytes mangled sel moves image
  pure (image,
    { mangled := mangled
      spliceClass := spliceClass
      sectionNumber := sel.seedPrimary.number
      bodyLength := sel.seedPrimary.rawSize
      bodyChangedOffsets := sel.changed
      detail := detail })

end Reprobit.Coff

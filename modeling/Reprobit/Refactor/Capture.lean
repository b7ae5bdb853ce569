import Reprobit.Refactor.Seats
import Mathlib.Data.List.Sort

/-!
# The captured return

A refactor that copies a variable at one point, reads the copy at another, and turns one return
into a jump to a label at the end that returns the copy.  The proof looks at the five
operations alone: each renders a fragment that the donor holds, they stand in order, they agree on
the names, and the new names are fresh among the tokens.
-/

namespace Reprobit.Refactor

open Machine Census

inductive CaptureRole where
  | captureDeclaration | captureAssignment | readReseat | returnToGoto | tailReturn
  | other (name : String)
  deriving DecidableEq, Repr

namespace CaptureRole

def text : CaptureRole -> String
  | captureDeclaration => "capture_declaration"
  | captureAssignment => "capture_assignment"
  | readReseat => "read_reseat"
  | returnToGoto => "return_to_goto"
  | tailReturn => "tail_return"
  | other name => name

def action : CaptureRole -> Text
  | readReseat | returnToGoto => "replace".toList
  | _ => "insert".toList

end CaptureRole

/-- The members a generator may have besides its kind and its role. -/
inductive CaptureKey where
  | type | capture | source | label | declarationIndent | nl
  deriving DecidableEq, Repr

namespace CaptureKey

def text : CaptureKey -> String
  | type => "type"
  | capture => "capture"
  | source => "source"
  | label => "label"
  | declarationIndent => "declaration_indent"
  | nl => "nl"

end CaptureKey

/-- Which members the mapping of a `capture_tail` has. -/
structure CaptureGenerator where
  k : Text
  role : CaptureRole
  type : Option Text
  capture : Option Text
  source : Option Text
  label : Option Text
  declarationIndent : Option Text
  nl : Option Bool
  unknown : List String
  deriving DecidableEq

namespace CaptureGenerator

def has (gen : CaptureGenerator) : CaptureKey -> Bool
  | .type => gen.type.isSome
  | .capture => gen.capture.isSome
  | .source => gen.source.isSome
  | .label => gen.label.isSome
  | .declarationIndent => gen.declarationIndent.isSome
  | .nl => gen.nl.isSome

/-- In the order of their names. -/
def allKeys : List CaptureKey := [.capture, .declarationIndent, .label, .nl, .source, .type]

/-- `_keys`: the members are just those required. -/
def keys (gen : CaptureGenerator) (required : List CaptureKey) (context : String) : Refusing Unit :=
  let missing := (allKeys.filter fun key => required.contains key && !gen.has key).map
    CaptureKey.text
  let unknown := ((allKeys.filter fun key => gen.has key && !required.contains key).map
    CaptureKey.text ++ gen.unknown).insertionSort (· <= ·)
  require (missing = [] ∧ unknown = [])
    (context ++ " schema differs; missing=" ++ showNames missing ++ " unknown=" ++
      showNames unknown)

/-- A member that the key check found. -/
def member (value : Option Text) : Text := value.getD []

end CaptureGenerator

open CaptureGenerator (member)

def captureFragment (gen : CaptureGenerator) (output : Bool) : Refusing Text :=
  match gen.role with
  | .captureDeclaration => do
    gen.keys [.type, .capture, .declarationIndent] "capture declaration"
    if output then do
      let indent <- asciiString (member gen.declarationIndent) "capture indentation"
      let type <- typeText (member gen.type) "capture type"
      let capture <- identifier (member gen.capture) "capture identifier"
      pure (indent ++ type ++ " ".toList ++ capture ++ ";\n".toList)
    else pure []
  | .captureAssignment => do
    gen.keys [.capture, .source, .declarationIndent] "capture assignment"
    if output then do
      let indent <- asciiString (member gen.declarationIndent) "capture indentation"
      let capture <- identifier (member gen.capture) "capture identifier"
      let source <- identifier (member gen.source) "capture source"
      pure (indent ++ capture ++ " = ".toList ++ source ++ ";\n".toList)
    else pure []
  | .readReseat => do
    gen.keys [.capture, .source, .nl] "capture read reseat"
    require (gen.nl = some false) "capture read reseat must be unterminated"
    identifier (member (if output then gen.capture else gen.source)) "capture read identity"
  | .returnToGoto => do
    gen.keys [.source, .label, .nl] "capture return branch"
    require (gen.nl = some false) "capture return branch must be unterminated"
    if output then do
      let label <- identifier (member gen.label) "capture label"
      pure ("goto ".toList ++ label ++ ";".toList)
    else do
      let source <- identifier (member gen.source) "capture source"
      pure ("return ".toList ++ source ++ ";".toList)
  | .tailReturn => do
    gen.keys [.capture, .label, .declarationIndent] "capture tail return"
    if output then do
      let label <- identifier (member gen.label) "capture label"
      let indent <- asciiString (member gen.declarationIndent) "capture indentation"
      let capture <- identifier (member gen.capture) "capture identifier"
      pure ("\n".toList ++ label ++ ":\n".toList ++ indent ++ "return ".toList ++ capture ++
        ";\n".toList)
    else pure []
  | .other _ => .error "capture tail role differs"

/-- The digest and the size of the bytes that an operation removed. -/
structure Removed where
  sha256 : Text
  size : Int

structure CaptureOperation where
  operationId : Text
  action : Text
  leaves : List CaptureGenerator
  removed : Option Removed

/-- An operation that passed: its generator and the place of its anchor. -/
structure SeatedRole where
  role : CaptureRole
  gen : CaptureGenerator
  position : Nat
  deriving DecidableEq

def isWithin (fragment text : Text) : Bool :=
  text.tails.any fun rest => fragment.isPrefixOf rest

def requireRemoved (sha256 : Text -> Text) (operation : CaptureOperation) (role : CaptureRole)
    (seed : Text) : Refusing Unit :=
  if seed = [] then .ok ()
  else
    match operation.removed with
    | none => .error ("capture removed role " ++ role.text ++ " must be an object")
    | some removed =>
      require (removed.sha256 = sha256 seed ∧ removed.size = seed.length)
        ("capture seed role " ++ role.text ++ " differs")

def seatOf (cleanPositions : List (Text × Nat)) (operation : CaptureOperation) : Refusing Nat :=
  match cleanPositions.lookup operation.operationId with
  | none => .error "capture operation has no position"
  | some position => .ok position

/-- One turn of the loop over the operations. -/
def captureOperation (sha256 : Text -> Text) (donorTarget : Text)
    (cleanPositions : List (Text × Nat)) (roles : List SeatedRole)
    (operation : CaptureOperation) : Refusing SeatedRole :=
  match operation.leaves with
  | [gen] => do
    require (gen.k = "capture_tail".toList) "capture operation kind differs"
    require (gen.role ∉ roles.map SeatedRole.role)
      ("capture role repeats: " ++ reprText gen.role.text)
    require (operation.action = gen.role.action)
      ("capture role " ++ reprText gen.role.text ++ " action differs")
    let seed <- captureFragment gen false
    let donor <- captureFragment gen true
    requireRemoved sha256 operation gen.role seed
    require (isWithin donor donorTarget) ("capture donor role " ++ gen.role.text ++ " is absent")
    let position <- seatOf cleanPositions operation
    pure ⟨gen.role, gen, position⟩
  | _ => .error "capture operation must carry one generator"

def captureRoles (sha256 : Text -> Text) (donorTarget : Text) (cleanPositions : List (Text × Nat)) :
    List SeatedRole -> List CaptureOperation -> Refusing (List SeatedRole)
  | roles, [] => .ok roles
  | roles, operation :: operations => do
    let seated <- captureOperation sha256 donorTarget cleanPositions roles operation
    captureRoles sha256 donorTarget cleanPositions (roles ++ [seated]) operations

/-- The five operations of a captured return. -/
structure CaptureRecord where
  declaration : SeatedRole
  assignment : SeatedRole
  read : SeatedRole
  branch : SeatedRole
  tail : SeatedRole
  deriving DecidableEq

namespace CaptureRecord

variable (record : CaptureRecord)

def capture : Text := member record.declaration.gen.capture

def source : Text := member record.assignment.gen.source

def label : Text := member record.branch.gen.label

def type : Text := member record.declaration.gen.type

def positions : List Nat :=
  [record.declaration.position, record.assignment.position, record.read.position,
    record.branch.position, record.tail.position]

end CaptureRecord

def findRole (roles : List SeatedRole) (role : CaptureRole) : Refusing SeatedRole :=
  match roles.find? (·.role = role) with
  | none => .error "capture role set is incomplete"
  | some seated => .ok seated

def captureRecord (roles : List SeatedRole) : Refusing CaptureRecord := do
  let declaration <- findRole roles .captureDeclaration
  let assignment <- findRole roles .captureAssignment
  let read <- findRole roles .readReseat
  let branch <- findRole roles .returnToGoto
  let tail <- findRole roles .tailReturn
  pure ⟨declaration, assignment, read, branch, tail⟩

structure CaptureInputs where
  cleanTarget : Text
  donorTarget : Text
  cleanUnit : Text
  operations : List CaptureOperation
  cleanPositions : List (Text × Nat)

/-- The record is what the meaning of the refactor needs. -/
def proveCapture (sha256 : Text -> Text) (inputs : CaptureInputs) : Refusing CaptureRecord := do
  let roles <- captureRoles sha256 inputs.donorTarget inputs.cleanPositions [] inputs.operations
  let record <- captureRecord roles
  require (record.positions = record.positions.insertionSort (· <= ·)) "capture roles are reordered"
  require (member record.assignment.gen.capture = record.capture ∧
      member record.read.gen.capture = record.capture ∧
      member record.tail.gen.capture = record.capture ∧
      member record.read.gen.source = record.source ∧
      member record.branch.gen.source = record.source ∧
      member record.tail.gen.label = record.label)
    "capture identities diverge"
  require (record.capture ∉ tokenText inputs.cleanTarget ∧
      record.label ∉ tokenText inputs.cleanTarget ∧
      record.capture ∉ tokenText inputs.cleanUnit)
    "capture identity is not fresh"
  pure record

/-- What acceptance says of the names and of the order. -/
theorem proveCapture_spec {sha256 : Text -> Text} {inputs : CaptureInputs} {record : CaptureRecord}
    (h : proveCapture sha256 inputs = .ok record) :
    record.capture ∉ tokenText inputs.cleanTarget ∧ record.positions.Pairwise (· <= ·) := by
  simp only [proveCapture, bind_eq_ok, require_eq_ok, pure_eq_ok] at h
  obtain ⟨_, _, _, _, _, hsorted, _, _, _, hfresh, rfl⟩ := h
  refine ⟨hfresh.1, ?_⟩
  rw [hsorted]
  exact List.pairwise_insertionSort _ _

end Reprobit.Refactor

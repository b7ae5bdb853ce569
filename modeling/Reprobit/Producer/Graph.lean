import Reprobit.Machine.CycleSearch
import Reprobit.Producer.Grammar

/-!
# Producer graphs

The nodes of a producer graph and the checks a graph document passes: each node on
its own, then the ownership of outputs, the dependencies and the targets of the
whole graph.
-/

namespace Reprobit.Producer

open Machine

/-- One invocation of a tool; owner and time limit left out. -/
structure ProducerNode where
  id : Text
  role : ProducerRole
  targetId : Option Text
  arguments : List Text
  inputs : List Text
  directiveInputs : List Text
  outputs : List Text
  dependsOn : List Text
  deriving DecidableEq

def isIdentifier (value : Text) : Bool :=
  match value with
  | [] => false
  | c :: rest =>
    c.isLower && rest.length <= 127 &&
      rest.all fun d => d.isLower || d.isDigit || d ∈ ['.', '_', '-']

def quotedList (values : List Text) : String := "[" ++ ", ".intercalate (values.map quoted) ++ "]"

variable (rt : Runtime)

variable (node : ProducerNode) (nodes : List ProducerNode) (values : List Text)

/-- A set of texts in code-point order, as it appears in a message. -/
def quotedSet : String := quotedList (values.dedup.insertionSort (· <= ·))

def residual (value : Text) : Text :=
  markers.foldl (fun rest marker => withoutPart marker 0 rest) value

def validateLiteral (value : Text) : Refusing Unit := do
  require (value ≠ [] ∧ '\x00' ∉ value ∧ '\n' ∉ value ∧ '\r' ∉ value ∧ Char.ofNat 96 ∉ value ∧
      ¬ hasPart "$(".toList value)
    "producer arguments must be literal argv entries"
  require (value.head? ≠ some '@') "response files must be expanded in the committed graph"
  require (¬ hasPart "$\x7b".toList (residual value) ∧ '\x7d' ∉ residual value)
    "producer argument contains an unknown placeholder"
  require (¬ hasWindowsAbsolute value) "producer argument contains an unseated Windows path"

def validateArguments : Refusing Unit := do
  require (values ≠ []) "producer arguments must not be empty"
  checkEach validateLiteral values
  validateArgumentPaths rt none values

def validateReferences (output : Bool) (values : List Text) : Refusing Unit :=
  checkEach (fun value => do
    let _ <- validateGraphReference rt output value
    pure ()) values

def validateInputs : Refusing Unit := do
  validateReferences rt false values
  require (rt.IsSortedSet values) "producer inputs must be unique and canonically ordered"

def validateDirectiveInputs : Refusing Unit := do
  validateReferences rt false values
  require (∀ value ∈ values, "system-library/".toList.isPrefixOf value)
    "directive inputs must be bare locked system-library references"
  require ((values.map rt.casefold).Nodup ∧ values = rt.sorted values)
    "directive inputs must be unique and canonically ordered"

def validateOutputs : Refusing Unit := do
  require (values ≠ []) "producer outputs must not be empty"
  validateReferences rt true values
  require (rt.IsSortedSet values) "producer outputs must be unique and canonically ordered"

def validateDependencies : Refusing Unit := do
  require (∀ value ∈ values, isIdentifier value) "producer dependencies must be identifiers"
  require (rt.IsSortedSet values) "producer dependencies must be unique and canonically ordered"

def validateInputKind (role : ProducerRole) (reference : Text) : Refusing Unit :=
  let kind := referenceKind reference
  let suffix := rt.casefold (suffixOf (referencePath reference))
  match role with
  | .compiler => .ok ()
  | .resource =>
    require (kind = "source".toList ∧ suffix = ".rc".toList)
      "resource inputs must be manifest source .rc files"
  | .librarian =>
    require (kind = "build".toList ∧ suffix = ".obj".toList)
      "librarian inputs must be current-run build objects"
  | .linker =>
    if suffix ∈ [".obj".toList, ".res".toList] then
      require (kind = "build".toList) "linker object/resource inputs require current-run ancestry"
    else if suffix = ".lib".toList then
      require (kind ∈ ["build", "system-library", "quarantine-archive"].map (·.toList))
        "linker archive input lacks producer or quarantine ancestry"
    else if suffix = ".def".toList then
      require (kind = "source".toList) "linker DEF inputs must be manifest source files"
    else .error ("linker input has an unsupported file kind: " ++ quoted reference)

def validateOutputEdges (role : ProducerRole) (edges : Edges) (declared : List Text) :
    Refusing Unit :=
  if role = .linker then do
    require (edges.requiredOutputs.dedup.length = 1 ∧ edges.requiredOutputs ⊆ declared)
      "linker /out edge differs from declared outputs"
    let unexplained := declared.filter fun value =>
      value ∉ edges.requiredOutputs ∧ value ∉ edges.secondaryOutputs ∧
        rt.casefold (suffixOf value) ≠ ".exp".toList
    require (unexplained = []) ("linker outputs lack argv paths: " ++ quotedSet unexplained)
  else
    require ((edges.requiredOutputs ⊆ declared ∧ declared ⊆ edges.requiredOutputs) ∧
        edges.secondaryOutputs = [])
      "producer argv/output edges differ"

def ProducerNode.validateEdges : Refusing Unit := do
  validateNoncompilerOptionGrammar rt node.role node.arguments
  let edges <- roleArgumentEdges rt node.role .nothing node.arguments
  let declaredInputs := node.inputs.map rt.casefold
  let declaredOutputs := node.outputs.map rt.casefold
  let missing := edges.inputs.filter (· ∉ declaredInputs)
  let extra := declaredInputs.filter (· ∉ edges.inputs)
  require (missing = [] ∧ extra = [])
    ("producer argv/input edges differ: missing=" ++ quotedSet missing ++ ", extra=" ++
      quotedSet extra)
  validateOutputEdges rt node.role edges declaredOutputs
  checkEach (validateInputKind rt node.role) node.inputs

def ProducerNode.validateRoleShape : Refusing Unit := do
  require (node.role ≠ .linker -> node.targetId = none)
    "only a terminal linker node may name a project target"
  require (node.role = .linker -> node.targetId ≠ none)
    "terminal linker nodes must name a project target"
  require (node.role ≠ .linker -> node.directiveInputs = [])
    "only terminal linkers may declare directive inputs"
  require (∀ value ∈ node.inputs.map rt.casefold, value ∉ node.directiveInputs.map rt.casefold)
    "directive inputs must be distinct from argv inputs"
  if node.role = .compiler then pure () else node.validateEdges rt

def ProducerNode.validate : Refusing Unit := do
  require (isIdentifier node.id ∧ ∀ target ∈ node.targetId, isIdentifier target)
    "producer identifiers are malformed"
  validateArguments rt node.arguments
  validateInputs rt node.inputs
  validateDirectiveInputs rt node.directiveInputs
  validateOutputs rt node.outputs
  validateDependencies rt node.dependsOn
  node.validateRoleShape rt

abbrev Owners := List (Text × Text)

def claimOutput (owners : Owners) (id output : Text) : Refusing Owners :=
  match owners.lookup (rt.casefold output) with
  | none => .ok (owners ++ [(rt.casefold output, id)])
  | some previous => do
    require (previous = id)
      ("producer output " ++ quoted output ++ " is owned by both " ++ quoted previous ++ " and " ++
        quoted id)
    pure owners

def claimOutputs (id : Text) : Owners -> List Text -> Refusing Owners
  | owners, [] => .ok owners
  | owners, output :: rest => do
    let owners <- claimOutput rt owners id output
    claimOutputs id owners rest

def claimGraph (ids : List Text) : Owners -> List ProducerNode -> Refusing Owners
  | owners, [] => .ok owners
  | owners, node :: rest => do
    let unknown := node.dependsOn.filter (· ∉ ids)
    require (unknown = [] ∧ node.id ∉ node.dependsOn)
      ("producer " ++ quoted node.id ++ " has invalid dependencies: " ++ quotedSet unknown)
    let owners <- claimOutputs rt node.id owners node.outputs
    claimGraph ids owners rest

def dependenciesOf (id : Text) : Option (List Text) :=
  (nodes.find? (·.id = id)).map (·.dependsOn)

def validateBuildInput (owners : Owners) (node : ProducerNode) (input : Text) : Refusing Unit :=
  if "build/".toList.isPrefixOf input then
    match owners.lookup (rt.casefold input) with
    | none => .error
        ("producer " ++ quoted node.id ++ " consumes unproduced build input " ++ quoted input)
    | some owner =>
      require (owner ∈ node.dependsOn)
        ("producer " ++ quoted node.id ++ " consumes " ++ quoted input ++
          " without a direct dependency on " ++ quoted owner)
  else .ok ()

def validateGraph : Refusing Unit := do
  let ids := nodes.map (·.id)
  require (ids = rt.sorted ids ∧ ids.Nodup) "producer nodes must be unique and canonically ordered"
  let owners <- claimGraph rt ids [] nodes
  require (hasCycle (dependenciesOf nodes) ids = false) "producer dependency cycle"
  checkEach (fun node => checkEach (validateBuildInput rt owners node) node.inputs) nodes
  require (nodes.filterMap (·.targetId)).Nodup "producer graph repeats a terminal project target"

def producerGraphDocument : Refusing Unit := do
  require (nodes ≠ []) "producer graph has no nodes"
  checkEach (·.validate rt) nodes
  validateGraph rt nodes

end Reprobit.Producer

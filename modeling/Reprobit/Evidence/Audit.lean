import Reprobit.Foundation
import Reprobit.Machine.Worklist
import Reprobit.Machine.CycleSearch
import Reprobit.Evidence.Model

/-!
# The evidence audit

`EvidenceAuditor.audit`: the checks that cross-validate certificates, artifact
ancestry and target receipts.  Every check returns the issues it reports; the
order in which they are reported is not kept by the source, which sorts a set.
What the source asks of the file system, of hashing and of Unicode case folding
is a parameter.
-/

namespace Reprobit.Evidence

open Machine

/-- A parsed PE image as far as addresses are mapped through it. -/
structure Pe32Image where
  imageBase : Nat
  rvaToFileOffset : Nat -> Option Nat

/-- The receipt of one portable tree found on disk. -/
structure PortableTree where
  path : String
  entryCount : Nat
  maxDepth : Nat
  membershipSha256 : String
  contentSha256 : String
  algorithm : String
deriving DecidableEq

/-- What an audit asks of its surroundings. -/
structure Surroundings where
  interventionAuthorityDigest : Intervention -> Digest
  /-- `intervention_cost_row_digest` of the cost -/
  interventionCostRowDigest : Intervention -> Digest
  /-- digest of the code behind the classic validators -/
  classicValidatorImplementationDigest : Digest
  sourceOverlayValidatorId : String
  sourceOverlayValidatorDigest : Digest
  semanticProofEvidenceDigest : String -> String -> Digest -> Digest -> Digest -> List String ->
    Digest
  quarantineProofBinding : Quarantine -> Identifier -> Digest -> Digest
  casefold : String -> String
  isAbsolute : String -> Bool
  /-- `Path.resolve(strict=False)` -/
  resolve : String -> String
  /-- `project_root / path` -/
  underProjectRoot : String -> String
  /-- parts of a canonical logical path -/
  logicalParts : String -> Option (List String)
  /-- parts of a portable relative path -/
  posixParts : String -> List String
  /-- the path that many levels up -/
  ancestor : String -> Nat -> String
  portableTreeReceipt : String -> String -> Option PortableTree
  /-- the PE image read from a path, if it can be read and parsed -/
  pe32Image : String -> Option Pe32Image

/-! ## Reporting and indexing -/

def flag (condition : Prop) [Decidable condition] (claim : EvidenceClaim)
    (code message : String) : List EvidenceIssue :=
  if condition then [⟨claim, code, message⟩] else []

def quoted (name : String) : String := "'" ++ name ++ "'"

/-- A dictionary: a later entry replaces an earlier one. -/
def dictGet {α κ : Type} [DecidableEq κ] (key : α -> κ) (items : List α) (k : κ) : Option α :=
  items.reverse.find? fun item => key item = k

/-- The first item of an id is kept, the others are reported. -/
def uniqueIndex {α : Type} (key : α -> Identifier) (report : Identifier -> List EvidenceIssue)
    (items : List α) : List α × List EvidenceIssue :=
  items.foldl (fun st item =>
      if key item ∈ st.1.map key then (st.1, st.2 ++ report (key item))
      else (st.1 ++ [item], st.2))
    ([], [])

def lookup {α : Type} (key : α -> Identifier) (items : List α) (id : Identifier) : Option α :=
  items.find? fun item => key item = id

def duplicateIssues (label : String) (id : Identifier) : List EvidenceIssue :=
  let message := s!"duplicate {label} id {quoted id}"
  [⟨.logic, "duplicate-" ++ label, message⟩, ⟨.origin, "duplicate-" ++ label, message⟩]

/-- The evidence of all providers, indexed by id. -/
structure Index where
  artifacts : List Artifact
  nodes : List ProvenanceNode
  certificates : List Certificate

variable (env : Surroundings) (family : ClassicRecipeFamily) (bundle : ProjectBundle)
  (build : BuildExecutionReceipt) (runtime : List RuntimeEvidence) (ix : Index)
  (attestation : ObjectTransformAttestation)

variable (artifactId : Identifier) (targets : List TargetVerification) (id : Identifier)

def Index.artifact : Option Artifact :=
  lookup (·.id) ix.artifacts id

def Index.node : Option ProvenanceNode :=
  lookup (·.id) ix.nodes id

def Index.parents : Option (List Identifier) :=
  (ix.node id).map (·.parents)

def Index.certificate : Option Certificate :=
  lookup (·.id) ix.certificates id

def buildIndex : Index × List EvidenceIssue :=
  let artifacts := uniqueIndex (·.id) (duplicateIssues "artifact") (runtime.flatMap (·.artifacts))
  let nodes := uniqueIndex (·.id) (duplicateIssues "provenance") (runtime.flatMap (·.provenance))
  let certificates := uniqueIndex (·.id) (duplicateIssues "certificate")
    (runtime.flatMap (·.certificates))
  (⟨artifacts.1, nodes.1, certificates.1⟩, artifacts.2 ++ nodes.2 ++ certificates.2)

def ProjectBundle.intervention : Option Intervention :=
  lookup (·.id) bundle.interventions id

/-- `CLASSIC_SEMANTIC_CONTRACTS` -/
def classicSemanticContracts : Option RegisteredSemanticContract :=
  let impl := env.classicValidatorImplementationDigest
  match family with
  | .sourceOverlayGraph =>
    some ⟨env.sourceOverlayValidatorId, env.sourceOverlayValidatorDigest, sourceOverlayObligations⟩
  | .imageMetadata => some ⟨"classic.image-metadata.v1", impl, imageMetadataObligations⟩
  | .imageLinkOrder => some ⟨"classic.image-link-order.v1", impl, imageLinkOrderObligations⟩
  | .imageBinaryRepack =>
    some ⟨"classic.image-binary-repack.v1", impl, imageBinaryRepackObligations⟩
  | family =>
    match classicRecipeFamilyRole family with
    | some .donor =>
      some ⟨s!"classic.donor-isolation.{family.value}.v1", impl, donorObligations⟩
    | some .function =>
      some ⟨s!"classic.binary-transform.{family.value}.v1", impl, binaryTransformObligations⟩
    | _ => none

def classicSemanticObligationName : String :=
  s!"semantic_equivalence.{family.value}"

def semanticProofMatches (proof : SemanticProof) (family : ClassicRecipeFamily)
    (contract : RegisteredSemanticContract) : Bool :=
  proof.family = family.value && proof.validatorId = contract.validatorId &&
  proof.validatorDigest = contract.validatorDigest &&
  proof.obligations = contract.obligations &&
  proof.inputStatement.isSome && proof.outputStatement.isSome &&
  proof.evidenceDigest = env.semanticProofEvidenceDigest proof.family proof.validatorId
    proof.validatorDigest proof.inputStatementDigest proof.outputStatementDigest proof.obligations

def hasRegisteredSemanticProof (certificate : Certificate) (family : ClassicRecipeFamily)
    (contract : RegisteredSemanticContract) : Bool :=
  let matching := certificate.obligations.filter fun o =>
    o.name = classicSemanticObligationName family && o.passed && o.evidenceDigest.isSome
  match matching with
  | [obligation] => certificate.semanticProofs.any fun proof =>
    semanticProofMatches env proof family contract &&
    some proof.evidenceDigest = obligation.evidenceDigest
  | _ => false

def certificateIssues (certificate : Certificate) : List EvidenceIssue :=
  let name := s!"certificate {quoted certificate.id}"
  (match bundle.intervention certificate.interventionId with
    | none =>
      [⟨.logic, "certificate-intervention", s!"{name} names a missing intervention"⟩]
    | some intervention =>
      flag (certificate.interventionAuthorityDigest ≠ env.interventionAuthorityDigest intervention)
        .logic "certificate-intervention-authority"
        s!"{name} binds different intervention authority" ++
      flag (certificate.interventionCostDigest ≠ env.interventionCostRowDigest intervention)
        .logic "certificate-intervention-cost"
        s!"{name} binds a different intervention cost row") ++
  flag (certificate.obligations.any fun o => o.passed && o.evidenceDigest.isNone)
    .logic "unbound-obligation" s!"{name} has a passing obligation without evidence" ++
  certificate.artifactIds.flatMap fun artifactId =>
    flag (ix.artifact artifactId = none) .logic "certificate-artifact"
      s!"{name} names missing artifact {quoted artifactId}"

def Index.receipts (interventionId : Identifier) : List Certificate :=
  ix.certificates.filter fun c => c.interventionId = interventionId

def interventionIssues (intervention : Intervention) : List EvidenceIssue :=
  let receipts := ix.receipts intervention.id
  let name := s!"intervention {quoted intervention.id}"
  flag (receipts = []) .logic "missing-certificate" s!"{name} has no certificate" ++
  flag (receipts ≠ [] ∧ ¬ receipts.all (·.passed)) .logic "failed-certificate"
    s!"{name} has a failed certificate" ++
  match intervention.classicFamily with
  | none => []
  | some family =>
    match classicSemanticContracts env family with
    | none =>
      [⟨.logic, "unsupported-semantic-family",
        s!"classic family {quoted family.value} has no registered semantic validator"⟩]
    | some contract =>
      flag (¬ receipts.any fun c => hasRegisteredSemanticProof env c family contract)
        .logic "missing-semantic-proof"
        (s!"classic {name} lacks a typed proof from registered validator " ++
          quoted contract.validatorId)

def nodeParentIssues (node : ProvenanceNode) : List EvidenceIssue :=
  let name := s!"provenance {quoted node.id}"
  flag (ix.artifact node.artifactId = none) .origin "provenance-artifact"
    s!"{name} names missing artifact {quoted node.artifactId}" ++
  node.parents.flatMap fun parentId =>
    flag (ix.node parentId = none) .origin "provenance-parent"
      s!"{name} names missing parent {quoted parentId}"

def nodeCertificateIssues (node : ProvenanceNode) (certificateId : Identifier) :
    List EvidenceIssue :=
  let name := s!"provenance {quoted node.id}"
  match ix.certificate certificateId with
  | none =>
    [⟨.logic, "provenance-certificate",
      s!"{name} names missing certificate {quoted certificateId}"⟩]
  | some bound =>
    -- a node without an intervention accepts a certificate of any intervention
    if node.interventionId.isSome ∧ some bound.interventionId ≠ node.interventionId then
      [⟨.logic, "certificate-mismatch", s!"{name} uses a certificate for another intervention"⟩]
    else
      flag (node.artifactId ∉ bound.artifactIds) .logic "certificate-artifact-mismatch"
        s!"{name} uses a certificate for another artifact"

def ProvenanceKind.certified : ProvenanceKind -> Bool
  | .intervention | .metadataTransform | .oracleInstall => true
  | _ => false

def bindsSemanticProof (node : ProvenanceNode) (family : ClassicRecipeFamily)
    (contract : RegisteredSemanticContract) (certificateId : Identifier) : Bool :=
  match ix.certificate certificateId with
  | none => false
  | some c => some c.interventionId = node.interventionId &&
      c.artifactIds.contains node.artifactId && hasRegisteredSemanticProof env c family contract

def transformSemanticIssues (node : ProvenanceNode) : List EvidenceIssue :=
  match (node.interventionId.bind bundle.intervention).bind (·.classicFamily) with
  | none => []
  | some family =>
    match classicSemanticContracts env family with
    | none => []
    | some contract =>
      flag (node.certificateIds ≠ [] ∧
          ¬ node.certificateIds.any (bindsSemanticProof env ix node family contract))
        .logic "semantic-certificate-mismatch"
        (s!"provenance transform {quoted node.id} is not bound to a typed proof " ++
          s!"from registered validator {quoted contract.validatorId}")

def transformIssues (node : ProvenanceNode) : List EvidenceIssue :=
  let name := s!"provenance transform {quoted node.id}"
  if node.kind.certified then
    flag (node.certificateIds = []) .logic "uncertified-transform" s!"{name} has no certificate" ++
    flag (node.certificateIds ≠ [] ∧
        node.certificateIds.any fun id => (ix.certificate id).any fun c => !c.passed)
      .logic "failed-transform" s!"{name} has failed proof obligations" ++
    transformSemanticIssues env bundle ix node
  else []

def nodeIssues (node : ProvenanceNode) : List EvidenceIssue :=
  nodeParentIssues ix node ++
  (match node.interventionId with
    | none => []
    | some interventionId =>
      flag (bundle.intervention interventionId = none) .logic "provenance-intervention"
        s!"provenance {quoted node.id} names missing intervention {quoted interventionId}") ++
  node.certificateIds.flatMap (nodeCertificateIssues ix node) ++
  transformIssues env bundle ix node

def unboundCertificateIssues : List EvidenceIssue :=
  let referenced := ix.nodes.flatMap (·.certificateIds)
  ix.certificates.flatMap fun c =>
    flag (c.id ∉ referenced) .logic "unbound-certificate"
      s!"certificate {quoted c.id} is not bound into provenance"

def validateNodeCycles : List EvidenceIssue :=
  flag (hasCycle ix.parents (ix.nodes.map (·.id)))
    .origin "provenance-cycle" "provenance graph contains a cycle"

def validateArtifactGraph : List EvidenceIssue :=
  (ix.artifacts.flatMap fun artifact =>
    (artifact.inputs.flatMap fun inputId =>
      flag (ix.artifact inputId = none) .origin "artifact-input"
        s!"artifact {quoted artifact.id} names missing input {quoted inputId}") ++
    flag ((artifact.origin = .composed ∨ artifact.origin = .certifiedPostlink) ∧
        artifact.inputs = [])
      .origin "artifact-root" s!"derived artifact {quoted artifact.id} has no inputs") ++
  flag (hasCycle (fun id => (ix.artifact id).map (·.inputs)) (ix.artifacts.map (·.id)))
    .origin "artifact-cycle" "artifact input graph contains a cycle"

def ProvenanceKind.isRoot : ProvenanceKind -> Bool
  | .source | .toolchain | .external => true
  | _ => false

def Index.crossArtifactParents (node : ProvenanceNode) : List Identifier :=
  node.parents.filterMap fun parentId =>
    (ix.node parentId).bind fun parent =>
      if parent.artifactId = node.artifactId then none else some parent.artifactId

def Index.nodesOf : List ProvenanceNode :=
  ix.nodes.filter fun node => node.artifactId = artifactId

def validateProvenanceArtifactEdges : List EvidenceIssue :=
  (ix.nodes.flatMap fun node =>
    match ix.artifact node.artifactId with
    | none => []
    | some artifact =>
      (if node.kind.isRoot then
        flag (node.parents ≠ []) .origin "root-provenance-parents"
          s!"root provenance {quoted node.id} unexpectedly has parents"
      else
        flag (node.parents = []) .origin "transform-provenance-root"
          s!"transform provenance {quoted node.id} has no parents") ++
      (ix.crossArtifactParents node).flatMap fun parentArtifact =>
        flag (parentArtifact ∉ artifact.inputs) .origin "undeclared-provenance-input"
          (s!"provenance {quoted node.id} reads artifact {quoted parentArtifact} " ++
            s!"absent from {quoted artifact.id} inputs")) ++
  ix.artifacts.flatMap fun artifact =>
    let explained := (ix.nodesOf artifact.id).flatMap ix.crossArtifactParents
    let missing := artifact.inputs.filter fun inputId => inputId ∉ explained
    flag (missing ≠ []) .origin "unproven-artifact-input"
      s!"artifact {quoted artifact.id} has inputs absent from provenance: {showNames missing}"

def toolchainTreeMemberIsLocked (artifact : Artifact) (path : String) : Bool :=
  match env.logicalParts artifact.logicalPath, env.logicalParts bundle.toolchainPath with
  | some logical, some root =>
    if logical.length <= root.length ∨
        (logical.take root.length).map env.casefold ≠ root.map env.casefold then false
    else
      let relative := logical.drop root.length
      let locked := bundle.inputTrees.filter fun tree =>
        let treeParts := env.posixParts tree.path
        if relative.length <= treeParts.length ∨ (relative.take treeParts.length).map env.casefold ≠
              treeParts.map env.casefold then false
        else
          let memberParts := relative.drop treeParts.length
          match env.portableTreeReceipt (env.ancestor path memberParts.length) tree.path with
          | none => false
          | some received =>
            received.path = tree.path && received.entryCount = tree.entryCount &&
            received.maxDepth = tree.maxDepth &&
            received.membershipSha256 = tree.membershipDigest.value &&
            received.contentSha256 = tree.contentDigest.value &&
            received.algorithm = tree.algorithm
      locked.length = 1
  | _, _ => false

def inputRootIssues (node : ProvenanceNode) (artifact : Artifact) : List EvidenceIssue :=
  let path := artifact.receiptPath.getD artifact.logicalPath
  if ¬ env.isAbsolute path then
    [⟨.origin, "input-root-path",
      s!"input root {quoted artifact.id} does not carry its sealed receipt path"⟩]
  else
    let receipt := dictGet (fun item => env.resolve item.path) build.inputs (env.resolve path)
    if ¬ receipt.any (fun r => r.digest = artifact.digest && r.size = artifact.size) then
      [⟨.origin, "input-root-receipt",
        s!"input root {quoted artifact.id} differs from the build receipt"⟩]
    else if node.kind = .source ∧ (artifact.kind ≠ .source ∨ artifact.origin ≠ .freshSeed) then
      [⟨.origin, "source-root-kind",
        s!"source root {quoted artifact.id} has inconsistent evidence types"⟩]
    else
      flag (node.kind = .toolchain ∧ artifact.kind = .toolchain ∧ (artifact.digest, artifact.size) ∉
            (bundle.tools ++ bundle.runtimeFiles).map (fun tool => (tool.digest, tool.size)) ∧
          ¬ toolchainTreeMemberIsLocked env bundle artifact path)
        .origin "toolchain-root-lock"
        (s!"toolchain root {quoted artifact.id} is absent from every exact " ++
          "file or portable input-tree lock")

def validateInputRoots : List EvidenceIssue :=
  ix.nodes.flatMap fun node =>
    if node.parents ≠ [] ∨ ¬ node.kind.isRoot then []
    else
      match ix.artifact node.artifactId with
      | none => []
      | some artifact =>
        -- donor arenas are sealed inside the closed runtime, and historical producer
        -- roots are validated by their attestation
        if node.kind = .source ∧ artifact.origin = .freshDonor ∨
            node.kind = .toolchain ∧ artifact.kind ≠ .toolchain then []
        else inputRootIssues env bundle build node artifact

/-- A drive letter with a colon and a slash in front. -/
def startsWithDrive (path : String) : Bool :=
  match path.toList with
  | c :: ':' :: '/' :: _ => c.isAlpha
  | _ => false

def forwardSlashes (path : String) : String :=
  String.ofList (path.toList.map fun c => if c = '\\' then '/' else c)

def producerReceiptIssues (attestation : ProducerAttestation) (artifact : Artifact) :
    List EvidenceIssue :=
  let name := s!"producer attestation {quoted attestation.id}"
  let logical := forwardSlashes artifact.logicalPath
  if artifact.receiptPath = none ∧ (logical.toList.head? = some '/' ∨ startsWithDrive logical) then
    [⟨.origin, "producer-path",
      s!"producer artifact {quoted artifact.id} lacks a project-relative receipt path"⟩]
  else if ¬ attestation.capturedBeforeOverwrite then
    let artifactPath := match artifact.receiptPath with
      | some path => env.resolve path
      | none => env.resolve (env.underProjectRoot logical)
    match dictGet (fun item => env.resolve item.path) build.outputs artifactPath with
    | none => [⟨.origin, "producer-receipt", s!"{name} is not bound to a fresh output"⟩]
    | some receipt =>
      if receipt.digest ≠ attestation.artifactDigest ∨ receipt.size ≠ attestation.artifactSize ∨
          receipt.producerStep ≠ some attestation.stepId then
        [⟨.origin, "producer-receipt", s!"{name} is not bound to a fresh output"⟩]
      else
        flag (¬ receipt.fresh ∨ ¬ build.cold) .origin "producer-freshness"
          s!"{name} is not from a cold fresh output"
  else
    flag (¬ build.cold) .origin "producer-freshness" s!"captured {name} is not cold"

def producerIssues (attestation : ProducerAttestation) (artifact : Artifact) : List EvidenceIssue :=
  let name := s!"producer attestation {quoted attestation.id}"
  let tool := dictGet (·.id) (bundle.tools ++ bundle.runtimeFiles) attestation.toolId
  flag (¬ tool.any fun t => t.digest = attestation.toolDigest) .origin "producer-tool"
    s!"{name} does not name a locked tool" ++
  flag (attestation.stepId ∉ build.steps.map (·.stepId)) .origin "producer-step"
    s!"{name} names a missing build step" ++
  flag (artifact.digest ≠ attestation.artifactDigest ∨ artifact.size ≠ attestation.artifactSize)
    .origin "producer-content" s!"{name} differs from its artifact" ++
  producerReceiptIssues env build attestation artifact

/-- Ranges in order of their start, equal starts in the given order. -/
def sortRanges (ranges : List ByteRange) : List ByteRange :=
  ranges.mergeSort fun a b => a.offset <= b.offset

def adjoinFrom : Nat -> List ByteRange -> Except Nat Nat
  | cursor, [] => .ok cursor
  | cursor, span :: spans => if span.offset ≠ cursor then .error cursor
      else adjoinFrom span.stop spans

def producerCoverage (artifact : Artifact) (items : List ProducerAttestation) :
    Bool × List EvidenceIssue :=
  let report (text : String) : Bool × List EvidenceIssue :=
    (false, [⟨.origin, "producer-coverage", s!"artifact {quoted artifact.id} {text}"⟩])
  let whole := items.filter fun item => item.ranges.isEmpty
  let ranged := items.filter fun item => !item.ranges.isEmpty
  if whole ≠ [] then
    if whole.length ≠ 1 ∨ ranged ≠ [] then report "has ambiguous producer coverage"
    else (true, [])
  else
    match adjoinFrom 0 (sortRanges (ranged.flatMap (·.ranges))) with
    | .error _ => report "has a producer range gap or overlap"
    | .ok cursor =>
      if cursor = artifact.size then (true, [])
      else report "producer coverage is incomplete"

def validateProducers : List Identifier × List EvidenceIssue :=
  let indexed := uniqueIndex (fun a : ProducerAttestation => a.id)
    (fun id => [⟨.origin, "duplicate-producer-attestation",
      s!"duplicate producer attestation {quoted id}"⟩])
    (runtime.flatMap (·.producers))
  let attestationIssues := indexed.1.flatMap fun attestation =>
    match ix.artifact attestation.artifactId with
    | none => [⟨.origin, "producer-artifact",
        s!"producer attestation {quoted attestation.id} names a missing artifact"⟩]
    | some artifact => producerIssues env bundle build attestation artifact
  let valid (artifact : Artifact) := indexed.1.filter fun attestation =>
    attestation.artifactId = artifact.id &&
      (producerIssues env bundle build attestation artifact).isEmpty
  let covered := ix.artifacts.filter fun artifact => valid artifact ≠ []
  (((covered.filter fun artifact => (producerCoverage artifact (valid artifact)).1).map (·.id)),
    indexed.2 ++ attestationIssues ++
      covered.flatMap fun artifact => (producerCoverage artifact (valid artifact)).2)

def objectTransformArtifactIssues : List EvidenceIssue :=
  let name := s!"object-transform attestation {quoted attestation.id}"
  match ix.artifact attestation.artifactId, ix.artifact attestation.inputArtifactId with
  | some output, some input =>
    flag (output.kind ≠ .object ∨ input.kind ≠ .object ∨ output.origin ≠ .composed ∨
        output.inputs ≠ [attestation.inputArtifactId] ∨
        output.digest ≠ attestation.artifactDigest ∨ output.size ≠ attestation.artifactSize ∨
        input.digest ≠ attestation.inputDigest ∨ input.size ≠ attestation.inputSize)
      .origin "object-transform-content" s!"{name} differs from its artifacts"
  | _, _ => [⟨.origin, "object-transform-artifact", s!"{name} names a missing artifact"⟩]

def objectTransformStepIssues : List EvidenceIssue :=
  let step := dictGet (·.stepId) build.steps attestation.stepId
  flag (¬ step.any fun s => s.returncode = 0 && s.attempts = 1 &&
      s.commandDigest = attestation.stepBindingDigest &&
      s.outputDigest = attestation.stepBindingDigest)
    .origin "object-transform-step"
    s!"object-transform attestation {quoted attestation.id} differs from its build step"

def Index.onlyParent (node : ProvenanceNode) : Option ProvenanceNode :=
  match node.parents with
  | [parentId] => ix.node parentId
  | _ => none

def Index.transformNodes : List ProvenanceNode :=
  (ix.nodesOf attestation.artifactId).filter fun node => node.kind = .objectTransform

def objectTransformNodeIssues : List EvidenceIssue :=
  let name := s!"object-transform attestation {quoted attestation.id}"
  match ix.transformNodes attestation with
  | [node] =>
    flag (node.operation ≠ attestation.operation.value ∨
        ¬ (ix.onlyParent node).any fun p => p.artifactId = attestation.inputArtifactId)
      .origin "object-transform-provenance" s!"{name} differs from provenance"
  | found => [⟨.origin, "object-transform-provenance",
      s!"{name} resolves to {found.length} provenance nodes"⟩]

def objectTransformIssues : List EvidenceIssue :=
  objectTransformArtifactIssues ix attestation ++ objectTransformStepIssues build attestation ++
    objectTransformNodeIssues ix attestation

/-- A composed producer must publish its parent's bytes unchanged. -/
def publishes (node : ProvenanceNode) : Bool :=
  match ix.artifact node.artifactId,
    (ix.onlyParent node).bind fun p => ix.artifact p.artifactId with
  | some artifact, some parentArtifact =>
    node.operation = "publish" && artifact.inputs = [parentArtifact.id] &&
      artifact.digest = parentArtifact.digest && artifact.size = parentArtifact.size
  | _, _ => false

/-- Require a closed, exact attestation for every COMDAT order rewrite. -/
def validateObjectTransforms : List EvidenceIssue :=
  let indexed := uniqueIndex (fun a : ObjectTransformAttestation => a.id)
    (fun id => [⟨.origin, "duplicate-object-transform-attestation",
      s!"duplicate object-transform attestation {quoted id}"⟩])
    (runtime.flatMap (·.objectTransforms))
  let validNodes := (indexed.1.filter fun a => (objectTransformIssues build ix a).isEmpty).flatMap
    fun a => (ix.transformNodes a).map (·.id)
  indexed.2 ++ indexed.1.flatMap (objectTransformIssues build ix) ++
  ix.nodes.flatMap fun node =>
    flag (node.kind = .objectTransform ∧ node.id ∉ validNodes) .origin "unattested-object-transform"
      s!"object transform {quoted node.id} lacks one exact current-run attestation" ++
    flag (node.operation ∈ objectTransformOperations ∧ node.kind ≠ .objectTransform) .origin
      "misclassified-object-transform"
      s!"object transform {quoted node.id} is not typed as an object transform" ++
    flag (node.kind = .producer ∧ node.origin = .composed ∧ ¬ publishes ix node) .origin
      "unattested-composed-producer"
      s!"composed producer {quoted node.id} is not a byte-preserving publication"

def Index.children : List Identifier :=
  ix.nodes.flatMap fun node => node.parents.filter fun parentId =>
    (ix.node parentId).any fun parent =>
      parent.artifactId = node.artifactId && parent.artifactId = artifactId

def Index.terminal : List ProvenanceNode :=
  (ix.nodesOf artifactId).filter fun node => node.id ∉ ix.children artifactId

def validateTerminalCoverage (artifact : Artifact) (terminal : List ProvenanceNode) :
    List EvidenceIssue :=
  let report (code text : String) : List EvidenceIssue :=
    [⟨.origin, code, s!"artifact {quoted artifact.id} {text}"⟩]
  let ranged := terminal.filterMap (·.byteRange)
  if terminal = [] then report "missing-provenance" "has no terminal provenance"
  else if ranged ≠ [] ∧ ranged.length ≠ terminal.length then
    report "mixed-provenance-ranges" "mixes whole and ranged terminal provenance"
  else if ranged = [] then
    if terminal.length ≠ 1 then
      report "ambiguous-provenance" "has multiple whole-artifact terminals"
    else []
  else
    match adjoinFrom 0 (sortRanges ranged) with
    | .error cursor => report "provenance-coverage" s!"has a range gap or overlap at {cursor}"
    | .ok cursor =>
      if cursor = artifact.size then []
      else report "provenance-coverage" s!"provenance covers {cursor} of {artifact.size} bytes"

def Index.ancestry (terminal : List ProvenanceNode) : Finset Identifier :=
  walkLoop ix.parents (terminal.length + (ix.nodes.map (·.parents.length)).sum)
    (terminal.map (·.id)).reverse ∅

def validRoot (attested : List Identifier) (node : ProvenanceNode) : Bool :=
  let rootArtifact := ix.artifact node.artifactId
  let fresh := node.origin = .freshSeed || node.origin = .freshDonor
  let validToolchain := node.kind = .toolchain && fresh && node.artifactId ∈ attested
  let validSource := node.kind = .source && fresh &&
    rootArtifact.any fun a => a.kind = .source && a.firstParty
  let validLockedTool := node.kind = .toolchain && node.origin = .freshSeed &&
    rootArtifact.any fun a => a.kind = .toolchain
  let validExternal := node.kind = .external && node.origin = .external &&
    rootArtifact.any fun a => !a.firstParty
  validToolchain || validSource || validLockedTool || validExternal

def disclosedLegacy (legacy : List Identifier) (node : ProvenanceNode) : Bool :=
  node.kind = .oracleInstall && node.origin = .oracle && node.interventionId.any (· ∈ legacy)

def targetNodeIssues (targetId : Identifier) (ix : Index) (attested legacy : List Identifier)
    (node : ProvenanceNode) : List EvidenceIssue :=
  let name := s!"target {quoted targetId}"
  flag (node.origin = .staleRefused ∨ node.origin = .oracle ∧ ¬ disclosedLegacy legacy node)
    .origin "forbidden-origin" s!"{name} descends from {node.origin.value} at {quoted node.id}" ++
  flag (node.parents = [] ∧ ¬ validRoot ix attested node)
    .origin "invalid-root-origin" s!"{name} has invalid provenance root {quoted node.id}" ++
  flag ((node.kind = .intervention ∨ node.kind = .metadataTransform) ∧ (node.certificateIds = [] ∨
        ¬ node.certificateIds.all fun id => (ix.certificate id).any (·.passed)))
    .origin "uncertified-origin-transform" s!"{name} has uncertified transform {quoted node.id}"

def validateTargetOrigins (targetId : Identifier) (artifact : Artifact)
    (terminal : List ProvenanceNode) (ix : Index) (attested legacy : List Identifier) :
    List EvidenceIssue :=
  flag (¬ artifact.firstParty) .origin "external-target"
    s!"target {quoted targetId} is not a first-party artifact" ++
  (ix.nodes.filter fun node => node.id ∈ ix.ancestry terminal).flatMap
    (targetNodeIssues targetId ix attested legacy)

def logicalPath (value : String) : String :=
  env.casefold (forwardSlashes value)

def Index.targetArtifacts (env : Surroundings) (target : TargetSpec) : List Artifact :=
  ix.artifacts.filter fun a => logicalPath env a.logicalPath = logicalPath env target.artifact

def targetReceiptIssues (receipts : List TargetVerification) (target : TargetSpec)
    (artifact : Artifact) : List EvidenceIssue :=
  match dictGet (·.targetId) receipts target.id with
  | none =>
    [⟨.logic, "target-receipt", s!"target {quoted target.id} has no verification receipt"⟩]
  | some receipt =>
    let message := s!"target {quoted target.id} content differs from its proof artifact"
    if receipt.candidateSize ≠ artifact.size ∨ receipt.candidateDigest ≠ artifact.digest.value then
      [⟨.logic, "stale-artifact-proof", message⟩, ⟨.origin, "stale-artifact-proof", message⟩]
    else []

def targetIssues (receipts : List TargetVerification) (ix : Index)
    (attested legacy : List Identifier) (target : TargetSpec) : List EvidenceIssue :=
  match ix.targetArtifacts env target with
  | [artifact] =>
    targetReceiptIssues receipts target artifact ++
      validateTargetOrigins target.id artifact (ix.terminal artifact.id) ix attested legacy
  | found => [⟨.origin, "target-artifact",
      s!"target {quoted target.id} resolves to {found.length} proof artifacts"⟩]

def mappedRanges (image : Pe32Image) (address : Nat) : List ByteRange -> Option (List ByteRange)
  | [] => some []
  | item :: items => do
    let address' := address + item.offset
    if address' < image.imageBase then none
    let rva := address' - image.imageBase
    let start <- image.rvaToFileOffset rva
    let last <- image.rvaToFileOffset (rva + item.length - 1)
    if last ≠ start + item.length - 1 then none
    let rest <- mappedRanges image address items
    pure (⟨start, item.length, item.nonempty⟩ :: rest)

def legacyQuarantineRanges (intervention : Intervention) (install : LegacyOracleInstall)
    (target : Option TargetVerification) : List ByteRange × CoordinateSpace :=
  let relative := install.outputRanges
  if intervention.scope.function = none then (relative, .artifactFile)
  else
    match (target.bind fun t => env.pe32Image t.artifact).bind fun image =>
        mappedRanges image install.oracleAddress relative with
    | none => (relative, .functionBody)
    | some mapped => (mapped, .artifactFile)

def buildQuarantine (intervention : Intervention) (install : LegacyOracleInstall)
    (artifactId : Identifier) (mapped : List ByteRange × CoordinateSpace) :
    Refusing Quarantine := do
  let ordered := sortRanges mapped.1
  require (ordered.IsChain fun a b => a.overlaps b = false) "quarantine ranges overlap"
  require ((ordered.map (·.length)).sum = install.byteCount)
    "byte_count must equal the sum of quarantine range lengths"
  require (mapped.2 = .functionBody -> intervention.scope.function.isSome)
    "function-body quarantine requires function scope and base address"
  let detail := match mapped.2 with
    | .artifactFile => "final artifact-file offsets mapped from the declared function VA"
    | .functionBody =>
      "function-body-relative offsets (the artifact was not safely PE-mappable)"
  pure
    { id := intervention.id
      kind := "legacy.oracle_install"
      artifactId := artifactId
      ranges := mapped.1
      byteCount := install.byteCount
      reason := "declared output ranges have frozen reference-oracle ancestry; " ++ detail
      coordinateSpace := mapped.2
      scope := intervention.scope
      baseAddress := install.oracleAddress
      proofBinding := none }

def executionObligations (receipts : List Certificate) : List Digest :=
  (receipts.flatMap (·.obligations)).filterMap fun o =>
    if o.name = "quarantined_oracle_install" && o.passed then o.evidenceDigest else none

def quarantineOf (ix : Index) (intervention : Intervention) (install : LegacyOracleInstall) :
    Refusing (Quarantine × List EvidenceIssue) := do
  let artifactId :=
    match dictGet (·.id) bundle.targets intervention.scope.target with
    | none => intervention.scope.target
    | some target =>
      match ix.targetArtifacts env target with
      | [artifact] => artifact.id
      | _ => intervention.scope.target
  let quarantine <- buildQuarantine intervention install artifactId
    (legacyQuarantineRanges env intervention install
      (dictGet (·.targetId) targets intervention.scope.target))
  match ix.receipts intervention.id, executionObligations (ix.receipts intervention.id) with
  | [certificate], [evidence] =>
    pure ({ quarantine with
      proofBinding := some (env.quarantineProofBinding quarantine certificate.id evidence) }, [])
  | _, _ =>
    pure (quarantine, [⟨.logic, "quarantine-proof-binding",
      s!"legacy intervention {quoted intervention.id} lacks one exact " ++
        "oracle-install proof obligation"⟩])

def ProjectBundle.legacyInstalls : List (Intervention × LegacyOracleInstall) :=
  bundle.interventions.filterMap fun i => i.legacyInstall.map fun install => (i, install)

def ProjectBundle.legacyInterventionIds : List Identifier :=
  bundle.legacyInstalls.map fun item => item.1.id

/-- The issues of everything but the quarantines. -/
def auditIssues (runtime : List RuntimeEvidence) : List EvidenceIssue :=
  let index := buildIndex runtime
  let ix := index.1
  let producers := validateProducers env bundle build runtime ix
  index.2 ++
  ix.certificates.flatMap (certificateIssues env bundle ix) ++
  bundle.interventions.flatMap (interventionIssues env ix) ++
  ix.nodes.flatMap (nodeIssues env bundle ix) ++
  unboundCertificateIssues ix ++
  validateNodeCycles ix ++
  validateArtifactGraph ix ++
  validateProvenanceArtifactEdges ix ++
  validateInputRoots env bundle build ix ++
  producers.2 ++
  validateObjectTransforms build runtime ix ++
  (ix.artifacts.flatMap fun artifact =>
    validateTerminalCoverage artifact (ix.terminal artifact.id)) ++
  bundle.targets.flatMap (targetIssues env targets ix producers.1 bundle.legacyInterventionIds)

/-- Cross-validate certificates, artifact ancestry, and target receipts. -/
def audit (runtime : List RuntimeEvidence) : Refusing EvidenceAudit := do
  let ix := (buildIndex runtime).1
  let quarantines <- enumerateFrom
    (fun _ item => quarantineOf env bundle targets ix item.1 item.2) bundle.legacyInstalls 0
  pure
    { issues := auditIssues env bundle build targets runtime ++ quarantines.flatMap (·.2)
      quarantines := (quarantines.map (·.1)).mergeSort fun a b => a.id <= b.id }

end Reprobit.Evidence

import Reprobit.Machine.Bounded

/-!
# Evidence records

The immutable records an evidence audit reads: artifacts and their declared
inputs, provenance nodes, certificates with their obligations and semantic
proofs, the interventions of a project, and the receipts of one build.  What a
record's own validator demands is a field of the record.
-/

namespace Reprobit.Evidence

abbrev Identifier := String

/-- A SHA-256 digest by its hexadecimal value. -/
structure Digest where
  value : String
deriving DecidableEq

/-- A non-empty half-open byte range. -/
structure ByteRange where
  offset : Nat
  length : Nat
  nonempty : 0 < length
deriving DecidableEq

def ByteRange.stop (r : ByteRange) : Nat := r.offset + r.length

def ByteRange.overlaps (r s : ByteRange) : Bool := r.offset < s.stop && s.offset < r.stop

structure Scope where
  target : Identifier
  translationUnit : Option Identifier
  function : Option String
  require_parent_scope : function.isSome -> translationUnit.isSome
deriving DecidableEq

inductive ArtifactKind where
  | source | toolchain | object | pdb | archive | image | resource | generated | receipt | external
deriving DecidableEq

inductive ArtifactOrigin where
  | freshSeed | freshDonor | composed | certifiedPostlink | external | oracle | staleRefused
deriving DecidableEq

def ArtifactOrigin.value : ArtifactOrigin -> String
  | .freshSeed => "fresh_seed"
  | .freshDonor => "fresh_donor"
  | .composed => "composed"
  | .certifiedPostlink => "certified_postlink"
  | .external => "external"
  | .oracle => "oracle"
  | .staleRefused => "stale/refused"

/-- A content-addressed build artifact and its immediate ancestry. -/
structure Artifact where
  id : Identifier
  kind : ArtifactKind
  logicalPath : String
  digest : Digest
  size : Nat
  origin : ArtifactOrigin
  firstParty : Bool
  producer : Option Identifier
  inputs : List Identifier
  receiptPath : Option String
  origin_is_consistent : (origin = .external -> firstParty = false) ∧
    (origin = .oracle -> firstParty = false) ∧
    (origin = .external ∨ origin = .oracle -> producer = none) ∧
    id ∉ inputs
deriving DecidableEq

inductive ProvenanceKind where
  | source | toolchain | producer | objectTransform | intervention | metadataTransform | external
  | oracleInstall
deriving DecidableEq

/-- The operations of an object transform. -/
inductive ObjectTransformOperation where
  | restoreComdatGroupOrder | swapComdatGroupOrder
deriving DecidableEq

def ObjectTransformOperation.value : ObjectTransformOperation -> String
  | .restoreComdatGroupOrder => "restore_comdat_group_order"
  | .swapComdatGroupOrder => "swap_comdat_group_order"

def objectTransformOperations : List String :=
  [ObjectTransformOperation.restoreComdatGroupOrder.value,
    ObjectTransformOperation.swapComdatGroupOrder.value]

/-- One node in the artifact ancestry graph. -/
structure ProvenanceNode where
  id : Identifier
  kind : ProvenanceKind
  operation : Identifier
  origin : ArtifactOrigin
  parents : List Identifier
  artifactId : Identifier
  byteRange : Option ByteRange
  interventionId : Option Identifier
  certificateIds : List Identifier
  kind_is_consistent : id ∉ parents ∧
    (kind = .oracleInstall -> origin = .oracle ∧ interventionId.isSome) ∧
    (kind ≠ .oracleInstall -> origin ≠ .oracle) ∧
    (kind = .objectTransform ->
      origin = .composed ∧ operation ∈ objectTransformOperations ∧ parents.length = 1 ∧
      interventionId = none ∧ certificateIds = []) ∧
    (kind = .intervention -> interventionId.isSome)
deriving DecidableEq

structure ProofObligation where
  name : Identifier
  passed : Bool
  evidenceDigest : Option Digest
deriving DecidableEq

/-- Output of a semantic validator; statements are canonical JSON. -/
structure SemanticProof where
  family : Identifier
  validatorId : Identifier
  validatorDigest : Digest
  inputStatementDigest : Digest
  outputStatementDigest : Digest
  obligations : List Identifier
  evidenceDigest : Digest
  inputStatement : Option String
  outputStatement : Option String
deriving DecidableEq

/-- Proof receipt for one intervention. -/
structure Certificate where
  id : Identifier
  interventionId : Identifier
  interventionAuthorityDigest : Digest
  interventionCostDigest : Digest
  obligations : List ProofObligation
  artifactIds : List Identifier
  semanticProofs : List SemanticProof
  obligations_nonempty : obligations ≠ []
  artifacts_nonempty : artifactIds ≠ []
deriving DecidableEq

def Certificate.passed (c : Certificate) : Bool := c.obligations.all (·.passed)

/-! ## Interventions -/

inductive ClassicRecipeFamily where
  | declarationShape | donorSourceOverlay | forwardDeclarationRun | padShape | externRunPair
  | forwardRunWithShape | declarationRunTriple | prefixForwardAfterIncludesExtern
  | equalBodyStrict | equalBodyEhStructuralLocal | sameSlotResize | equalBodyEhRelocLayout
  | retailExactRelocDivergent | retailExactDonorRewriting | retailExactInstructionMosaic
  | retailExactRegisterBijection | retailExactSourceEqualBody | retailExactComposedRewriting
  | retailExactSourceTargetClosure | retailExactWebRecolour
  | retailExactCrossTuCompleteTargetResize | retailExactRegisterBijectionReencoding
  | retailExactSameTuInstructionHybridResize | retailExactSimulatedElision
  | sourceOverlayGraph | archiveAdmission | imageMetadata | imageLinkOrder | imageBinaryRepack
deriving DecidableEq

def ClassicRecipeFamily.value : ClassicRecipeFamily -> String
  | .declarationShape => "declaration_shape"
  | .donorSourceOverlay => "donor_source_overlay"
  | .forwardDeclarationRun => "forward_declaration_run"
  | .padShape => "pad_shape"
  | .externRunPair => "extern_run_pair"
  | .forwardRunWithShape => "forward_run_with_shape"
  | .declarationRunTriple => "declaration_run_triple"
  | .prefixForwardAfterIncludesExtern => "prefix_forward_after_includes_extern"
  | .equalBodyStrict => "equal_body_strict"
  | .equalBodyEhStructuralLocal => "equal_body_eh_structural_local"
  | .sameSlotResize => "same_slot_resize"
  | .equalBodyEhRelocLayout => "equal_body_eh_reloc_layout"
  | .retailExactRelocDivergent => "retail_exact_reloc_divergent"
  | .retailExactDonorRewriting => "retail_exact_donor_rewriting"
  | .retailExactInstructionMosaic => "retail_exact_instruction_mosaic"
  | .retailExactRegisterBijection => "retail_exact_register_bijection"
  | .retailExactSourceEqualBody => "retail_exact_source_equal_body"
  | .retailExactComposedRewriting => "retail_exact_composed_rewriting"
  | .retailExactSourceTargetClosure => "retail_exact_source_target_closure"
  | .retailExactWebRecolour => "retail_exact_web_recolour"
  | .retailExactCrossTuCompleteTargetResize => "retail_exact_cross_tu_complete_target_resize"
  | .retailExactRegisterBijectionReencoding => "retail_exact_register_bijection_reencoding"
  | .retailExactSameTuInstructionHybridResize => "retail_exact_same_tu_instruction_hybrid_resize"
  | .retailExactSimulatedElision => "retail_exact_simulated_elision"
  | .sourceOverlayGraph => "source_overlay_graph"
  | .archiveAdmission => "archive_admission"
  | .imageMetadata => "image_metadata"
  | .imageLinkOrder => "image_link_order"
  | .imageBinaryRepack => "image_binary_repack"

inductive ClassicRecipeRole where
  | function | donor | project
deriving DecidableEq

def classicRecipeFamilyRole : ClassicRecipeFamily -> Option ClassicRecipeRole
  | .declarationShape | .donorSourceOverlay | .forwardDeclarationRun | .padShape
  | .externRunPair | .forwardRunWithShape | .declarationRunTriple
  | .prefixForwardAfterIncludesExtern => some .donor
  | .retailExactSimulatedElision | .archiveAdmission => none
  | .sourceOverlayGraph | .imageMetadata | .imageLinkOrder | .imageBinaryRepack => some .project
  | _ => some .function

/-- One reviewed family validator admitted by the engine. -/
structure RegisteredSemanticContract where
  validatorId : String
  validatorDigest : Digest
  obligations : List String
deriving DecidableEq

def sourceOverlayObligations : List String :=
  ["overlay.carrier_isolation", "overlay.donor_semantics", "overlay.dual_compile_epoch",
    "overlay.effective_confinement", "overlay.primary_source_clean",
    "overlay.project_source_semantics"]

def donorObligations : List String :=
  ["donor.fresh_compile", "donor.private_artifact", "donor.runtime_inputs_bound"]

def binaryTransformObligations : List String :=
  ["binary.closed_validator", "binary.input_closure", "binary.semantic_equivalence"]

def imageMetadataObligations : List String :=
  ["image.candidate_only", "image.logic_bytes_unchanged", "image.metadata_only"]

def imageLinkOrderObligations : List String :=
  ["image.candidate_only", "image.import_binding_preserved", "image.semantic_equivalence"]

def imageBinaryRepackObligations : List String :=
  ["image.byte_conservation", "image.candidate_only", "image.fixups_preserved",
    "image.semantic_equivalence"]

/-- The shape of a legacy oracle install that an audit reads. -/
structure LegacyOracleInstall where
  oracleAddress : Nat
  outputRanges : List ByteRange
  byteCount : Nat
  ranges_nonempty : outputRanges ≠ []
  ranges_ordered : outputRanges.Pairwise fun a b => a.offset <= b.offset
  ranges_disjoint : outputRanges.IsChain fun a b => a.overlaps b = false
  byte_count_eq : (outputRanges.map (·.length)).sum = byteCount
deriving DecidableEq

/-- The kinds an audit does not tell apart are named by their tag. -/
inductive InterventionKind where
  | classicRecipe (family : ClassicRecipeFamily)
  | legacyOracleInstall (install : LegacyOracleInstall)
  | other (kind : String)
deriving DecidableEq

structure Intervention where
  id : Identifier
  scope : Scope
  kind : InterventionKind
deriving DecidableEq

def Intervention.classicFamily (i : Intervention) : Option ClassicRecipeFamily :=
  match i.kind with
  | .classicRecipe family => some family
  | _ => none

def Intervention.legacyInstall (i : Intervention) : Option LegacyOracleInstall :=
  match i.kind with
  | .legacyOracleInstall install => some install
  | _ => none

structure LockedTool where
  id : Identifier
  digest : Digest
  size : Nat
deriving DecidableEq

structure InputTreeReceipt where
  id : Identifier
  path : String
  algorithm : String
  entryCount : Nat
  maxDepth : Nat
  membershipDigest : Digest
  contentDigest : Digest
deriving DecidableEq

structure TargetSpec where
  id : Identifier
  artifact : String
deriving DecidableEq

/-- A project bundle as far as an audit reads it. -/
structure ProjectBundle where
  targets : List TargetSpec
  toolchainPath : String
  tools : List LockedTool
  runtimeFiles : List LockedTool
  inputTrees : List InputTreeReceipt
  interventions : List Intervention
  target_ids_unique : (targets.map (·.id)).Nodup
  intervention_ids_unique : (interventions.map (·.id)).Nodup

structure FileReceipt where
  path : String
  digest : Digest
  size : Nat
  fresh : Bool
  producerStep : Option String
deriving DecidableEq

structure StepExecutionReceipt where
  stepId : String
  returncode : Int
  attempts : Nat
  outputDigest : Digest
  commandDigest : Digest
deriving DecidableEq

structure BuildExecutionReceipt where
  cold : Bool
  inputs : List FileReceipt
  outputs : List FileReceipt
  steps : List StepExecutionReceipt

/-- A verified target with the size and digest its comparison measured. -/
structure TargetVerification where
  targetId : String
  artifact : String
  candidateSize : Nat
  candidateDigest : String
deriving DecidableEq

/-- Fresh trusted claim binding artifact ranges to a locked producer. -/
structure ProducerAttestation where
  id : String
  artifactId : String
  stepId : String
  toolId : String
  toolDigest : Digest
  artifactDigest : Digest
  artifactSize : Nat
  ranges : List ByteRange
  capturedBeforeOverwrite : Bool
deriving DecidableEq

/-- Current-run receipt for one deterministic object rewrite. -/
structure ObjectTransformAttestation where
  id : String
  artifactId : String
  inputArtifactId : String
  stepId : String
  operation : ObjectTransformOperation
  inputDigest : Digest
  inputSize : Nat
  artifactDigest : Digest
  artifactSize : Nat
  stepBindingDigest : Digest
deriving DecidableEq

/-- Evidence freshly issued by one trusted code-side provider. -/
structure RuntimeEvidence where
  artifacts : List Artifact
  provenance : List ProvenanceNode
  certificates : List Certificate
  producers : List ProducerAttestation
  objectTransforms : List ObjectTransformAttestation

inductive EvidenceClaim where
  | logic | origin
deriving DecidableEq

structure EvidenceIssue where
  claim : EvidenceClaim
  code : String
  message : String
deriving DecidableEq

inductive CoordinateSpace where
  | artifactFile | functionBody
deriving DecidableEq

/-- Disclosed byte ancestry that prevents a clean verdict. -/
structure Quarantine where
  id : Identifier
  kind : Identifier
  artifactId : Identifier
  ranges : List ByteRange
  byteCount : Nat
  reason : String
  coordinateSpace : CoordinateSpace
  scope : Scope
  baseAddress : Nat
  proofBinding : Option Digest
deriving DecidableEq

structure EvidenceAudit where
  issues : List EvidenceIssue
  quarantines : List Quarantine

def EvidenceAudit.logicCertified (a : EvidenceAudit) : Bool :=
  !a.issues.any fun issue => issue.claim == .logic

/-- Whether every non-quarantined origin claim is complete and valid. -/
def EvidenceAudit.originIntegrity (a : EvidenceAudit) : Bool :=
  !a.issues.any fun issue => issue.claim == .origin

def EvidenceAudit.toolchainOrigin (a : EvidenceAudit) : Bool :=
  a.quarantines.isEmpty && a.originIntegrity

end Reprobit.Evidence

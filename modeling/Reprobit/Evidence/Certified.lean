import Reprobit.Evidence.Audit

/-!
# What a clean audit says about transforms

The checks on certificates, interventions and nodes are guarded by different
optional fields.  Read together they certify every transform for itself, with
one exception: a metadata transform need not name an intervention, and then any
certificate that lists its artifact is accepted.
-/

namespace Reprobit.Evidence

open List

def Clean (claim : EvidenceClaim) (issues : List EvidenceIssue) : Prop :=
  ∀ issue ∈ issues, issue.claim ≠ claim

variable {claim : EvidenceClaim} {issues issues' : List EvidenceIssue} {a : EvidenceAudit}

@[simp] theorem clean_nil : Clean claim [] := by simp [Clean]

@[simp] theorem clean_cons {issue : EvidenceIssue} :
    Clean claim (issue :: issues) ↔ issue.claim ≠ claim ∧ Clean claim issues := by
  simp [Clean]

@[simp] theorem clean_append :
    Clean claim (issues ++ issues') ↔ Clean claim issues ∧ Clean claim issues' := by
  simp [Clean, or_imp, forall_and]

@[simp] theorem clean_flatMap {α : Type} {items : List α} {f : α -> List EvidenceIssue} :
    Clean claim (items.flatMap f) ↔ ∀ item ∈ items, Clean claim (f item) := by
  simp only [Clean, mem_flatMap, forall_exists_index, and_imp]
  exact ⟨fun h item hi issue hm => h issue item hi hm, fun h issue item hi hm => h item hi issue hm⟩

@[simp] theorem clean_flag {condition : Prop} [Decidable condition] {claim' : EvidenceClaim}
    {code message : String} :
    Clean claim (flag condition claim' code message) ↔ (claim' = claim -> ¬ condition) := by
  unfold flag
  split <;> simp_all

theorem logicCertified_iff : a.logicCertified = true ↔ Clean .logic a.issues := by
  simp [EvidenceAudit.logicCertified, Clean]

theorem originIntegrity_iff : a.originIntegrity = true ↔ Clean .origin a.issues := by
  simp [EvidenceAudit.originIntegrity, Clean]

section Index

variable {α : Type} {key : α -> Identifier} {report : Identifier -> List EvidenceIssue}
  {items : List α} {item : α}

theorem uniqueIndex_of_clean (hreport : ∀ id, ¬ Clean claim (report id))
    (h : Clean claim (uniqueIndex key report items).2) :
    (uniqueIndex key report items).1 = items ∧ (items.map key).Nodup := by
  induction items using List.reverseRecOn with
  | nil => simp [uniqueIndex]
  | append_singleton items item ih =>
    have hstep : uniqueIndex key report (items ++ [item]) =
        if key item ∈ (uniqueIndex key report items).1.map key then
          ((uniqueIndex key report items).1, (uniqueIndex key report items).2 ++ report (key item))
        else ((uniqueIndex key report items).1 ++ [item], (uniqueIndex key report items).2) := by
      simp [uniqueIndex]
    rw [hstep] at h ⊢
    split at h
    · exact absurd (clean_append.mp h).2 (hreport _)
    · rename_i hnew
      obtain ⟨heq, hnd⟩ := ih h
      rw [heq] at hnew ⊢
      refine ⟨by rw [if_neg hnew], ?_⟩
      rw [map_append, nodup_append]
      refine ⟨hnd, by simp, fun a ha b hb => ?_⟩
      rintro rfl
      exact hnew ((mem_singleton.mp hb) ▸ ha)

theorem lookup_eq_some {id : Identifier} (h : lookup key items id = some item) :
    item ∈ items ∧ key item = id :=
  ⟨mem_of_find?_eq_some h, by simpa using find?_some h⟩

theorem lookup_of_mem (hnd : (items.map key).Nodup) (hmem : item ∈ items) :
    lookup key items (key item) = some item := by
  cases hf : lookup key items (key item) with
  | none =>
    have := find?_eq_none.mp hf item hmem
    simp at this
  | some found =>
    obtain ⟨hfound, hkey⟩ := lookup_eq_some hf
    rw [inj_on_of_nodup_map hnd hfound hmem hkey]

end Index

/-- The evidence of all providers, each item under its own id. -/
structure Index.Complete (ix : Index) (runtime : List RuntimeEvidence) : Prop where
  artifacts : ix.artifacts = runtime.flatMap (·.artifacts)
  nodes : ix.nodes = runtime.flatMap (·.provenance)
  certificates : ix.certificates = runtime.flatMap (·.certificates)
  artifacts_nodup : (ix.artifacts.map (·.id)).Nodup
  nodes_nodup : (ix.nodes.map (·.id)).Nodup
  certificates_nodup : (ix.certificates.map (·.id)).Nodup

theorem duplicateIssues_not_clean (label : String) (id : Identifier) :
    ¬ Clean claim (duplicateIssues label id) := by
  cases claim <;> simp [duplicateIssues]

theorem buildIndex_complete {runtime : List RuntimeEvidence}
    (h : Clean claim (buildIndex runtime).2) : (buildIndex runtime).1.Complete runtime := by
  simp only [buildIndex, clean_append] at h
  obtain ⟨⟨ha, hn⟩, hc⟩ := h
  obtain ⟨ha, ha'⟩ := uniqueIndex_of_clean (duplicateIssues_not_clean _) ha
  obtain ⟨hn, hn'⟩ := uniqueIndex_of_clean (duplicateIssues_not_clean _) hn
  obtain ⟨hc, hc'⟩ := uniqueIndex_of_clean (duplicateIssues_not_clean _) hc
  exact ⟨ha, hn, hc, by rw [buildIndex]; simpa only [ha] using ha',
    by rw [buildIndex]; simpa only [hn] using hn', by rw [buildIndex]; simpa only [hc] using hc'⟩

section Checks

variable {env : Surroundings} {bundle : ProjectBundle} {build : BuildExecutionReceipt}
  {targets : List TargetVerification} {runtime : List RuntimeEvidence} {result : EvidenceAudit}

/-- The checks of the audit by name. -/
structure CleanChecks (claim : EvidenceClaim) (env : Surroundings) (bundle : ProjectBundle)
    (build : BuildExecutionReceipt) (targets : List TargetVerification)
    (runtime : List RuntimeEvidence) (ix : Index) : Prop where
  complete : ix.Complete runtime
  certificates : ∀ c ∈ ix.certificates, Clean claim (certificateIssues env bundle ix c)
  interventions : ∀ i ∈ bundle.interventions, Clean claim (interventionIssues env ix i)
  nodes : ∀ n ∈ ix.nodes, Clean claim (nodeIssues env bundle ix n)
  cycles : Clean claim (validateNodeCycles ix)
  targets : ∀ t ∈ bundle.targets, Clean claim (targetIssues env targets ix
    (validateProducers env bundle build runtime ix).1 bundle.legacyInterventionIds t)

theorem audit_issues (h : audit env bundle build targets runtime = .ok result) :
    ∃ rest, result.issues = auditIssues env bundle build targets runtime ++ rest := by
  simp only [audit, bind_eq_ok, pure_eq_ok] at h
  obtain ⟨quarantines, -, rfl⟩ := h
  exact ⟨_, rfl⟩

theorem audit_cleanChecks (h : audit env bundle build targets runtime = .ok result)
    (hclean : Clean claim result.issues) :
    CleanChecks claim env bundle build targets runtime (buildIndex runtime).1 := by
  obtain ⟨rest, hissues⟩ := audit_issues h
  rw [hissues] at hclean
  have hclean := (clean_append.mp hclean).1
  simp only [auditIssues, clean_append, clean_flatMap] at hclean
  obtain ⟨⟨⟨⟨⟨⟨⟨⟨⟨⟨⟨⟨h1, h2⟩, h3⟩, h4⟩, -⟩, h6⟩, -⟩, -⟩, -⟩, -⟩, -⟩, -⟩, h13⟩ := hclean
  exact ⟨buildIndex_complete h1, h2, h3, h4, h6, h13⟩

end Checks

/-! ## Certified for itself -/

variable {env : Surroundings} {bundle : ProjectBundle} {build : BuildExecutionReceipt}
  {targets : List TargetVerification} {runtime : List RuntimeEvidence} {ix : Index}
  {node : ProvenanceNode}

/-- A passing receipt for an intervention and artifact, still current. -/
structure IssuedFor (env : Surroundings) (intervention : Intervention) (artifactId : Identifier)
    (c : Certificate) : Prop where
  passed : c.passed = true
  intervention_eq : c.interventionId = intervention.id
  authority : c.interventionAuthorityDigest = env.interventionAuthorityDigest intervention
  cost : c.interventionCostDigest = env.interventionCostRowDigest intervention
  covers : artifactId ∈ c.artifactIds

/-- Its certificates were issued for its intervention and artifact, and a classic recipe has
its registered proof. -/
structure CertifiedForItself (env : Surroundings) (bundle : ProjectBundle)
    (certificates : List Certificate) (node : ProvenanceNode) (intervention : Intervention) :
    Prop where
  declared : intervention ∈ bundle.interventions
  named : node.interventionId = some intervention.id
  certified : node.certificateIds ≠ []
  exist : ∀ id ∈ node.certificateIds, ∃ c ∈ certificates, c.id = id
  issued : ∀ c ∈ certificates, c.id ∈ node.certificateIds ->
    IssuedFor env intervention node.artifactId c
  proved : ∀ family, intervention.classicFamily = some family ->
    ∃ contract, classicSemanticContracts env family = some contract ∧
      ∃ c ∈ certificates, c.id ∈ node.certificateIds ∧
        hasRegisteredSemanticProof env c family contract = true

section

variable (hc : CleanChecks .logic env bundle build targets runtime ix)

include hc

variable (hnode : node ∈ ix.nodes)

include hnode

variable {id : Identifier} {intervention : Intervention}

theorem certificate_named (hid : id ∈ node.certificateIds) :
    ∃ c, ix.certificate id = some c ∧ (node.interventionId.isSome ->
      some c.interventionId = node.interventionId) ∧ node.artifactId ∈ c.artifactIds := by
  have h := hc.nodes node hnode
  simp only [nodeIssues, clean_append, clean_flatMap] at h
  have hcert := h.1.2 id hid
  unfold nodeCertificateIssues at hcert
  cases hget : ix.certificate id with
  | none => simp [hget] at hcert
  | some c =>
    simp only [hget] at hcert
    split at hcert
    · simp at hcert
    · rename_i hmatch
      simp only [clean_flag, forall_const, not_not] at hcert
      refine ⟨c, rfl, fun hs => ?_, hcert⟩
      by_contra hne
      exact hmatch ⟨hs, hne⟩

theorem intervention_named (hid : node.interventionId = some id) :
    ∃ intervention, bundle.intervention id = some intervention := by
  have h := hc.nodes node hnode
  simp only [nodeIssues, clean_append] at h
  have hint := h.1.1.2
  simp only [hid, clean_flag, forall_const] at hint
  exact Option.ne_none_iff_exists'.mp hint

theorem transform_passed (hkind : node.kind.certified = true) : node.certificateIds ≠ [] ∧
      (∀ id ∈ node.certificateIds, ∀ c, ix.certificate id = some c -> c.passed = true) ∧
      Clean .logic (transformSemanticIssues env bundle ix node) := by
  have h := hc.nodes node hnode
  simp only [nodeIssues, clean_append] at h
  have ht := h.2
  simp only [transformIssues, if_pos hkind, clean_append, clean_flag, forall_const] at ht
  obtain ⟨⟨hne, hfail⟩, hsem⟩ := ht
  refine ⟨hne, fun id hid c hget => ?_, hsem⟩
  by_contra hp
  refine hfail ⟨hne, ?_⟩
  simp only [any_eq_true]
  exact ⟨id, hid, by simp [hget, hp]⟩

omit hnode in
theorem certificate_current {c : Certificate} (hmem : c ∈ ix.certificates)
    (hget : bundle.intervention c.interventionId = some intervention) :
    c.interventionAuthorityDigest = env.interventionAuthorityDigest intervention ∧
      c.interventionCostDigest = env.interventionCostRowDigest intervention := by
  have h := hc.certificates c hmem
  simp only [certificateIssues, hget, clean_append, clean_flag, forall_const, not_not] at h
  exact h.1.1

theorem transform_proved (hkind : node.kind.certified = true)
    (hint : node.interventionId.bind bundle.intervention = some intervention)
    (hdecl : intervention ∈ bundle.interventions) {family : ClassicRecipeFamily}
    (hfam : intervention.classicFamily = some family) :
    ∃ contract, classicSemanticContracts env family = some contract ∧
      ∃ c ∈ ix.certificates, c.id ∈ node.certificateIds ∧
        hasRegisteredSemanticProof env c family contract = true := by
  obtain ⟨hne, -, hsem⟩ := transform_passed hc hnode hkind
  have hreg := hc.interventions intervention hdecl
  simp only [interventionIssues, hfam] at hreg
  cases hcon : classicSemanticContracts env family with
  | none => simp [hcon] at hreg
  | some contract =>
    refine ⟨contract, rfl, ?_⟩
    simp only [transformSemanticIssues, hint, Option.bind_some, hfam, hcon, clean_flag,
      forall_const, not_and, not_not] at hsem
    obtain ⟨id, hid, hbind⟩ := any_eq_true.mp (hsem hne)
    unfold bindsSemanticProof at hbind
    cases hget : ix.certificate id with
    | none => simp [hget] at hbind
    | some c =>
      simp only [hget, Bool.and_eq_true] at hbind
      obtain ⟨hmem, rfl⟩ := lookup_eq_some hget
      exact ⟨c, hmem, hid, hbind.2⟩

theorem certifiedForItself_of_named
    (hkind : node.kind.certified = true) (hid : node.interventionId = some id) :
    ∃ intervention, CertifiedForItself env bundle ix.certificates node intervention := by
  obtain ⟨intervention, hget⟩ := intervention_named hc hnode hid
  obtain ⟨hdecl, rfl⟩ := lookup_eq_some hget
  obtain ⟨hne, hpass, -⟩ := transform_passed hc hnode hkind
  refine ⟨intervention, hdecl, hid, hne, fun cid hcid => ?_, fun c hmem hcid => ?_,
    fun family hfam => ?_⟩
  · obtain ⟨c, hcget, -⟩ := certificate_named hc hnode hcid
    obtain ⟨hmem, hkey⟩ := lookup_eq_some hcget
    exact ⟨c, hmem, hkey⟩
  · obtain ⟨c', hcget, hsame, hcover⟩ := certificate_named hc hnode hcid
    have hown : ix.certificate c.id = some c := lookup_of_mem hc.complete.certificates_nodup hmem
    rw [hown] at hcget
    cases hcget
    have hint : c.interventionId = intervention.id := by
      have := hsame (by simp [hid])
      simpa [hid] using this
    obtain ⟨hauth, hcost⟩ := certificate_current hc hmem (by rw [hint]; exact hget)
    exact ⟨hpass c.id hcid c hown, hint, hauth, hcost, hcover⟩
  · exact transform_proved hc hnode hkind (by rw [hid]; exact hget) hdecl hfam

end

theorem ProvenanceKind.certified_cases {kind : ProvenanceKind} (h : kind.certified = true) :
    kind = .intervention ∨ kind = .metadataTransform ∨ kind = .oracleInstall := by
  cases kind <;> simp_all [ProvenanceKind.certified]

def transforms (runtime : List RuntimeEvidence) : List ProvenanceNode :=
  (runtime.flatMap (·.provenance)).filter fun node => node.kind.certified

def TransformsCertified (env : Surroundings) (bundle : ProjectBundle)
    (runtime : List RuntimeEvidence) : Prop :=
  ∀ node ∈ transforms runtime, ∃ intervention,
    CertifiedForItself env bundle (runtime.flatMap (·.certificates)) node intervention

/-- After a clean audit the transforms are certified for themselves exactly when
every metadata transform names an intervention; the record of the other kinds
cannot be built without one. -/
theorem transformsCertified_iff (env : Surroundings) (bundle : ProjectBundle)
    (build : BuildExecutionReceipt) (targets : List TargetVerification)
    (runtime : List RuntimeEvidence) (result : EvidenceAudit)
    (haudit : audit env bundle build targets runtime = .ok result)
    (hlogic : result.logicCertified = true) :
    TransformsCertified env bundle runtime ↔
      ∀ node ∈ runtime.flatMap (·.provenance), node.kind = .metadataTransform ->
        node.interventionId.isSome := by
  have hc := audit_cleanChecks haudit (logicCertified_iff.mp hlogic)
  constructor
  · intro h node hnode hkind
    obtain ⟨intervention, hcert⟩ := h node (mem_filter.mpr ⟨hnode, by rw [hkind]; rfl⟩)
    rw [hcert.named]
    rfl
  · intro h node hnode
    obtain ⟨hnode, hkind⟩ := mem_filter.mp hnode
    have hmem : node ∈ (buildIndex runtime).1.nodes := hc.complete.nodes ▸ hnode
    have hsome : node.interventionId.isSome := by
      obtain ⟨-, horacle, -, -, hintervention⟩ := node.kind_is_consistent
      rcases ProvenanceKind.certified_cases hkind with hk | hk | hk
      · exact hintervention hk
      · exact h node hnode hk
      · exact (horacle hk).2
    obtain ⟨id, hid⟩ := Option.isSome_iff_exists.mp hsome
    rw [<- hc.complete.certificates]
    exact certifiedForItself_of_named hc hmem hkind hid

/-! ## A stamped image

One source file, one image linked from it and a metadata transform on the image.
The only certificate was issued for another intervention.
-/

def plainSurroundings : Surroundings where
  interventionAuthorityDigest _ := ⟨"0"⟩
  interventionCostRowDigest _ := ⟨"0"⟩
  classicValidatorImplementationDigest := ⟨"0"⟩
  sourceOverlayValidatorId := "overlay"
  sourceOverlayValidatorDigest := ⟨"0"⟩
  semanticProofEvidenceDigest _ _ _ _ _ _ := ⟨"0"⟩
  quarantineProofBinding _ _ _ := ⟨"0"⟩
  casefold := id
  isAbsolute _ := true
  resolve := id
  underProjectRoot := id
  logicalParts _ := none
  posixParts _ := []
  ancestor path _ := path
  portableTreeReceipt _ _ := none
  pe32Image _ := none

def stampBundle : ProjectBundle where
  targets := [⟨"app", "app.exe"⟩]
  toolchainPath := "tools"
  tools := []
  runtimeFiles := []
  inputTrees := []
  interventions := [⟨"pad", ⟨"app", none, none, by decide⟩, .other "state_carrier"⟩]
  target_ids_unique := by decide
  intervention_ids_unique := by decide

def stampBuild : BuildExecutionReceipt where
  cold := true
  inputs := [⟨"/main.c", ⟨"1"⟩, 1, false, none⟩]
  outputs := []
  steps := []

def stampTargets : List TargetVerification := [⟨"app", "/app.exe", 1, "2"⟩]

def imageLink : ProvenanceNode :=
  ⟨"link", .producer, "link", .freshSeed, ["read"], "image", none, none, [], by decide⟩

def stampEvidence (intervention : Option Identifier) : List RuntimeEvidence :=
  [{ artifacts :=
      [⟨"main", .source, "/main.c", ⟨"1"⟩, 1, .freshSeed, true, none, [], none, by decide⟩,
        ⟨"image", .image, "app.exe", ⟨"2"⟩, 1, .certifiedPostlink, true, none, ["main"], none,
          by decide⟩]
     provenance :=
      [⟨"read", .source, "read", .freshSeed, [], "main", none, none, [], by decide⟩, imageLink,
        ⟨"stamp", .metadataTransform, "stamp", .certifiedPostlink, ["link"], "image", none,
          intervention, ["pad-certificate"], by simp⟩]
     certificates :=
      [⟨"pad-certificate", "pad", ⟨"0"⟩, ⟨"0"⟩, [⟨"padding", true, some ⟨"0"⟩⟩], ["image"], [],
        by decide, by decide⟩]
     producers := []
     objectTransforms := [] }]

theorem transformsCertified_stamp :
    ∃ result, audit plainSurroundings stampBundle stampBuild stampTargets
        (stampEvidence (some "pad")) = .ok result ∧
      result.logicCertified = true ∧
      TransformsCertified plainSurroundings stampBundle (stampEvidence (some "pad")) := by
  refine ⟨_, rfl, by decide, ?_⟩
  exact (transformsCertified_iff _ _ stampBuild stampTargets _ _ rfl (by decide)).mpr
    (by decide)

/-- A stamp that names no intervention passes the audit, origin included, on the
certificate of the padding. -/
theorem stamp_certified_by_another :
    ∃ result, audit plainSurroundings stampBundle stampBuild stampTargets
        (stampEvidence none) = .ok result ∧
      result.logicCertified = true ∧ result.originIntegrity = true ∧
      ¬ TransformsCertified plainSurroundings stampBundle (stampEvidence none) := by
  refine ⟨_, rfl, by decide, by decide, fun h => ?_⟩
  obtain ⟨intervention, hcert⟩ := h
    ⟨"stamp", .metadataTransform, "stamp", .certifiedPostlink, ["link"], "image", none,
      none, ["pad-certificate"], by decide⟩ (by decide)
  exact absurd hcert.named (by simp)

end Reprobit.Evidence

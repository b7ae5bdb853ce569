import Reprobit.Evidence.Certified

/-!
# What a clean audit says about oracle ancestry

Bytes flow along the declared inputs of artifacts; the audit walks the parents of
provenance nodes.  Every node attached to a target's artifact is walked, since the
node graph has no cycle, but an artifact further up may carry nodes that no
consumer names, and the origin of an artifact is never compared with its nodes.
-/

namespace Reprobit.Evidence

open Machine List

/-- One artifact is built, at any distance, from another one. -/
def InputClosure (artifacts : List Artifact) : Artifact -> Artifact -> Prop :=
  Relation.ReflTransGen fun a b => b ∈ artifacts ∧ b.id ∈ a.inputs

def Descends (nodes : List ProvenanceNode) : ProvenanceNode -> ProvenanceNode -> Prop :=
  Relation.ReflTransGen fun n parent => parent ∈ nodes ∧ parent.id ∈ n.parents

variable {env : Surroundings} {bundle : ProjectBundle} {build : BuildExecutionReceipt}
  {targets : List TargetVerification} {runtime : List RuntimeEvidence} {ix : Index}
  {node : ProvenanceNode}

theorem Index.parents_of_mem (hc : ix.Complete runtime) (hnode : node ∈ ix.nodes) :
    ix.parents node.id = some node.parents := by
  unfold Index.parents Index.node
  rw [lookup_of_mem hc.nodes_nodup hnode]
  rfl

theorem Index.parents_isSome {id : Identifier} (h : (ix.parents id).isSome) :
    id ∈ ix.nodes.map (·.id) := by
  obtain ⟨n, hn⟩ : ∃ n, ix.node id = some n := by
    simpa [Index.parents, Option.isSome_iff_exists] using h
  obtain ⟨hmem, rfl⟩ := lookup_eq_some hn
  exact mem_map_of_mem hmem

theorem unpushed_parents (hc : ix.Complete runtime) :
    unpushed ix.parents (ix.nodes.map (·.id)).toFinset ∅ =
      (ix.nodes.map (·.parents.length)).sum := by
  unfold unpushed
  rw [Finset.sdiff_empty, sum_toFinset _ hc.nodes_nodup, map_map]
  congr 1
  refine map_congr_left fun n hn => ?_
  simp [Index.parents_of_mem hc hn]

theorem ancestry_closed (hc : ix.Complete runtime) (terminal : List ProvenanceNode) :
    (∀ n ∈ terminal, n ∈ ix.nodes -> n.id ∈ ix.ancestry terminal) ∧
      WalkClosed ix.parents [] (ix.ancestry terminal) := by
  have hU : ∀ id, (ix.parents id).isSome -> id ∈ (ix.nodes.map (·.id)).toFinset :=
    fun id hid => mem_toFinset.mpr (Index.parents_isSome hid)
  have hstart : WalkClosed ix.parents (terminal.map (·.id)).reverse ∅ := by simp [WalkClosed]
  have hfuel : (terminal.map (·.id)).reverse.length +
      unpushed ix.parents (ix.nodes.map (·.id)).toFinset ∅ <=
        terminal.length + (ix.nodes.map (·.parents.length)).sum := by
    rw [unpushed_parents hc]
    simp
  obtain ⟨-, h2, h3⟩ := walkLoop_closed hU hstart hfuel
  refine ⟨fun n hn hmem => h2 n.id (by simpa using ⟨n, hn, rfl⟩) ?_, h3⟩
  rw [Index.parents_of_mem hc hmem]
  rfl

theorem mem_ancestry (hc : ix.Complete runtime) {terminal : List ProvenanceNode}
    {t n : ProvenanceNode} (ht : t ∈ terminal) (hmem : t ∈ ix.nodes)
    (h : Descends ix.nodes t n) : n ∈ ix.nodes ∧ n.id ∈ ix.ancestry terminal := by
  obtain ⟨hstart, hclosed⟩ := ancestry_closed hc terminal
  induction h with
  | refl => exact ⟨hmem, hstart t ht hmem⟩
  | @tail m p _ hstep ih =>
    obtain ⟨hm, hwalk⟩ := ih
    obtain ⟨hp, hparent⟩ := hstep
    have hsome : (ix.parents p.id).isSome := by
      rw [Index.parents_of_mem hc hp]
      rfl
    have hin := hclosed m.id hwalk _ (Index.parents_of_mem hc hm) p.id hparent hsome
    exact ⟨hp, hin.resolve_right (by simp)⟩

section

variable (hc : CleanChecks .origin env bundle build targets runtime ix) {target : TargetSpec}
  {a : Artifact}

include hc

theorem exists_terminal (hnode : node ∈ ix.nodes) :
    ∃ t ∈ ix.terminal node.artifactId, t ∈ ix.nodes ∧ Descends ix.nodes t node := by
  have hcycle : hasCycle ix.parents (ix.nodes.map (·.id)) = false := by
    have := hc.cycles
    simp only [validateNodeCycles, clean_flag, forall_const, Bool.not_eq_true] at this
    exact this
  obtain ⟨rank, hrank⟩ := hasCycle_rank (fun n hn => Index.parents_isSome hn) hcycle
  -- follow the nodes that continue this one; the rank bounds their number
  induction hr : rank node.id using Nat.strong_induction_on generalizing node with
  | _ r ih =>
    subst hr
    by_cases hchild : node.id ∈ ix.children node.artifactId
    · obtain ⟨m, hm, hparent⟩ := mem_flatMap.mp hchild
      obtain ⟨hparent, hsame⟩ := mem_filter.mp hparent
      have hget : ix.node node.id = some node :=
        lookup_of_mem hc.complete.nodes_nodup hnode
      simp only [hget, Option.any_some, Bool.and_eq_true, decide_eq_true_eq, and_true] at hsame
      have hlt : rank m.id < rank node.id :=
        hrank m.id _ (Index.parents_of_mem hc.complete hm) node.id hparent
          (by rw [Index.parents_of_mem hc.complete hnode]; rfl)
      obtain ⟨t, ht, htmem, hdesc⟩ := ih _ hlt hm rfl
      exact ⟨t, hsame ▸ ht, htmem, hdesc.tail ⟨hnode, hparent⟩⟩
    · refine ⟨node, ?_, hnode, .refl⟩
      simp [Index.terminal, Index.nodesOf, hnode, hchild]

def ProvenanceNode.Forbidden (n : ProvenanceNode) : Prop :=
  n.kind = .oracleInstall ∨ n.origin = .staleRefused

omit hc in
theorem ProvenanceNode.forbidden_origin (h : node.Forbidden) :
    node.origin = .oracle ∨ node.origin = .staleRefused :=
  h.imp_left fun hk => (node.kind_is_consistent.2.1 hk).1

def NoHiddenOracle (runtime : List RuntimeEvidence) (a : Artifact) : Prop :=
  ∀ b, InputClosure (runtime.flatMap (·.artifacts)) a b ->
    b.origin ≠ .oracle ∧ b.origin ≠ .staleRefused ∧
    ∀ n ∈ runtime.flatMap (·.provenance), n.artifactId = b.id -> ¬ n.Forbidden

/-- An artifact of forbidden origin has such a node, and descends from it. -/
def ForbiddenVisible (runtime : List RuntimeEvidence) (a : Artifact) : Prop :=
  ∀ b, InputClosure (runtime.flatMap (·.artifacts)) a b ->
    (b.origin = .oracle ∨ b.origin = .staleRefused ->
      ∃ n ∈ runtime.flatMap (·.provenance), n.artifactId = b.id ∧ n.Forbidden) ∧
    ∀ n ∈ runtime.flatMap (·.provenance), n.artifactId = b.id -> n.Forbidden ->
      ∃ m ∈ runtime.flatMap (·.provenance), m.artifactId = a.id ∧
        Descends (runtime.flatMap (·.provenance)) m n

def targetArtifacts (env : Surroundings) (runtime : List RuntimeEvidence) (target : TargetSpec) :
    List Artifact :=
  (runtime.flatMap (·.artifacts)).filter fun a =>
    logicalPath env a.logicalPath = logicalPath env target.artifact

omit hc in
theorem legacyInterventionIds_eq_nil {result : EvidenceAudit}
    (haudit : audit env bundle build targets runtime = .ok result)
    (hnone : result.quarantines = []) : bundle.legacyInterventionIds = [] := by
  simp only [audit, bind_eq_ok, pure_eq_ok] at haudit
  obtain ⟨quarantines, henum, rfl⟩ := haudit
  have hlen := (enumerateFrom_eq_ok.mp henum).1
  have hnil : quarantines = [] := by
    have := congrArg List.length hnone
    simpa using this
  rw [hnil] at hlen
  rw [ProjectBundle.legacyInterventionIds, length_eq_zero_iff.mp hlen.symm, map_nil]

theorem walked_not_forbidden (hlegacy : bundle.legacyInterventionIds = [])
    (htarget : target ∈ bundle.targets) (ha : ix.targetArtifacts env target = [a])
    (hnode : node ∈ ix.nodes) (hwalk : node.id ∈ ix.ancestry (ix.terminal a.id)) :
    ¬ node.Forbidden := by
  intro hforbidden
  have h := hc.targets target htarget
  rw [targetIssues, ha] at h
  simp only [validateTargetOrigins, clean_append, clean_flatMap] at h
  have hn := h.2.2 node (mem_filter.mpr ⟨hnode, by simpa using hwalk⟩)
  simp only [targetNodeIssues, clean_append, clean_flag, forall_const] at hn
  refine hn.1.1 ?_
  rcases node.forbidden_origin hforbidden with ho | ho
  · exact .inr ⟨ho, by simp [disclosedLegacy, hlegacy]⟩
  · exact .inl ho

theorem descends_not_forbidden (hlegacy : bundle.legacyInterventionIds = [])
    (htarget : target ∈ bundle.targets) (ha : ix.targetArtifacts env target = [a])
    {m n : ProvenanceNode} (hm : m ∈ ix.nodes) (hma : m.artifactId = a.id)
    (hdesc : Descends ix.nodes m n) : ¬ n.Forbidden := by
  obtain ⟨t, ht, htmem, htm⟩ := exists_terminal hc hm
  rw [hma] at ht
  obtain ⟨hn, hwalk⟩ := mem_ancestry hc.complete ht htmem (htm.trans hdesc)
  exact walked_not_forbidden hc hlegacy htarget ha hn hwalk

end

/-- After an audit that claims toolchain origin every target has one artifact, and
nothing it is built from hides an oracle exactly when the two graphs agree on what
is forbidden. -/
theorem noHiddenOracle_iff (env : Surroundings) (bundle : ProjectBundle)
    (build : BuildExecutionReceipt) (targets : List TargetVerification)
    (runtime : List RuntimeEvidence) (result : EvidenceAudit)
    (haudit : audit env bundle build targets runtime = .ok result)
    (horigin : result.toolchainOrigin = true) (target : TargetSpec)
    (htarget : target ∈ bundle.targets) :
    ∃ a, targetArtifacts env runtime target = [a] ∧
      (NoHiddenOracle runtime a ↔ ForbiddenVisible runtime a) := by
  simp only [EvidenceAudit.toolchainOrigin, Bool.and_eq_true, List.isEmpty_iff] at horigin
  obtain ⟨hnone, hintegrity⟩ := horigin
  have hc := audit_cleanChecks haudit (originIntegrity_iff.mp hintegrity)
  have hlegacy := legacyInterventionIds_eq_nil haudit hnone
  have hsame : (buildIndex runtime).1.targetArtifacts env target =
      targetArtifacts env runtime target := by
    rw [Index.targetArtifacts, hc.complete.artifacts, targetArtifacts]
  have hissues := hc.targets target htarget
  rw [targetIssues] at hissues
  split at hissues
  · rename_i a ha
    refine ⟨a, hsame ▸ ha, fun h b hb => ?_, fun h b hb => ?_⟩
    · obtain ⟨h1, h2, h3⟩ := h b hb
      exact ⟨fun ho => absurd ho (by simp [h1, h2]),
        fun n hn hnb hforbidden => absurd hforbidden (h3 n hn hnb)⟩
    · obtain ⟨hartifact, hnodes⟩ := h b hb
      have hclean : ∀ n ∈ runtime.flatMap (·.provenance), n.artifactId = b.id -> ¬ n.Forbidden := by
        intro n hn hnb hforbidden
        obtain ⟨m, hm, hma, hdesc⟩ := hnodes n hn hnb hforbidden
        rw [<- hc.complete.nodes] at hm hdesc
        exact descends_not_forbidden hc hlegacy htarget ha hm hma hdesc hforbidden
      have hnot : ¬ (b.origin = .oracle ∨ b.origin = .staleRefused) := by
        intro ho
        obtain ⟨n, hn, hnb, hforbidden⟩ := hartifact ho
        exact hclean n hn hnb hforbidden
      exact ⟨fun ho => hnot (.inl ho), fun ho => hnot (.inr ho), hclean⟩
  · simp at hissues

def libraryBundle : ProjectBundle :=
  { stampBundle with interventions := [], intervention_ids_unique := by decide }

def libraryBuild : BuildExecutionReceipt where
  cold := true
  inputs := [⟨"/lib.obj", ⟨"1"⟩, 1, false, none⟩]
  outputs := []
  steps := []

def libraryEvidence (origin : ArtifactOrigin) : List RuntimeEvidence :=
  [{ artifacts :=
      [⟨"lib", .external, "/lib.obj", ⟨"1"⟩, 1, origin, false, none, [], none, by simp⟩,
        ⟨"image", .image, "app.exe", ⟨"2"⟩, 1, .freshSeed, true, none, ["lib"], none, by decide⟩]
     provenance :=
      [⟨"read", .external, "read", .external, [], "lib", none, none, [], by decide⟩, imageLink]
     certificates := []
     producers := []
     objectTransforms := [] }]

theorem noHiddenOracle_library :
    ∃ result, audit plainSurroundings libraryBundle libraryBuild stampTargets
        (libraryEvidence .external) = .ok result ∧
      result.toolchainOrigin = true ∧ ∃ a,
      targetArtifacts plainSurroundings (libraryEvidence .external) ⟨"app", "app.exe"⟩ = [a] ∧
      (NoHiddenOracle (libraryEvidence .external) a ↔
        ForbiddenVisible (libraryEvidence .external) a) := by
  refine ⟨_, rfl, by decide +kernel, ?_⟩
  exact noHiddenOracle_iff _ libraryBundle libraryBuild stampTargets _ _ rfl (by decide +kernel) _
    (by decide)

/-- An oracle library passes the audit as an external one. -/
theorem library_hides_oracle :
    ∃ result, audit plainSurroundings libraryBundle libraryBuild stampTargets
        (libraryEvidence .oracle) = .ok result ∧
      result.toolchainOrigin = true ∧ result.logicCertified = true ∧ ∃ a,
      targetArtifacts plainSurroundings (libraryEvidence .oracle) ⟨"app", "app.exe"⟩ = [a] ∧
      ¬ NoHiddenOracle (libraryEvidence .oracle) a := by
  refine ⟨_, rfl, by decide +kernel, by decide +kernel, _, rfl, fun h => ?_⟩
  have hlib := h ⟨"lib", .external, "/lib.obj", ⟨"1"⟩, 1, .oracle, false, none, [], none, by simp⟩
    (.single ⟨by decide, by decide⟩)
  exact hlib.1 rfl

end Reprobit.Evidence

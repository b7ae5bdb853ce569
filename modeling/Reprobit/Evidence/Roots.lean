import Mathlib.Data.Finset.Max
import Reprobit.Evidence.Ancestry

/-!
# The graphs of a clean audit

Origin integrity makes every chain of provenance parents end in a root, and the inputs
of an artifact those that its provenance explains.
-/

namespace Reprobit.Evidence

open Machine List

variable {env : Surroundings} {bundle : ProjectBundle} {build : BuildExecutionReceipt}
  {targets : List TargetVerification} {runtime : List RuntimeEvidence} {result : EvidenceAudit}
  {ix : Index} {node : ProvenanceNode}

abbrev provenanceOf (runtime : List RuntimeEvidence) : List ProvenanceNode :=
  runtime.flatMap (·.provenance)

/-- The edges of both graphs, as far as the audit checks them. -/
structure CleanEdges (runtime : List RuntimeEvidence) (ix : Index) : Prop where
  complete : ix.Complete runtime
  parents : ∀ n ∈ ix.nodes, Clean .origin (nodeParentIssues ix n)
  cycles : Clean .origin (validateNodeCycles ix)
  edges : Clean .origin (validateProvenanceArtifactEdges ix)

theorem audit_cleanEdges (h : audit env bundle build targets runtime = .ok result)
    (horigin : result.originIntegrity = true) : ∃ ix, CleanEdges runtime ix := by
  have hclean := originIntegrity_iff.mp horigin
  have hc := audit_cleanChecks h hclean
  obtain ⟨rest, hissues⟩ := audit_issues h
  rw [hissues] at hclean
  have hclean := (clean_append.mp hclean).1
  simp only [auditIssues, clean_append] at hclean
  refine ⟨_, hc.complete, fun n hn => ?_, hc.cycles, hclean.1.1.1.1.1.2⟩
  have hnode := hc.nodes n hn
  simp only [nodeIssues, clean_append] at hnode
  exact hnode.1.1.1

namespace CleanEdges

variable (hc : CleanEdges runtime ix)

include hc

theorem exists_parent (hnode : node ∈ ix.nodes) {id : Identifier} (hid : id ∈ node.parents) :
    ∃ parent ∈ ix.nodes, parent.id = id := by
  have hclean := hc.parents node hnode
  simp only [nodeParentIssues, clean_append, clean_flatMap, clean_flag, forall_const] at hclean
  obtain ⟨parent, hparent⟩ := Option.ne_none_iff_exists'.mp (hclean.2 id hid)
  exact ⟨parent, lookup_eq_some hparent⟩

theorem exists_rank : ∃ rank : ProvenanceNode -> Nat, ∀ node ∈ ix.nodes, ∀ parent ∈ ix.nodes,
    parent.id ∈ node.parents -> rank node < rank parent := by
  have hcycle := hc.cycles
  simp only [validateNodeCycles, clean_flag, forall_const, Bool.not_eq_true] at hcycle
  obtain ⟨rank, hrank⟩ := hasCycle_rank (fun n hn => Index.parents_isSome hn) hcycle
  refine ⟨fun n => rank n.id, fun node hnode parent hparent hid => ?_⟩
  apply hrank _ _ (Index.parents_of_mem hc.complete hnode) _ hid
  rw [Index.parents_of_mem hc.complete hparent]
  rfl

theorem edges_of_node (hnode : node ∈ ix.nodes) : (node.kind.isRoot = true ↔ node.parents = []) ∧
    ∃ artifact, ix.artifact node.artifactId = some artifact ∧
      ∀ id ∈ ix.crossArtifactParents node, id ∈ artifact.inputs := by
  have hedges := hc.edges
  have hclean := hc.parents node hnode
  simp only [nodeParentIssues, clean_append, clean_flag, forall_const] at hclean
  obtain ⟨artifact, hartifact⟩ := Option.ne_none_iff_exists'.mp hclean.1
  simp only [validateProvenanceArtifactEdges, clean_append, clean_flatMap] at hedges
  have hnode := hedges.1 node hnode
  rw [hartifact] at hnode
  cases hroot : node.kind.isRoot <;> simpa [hroot, hartifact] using hnode

theorem mem_crossArtifactParents {id : Identifier} :
    id ∈ ix.crossArtifactParents node ↔ ∃ parent ∈ ix.nodes, parent.id ∈ node.parents ∧
      parent.artifactId = id ∧ id ≠ node.artifactId := by
  simp only [Index.crossArtifactParents, mem_filterMap, Option.bind_eq_some_iff]
  constructor
  · rintro ⟨parentId, hid, parent, hparent, hcross⟩
    obtain ⟨hmem, rfl⟩ := lookup_eq_some hparent
    split at hcross
    · cases hcross
    · rename_i hne
      cases hcross
      exact ⟨parent, hmem, hid, rfl, hne⟩
  · rintro ⟨parent, hmem, hid, rfl, hne⟩
    exact ⟨parent.id, hid, parent, lookup_of_mem hc.complete.nodes_nodup hmem, if_neg hne⟩

end CleanEdges

/-- Where the audit finds the origin in order, no provenance node is its own ancestor, and
each has an ancestor among the sources, the toolchain and the external inputs. -/
theorem provenance_rooted (env : Surroundings) (bundle : ProjectBundle)
    (build : BuildExecutionReceipt) (targets : List TargetVerification)
    (runtime : List RuntimeEvidence) (result : EvidenceAudit)
    (haudit : audit env bundle build targets runtime = .ok result)
    (horigin : result.originIntegrity = true) (node : ProvenanceNode)
    (hnode : node ∈ provenanceOf runtime) :
    (∀ parent ∈ provenanceOf runtime, parent.id ∈ node.parents ->
      ¬ Descends (provenanceOf runtime) parent node) ∧
    ∃ root ∈ provenanceOf runtime, Descends (provenanceOf runtime) node root ∧
      root.kind.isRoot = true ∧ root.parents = [] := by
  obtain ⟨ix, hc⟩ := audit_cleanEdges haudit horigin
  rw [provenanceOf, <- hc.complete.nodes] at *
  obtain ⟨rank, hrank⟩ := hc.exists_rank
  have hup : ∀ {n m}, n ∈ ix.nodes -> Descends ix.nodes n m -> m ∈ ix.nodes ∧ rank n <= rank m := by
    intro n m hn hdescends
    induction hdescends with
    | refl => exact ⟨hn, le_rfl⟩
    | tail _ hstep ih => exact ⟨hstep.1, ih.2.trans (hrank _ ih.1 _ hstep.1 hstep.2).le⟩
  refine ⟨fun parent hparent hid hdescends => ?_, ?_⟩
  · exact (hrank node hnode parent hparent hid).not_ge (hup hparent hdescends).2
  -- an ancestor of the greatest rank has no parent
  classical
  obtain ⟨root, hroot, hmax⟩ := Finset.exists_max_image
    (ix.nodes.toFinset.filter (Descends ix.nodes node)) rank ⟨node, by simpa using ⟨hnode, .refl⟩⟩
  simp only [Finset.mem_filter, mem_toFinset] at hroot hmax
  have hparents : root.parents = [] := by
    refine eq_nil_iff_forall_not_mem.mpr fun id hid => ?_
    obtain ⟨parent, hparent, rfl⟩ := hc.exists_parent hroot.1 hid
    exact (hrank root hroot.1 parent hparent hid).not_ge
      (hmax parent ⟨hparent, hroot.2.tail ⟨hparent, hid⟩⟩)
  exact ⟨root, hroot.1, hroot.2, (hc.edges_of_node hroot.1).1.mpr hparents, hparents⟩

theorem library_rooted : ∃ root ∈ provenanceOf (libraryEvidence .external),
    Descends (provenanceOf (libraryEvidence .external)) imageLink root ∧
      root.kind.isRoot = true ∧ root.parents = [] :=
  (provenance_rooted plainSurroundings libraryBundle libraryBuild stampTargets _ _ rfl
    (by decide) imageLink (by decide)).2

/-- Where the audit finds the origin in order, an artifact is an input of another exactly
where a provenance node of the one is a parent of a provenance node of the other. -/
theorem inputs_iff_provenance (env : Surroundings) (bundle : ProjectBundle)
    (build : BuildExecutionReceipt) (targets : List TargetVerification)
    (runtime : List RuntimeEvidence) (result : EvidenceAudit)
    (haudit : audit env bundle build targets runtime = .ok result)
    (horigin : result.originIntegrity = true) (a : Artifact)
    (ha : a ∈ runtime.flatMap (·.artifacts)) (id : Identifier) :
    id ∈ a.inputs ↔ ∃ n ∈ provenanceOf runtime, ∃ parent ∈ provenanceOf runtime,
      parent.id ∈ n.parents ∧ n.artifactId = a.id ∧ parent.artifactId = id ∧ id ≠ a.id := by
  obtain ⟨ix, hc⟩ := audit_cleanEdges haudit horigin
  rw [provenanceOf, <- hc.complete.nodes]
  rw [<- hc.complete.artifacts] at ha
  constructor
  · intro hid
    have hedges := hc.edges
    simp only [validateProvenanceArtifactEdges, clean_append, clean_flatMap, clean_flag,
      forall_const, not_not] at hedges
    have hexplained : id ∈ (ix.nodesOf a.id).flatMap ix.crossArtifactParents := by
      by_contra hno
      exact not_mem_nil (hedges.2 a ha ▸ mem_filter.mpr ⟨hid, by simpa using hno⟩)
    obtain ⟨n, hn, hcross⟩ := mem_flatMap.mp hexplained
    obtain ⟨hn, hna⟩ := mem_filter.mp hn
    obtain ⟨parent, hparent, hpid, hpa, hne⟩ := hc.mem_crossArtifactParents.mp hcross
    have hna := of_decide_eq_true hna
    exact ⟨n, hn, parent, hparent, hpid, hna, hpa, hna ▸ hne⟩
  · rintro ⟨n, hn, parent, hparent, hpid, hna, hpa, hne⟩
    obtain ⟨-, artifact, hartifact, hinputs⟩ := hc.edges_of_node hn
    obtain rfl : a = artifact := Option.some.inj
      ((lookup_of_mem hc.complete.artifacts_nodup ha).symm.trans (hna ▸ hartifact))
    exact hinputs id
      (hc.mem_crossArtifactParents.mpr ⟨parent, hparent, hpid, hpa, hna ▸ hne⟩)

theorem library_inputs : ∃ n ∈ provenanceOf (libraryEvidence .external),
    ∃ parent ∈ provenanceOf (libraryEvidence .external),
      parent.id ∈ n.parents ∧ n.artifactId = "image" ∧ parent.artifactId = "lib" ∧
        "lib" ≠ "image" :=
  (inputs_iff_provenance plainSurroundings libraryBundle libraryBuild stampTargets
    (libraryEvidence .external) _ rfl (by decide) _ (.tail _ (.head _)) "lib").mp (.head _)

end Reprobit.Evidence

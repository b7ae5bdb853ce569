import Reprobit.Producer.Ownership

/-!
# Build orders

The nodes of an accepted graph can run in an order in which every build input of a
node has been written before the node starts, by one node and no other.
-/

namespace Reprobit.Producer

open List
open Machine

variable {rt : Runtime} {nodes rest : List ProducerNode} {owners owners' : Owners}
  {node : ProducerNode} {outputs ids : List Text}

/-- Every claim belongs to a node that declares the output. -/
def Owners.Backed (rt : Runtime) (nodes : List ProducerNode) (owners : Owners) : Prop :=
  ∀ claim ∈ owners, ∃ node ∈ nodes, node.id = claim.2 ∧ claim.1 ∈ node.outputs.map rt.casefold

theorem claimOutputs_backed (hnode : node ∈ nodes) (hsub : outputs ⊆ node.outputs)
    (hbacked : owners.Backed rt nodes) (h : claimOutputs rt node.id owners outputs = .ok owners') :
    owners'.Backed rt nodes := by
  induction outputs generalizing owners with
  | nil =>
    cases h
    exact hbacked
  | cons output rest ih =>
    simp only [claimOutputs, bind_eq_ok] at h
    obtain ⟨next, hfirst, hrest⟩ := h
    apply ih (fun _ hmem => hsub (mem_cons_of_mem _ hmem)) ?_ hrest
    unfold claimOutput at hfirst
    split at hfirst
    · cases hfirst
      intro claim hclaim
      rcases mem_append.mp hclaim with hclaim | hclaim
      · exact hbacked claim hclaim
      · rw [mem_singleton.mp hclaim]
        exact ⟨node, hnode, rfl, mem_map_of_mem (hsub mem_cons_self)⟩
    · simp only [↓require_bind_eq_ok, pure_eq_ok] at hfirst
      exact hfirst.2 ▸ hbacked

theorem claimGraph_backed (hsub : rest ⊆ nodes) (hbacked : owners.Backed rt nodes)
    (h : claimGraph rt ids owners rest = .ok owners') :
    owners'.Backed rt nodes ∧ ∀ node ∈ rest, ∀ d ∈ node.dependsOn, d ∈ ids := by
  induction rest generalizing owners with
  | nil =>
    cases h
    exact ⟨hbacked, by simp⟩
  | cons node rest ih =>
    simp only [claimGraph, bind_eq_ok, require_eq_ok] at h
    obtain ⟨_, ⟨hknown, -⟩, next, hfirst, hrest⟩ := h
    have hnext := claimOutputs_backed (hsub mem_cons_self) (Subset.refl _) hbacked hfirst
    obtain ⟨howners, hknown'⟩ := ih (fun _ hmem => hsub (mem_cons_of_mem _ hmem)) hnext hrest
    refine ⟨howners, forall_mem_cons.mpr ⟨fun d hd => ?_, hknown'⟩⟩
    by_contra hno
    exact not_mem_nil (hknown ▸ mem_filter.mpr ⟨hd, by simpa using hno⟩)

/-- Behind `before`, a node finds its dependencies done and each of its build inputs
written by one of them and by no other node. -/
def ProducerNode.Ready (rt : Runtime) (nodes before : List ProducerNode) (node : ProducerNode) :
    Prop :=
  (∀ d ∈ node.dependsOn, ∃ earlier ∈ before, earlier.id = d) ∧
    ∀ input ∈ node.inputs, "build/".toList.isPrefixOf input = true ->
      ∃ earlier ∈ before, earlier.id ∈ node.dependsOn ∧ ∀ other ∈ nodes,
        rt.casefold input ∈ other.outputs.map rt.casefold ↔ other = earlier

theorem ready_self (h : producerGraphDocument rt nodes = .ok ()) (hnode : node ∈ nodes) :
    node.Ready rt nodes nodes := by
  have hchecked := checked h
  simp only [producerGraphDocument, validateGraph, bind_eq_ok, require_eq_ok,
    checkEach_eq_ok] at h
  obtain ⟨_, -, _, -, _, -, owners, hclaims, _, -, _, hinputs, -⟩ := h
  obtain ⟨hbacked, hknown⟩ :=
    claimGraph_backed (Subset.refl nodes) (by simp [Owners.Backed]) hclaims
  refine ⟨fun d hd => mem_map.mp (hknown node hnode d hd), fun input hinput hbuild => ?_⟩
  have hread := hinputs node hnode input hinput
  rw [validateBuildInput, if_pos hbuild] at hread
  split at hread
  · cases hread
  · rename_i owner howner
    obtain ⟨_, _, rfl, -⟩ := lookup_eq_some_iff.mp howner
    obtain ⟨earlier, hearlier, rfl, hwrites⟩ := hbacked _ mem_append_cons_self
    refine ⟨earlier, hearlier, require_eq_ok.mp hread, fun other hother => ⟨fun h => ?_, ?_⟩⟩
    · exact hchecked.ids other hother earlier hearlier
        (hchecked.owners other hother earlier hearlier _ h hwrites)
    · rintro rfl
      exact hwrites

theorem dependency_rank (h : producerGraphDocument rt nodes = .ok ()) :
    ∃ rank : ProducerNode -> Nat, ∀ node ∈ nodes, ∀ earlier ∈ nodes,
      earlier.id ∈ node.dependsOn -> rank node < rank earlier := by
  have hchecked := checked h
  simp only [producerGraphDocument, validateGraph, bind_eq_ok, require_eq_ok] at h
  obtain ⟨_, -, _, -, _, -, owners, -, _, hacyclic, -⟩ := h
  have hfind : ∀ node ∈ nodes, dependenciesOf nodes node.id = some node.dependsOn := by
    intro node hnode
    have hsome : (nodes.find? (·.id = node.id)).isSome := by
      rw [find?_isSome]
      exact ⟨node, hnode, by simp⟩
    obtain ⟨found, hfound⟩ := Option.isSome_iff_exists.mp hsome
    have hid : found.id = node.id := by simpa using find?_some hfound
    rw [dependenciesOf, hfound, hchecked.ids found (mem_of_find?_eq_some hfound) node hnode hid]
    rfl
  obtain ⟨rank, hrank⟩ := hasCycle_rank (fun id hid => by
    simpa [dependenciesOf, find?_isSome] using hid) hacyclic
  exact ⟨fun node => rank node.id, fun node hnode earlier hearlier hd =>
    hrank _ _ (hfind node hnode) _ hd (Option.isSome_of_eq_some (hfind earlier hearlier))⟩

end Reprobit.Producer

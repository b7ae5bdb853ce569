import Reprobit.Machine.Bounded
import Mathlib.Data.Finset.Card

/-!
# Depth-first search for a cycle

The search marks the nodes on its current path and the nodes it has left.  If it
never meets a node of its own path, the order in which it leaves the nodes ranks
them along the edges, so the graph has no cycle.
-/

namespace Reprobit.Machine

open List

variable {α : Type} [DecidableEq α]

/-- The path, the nodes left (the last first), and was a cycle met. -/
structure CycleSearch (α : Type) where
  visiting : List α
  complete : List α
  cycle : Bool

namespace CycleSearch

def visit (next : α -> Option (List α)) : Nat -> CycleSearch α -> α -> CycleSearch α
  | 0, st, _ => st
  | depth + 1, st, node =>
    if node ∈ st.complete then st
    else
      match next node with
      | none => st
      | some edges =>
        if node ∈ st.visiting then { st with cycle := true }
        else
          let st := edges.foldl (visit next depth) { st with visiting := node :: st.visiting }
          { st with visiting := st.visiting.erase node, complete := node :: st.complete }

def Ordered (next : α -> Option (List α)) : List α -> Prop
  | [] => True
  | node :: rest =>
    (∀ edges, next node = some edges -> ∀ e ∈ edges, (next e).isSome -> e ∈ rest) ∧
    Ordered next rest

/-- Path and nodes left are distinct, and the latter in order. -/
structure Valid (next : α -> Option (List α)) (U : Finset α) (st : CycleSearch α) : Prop where
  path_nodup : st.visiting.Nodup
  path_sub : ∀ n ∈ st.visiting, n ∈ U
  left_nodup : st.complete.Nodup
  apart : ∀ n ∈ st.visiting, n ∉ st.complete
  ordered : Ordered next st.complete

/-- What a visit that meets no cycle does. -/
structure Visited (next : α -> Option (List α)) (U : Finset α) (st st' : CycleSearch α)
    (nodes : List α) : Prop where
  valid : Valid next U st'
  path : st'.visiting = st.visiting
  grows : ∀ n ∈ st.complete, n ∈ st'.complete
  left : ∀ n ∈ nodes, (next n).isSome -> n ∈ st'.complete

variable {next : α -> Option (List α)} {depth : Nat} {st : CycleSearch α} {U : Finset α}
  {order edges : List α} {node : α}

theorem foldl_cycle
    (hvisit : ∀ (st : CycleSearch α) (node : α), (visit next depth st node).cycle = false ->
      st.cycle = false) (edges : List α) (h : (edges.foldl (visit next depth) st).cycle = false) :
    st.cycle = false := by
  induction edges generalizing st with
  | nil => exact h
  | cons e edges ih => exact hvisit st e (ih h)

theorem visit_cycle (next : α -> Option (List α)) (h : (visit next depth st node).cycle = false) :
    st.cycle = false := by
  induction depth generalizing st node with
  | zero => exact h
  | succ depth ih =>
    simp only [visit] at h
    split at h
    · exact h
    · split at h
      · exact h
      · rename_i edges _
        split at h
        · simp at h
        · have hstart : (CycleSearch.mk (node :: st.visiting) st.complete st.cycle).cycle = false :=
            foldl_cycle (fun _ _ => ih) edges h
          exact hstart

theorem foldl_visited (hvisit : ∀ (st : CycleSearch α) (node : α), Valid next U st ->
      U.card < depth + st.visiting.length -> (visit next depth st node).cycle = false ->
      Visited next U st (visit next depth st node) [node]) (edges : List α) (hst : Valid next U st)
    (hdepth : U.card < depth + st.visiting.length)
    (hno : (edges.foldl (visit next depth) st).cycle = false) :
    Visited next U st (edges.foldl (visit next depth) st) edges := by
  induction edges generalizing st with
  | nil => exact ⟨hst, rfl, fun _ h => h, by simp⟩
  | cons e edges ih =>
    have hfirst : (visit next depth st e).cycle = false :=
      foldl_cycle (fun _ _ => visit_cycle next) edges hno
    have h1 := hvisit st e hst hdepth hfirst
    have h2 := ih h1.valid (by rw [h1.path]; exact hdepth) hno
    refine ⟨h2.valid, h2.path.trans h1.path, fun n hn => h2.grows n (h1.grows n hn), ?_⟩
    intro n hn hs
    rcases mem_cons.mp hn with rfl | hn
    · exact h2.grows _ (h1.left _ (by simp) hs)
    · exact h2.left n hn hs

theorem visit_visited (hU : ∀ n, (next n).isSome -> n ∈ U) (hst : Valid next U st)
    (hdepth : U.card < depth + st.visiting.length)
    (hno : (visit next depth st node).cycle = false) :
    Visited next U st (visit next depth st node) [node] := by
  induction depth generalizing st node with
  | zero =>
    -- the path cannot hold more nodes than there are
    have hsub : st.visiting.toFinset ⊆ U := fun n hn => hst.path_sub n (by simpa using hn)
    have hle := Finset.card_le_card hsub
    rw [toFinset_card_of_nodup hst.path_nodup] at hle
    omega
  | succ depth ih =>
    simp only [visit] at hno ⊢
    by_cases hcomplete : node ∈ st.complete
    · rw [if_pos hcomplete]
      exact ⟨hst, rfl, fun _ h => h, by simpa using fun _ => hcomplete⟩
    · rw [if_neg hcomplete] at hno ⊢
      cases hnext : next node with
      | none => exact ⟨hst, rfl, fun _ h => h, by simp [hnext]⟩
      | some edges =>
        simp only [hnext] at hno ⊢
        by_cases hpath : node ∈ st.visiting
        · rw [if_pos hpath] at hno
          simp at hno
        · rw [if_neg hpath] at hno ⊢
          have hstart : Valid next U { st with visiting := node :: st.visiting } := by
            refine ⟨nodup_cons.mpr ⟨hpath, hst.path_nodup⟩, ?_, hst.left_nodup, ?_,
              hst.ordered⟩
            · intro n hn
              rcases mem_cons.mp hn with rfl | hn
              · exact hU _ (by simp [hnext])
              · exact hst.path_sub n hn
            · intro n hn
              rcases mem_cons.mp hn with rfl | hn
              · exact hcomplete
              · exact hst.apart n hn
          have hall := foldl_visited (fun st node hst hdepth hno => ih hst hdepth hno) edges hstart
            (by simpa [Nat.add_assoc, Nat.add_comm 1] using hdepth) hno
          generalize edges.foldl (visit next depth)
            { st with visiting := node :: st.visiting } = st' at hall
          have hleave : node ∉ st'.complete :=
            hall.valid.apart node (by rw [hall.path]; simp)
          have herase : st'.visiting.erase node = st.visiting := by
            rw [hall.path]
            simp
          refine ⟨⟨?_, ?_, ?_, ?_, ?_⟩, herase, ?_, by simp⟩
          · rw [herase]
            exact hst.path_nodup
          · rw [herase]
            exact hst.path_sub
          · exact nodup_cons.mpr ⟨hleave, hall.valid.left_nodup⟩
          · rw [herase]
            intro n hn hmem
            rcases mem_cons.mp hmem with rfl | hmem
            · exact hpath hn
            · exact hall.valid.apart n (by rw [hall.path]; simp [hn]) hmem
          · refine ⟨fun es he e hm hs => ?_, hall.valid.ordered⟩
            rw [hnext] at he
            cases he
            exact hall.left e hm hs
          · exact fun n hn => mem_cons_of_mem _ (hall.grows n hn)

omit [DecidableEq α] in
theorem Ordered.mem (h : Ordered next order) {n e : α} (hn : n ∈ order)
    (hnext : next n = some edges) (he : e ∈ edges) (hs : (next e).isSome) : e ∈ order := by
  induction order with
  | nil => simp at hn
  | cons first rest ih =>
    rcases mem_cons.mp hn with rfl | hn
    · exact mem_cons_of_mem _ (h.1 edges hnext e he hs)
    · exact mem_cons_of_mem _ (ih h.2 hn)

theorem Ordered.idxOf_lt (h : Ordered next order) (hnd : order.Nodup) {n e : α} (hn : n ∈ order)
    (hnext : next n = some edges) (he : e ∈ edges) (hs : (next e).isSome) :
    order.idxOf n < order.idxOf e := by
  induction order with
  | nil => simp at hn
  | cons first rest ih =>
    obtain ⟨hfirst, hrest⟩ := h
    obtain ⟨hfresh, hnd'⟩ := nodup_cons.mp hnd
    rcases mem_cons.mp hn with rfl | hn
    · have hmem := hfirst edges hnext e he hs
      have hne : n ≠ e := fun heq => hfresh (heq ▸ hmem)
      rw [idxOf_cons_self, idxOf_cons_ne _ hne]
      omega
    · have hmem := hrest.mem hn hnext he hs
      have hne : first ≠ n := fun heq => hfresh (heq ▸ hn)
      have hne' : first ≠ e := fun heq => hfresh (heq ▸ hmem)
      rw [idxOf_cons_ne _ hne, idxOf_cons_ne _ hne']
      exact Nat.succ_lt_succ (ih hrest hnd' hn)

end CycleSearch

def hasCycle (next : α -> Option (List α)) (nodes : List α) : Bool :=
  (nodes.foldl (CycleSearch.visit next (nodes.length + 1)) ⟨[], [], false⟩).cycle

theorem hasCycle_rank {next : α -> Option (List α)} {nodes : List α}
    (hnodes : ∀ n, (next n).isSome -> n ∈ nodes) (h : hasCycle next nodes = false) :
    ∃ rank : α -> Nat, ∀ n edges, next n = some edges -> ∀ e ∈ edges, (next e).isSome ->
      rank n < rank e := by
  have hU : ∀ n, (next n).isSome -> n ∈ nodes.toFinset := fun n hn => by simpa using hnodes n hn
  have hvalid : CycleSearch.Valid next nodes.toFinset ⟨[], [], false⟩ :=
    ⟨by simp, by simp, by simp, by simp, trivial⟩
  have hcard := toFinset_card_le nodes
  have hall := CycleSearch.foldl_visited
    (fun st node hst hdepth hno => CycleSearch.visit_visited hU hst hdepth hno) nodes hvalid
    (by simp; omega) h
  generalize nodes.foldl (CycleSearch.visit next (nodes.length + 1)) ⟨[], [], false⟩ = st at hall
  refine ⟨fun n => st.complete.idxOf n, fun n edges hn e he hs => ?_⟩
  have hsome : (next n).isSome := by simp [hn]
  exact hall.valid.ordered.idxOf_lt hall.valid.left_nodup
    (hall.left n (hnodes n hsome) hsome) hn he hs

end Reprobit.Machine

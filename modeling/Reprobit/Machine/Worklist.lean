import Reprobit.Machine.Bounded
import Mathlib.Algebra.BigOperators.Group.Finset.Basic

/-!
# Worklist closure

Stack-driven closures of a set of nodes under an edge function: a node is tested
when it leaves the stack, and with fuel for the stack and every edge the result
is closed.
-/

namespace Reprobit.Machine

open List

variable {α : Type} [DecidableEq α] {next : α -> Option (List α)} {fuel : Nat}

/-! ## Walking a graph with missing nodes

Nodes without an entry are dropped, and the edges of a node are pushed as they
are.
-/

def walkLoop (next : α -> Option (List α)) : Nat -> List α -> Finset α -> Finset α
  | 0, _, seen => seen
  | _ + 1, [], seen => seen
  | fuel + 1, node :: stack, seen =>
    if node ∈ seen then walkLoop next fuel stack seen
    else
      match next node with
      | none => walkLoop next fuel stack seen
      | some edges => walkLoop next fuel (edges.reverse ++ stack) (insert node seen)

/-- The edges still to be pushed: those of the nodes not seen yet. -/
def unpushed (next : α -> Option (List α)) (U seen : Finset α) : Nat :=
  ∑ node ∈ U \ seen, ((next node).elim 0 List.length)

theorem unpushed_insert {U seen : Finset α} {node : α} {edges : List α}
    (hnext : next node = some edges) (hU : node ∈ U) (hnew : node ∉ seen) :
    unpushed next U seen = edges.length + unpushed next U (insert node seen) := by
  have hmem : node ∈ U \ seen := Finset.mem_sdiff.mpr ⟨hU, hnew⟩
  unfold unpushed
  rw [<- Finset.add_sum_erase _ _ hmem, hnext, Finset.sdiff_insert]
  rfl

/-- Every node of `S` has its existing edges in `S` or on the stack. -/
def WalkClosed (next : α -> Option (List α)) (stack : List α) (S : Finset α) : Prop :=
  ∀ n ∈ S, ∀ edges, next n = some edges -> ∀ e ∈ edges, (next e).isSome -> e ∈ S ∨ e ∈ stack

theorem walkLoop_closed {U : Finset α} (hU : ∀ n, (next n).isSome -> n ∈ U) {stack : List α}
    {seen : Finset α} (hclosed : WalkClosed next stack seen)
    (hfuel : stack.length + unpushed next U seen <= fuel) : seen ⊆ walkLoop next fuel stack seen ∧
      (∀ n ∈ stack, (next n).isSome -> n ∈ walkLoop next fuel stack seen) ∧
      WalkClosed next [] (walkLoop next fuel stack seen) := by
  induction fuel generalizing stack seen with
  | zero =>
    have hnil : stack = [] := length_eq_zero_iff.mp (by omega)
    subst hnil
    exact ⟨Finset.Subset.refl _, by simp, hclosed⟩
  | succ fuel ih =>
    cases stack with
    | nil => exact ⟨Finset.Subset.refl _, by simp, hclosed⟩
    | cons node stack =>
      rw [length_cons] at hfuel
      by_cases hseen : node ∈ seen
      · -- the node was handled before
        have hclosed' : WalkClosed next stack seen := by
          intro n hn edges he e hm hs
          rcases hclosed n hn edges he e hm hs with h | h
          · exact .inl h
          · rcases mem_cons.mp h with rfl | h
            · exact .inl hseen
            · exact .inr h
        obtain ⟨h1, h2, h3⟩ := ih hclosed' (by omega)
        simp only [walkLoop, if_pos hseen]
        refine ⟨h1, fun n hn hs => ?_, h3⟩
        rcases mem_cons.mp hn with rfl | hn
        · exact h1 hseen
        · exact h2 n hn hs
      · simp only [walkLoop, if_neg hseen]
        cases hnext : next node with
        | none =>
          have hclosed' : WalkClosed next stack seen := by
            intro n hn edges he e hm hs
            refine (hclosed n hn edges he e hm hs).imp_right fun h => ?_
            rcases mem_cons.mp h with rfl | h
            · simp [hnext] at hs
            · exact h
          obtain ⟨h1, h2, h3⟩ := ih hclosed' (by omega)
          refine ⟨h1, fun n hn hs => ?_, h3⟩
          rcases mem_cons.mp hn with rfl | hn
          · simp [hnext] at hs
          · exact h2 n hn hs
        | some edges =>
          have hcount := unpushed_insert hnext (hU node (by simp [hnext])) hseen
          have hclosed' : WalkClosed next (edges.reverse ++ stack) (insert node seen) := by
            intro n hn es he e hm hs
            rcases Finset.mem_insert.mp hn with rfl | hn
            · rw [hnext] at he
              cases he
              exact .inr (by simp [hm])
            · rcases hclosed n hn es he e hm hs with h | h
              · exact .inl (Finset.mem_insert_of_mem h)
              · rcases mem_cons.mp h with rfl | h
                · exact .inl (Finset.mem_insert_self _ _)
                · exact .inr (by simp [h])
          obtain ⟨h1, h2, h3⟩ := ih hclosed' (by simp; omega)
          refine ⟨(Finset.subset_insert _ _).trans h1, fun n hn hs => ?_, h3⟩
          rcases mem_cons.mp hn with rfl | hn
          · exact h1 (Finset.mem_insert_self _ _)
          · exact h2 n (by simp [hn]) hs

def visitLoop {ε : Type} (visit : α -> Except ε (List α)) (exhausted : ε) :
    Nat -> List α -> List α -> Except ε Unit
  | _, [], _ => .ok ()
  | 0, _ :: _, _ => .error exhausted
  | fuel + 1, node :: stack, seen =>
    if node ∈ seen then visitLoop visit exhausted fuel stack seen
    else do
      let edges <- visit node
      visitLoop visit exhausted fuel
        ((edges.filter (· ∉ node :: seen)).reverse ++ stack) (node :: seen)

theorem visitLoop_closed {ε : Type} {visit : α -> Except ε (List α)} {exhausted : ε}
    {stack seen : List α} (h : visitLoop visit exhausted fuel stack seen = .ok ())
    (hclosed : ∀ n ∈ seen, ∃ edges, visit n = .ok edges ∧ ∀ e ∈ edges, e ∈ seen ∨ e ∈ stack) :
    ∃ S : Set α, (∀ n ∈ seen, n ∈ S) ∧ (∀ n ∈ stack, n ∈ S) ∧
      ∀ n ∈ S, ∃ edges, visit n = .ok edges ∧ ∀ e ∈ edges, e ∈ S := by
  induction fuel generalizing stack seen with
  | zero =>
    cases stack with
    | nil => exact ⟨{n | n ∈ seen}, fun _ h => h, by simp, by simpa using hclosed⟩
    | cons node stack => cases h
  | succ fuel ih =>
    cases stack with
    | nil => exact ⟨{n | n ∈ seen}, fun _ h => h, by simp, by simpa using hclosed⟩
    | cons node stack =>
      unfold visitLoop at h
      split at h
      · next hseen =>
          obtain ⟨S, hin, hstack, hS⟩ := ih h fun n hn => by
            obtain ⟨edges, hv, he⟩ := hclosed n hn
            exact ⟨edges, hv, fun e hm => by grind⟩
          exact ⟨S, hin, by simpa using ⟨hin node hseen, hstack⟩, hS⟩
      · cases hv : visit node with
        | error => rw [hv] at h; cases h
        | ok edges =>
          rw [hv] at h
          obtain ⟨S, hin, hstack, hS⟩ := ih h fun n hn => by
            rcases mem_cons.mp hn with rfl | hn
            · exact ⟨edges, hv, fun e hm => by grind⟩
            · obtain ⟨es, hvn, he⟩ := hclosed n hn
              exact ⟨es, hvn, fun e hm => by grind⟩
          exact ⟨S, fun n hn => hin n (by simp [hn]), fun n hn => by grind, hS⟩

end Reprobit.Machine

import Reprobit.Machine.Bounded
import Mathlib.Algebra.Order.BigOperators.Group.Finset

/-!
# Set equations solved in place

Monotone equations `x i = F x i` between finitely many finite sets, solved by passes
that store each value where later indices already read it, until a pass changes
nothing.  Every change adds an element to some set, so the room above the first
family bounds the number of passes, and the result is the least solution.
-/

namespace Reprobit.Machine

open List

variable {α : Type} [DecidableEq α]

/-- Every set of one family lies within that of the other. -/
def Within (x y : List (Finset α)) : Prop := ∀ i, x.getD i ∅ ⊆ y.getD i ∅

/-- `size` monotone equations; there is nothing behind the last one. -/
structure Equations (α : Type) [DecidableEq α] where
  size : Nat
  value : List (Finset α) -> Nat -> Finset α
  mono {x y} (h : Within x y) (i : Nat) : value x i ⊆ value y i
  behind {x i} (h : size <= i) : value x i = ∅

namespace Equations

variable (E : Equations α) (x : List (Finset α))

/-- The number of elements in all sets together. -/
def total : Nat := ∑ i ∈ Finset.range E.size, (x.getD i ∅).card

def Solves : Prop := x.length = E.size ∧ ∀ i, x.getD i ∅ = E.value x i

/-- The equations only ask for more. -/
def Growing : Prop := x.length = E.size ∧ ∀ i, x.getD i ∅ ⊆ E.value x i

/-- The equations ask for nothing more. -/
def Closed : Prop := ∀ i, E.value x i ⊆ x.getD i ∅

/-- One pass over the indices; reports whether a set changed. -/
def pass : List Nat -> List (Finset α) -> List (Finset α) × Bool
  | [], x => (x, false)
  | i :: rest, x =>
    if E.value x i = x.getD i ∅ then pass rest x else ((pass rest (x.set i (E.value x i))).1, true)

/-- Passes until one changes nothing, or `none`. -/
def solve (order : List Nat) : Nat -> List (Finset α) -> Option (List (Finset α))
  | 0, _ => none
  | rounds + 1, x =>
    if (E.pass order x).2 then solve order rounds (E.pass order x).1 else some (E.pass order x).1

variable {E} {x y : List (Finset α)} {i : Nat} {order : List Nat}

theorem total_mono (h : Within x y) : E.total x <= E.total y :=
  Finset.sum_le_sum fun i _ => Finset.card_le_card (h i)

theorem value_behind (hlen : x.length = E.size) (hi : E.size <= i) : E.value x i = x.getD i ∅ := by
  rw [E.behind hi, getD_eq_getElem?_getD, getElem?_eq_none (hlen ▸ hi), Option.getD_none]

theorem Growing.set (h : E.Growing x) (hne : E.value x i ≠ x.getD i ∅) :
    E.Growing (x.set i (E.value x i)) ∧ E.total x < E.total (x.set i (E.value x i)) ∧
      ∀ y, E.Closed y -> Within x y -> Within (x.set i (E.value x i)) y := by
  have hi : i < x.length := by
    rw [h.1]
    exact Nat.lt_of_not_le fun hle => hne (value_behind h.1 hle)
  have hnext (j : Nat) : (x.set i (E.value x i)).getD j ∅ =
      if j = i then E.value x i else x.getD j ∅ := by
    rw [getD_eq_getElem?_getD, getElem?_set]
    grind
  have hle : Within x (x.set i (E.value x i)) := by
    intro j
    rw [hnext]
    split
    · next hj => rw [hj]; exact h.2 i
    · exact subset_rfl
  refine ⟨⟨length_set.trans h.1, fun j => subset_trans ?_ (E.mono hle j)⟩, ?_, ?_⟩
  · rw [hnext]
    split
    · next hj => rw [hj]
    · exact h.2 j
  · refine Finset.sum_lt_sum (fun j _ => Finset.card_le_card (hle j))
      ⟨i, Finset.mem_range.mpr (h.1 ▸ hi), Finset.card_lt_card ?_⟩
    rw [hnext, if_pos rfl]
    exact (h.2 i).ssubset_of_ne hne.symm
  · intro y hy hxy j
    rw [hnext]
    split
    · next hj => rw [hj]; exact (E.mono hxy i).trans (hy i)
    · exact hxy j

/-- A pass adds an element or has every equation solved. -/
theorem pass_spec (order : List Nat) (h : E.Growing x) :
    E.Growing (E.pass order x).1 ∧
      (∀ y, E.Closed y -> Within x y -> Within (E.pass order x).1 y) ∧
      if (E.pass order x).2 then E.total x < E.total (E.pass order x).1
      else (E.pass order x).1 = x ∧ ∀ i ∈ order, x.getD i ∅ = E.value x i := by
  induction order generalizing x with
  | nil => simpa [pass] using h
  | cons i rest ih =>
    rw [pass, forall_mem_cons]
    split
    · next heq => simpa only [heq, true_and] using ih h
    · next hne =>
        obtain ⟨hgrow, hlt, hwithin⟩ := h.set hne
        obtain ⟨hpass, hrest, hif⟩ := ih hgrow
        refine ⟨hpass, fun y hy hxy => hrest y hy (hwithin y hy hxy), ?_⟩
        split at hif
        · exact hlt.trans hif
        · rw [if_pos rfl, hif.1]; exact hlt

/-- As many rounds as elements may be added end in a solution. -/
theorem solve_eq_some {rounds : Nat} (horder : ∀ i < E.size, i ∈ order) (h : E.Growing x)
    (hy : E.Closed y) (hxy : Within x y) (hrounds : E.total y < E.total x + rounds) :
    ∃ z, E.solve order rounds x = some z ∧ E.Solves z ∧
      ∀ y, E.Closed y -> Within x y -> Within z y := by
  induction rounds generalizing x with
  | zero =>
    have := total_mono (E := E) hxy
    omega
  | succ rounds ih =>
    rw [solve]
    obtain ⟨hpass, hle, hif⟩ := pass_spec order h
    split at hif
    · next hchanged =>
        rw [if_pos hchanged]
        obtain ⟨z, hz, hsolves, hleast⟩ := ih hpass (hle y hy hxy) (by omega)
        exact ⟨z, hz, hsolves, fun y hy hxy => hleast y hy (hle y hy hxy)⟩
    · next hchanged =>
        rw [if_neg hchanged, hif.1]
        refine ⟨x, rfl, ⟨h.1, fun i => ?_⟩, fun _ _ hxy => hxy⟩
        by_cases hi : i < E.size
        · exact hif.2 i (horder i hi)
        · exact (value_behind h.1 (by omega)).symm

/-- From the empty family, in equations that one set closes everywhere. -/
theorem solve_empty {s : Finset α} {rounds : Nat} (horder : ∀ i < E.size, i ∈ order)
    (hclosed : E.Closed (replicate E.size s)) (hrounds : E.size * s.card < rounds) :
    ∃ z, E.solve order rounds (replicate E.size ∅) = some z ∧ E.Solves z ∧
      ∀ y, E.Solves y -> Within z y := by
  have hempty (i : Nat) (t : Finset α) : (replicate E.size ∅).getD i ∅ ⊆ t := by
    by_cases hi : i < E.size <;> simp [hi]
  have hbound : E.total (replicate E.size s) <= E.size * s.card := by
    refine (Finset.sum_le_card_nsmul _ _ s.card fun i hi => ?_).trans (by simp)
    simp [Finset.mem_range.mp hi]
  have hroom : E.total (replicate E.size s) < E.total (replicate E.size ∅) + rounds := by omega
  obtain ⟨z, hz, hsolves, hleast⟩ := solve_eq_some horder
    ⟨length_replicate, fun i => hempty i _⟩ hclosed (fun i => hempty i _) hroom
  exact ⟨z, hz, hsolves, fun y hy => hleast y (fun i => (hy.2 i).ge) fun i => hempty i _⟩

end Equations

end Reprobit.Machine

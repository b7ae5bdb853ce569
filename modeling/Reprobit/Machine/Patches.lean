import Reprobit.Machine.Bytes
import Mathlib.Data.List.Sort

/-!
# Patches of a file

A file is changed by writing byte strings at fixed offsets, one after the other.
The result is known byte by byte from the last patch that covers the byte.

Ranges given by their ends are checked for disjointness by sorting them and
comparing neighbours.
-/

namespace Reprobit.Machine

open List

/-! ## Patches -/

structure Patch where
  offset : Nat
  bytes : List Byte
  deriving DecidableEq

namespace Patch

def span (p : Patch) : Span := .ofSize p.offset p.bytes.length

/-- A patch lies within a file. -/
def Fits (size : Nat) (p : Patch) : Prop := p.offset + p.bytes.length <= size

instance (size : Nat) (p : Patch) : Decidable (p.Fits size) :=
  inferInstanceAs (Decidable (_ <= _))

def apply (data : List Byte) (p : Patch) : List Byte := overwrite data p.offset p.bytes

def applyAll (data : List Byte) (patches : List Patch) : List Byte := patches.foldl apply data

variable {data : List Byte} {p : Patch} {o : Nat} {patches : List Patch}

theorem apply_length (h : p.Fits data.length) :
    (p.apply data).length = data.length := overwrite_length h

theorem apply_getElem?_of_mem (h : p.Fits data.length) (ho : o ∈ p.span) :
    (p.apply data)[o]? = p.bytes[o - p.offset]? := by
  rw [apply, overwrite_getElem? h]
  exact if_pos ho

theorem apply_getElem?_of_notMem (h : p.Fits data.length) (ho : o ∉ p.span) :
    (p.apply data)[o]? = data[o]? := by
  rw [apply, overwrite_getElem? h]
  exact if_neg ho

theorem applyAll_append (data : List Byte) (before after : List Patch) :
    applyAll data (before ++ after) = applyAll (applyAll data before) after :=
  foldl_append

theorem applyAll_length (h : ∀ p ∈ patches, p.Fits data.length) :
    (applyAll data patches).length = data.length := by
  induction patches generalizing data with
  | nil => rfl
  | cons p rest ih =>
    have hp := apply_length (h p (by simp))
    rw [applyAll, foldl_cons, <- applyAll, ih (fun q hq => hp ▸ h q (by simp [hq])), hp]

/-- A byte that no patch covers stays. -/
theorem applyAll_getElem?_of_notMem (h : ∀ p ∈ patches, p.Fits data.length)
    (ho : ∀ p ∈ patches, o ∉ p.span) : (applyAll data patches)[o]? = data[o]? := by
  induction patches generalizing data with
  | nil => rfl
  | cons p rest ih =>
    have hp := h p (by simp)
    rw [applyAll, foldl_cons, <- applyAll,
      ih (fun q hq => apply_length hp ▸ h q (by simp [hq])) (fun q hq => ho q (by simp [hq])),
      apply_getElem?_of_notMem hp (ho p (by simp))]

theorem applyAll_getElem?_of_agree (h : ∀ p ∈ patches, p.Fits data.length) {b : Option Byte}
    (hcover : ∃ p ∈ patches, o ∈ p.span)
    (hagree : ∀ p ∈ patches, o ∈ p.span -> p.bytes[o - p.offset]? = b) :
    (applyAll data patches)[o]? = b := by
  induction patches generalizing data with
  | nil => simp at hcover
  | cons p rest ih =>
    have hp := h p (by simp)
    have hrest : ∀ q ∈ rest, q.Fits (p.apply data).length :=
      fun q hq => apply_length hp ▸ h q (by simp [hq])
    rw [applyAll, foldl_cons, <- applyAll]
    by_cases hlater : ∃ q ∈ rest, o ∈ q.span
    · exact ih hrest hlater fun q hq => hagree q (by simp [hq])
    · have hnone : ∀ q ∈ rest, o ∉ q.span := fun q hq ho => hlater ⟨q, hq, ho⟩
      have ho : o ∈ p.span := by
        obtain ⟨q, hq, ho⟩ := hcover
        rcases mem_cons.mp hq with rfl | hq
        · exact ho
        · exact absurd ho (hnone q hq)
      rw [applyAll_getElem?_of_notMem hrest hnone, apply_getElem?_of_mem hp ho]
      exact hagree p (by simp) ho

end Patch

section

variable {α : Type} [LinearOrder α]

/-- The order of ranges by their start, then by their end. -/
def rangeLe (a b : α × α) : Prop := a.1 < b.1 ∨ a.1 = b.1 ∧ a.2 <= b.2

instance (a b : α × α) : Decidable (rangeLe a b) := inferInstanceAs (Decidable (_ ∨ _))

/-- Sorted ranges none of which reaches into the next. -/
def Stacked (ranges : List (α × α)) : Prop :=
  (ranges.insertionSort rangeLe).IsChain fun a b => a.2 <= b.1

instance (ranges : List (α × α)) : Decidable (Stacked ranges) :=
  inferInstanceAs (Decidable (List.IsChain _ _))

/-- A range that keeps off the next keeps off all behind it. -/
theorem isChain_pairwise {sorted : List (α × α)} (h : sorted.IsChain fun a b => a.2 <= b.1)
    (hne : ∀ r ∈ sorted, r.1 < r.2) : sorted.Pairwise fun a b => a.2 <= b.1 := by
  induction sorted with
  | nil => exact .nil
  | cons a rest ih =>
    have hrest := ih (isChain_of_isChain_cons h) fun r hr => hne r (by simp [hr])
    refine .cons ?_ hrest
    cases rest with
    | nil => simp
    | cons b rest =>
      have hab : a.2 <= b.1 := (isChain_cons_cons.mp h).1
      intro r hr
      rcases mem_cons.mp hr with rfl | hr
      · exact hab
      · have hbr := rel_of_pairwise_cons hrest hr
        exact hab.trans ((hne b (by simp)).le.trans hbr)

theorem Stacked.pairwise {ranges : List (α × α)} (h : Stacked ranges)
    (hne : ∀ r ∈ ranges, r.1 < r.2) :
    ranges.Pairwise fun a b => a.2 <= b.1 ∨ b.2 <= a.1 := by
  have hperm : (ranges.insertionSort rangeLe).Perm ranges := perm_insertionSort _ _
  have hchain := isChain_pairwise h fun r hr => hne r (hperm.mem_iff.mp hr)
  exact (hperm.pairwise_iff fun {a b} hab => hab.symm).mp (hchain.imp fun hab => .inl hab)

end

theorem leNat_leBytes (width n : Nat) : leNat (leBytes width n) = n % 256 ^ width := by
  induction width generalizing n with
  | zero => simp [leBytes, leNat, Nat.mod_one]
  | succ width ih =>
    have hbyte : (BitVec.ofNat 8 n).toNat = n % 256 := BitVec.toNat_ofNat n 8
    rw [leBytes, leNat, ih, hbyte, Nat.pow_succ', Nat.mod_mul]

theorem leNat_lt (bytes : List Byte) : leNat bytes < 256 ^ bytes.length := by
  induction bytes with
  | nil => simp [leNat]
  | cons b bytes ih =>
    rw [leNat, length_cons, Nat.pow_succ']
    omega

end Reprobit.Machine

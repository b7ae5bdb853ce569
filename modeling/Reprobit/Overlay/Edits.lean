import Reprobit.Foundation
import Mathlib.Data.List.Sort
import Mathlib.Data.Prod.Lex

/-!
# Overlay edits

The operations of an overlay output are resolved to ranges of the clean input and applied from
right to left.  The output is the clean input read from left to right, with the payloads at
their places.
-/

namespace Reprobit.Overlay

open Machine List

/-- What its application reads; `stop` is the `end` of its range. -/
structure ResolvedOperation where
  ordinal : Int
  operationId : String
  start : Int
  stop : Int
  payload : List Byte

def ResolvedOperation.range (o : ResolvedOperation) : ℤ ×ₗ ℤ := toLex (o.start, o.stop)

@[simp, grind =] theorem ResolvedOperation.range_fst (o : ResolvedOperation) :
    o.range.1 = o.start := rfl

@[simp, grind =] theorem ResolvedOperation.range_snd (o : ResolvedOperation) :
    o.range.2 = o.stop := rfl

def checkOverlap (context : String) (groups : ℤ ×ₗ ℤ -> List ResolvedOperation) :
    Int -> List (ℤ ×ₗ ℤ) -> Refusing Unit
  | _, [] => .ok ()
  | previousEnd, range :: ranges => do
    require (¬ range.1 < previousEnd) (context ++ " edits overlap at byte " ++ toString range.1)
    if range.1 < range.2 then do
      require ((groups range).length = 1) (context ++ " replacement range is duplicated")
      checkOverlap context groups range.2 ranges
    else checkOverlap context groups (max previousEnd range.1) ranges

section

variable (data : List Byte) (operations : List ResolvedOperation)

def payloads : List Byte :=
  (operations.insertionSort fun a b => a.ordinal <= b.ordinal).flatMap (·.payload)

def grouped (range : ℤ ×ₗ ℤ) : List ResolvedOperation := operations.filter (·.range = range)

def sortedRanges : List (ℤ ×ₗ ℤ) := (operations.map (·.range)).dedup.insertionSort (· <= ·)

def replaceRange (groups : ℤ ×ₗ ℤ -> List ResolvedOperation) (range : ℤ ×ₗ ℤ)
    (result : List Byte) : List Byte :=
  result.take range.1.toNat ++ payloads (groups range) ++ result.drop range.2.toNat

/-- `_apply_edits`; the last range is replaced first. -/
def applyEdits (context : String) : Refusing (List Byte) := do
  requireEach operations (fun o => 0 <= o.start ∧ o.start <= o.stop ∧ o.stop <= data.length)
    fun o => context ++ " edit range is invalid: " ++ o.operationId
  checkOverlap context (grouped operations) (-1) (sortedRanges operations)
  pure ((sortedRanges operations).foldr (replaceRange (grouped operations)) data)

/-! ## The splice -/

def insertionsAt (i : Nat) : List ResolvedOperation :=
  operations.filter fun o => o.start = i ∧ o.stop = i

def replacementsAt (i : Nat) : List ResolvedOperation :=
  operations.filter fun o => o.start = i ∧ i < o.stop

def cellAt (i : Nat) : List Byte :=
  payloads (insertionsAt operations i) ++ (payloads (replacementsAt operations i) ++
    if ∃ o ∈ operations, o.start <= i ∧ i < o.stop then [] else (data.drop i).take 1)

def cellsFrom (p : Nat) : List Byte :=
  (List.range' p (data.length + 1 - p)).flatMap (cellAt data operations)

/-- The input from left to right, with the payloads. -/
def spliced : List Byte := cellsFrom data operations 0

def ResolvedOperation.isAt (i : Nat) (o : ResolvedOperation) : Bool :=
  decide (o.start <= i) && (decide (o.start = i) || decide (i < o.stop))

def within (ranges : List (ℤ ×ₗ ℤ)) : List ResolvedOperation :=
  operations.filter (·.range ∈ ranges)

theorem cellAt_congr {i : Nat} {p q : ResolvedOperation -> Bool}
    (h : ∀ o ∈ operations, o.isAt i -> p o = q o) :
    cellAt data (operations.filter p) i = cellAt data (operations.filter q) i := by
  have hfilter (r : ResolvedOperation -> Bool) (hr : ∀ o, r o -> o.isAt i) :
      (operations.filter p).filter r = (operations.filter q).filter r := by
    rw [filter_filter, filter_filter]
    exact filter_congr fun o ho => by grind
  unfold cellAt insertionsAt replacementsAt
  rw [hfilter _ (by grind [ResolvedOperation.isAt]), hfilter _ (by grind [ResolvedOperation.isAt])]
  congr 3
  grind [ResolvedOperation.isAt]

theorem flatMap_byte (p n : Nat) :
    ((List.range' p n).flatMap fun i => (data.drop i).take 1) = (data.drop p).take n := by
  induction n generalizing p with
  | zero => simp
  | succ n ih =>
    rw [range'_succ, flatMap_cons, ih, Nat.add_comm n, take_add, drop_drop]

theorem cellsFrom_split {p q : Nat} (hpq : p <= q) (hq : q <= data.length) :
    cellsFrom data operations p =
      (List.range' p (q - p)).flatMap (cellAt data operations) ++ cellsFrom data operations q := by
  have hparts := range'_append_1 (s := p) (m := q - p) (n := data.length + 1 - q)
  rw [show p + (q - p) = q by omega,
    show q - p + (data.length + 1 - q) = data.length + 1 - p by omega] at hparts
  rw [cellsFrom, cellsFrom, <- hparts, flatMap_append]

theorem nodup_sortedRanges : (sortedRanges operations).Nodup :=
  (perm_insertionSort _ _).nodup_iff.mpr (nodup_dedup _)

end

section

variable {data : List Byte} {operations operations' : List ResolvedOperation} {context : String}
  {range : ℤ ×ₗ ℤ} {ranges : List (ℤ ×ₗ ℤ)} {previousEnd : Int} {i : Nat}
  {groups : ℤ ×ₗ ℤ -> List ResolvedOperation}

theorem checkOverlap_start (h : checkOverlap context groups previousEnd ranges = .ok ()) :
    ∀ r ∈ ranges, previousEnd <= r.1 := by
  induction ranges generalizing previousEnd with
  | nil => simp
  | cons range ranges ih =>
    rw [checkOverlap, require_bind_eq_ok] at h
    obtain ⟨hstart, h⟩ := h
    refine forall_mem_cons.mpr ⟨not_lt.mp hstart, fun r hr => ?_⟩
    split at h
    · have hle := ih (after_require h) r hr
      omega
    · have hle := ih h r hr
      omega

theorem checkOverlap_cons (h : checkOverlap context groups previousEnd (range :: ranges) = .ok ())
    (hrange : range.1 <= range.2) :
    (∃ e, checkOverlap context groups e ranges = .ok ()) ∧ ∀ r ∈ ranges, range.2 <= r.1 := by
  replace h := after_require h
  split at h
  · have hrest := after_require h
    exact ⟨⟨_, hrest⟩, checkOverlap_start hrest⟩
  · refine ⟨⟨_, h⟩, fun r hr => ?_⟩
    have hle := checkOverlap_start h r hr
    omega

theorem cellAt_before (h : ∀ r ∈ ranges, (i : Int) < r.1) :
    cellAt data (within operations ranges) i = (data.drop i).take 1 := by
  rw [within, cellAt_congr (q := fun _ => false) _ _ fun o _ _ => ?_]
  · simp [cellAt, insertionsAt, replacementsAt, payloads]
  · have := h o.range
    grind [ResolvedOperation.isAt]

theorem cellAt_behind (hstart : range.1 < i) (hstop : range.2 <= i) :
    cellAt data (within operations (range :: ranges)) i =
      cellAt data (within operations ranges) i :=
  cellAt_congr _ _ fun o _ _ => by grind [ResolvedOperation.isAt]

theorem cellAt_replaced (hmem : range ∈ operations.map (·.range)) (hstart : range.1 <= i)
    (hstop : i < range.2) (hbehind : ∀ r ∈ ranges, range.2 <= r.1) :
    cellAt data (within operations (range :: ranges)) i =
      if range.1 = i then payloads (grouped operations range) else [] := by
  have hgroup : cellAt data (within operations (range :: ranges)) i =
      cellAt data (grouped operations range) i := by
    refine cellAt_congr _ _ fun o _ _ => ?_
    grind [ResolvedOperation.isAt]
  have heq : ∀ o ∈ grouped operations range, o.start = range.1 ∧ o.stop = range.2 := by
    grind [grouped]
  have hinserted : insertionsAt (grouped operations range) i = [] :=
    filter_eq_nil_iff.mpr (by grind)
  have hcovered : ∃ o ∈ grouped operations range, o.start <= i ∧ i < o.stop := by
    grind [grouped]
  rw [hgroup, cellAt, hinserted, if_pos hcovered, append_nil]
  change payloads _ = _
  split_ifs with hi
  · rw [replacementsAt, filter_eq_self.mpr (by grind)]
  · rw [replacementsAt, filter_eq_nil_iff.mpr (by grind)]
    rfl

theorem cellAt_inserted (hstart : range.1 = i) (hstop : range.2 = i) (hnew : range ∉ ranges) :
    cellAt data (within operations (range :: ranges)) i =
      payloads (grouped operations range) ++ cellAt data (within operations ranges) i := by
  have hrange (o : ResolvedOperation) : o.range = range ↔ o.start = range.1 ∧ o.stop = range.2 :=
    Prod.ext_iff
  have hfirst : insertionsAt (within operations (range :: ranges)) i = grouped operations
    range := by
    rw [insertionsAt, within, grouped, filter_filter]
    exact filter_congr fun o _ => by grind
  have hnone : insertionsAt (within operations ranges) i = [] := by
    rw [insertionsAt, within, filter_filter, filter_eq_nil_iff]
    grind
  have hreplaced : replacementsAt (within operations (range :: ranges)) i =
      replacementsAt (within operations ranges) i := by
    rw [replacementsAt, replacementsAt, within, within, filter_filter, filter_filter]
    exact filter_congr fun o _ => by grind
  have hcovered : (∃ o ∈ within operations (range :: ranges), o.start <= i ∧ i < o.stop) ↔
      ∃ o ∈ within operations ranges, o.start <= i ∧ i < o.stop := by
    grind [within]
  rw [cellAt, cellAt, hfirst, hnone, hreplaced]
  simp only [hcovered]
  rfl

theorem cellsFrom_cons {s e : Nat} (hstart : range.1 = s) (hstop : range.2 = e) (hrange : s <= e)
    (hlength : e <= data.length) (hmem : range ∈ operations.map (·.range)) (hnew : range ∉ ranges)
    (hbehind : ∀ r ∈ ranges, range.2 <= r.1) :
    cellsFrom data (within operations (range :: ranges)) s =
      payloads (grouped operations range) ++ cellsFrom data (within operations ranges) e := by
  have hcongr (q n : Nat) (hs : s < q) (he : e <= q) :
      (List.range' q n).flatMap (cellAt data (within operations (range :: ranges))) =
        (List.range' q n).flatMap (cellAt data (within operations ranges)) := by
    refine flatMap_congr fun i hi => ?_
    have hle := (mem_range'_1.mp hi).1
    exact cellAt_behind (by omega) (by omega)
  rcases hrange.eq_or_lt with rfl | hlt
  · have hcells : List.range' s (data.length + 1 - s) =
        s :: List.range' (s + 1) (data.length - s) := by
      rw [<- range'_succ, Nat.succ_sub hlength]
    rw [cellsFrom, cellsFrom, hcells, flatMap_cons, flatMap_cons,
      hcongr _ _ (by omega) (by omega), cellAt_inserted hstart hstop hnew, append_assoc]
  · obtain ⟨k, rfl⟩ := Nat.exists_eq_add_of_lt hlt
    have hreplaced : ∀ i ∈ List.range' s (k + 1),
        cellAt data (within operations (range :: ranges)) i =
          if range.1 = i then payloads (grouped operations range) else [] := by
      intro i hi
      obtain ⟨hle, hi⟩ := mem_range'_1.mp hi
      exact cellAt_replaced hmem (by omega) (by omega) hbehind
    have hnone : ∀ i ∈ List.range' (s + 1) k,
        (if range.1 = i then payloads (grouped operations range) else []) = [] := by
      intro i hi
      have hle := (mem_range'_1.mp hi).1
      exact if_neg (by omega)
    rw [cellsFrom_split _ _ hlt.le hlength, show s + k + 1 - s = k + 1 by omega,
      flatMap_congr hreplaced, range'_succ, flatMap_cons, if_pos hstart,
      flatMap_eq_nil_iff.mpr hnone, append_nil, cellsFrom, cellsFrom,
      hcongr _ _ hlt le_rfl]

/-- Replacing the ranges from the last to the first splices them. -/
theorem foldr_replaceRange
    (hvalid : ∀ o ∈ operations, 0 <= o.start ∧ o.start <= o.stop ∧ o.stop <= data.length)
    (hmem : ∀ r ∈ ranges, r ∈ operations.map (·.range)) (hnodup : ranges.Nodup)
    (hcheck : checkOverlap context (grouped operations) previousEnd ranges = .ok ()) {p : Nat}
    (hp : p <= data.length) (hstart : ∀ r ∈ ranges, (p : Int) <= r.1) :
    ranges.foldr (replaceRange (grouped operations)) data =
      data.take p ++ cellsFrom data (within operations ranges) p := by
  induction ranges generalizing previousEnd p with
  | nil =>
    have hcells : cellAt data (within operations []) = fun i => (data.drop i).take 1 := by
      funext i
      exact cellAt_before (by simp)
    rw [cellsFrom, hcells, flatMap_byte, (data.drop p).take_of_length_le (by simp; omega),
      take_append_drop]
    rfl
  | cons range ranges ih =>
    rw [forall_mem_cons] at hmem hstart
    rw [nodup_cons] at hnodup
    obtain ⟨o, ho, rfl⟩ := mem_map.mp hmem.1
    obtain ⟨hnonneg, hle, hlength⟩ := hvalid o ho
    obtain ⟨s, hs⟩ := Int.eq_ofNat_of_zero_le hnonneg
    obtain ⟨e, he⟩ := Int.eq_ofNat_of_zero_le (hnonneg.trans hle)
    obtain ⟨⟨_, hrest⟩, hbehind⟩ := checkOverlap_cons hcheck hle
    simp only [ResolvedOperation.range_fst, ResolvedOperation.range_snd] at hstart hbehind
    have hbefore : ∀ i ∈ List.range' p (s - p),
        cellAt data (within operations (o.range :: ranges)) i = (data.drop i).take 1 := by
      intro i hi
      have hlt := (mem_range'_1.mp hi).2
      refine cellAt_before (forall_mem_cons.mpr ⟨?_, fun r hr => ?_⟩)
      · rw [ResolvedOperation.range_fst]
        omega
      · have := hbehind r hr
        omega
    have hend := ih hmem.2 hnodup.2 hrest (p := e) (by omega) fun r hr => he ▸ hbehind r hr
    rw [foldr_cons, hend, cellsFrom_split (p := p) (q := s) _ _ (by omega) (by omega),
      cellsFrom_cons hs he (by omega) (by omega) hmem.1 hnodup.1 hbehind,
      flatMap_congr hbefore, flatMap_byte, <- append_assoc, <- take_add,
      show p + (s - p) = s by omega, replaceRange, ResolvedOperation.range_fst,
      ResolvedOperation.range_snd, hs, he, Int.toNat_natCast, Int.toNat_natCast,
      take_append_of_le_length (by simp; omega), take_take, Nat.min_eq_left (by omega),
      drop_append_of_le_length (by simp; omega), drop_take_self]
    simp

theorem mem_sortedRanges : range ∈ sortedRanges operations ↔ range ∈ operations.map (·.range) := by
  rw [sortedRanges, mem_insertionSort, mem_dedup]

theorem mem_iff_of_grouped (h : grouped operations' = grouped operations) (o : ResolvedOperation) :
    o ∈ operations' ↔ o ∈ operations := by
  have hmem := congrArg (o ∈ · o.range) h
  simpa [grouped] using hmem

theorem sortedRanges_of_grouped (h : grouped operations' = grouped operations) :
    sortedRanges operations' = sortedRanges operations := by
  have hranges : (sortedRanges operations').Perm (sortedRanges operations) := by
    rw [perm_ext_iff_of_nodup (nodup_sortedRanges _) (nodup_sortedRanges _)]
    simp [mem_sortedRanges, mem_iff_of_grouped h]
  exact hranges.eq_of_pairwise' (pairwise_insertionSort _ _) (pairwise_insertionSort _ _)

end

/-- Accepted edits are a splice, and the order in which operations with different ranges are
listed does not matter. -/
theorem applyEdits_splices (data : List Byte) (operations : List ResolvedOperation)
    (context : String) (out : List Byte) (h : applyEdits data operations context = .ok out) :
    out = spliced data operations ∧ ∀ operations' : List ResolvedOperation,
      (∀ range, grouped operations' range = grouped operations range) ->
        applyEdits data operations' context = .ok out := by
  simp only [applyEdits, bind_eq_ok, requireEach_eq_ok, pure_eq_ok] at h ⊢
  obtain ⟨_, hvalid, _, hcheck, rfl⟩ := h
  refine ⟨?_, fun operations' hgroups => ?_⟩
  · have hall : within operations (sortedRanges operations) = operations :=
      filter_eq_self.mpr fun o ho => by simpa [mem_sortedRanges] using ⟨o, ho, rfl⟩
    have hfirst : ∀ r ∈ sortedRanges operations, ((0 : Nat) : Int) <= r.1 := by
      intro r hr
      obtain ⟨o, ho, rfl⟩ := mem_map.mp (mem_sortedRanges.mp hr)
      exact (hvalid o ho).1
    rw [foldr_replaceRange hvalid (fun r => mem_sortedRanges.mp) (nodup_sortedRanges _) hcheck
      (Nat.zero_le _) hfirst, hall]
    rfl
  · have hgroups := funext hgroups
    rw [sortedRanges_of_grouped hgroups, hgroups]
    exact ⟨(), fun o ho => hvalid o ((mem_iff_of_grouped hgroups o).mp ho), (), hcheck, rfl⟩

/-- An insertion in front of a replacement at one place, listed in both orders. -/
theorem applyEdits_sample :
    applyEdits [1, 2, 3] [⟨0, "a", 1, 1, [7]⟩, ⟨1, "b", 1, 2, [8, 9]⟩] "" = .ok [1, 7, 8, 9, 3] ∧
      applyEdits [1, 2, 3] [⟨1, "b", 1, 2, [8, 9]⟩, ⟨0, "a", 1, 1, [7]⟩] "" =
        .ok [1, 7, 8, 9, 3] := by
  have haccept : applyEdits [1, 2, 3] [⟨0, "a", 1, 1, [7]⟩, ⟨1, "b", 1, 2, [8, 9]⟩] "" =
      .ok [1, 7, 8, 9, 3] := by decide
  refine ⟨haccept, (applyEdits_splices _ _ _ _ haccept).2 _ fun range => ?_⟩
  by_cases hfirst : toLex ((1 : Int), (1 : Int)) = range
  · subst hfirst
    rfl
  · simp [grouped, ResolvedOperation.range, filter_cons, hfirst]

end Reprobit.Overlay

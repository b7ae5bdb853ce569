import Reprobit.Floating.SquaredFlow
import Reprobit.Machine.Sweep

/-!
# Exchanging the units of a window

The image runs the units of a window in another order, each with its relocation
records, and pushes the same values in that order.  Together with the region
behind the window this leaves the same x87 stack when the order only exchanges
children of the tree of the sum.
-/

namespace Reprobit.Floating

open Machine List Option

variable {W α : Type}

def placeFrom : Nat -> List UnitRaw -> List (Nat × UnitRaw)
  | _, [] => []
  | offset, u :: us => (offset, u) :: placeFrom (offset + u.length) us

def windowInstrs (placed : List (Nat × UnitRaw)) : List (Nat × Raw) :=
  placed.flatMap fun p => p.2.at' p.1

variable {offset stop count new old : Nat} {pairs : List (Nat × Nat)} {reloc : Nat -> Option Reloc}
  {P Q : Program} {tree : FoldTree Nat} {us : List UnitRaw} (A : FpArith α) (S : Surround W α)

theorem Holds.lists {code : List Byte} (h : Holds code offset us stop) :
    Lists lengthMap code offset (windowInstrs (placeFrom offset us)) stop := by
  obtain ⟨hgood, hsource, hstop⟩ := h
  induction us generalizing offset with
  | nil => simpa [unitsLength, windowInstrs, placeFrom, Machine.Lists] using hstop
  | cons u us ih =>
    have hu := hgood u (by simp)
    have hsplit : code.drop offset = u.fld.encode ++ (u.second.encode ++
        (unitsBytes us ++ code.drop stop)) := by
      simpa [unitsBytes, UnitRaw.bytes] using hsource
    have hsecond : code.drop (offset + u.fld.length) =
        u.second.encode ++ (unitsBytes us ++ code.drop stop) := by
      rw [<- drop_drop, hsplit, Raw.length, drop_left]
    have hrest : code.drop (offset + u.length) = unitsBytes us ++ code.drop stop := by
      rw [UnitRaw.length, <- Nat.add_assoc, <- drop_drop, hsecond, Raw.length, drop_left]
    have hlists := ih (fun v hv => hgood v (by simp [hv])) hrest
      (by simpa [unitsLength, Nat.add_assoc] using hstop)
    refine ⟨rfl, hu.fld.wellFormed, ⟨_, hsplit⟩, rfl, hu.second.wellFormed, ⟨_, hsecond⟩, ?_⟩
    have hsum : offset + u.fld.length + u.second.length = offset + u.length := Nat.add_assoc _ _ _
    rw [hsum]
    exact hlists

theorem lineRun_window (P : Program) {placed : List (Nat × UnitRaw)}
    (hgood : ∀ p ∈ placed, p.2.Good) (w : W) (x : FpStack α) :
    lineRun A S P (windowInstrs placed) (w, x) =
      some (w, FpSlots.pushAll (placed.map fun p => p.2.value A S P w p.1) x) := by
  induction placed generalizing x with
  | nil => rfl
  | cons p placed ih =>
    have hp := hgood p (by simp)
    rw [windowInstrs, flatMap_cons, lineRun_append, UnitRaw.lineRun_at A S P hp,
      bind_some, <- windowInstrs, ih fun q hq => hgood q (by simp [hq])]
    rfl

def movedRelocs (pairs : List (Nat × Nat)) (reloc : Nat -> Option Reloc) (offset : Nat) :
    Option Reloc :=
  match pairs.find? fun p => p.2 = offset with
  | some p => reloc p.1
  | none => if ∃ p ∈ pairs, p.1 = offset then none else reloc offset

def movedProgram (P : Program) (image : List Byte) (pairs : List (Nat × Nat)) : Program :=
  { P with code := image, reloc := movedRelocs pairs P.reloc }

theorem movedRelocs_eq_self (h : ∀ p ∈ pairs, p.1 ≠ offset ∧ p.2 ≠ offset) :
    movedRelocs pairs reloc offset = reloc offset := by
  unfold movedRelocs
  have hfind : pairs.find? (fun p => p.2 = offset) = none := by
    simpa using fun a b hp => (h (a, b) hp).2
  rw [hfind, if_neg]
  rintro ⟨p, hp, heq⟩
  exact (h p hp).1 heq

theorem movedRelocs_of_mem (hmem : (old, new) ∈ pairs) (huniq : ∀ p ∈ pairs, p.2 = new -> p.1 = old)
    : movedRelocs pairs reloc new = reloc old := by
  unfold movedRelocs
  cases hfind : pairs.find? fun p => p.2 = new with
  | none =>
    have := find?_eq_none.mp hfind (old, new) hmem
    simp at this
  | some p =>
    have hp : p.2 = new := by simpa using find?_some hfind
    simp only
    rw [huniq p (mem_of_find?_eq_some hfind) hp]

theorem movedRelocs_of_notMem (hnone : ∀ p ∈ pairs, p.2 ≠ new) :
    movedRelocs pairs reloc new = if ∃ p ∈ pairs, p.1 = new then none else reloc new := by
  unfold movedRelocs
  have hfind : pairs.find? (fun p => p.2 = new) = none := by
    simpa using fun a b hp => hnone (a, b) hp
  rw [hfind]

variable {relocationOffsets : List Nat} {run : Option Nat} {u : UnitRaw} {o first : Nat}

theorem carriedRunsFrom_of_some (hcount : stop < offset + count) (hle : offset <= stop) :
    ∃ last, (first, last) ∈ carriedRunsFrom relocationOffsets stop count offset (some first) := by
  induction count generalizing offset with
  | zero => omega
  | succ count ih =>
    unfold carriedRunsFrom
    split
    · next hin =>
        exact ih (by omega) (by omega)
    · exact ⟨offset, by simp⟩

theorem carriedRunsFrom_head (hcount : stop < offset + count) (hlo : offset <= o) (hhi : o < stop)
    (ho : o ∈ relocationOffsets) (hhead : o - 1 ∉ relocationOffsets)
    (hrun : offset = o -> run = none) (hpos : 0 < o) :
    ∃ last, (o, last) ∈ carriedRunsFrom relocationOffsets stop count offset run := by
  induction count generalizing offset run with
  | zero => omega
  | succ count ih =>
    unfold carriedRunsFrom
    split
    · next hin =>
        by_cases heq : offset = o
        · rw [hrun heq, getD_none, heq]
          exact carriedRunsFrom_of_some (by omega) (by omega)
        · refine ih (by omega) (by omega) fun hnext => ?_
          exact absurd hin.2 (by rwa [show offset = o - 1 by omega])
    · next hout =>
        have hne : offset ≠ o := by
          rintro rfl
          exact hout ⟨hhi, ho⟩
        obtain ⟨last, hlast⟩ := @ih (offset + 1) none (by omega) (by omega) (fun _ => rfl)
        exact ⟨last, mem_append_right _ hlast⟩

theorem carriedRuns_head {start : Nat} (hlo : start <= o) (hhi : o < stop) (hpos : 0 < o)
    (ho : o ∈ relocationOffsets) (hhead : o - 1 ∉ relocationOffsets) :
    ∃ last, (o, last) ∈ carriedRuns relocationOffsets start stop :=
  carriedRunsFrom_head (by omega) hlo hhi ho hhead (fun _ => rfl) hpos

theorem carriedRunsFrom_bounds (hrun : ∀ first, run = some first -> first < offset)
    (hle : offset + count <= stop + 1) :
    ∀ r ∈ carriedRunsFrom relocationOffsets stop count offset run, (r.1 < r.2 ∧ r.2 <= stop) := by
  induction count generalizing offset run with
  | zero => simp [carriedRunsFrom]
  | succ count ih =>
    unfold carriedRunsFrom
    split
    · refine ih (fun first hfirst => ?_) (by omega)
      cases run with
      | none => cases hfirst; exact Nat.lt_succ_self _
      | some f =>
        cases hfirst
        exact Nat.lt_succ_of_lt (hrun f rfl)
    · intro r hr
      rcases mem_append.mp hr with hr | hr
      · cases run with
        | none => simp at hr
        | some f =>
          simp only [map_some, toList_some, mem_singleton] at hr
          subst hr
          exact ⟨hrun f rfl, by dsimp only; omega⟩
      · exact ih (by rintro _ ⟨⟩) (by omega) r hr

/-! ## The exchanged window -/

theorem layUnits_length (start : Nat) (us : List UnitRaw) :
    (layUnits start us).length = us.length := by
  induction us generalizing start with
  | nil => rfl
  | cons u us ih => simp [layUnits, ih]

theorem unit_length_pos (u : UnitRaw) : 0 < u.length := by
  have := u.fld.length_pos
  simp only [UnitRaw.length]
  omega

theorem layUnits_tiled (start : Nat) (us : List UnitRaw) :
    Tiled SquaredUnit.offset SquaredUnit.length start (layUnits start us)
      (start + unitsLength us) := by
  induction us generalizing start with
  | nil => exact rfl
  | cons u us ih =>
    refine ⟨rfl, unit_length_pos u, ?_⟩
    have := ih (start + u.length)
    rwa [show start + unitsLength (u :: us) = start + u.length + unitsLength us by
      simp [unitsLength, Nat.add_assoc]]

theorem layUnits_getElem? {start k : Nat}
    (h : (placeFrom start us)[k]? = some (offset, u)) :
    (layUnits start us)[k]? = some ⟨offset, u.length, u.fld.length⟩ ∧ us[k]? = some u := by
  induction us generalizing start k with
  | nil => simp [placeFrom] at h
  | cons v us ih =>
    cases k with
    | zero =>
      cases h
      exact ⟨rfl, rfl⟩
    | succ k => exact ih h

theorem placeFrom_length (start : Nat) (us : List UnitRaw) :
    (placeFrom start us).length = us.length := by
  induction us generalizing start with
  | nil => rfl
  | cons u us ih => simp [placeFrom, ih]

def permuteUnits (us : List UnitRaw) (order : List Nat) : List UnitRaw :=
  order.filterMap (us[·]?)

section

variable {us : List UnitRaw} {start : Nat} {order : List Nat}

theorem permuteUnits_cons {i : Nat} (hi : i < us.length) (order : List Nat) :
    permuteUnits us (i :: order) = us.get ⟨i, hi⟩ :: permuteUnits us order := by
  simp [permuteUnits, hi]

theorem placements_eq (horder : ∀ i ∈ order, i < us.length) (cursor : Nat) :
    placements (layUnits start us) cursor order =
      List.zipWith (fun i p => ((layUnits start us).getD i ⟨0, 0, 0⟩, p.1)) order
        (placeFrom cursor (permuteUnits us order)) := by
  induction order generalizing cursor with
  | nil => rfl
  | cons i order ih =>
    have hi := horder i (by simp)
    have hlen : ((layUnits start us).getD i ⟨0, 0, 0⟩).length = (us.get ⟨i, hi⟩).length := by
      have hplace : i < (placeFrom start us).length := by rwa [placeFrom_length]
      have := layUnits_getElem? (getElem?_eq_getElem hplace)
      simp only [List.getD, this.1, getD_some]
      have hget := this.2
      rw [getElem?_eq_getElem hi] at hget
      simp [some.inj hget]
    rw [permuteUnits_cons hi, placements, placeFrom, zipWith_cons_cons, <- hlen]
    exact congrArg _ (ih (fun j hj => horder j (by simp [hj])) _)

theorem placements_tiled (horder : ∀ i ∈ order, i < us.length) (cursor : Nat) :
    Tiled (fun p : SquaredUnit × Nat => p.2) (fun p => p.1.length) cursor
      (placements (layUnits start us) cursor order)
      (cursor + (order.map fun i => ((layUnits start us).getD i ⟨0, 0, 0⟩).length).sum) := by
  induction order generalizing cursor with
  | nil => exact rfl
  | cons i order ih =>
    have hi := horder i (by simp)
    have hmem : (layUnits start us).getD i ⟨0, 0, 0⟩ ∈ layUnits start us := by
      rw [<- layUnits_length start] at hi
      simp [hi]
    refine ⟨rfl, ((layUnits_tiled start us).mem_bounds hmem).2.2, ?_⟩
    have := ih (fun j hj => horder j (by simp [hj]))
      (cursor + ((layUnits start us).getD i ⟨0, 0, 0⟩).length)
    rwa [map_cons, sum_cons, <- Nat.add_assoc]

theorem placements_fst (cursor : Nat) : (placements (layUnits start us) cursor order).map Prod.fst =
      order.map fun i => (layUnits start us).getD i ⟨0, 0, 0⟩ := by
  induction order generalizing cursor with
  | nil => rfl
  | cons i order ih => simp [placements, ih]

end

theorem tiled_nodup {β : Type} {off len : β -> Nat} {last : Nat} {items : List β}
    (h : Tiled off len first items last) : items.Nodup := by
  refine nodup_iff_getElem?_ne_getElem?.mpr fun i j hij hj heq => ?_
  rw [getElem?_eq_getElem hj] at heq
  have := h.offset_injective heq (getElem?_eq_getElem hj) rfl
  omega

/-- A window whose units are whole, with a true permutation of them. -/
structure Window (relocationOffsets : List Nat) (start : Nat) (us : List UnitRaw)
    (order : List Nat) : Prop where
  start_pos : 0 < start
  order : order.Perm (List.range us.length)
  runs : ∀ run ∈ carriedRuns relocationOffsets start (start + unitsLength us),
    ∃ unit ∈ layUnits start us, unit.offset <= run.1 ∧ run.2 <= unit.offset + unit.length

namespace Window

variable {relocationOffsets : List Nat} {start : Nat} {us : List UnitRaw} {order : List Nat}

/-- The moves of relocation records inside the window. -/
def reseat (relocationOffsets : List Nat) (start : Nat) (us : List UnitRaw) (order : List Nat) :
    List (Nat × Nat) :=
  (placements (layUnits start us) start order).flatMap fun p =>
    unitReseat (carriedRuns relocationOffsets start (start + unitsLength us)) p.1 p.2

variable (h : Window relocationOffsets start us order)

include h

theorem order_lt : ∀ i ∈ order, i < us.length := by
  intro i hi
  simpa using h.order.mem_iff.mp hi

theorem lengths_sum :
    (order.map fun i => ((layUnits start us).getD i ⟨0, 0, 0⟩).length).sum = unitsLength us := by
  have hrange : (List.range us.length).map (fun i => ((layUnits start us).getD i ⟨0, 0, 0⟩)) =
      layUnits start us := by
    apply ext_getElem?
    intro i
    by_cases hi : i < us.length
    · have hi' : i < (layUnits start us).length := by rwa [layUnits_length]
      simp [hi, hi']
    · have hi' : ¬ i < (layUnits start us).length := by rwa [layUnits_length]
      simp only [getElem?_map]
      rw [getElem?_eq_none (by simpa using hi), getElem?_eq_none (by simpa using hi')]
      rfl
  have hlengths : ∀ (first : Nat) (vs : List UnitRaw),
      (layUnits first vs).map SquaredUnit.length = vs.map UnitRaw.length := by
    intro first vs
    induction vs generalizing first with
    | nil => rfl
    | cons v vs ih => simp [layUnits, ih]
  rw [(h.order.map _).sum_eq]
  have := congrArg (fun l : List SquaredUnit => (l.map SquaredUnit.length).sum) hrange
  simpa [hlengths, unitsLength, Function.comp_def] using this

theorem tiled : Tiled (fun p : SquaredUnit × Nat => p.2) (fun p => p.1.length) start
      (placements (layUnits start us) start order) (start + unitsLength us) := by
  have := @placements_tiled us start order h.order_lt start
  rwa [h.lengths_sum] at this

variable {p : SquaredUnit × Nat}

theorem mem_units
    (hp : p ∈ placements (layUnits start us) start order) : p.1 ∈ layUnits start us := by
  have hmem := mem_map_of_mem (f := Prod.fst) hp
  rw [placements_fst] at hmem
  obtain ⟨i, hi, heq⟩ := mem_map.mp hmem
  have hlt := h.order_lt i hi
  rw [<- layUnits_length start] at hlt
  rw [<- heq]
  simp [hlt]

theorem exists_placement {unit : SquaredUnit} (hunit : unit ∈ layUnits start us) :
    ∃ cursor, (unit, cursor) ∈ placements (layUnits start us) start order := by
  obtain ⟨i, hi⟩ := mem_iff_getElem?.mp hunit
  have hlt : i < us.length := by
    rw [<- layUnits_length start]
    exact (List.getElem?_eq_some_iff.mp hi).1
  have hmem : i ∈ order := h.order.mem_iff.mpr (by simpa using hlt)
  have hfst : unit ∈ (placements (layUnits start us) start order).map Prod.fst := by
    rw [placements_fst]
    exact mem_map.mpr ⟨i, hmem, by simp [hi]⟩
  obtain ⟨p, hp, rfl⟩ := mem_map.mp hfst
  exact ⟨p.2, hp⟩

theorem placement_unique {q : SquaredUnit × Nat}
    (hp : p ∈ placements (layUnits start us) start order)
    (hq : q ∈ placements (layUnits start us) start order) (heq : p.1 = q.1) : p = q := by
  have hnodup : ((placements (layUnits start us) start order).map Prod.fst).Nodup := by
    rw [placements_fst]
    refine List.Nodup.map_on (fun i hi j hj hij => ?_) (h.order.nodup_iff.mpr nodup_range)
    have hi' := h.order_lt i hi
    have hj' := h.order_lt j hj
    rw [<- layUnits_length start] at hi' hj'
    simp only [List.getD, getElem?_eq_getElem hi', getElem?_eq_getElem hj'] at hij
    exact (tiled_nodup (layUnits_tiled start us)).getElem_inj_iff.mp hij
  exact inj_on_of_nodup_map hnodup hp hq heq

omit h in
theorem mem_reseat : (old, new) ∈ reseat relocationOffsets start us order ↔
      ∃ q ∈ placements (layUnits start us) start order, q.2 ≠ q.1.offset ∧
        ∃ last, (old, last) ∈ carriedRuns relocationOffsets start (start + unitsLength us) ∧
          q.1.offset <= old ∧ last <= q.1.offset + q.1.length ∧ new = q.2 + (old - q.1.offset) := by
  simp only [reseat, mem_flatMap, unitReseat]
  constructor
  · rintro ⟨q, hq, hmem⟩
    split at hmem
    · next hne =>
        obtain ⟨run, hrun, heq⟩ := mem_map.mp hmem
        cases heq
        obtain ⟨hrun, hin⟩ := mem_filter.mp hrun
        have hin' : q.1.offset <= run.1 ∧ run.2 <= q.1.offset + q.1.length := by simpa using hin
        exact ⟨q, hq, hne, run.2, hrun, hin'.1, hin'.2, rfl⟩
    · cases hmem
  · rintro ⟨q, hq, hne, last, hrun, hlo, hhi, rfl⟩
    refine ⟨q, hq, ?_⟩
    rw [if_pos hne]
    exact mem_map.mpr ⟨(old, last), mem_filter.mpr ⟨hrun, by simp [hlo, hhi]⟩, rfl⟩

omit h in
theorem run_bounds {run : Nat × Nat}
    (hrun : run ∈ carriedRuns relocationOffsets start (start + unitsLength us)) :
    run.1 < run.2 ∧ run.2 <= start + unitsLength us :=
  carriedRunsFrom_bounds (by rintro _ ⟨⟩) (by omega) run hrun

theorem reseat_bounds {p : Nat × Nat} (hp : p ∈ reseat relocationOffsets start us order) :
    (start <= p.1 ∧ p.1 < start + unitsLength us) ∧ start <= p.2 ∧
    p.2 < start + unitsLength us := by
  obtain ⟨q, hq, -, last, hrun, hlo, hhi, hnew⟩ := mem_reseat.mp (show (p.1, p.2) ∈ _ from hp)
  have hunit := (layUnits_tiled start us).mem_bounds (h.mem_units hq)
  have htarget := h.tiled.mem_bounds hq
  have hbounds := run_bounds hrun
  omega

/-- Each unit carries its records to its new place. -/
theorem moved_eq (hsub : ∀ p ∈ reseat relocationOffsets start us order, p ∈ pairs)
    (hown : ∀ p ∈ pairs, (start <= p.1 ∧ p.1 < start + unitsLength us) ∨
      (start <= p.2 ∧ p.2 < start + unitsLength us) -> p ∈ reseat relocationOffsets start us order)
    (hlinks : ∀ o r, reloc o = some r -> o ∈ relocationOffsets)
    (hheads : ∀ o r, reloc o = some r -> start <= o -> o < start + unitsLength us ->
      o - 1 ∉ relocationOffsets) (hp : p ∈ placements (layUnits start us) start order)
    (ho : o < p.1.length) : movedRelocs pairs reloc (p.2 + o) = reloc (p.1.offset + o) := by
  have hunit := (layUnits_tiled start us).mem_bounds (h.mem_units hp)
  have htarget := h.tiled.mem_bounds hp
  -- a record in the window heads a run that lies in one unit
  have hrecord : ∀ a r, reloc a = some r -> start <= a -> a < start + unitsLength us ->
      ∃ last, (a, last) ∈ carriedRuns relocationOffsets start (start + unitsLength us) ∧
        ∃ q ∈ placements (layUnits start us) start order,
          q.1.offset <= a ∧ last <= q.1.offset + q.1.length := by
    intro a r har hlo hhi
    have hpos := h.start_pos
    obtain ⟨last, hrun⟩ := carriedRuns_head hlo hhi (by omega) (hlinks a r har)
      (hheads a r har hlo hhi)
    obtain ⟨unit, hmem, hin⟩ := h.runs _ hrun
    obtain ⟨cursor, hcursor⟩ := h.exists_placement hmem
    exact ⟨last, hrun, (unit, cursor), hcursor, hin⟩
  have hsame : ∀ q ∈ placements (layUnits start us) start order, ∀ a, q.1.offset <= a ->
      a < q.1.offset + q.1.length -> p.1.offset <= a -> a < p.1.offset + p.1.length -> q = p := by
    intro q hq a h1 h2 h3 h4
    exact h.placement_unique hq hp ((layUnits_tiled start us).unique (h.mem_units hq)
      (h.mem_units hp) ⟨h1, h2⟩ ⟨h3, h4⟩)
  have hold : ∀ old, (old, p.2 + o) ∈ pairs -> old = p.1.offset + o ∧ p.2 ≠ p.1.offset := by
    intro old hmem
    obtain ⟨q, hq, hne, last, hrun, hlo, hhi, hnew⟩ :=
      mem_reseat.mp (hown _ hmem (.inr ⟨by dsimp only; omega, by dsimp only; omega⟩))
    have hbounds := run_bounds hrun
    have hqp : q = p := h.tiled.unique hq hp (o := p.2 + o) (by omega) (by omega)
    subst hqp
    exact ⟨by omega, hne⟩
  by_cases hmoved : (p.1.offset + o, p.2 + o) ∈ pairs
  · exact movedRelocs_of_mem hmoved fun q hq heq => (hold q.1 (by rw [<- heq]; exact hq)).1
  · rw [movedRelocs_of_notMem fun q hq heq => hmoved (by
      rw [<- (hold q.1 (by rw [<- heq]; exact hq)).1, <- heq]
      exact hq)]
    by_cases hstay : p.2 = p.1.offset
    · rw [if_neg, hstay]
      rintro ⟨q, hq, heq⟩
      obtain ⟨q', hq', hne, last, hrun, hlo, hhi, -⟩ := mem_reseat.mp
        (show (q.1, q.2) ∈ _ from hown _ hq (.inl ⟨by omega, by omega⟩))
      have hbounds := run_bounds hrun
      have hqp := hsame q' hq' q.1 hlo (by omega) (by omega) (by omega)
      subst hqp
      exact hne hstay
    · have hnone : reloc (p.1.offset + o) = none := by
        by_contra hsome
        obtain ⟨r, hr⟩ := ne_none_iff_exists'.mp hsome
        obtain ⟨last, hrun, q, hq, hlo, hhi⟩ := hrecord _ r hr (by omega) (by omega)
        have hbounds := run_bounds hrun
        have hqp := hsame q hq _ hlo (by omega) (by omega) (by omega)
        subst hqp
        refine hmoved (hsub _ (mem_reseat.mpr ⟨q, hq, hstay, last, hrun, hlo, hhi, by omega⟩))
      rw [hnone]
      split
      · rfl
      · next hfree =>
          by_contra hsome
          obtain ⟨r, hr⟩ := ne_none_iff_exists'.mp hsome
          obtain ⟨last, hrun, q, hq, hlo, hhi⟩ := hrecord _ r hr (by omega) (by omega)
          have hbounds := run_bounds hrun
          by_cases hqstay : q.2 = q.1.offset
          · have hqp : q = p := h.tiled.unique hq hp (o := p.2 + o) (by omega) (by omega)
            subst hqp
            exact hstay hqstay
          · exact hfree ⟨_, hsub _ (mem_reseat.mpr ⟨q, hq, hqstay, last, hrun, hlo, hhi, rfl⟩), rfl⟩

end Window

theorem movedRelocs_some {r : Reloc} (h : movedRelocs pairs reloc offset = some r) :
    ∃ o, reloc o = some r := by
  unfold movedRelocs at h
  split at h
  · exact ⟨_, h⟩
  · split at h
    · cases h
    · exact ⟨_, h⟩

/-- Instructions of the same records have the same fixups. -/
theorem fixups_congr {raw : Raw} {a c : Nat} (hP : ∀ o r, P.reloc o = some r -> 0 < r.width)
    (hQ : ∀ o r, Q.reloc o = some r -> 0 < r.width)
    (h : ∀ o < raw.length, Q.reloc (c + o) = P.reloc (a + o)) :
    Q.fixups c raw = P.fixups a raw := by
  have hfix : ∀ k size, k + size <= raw.length -> Q.fixAt (c + k) size = P.fixAt (a + k) size := by
    intro k size hk
    by_cases hsize : size = 0
    · have hzero : ∀ (R : Program), (∀ o r, R.reloc o = some r -> 0 < r.width) ->
          ∀ o, R.fixAt o 0 = 0 := by
        intro R hR o
        unfold Program.fixAt
        cases hr : R.reloc o with
        | none => rfl
        | some r => simp [Nat.ne_of_gt (hR o r hr)]
      rw [hsize, hzero Q hQ, hzero P hP]
    · simp only [Program.fixAt, h k (by omega)]
  have hlen := raw.length_eq
  have himm : raw.immAt = raw.dispAt + raw.disp.length := rfl
  simp only [Program.fixups]
  rw [hfix _ _ (by omega), hfix _ _ (by omega)]

theorem UnitRaw.value_congr (w : W) {a c : Nat} (hP : ∀ o r, P.reloc o = some r -> 0 < r.width)
    (hQ : ∀ o r, Q.reloc o = some r -> 0 < r.width)
    (h : ∀ o < u.length, Q.reloc (c + o) = P.reloc (a + o)) :
    u.value A S Q w c = u.value A S P w a := by
  have hfld : Q.fixups c u.fld = P.fixups a u.fld :=
    fixups_congr hP hQ fun o ho => h o (by simp only [UnitRaw.length]; omega)
  have hsecond : Q.fixups (c + u.fld.length) u.second = P.fixups (a + u.fld.length) u.second := by
    refine fixups_congr hP hQ fun o ho => ?_
    rw [Nat.add_assoc, Nat.add_assoc]
    exact h _ (by simp only [UnitRaw.length]; omega)
  simp only [UnitRaw.value, hfld, hsecond]

variable {order : List Nat}

theorem permuteUnits_getElem?
    (horder : ∀ i ∈ order, i < us.length) (k : Nat) :
    (permuteUnits us order)[k]? = (order[k]?).bind (us[·]?) := by
  induction order generalizing k with
  | nil => rfl
  | cons i order ih =>
    have hi := horder i (by simp)
    rw [permuteUnits_cons hi]
    cases k with
    | zero => simp
    | succ k => simpa using ih (fun j hj => horder j (by simp [hj])) k

def unitValues (A : FpArith α) (S : Surround W α) (P : Program) (w : W) (start : Nat)
    (us : List UnitRaw) (j : Nat) : α :=
  ((placeFrom start us).map fun p => p.2.value A S P w p.1).getD j (A.single 0)

theorem map_value_eq (P : Program) (w : W) (start : Nat) (us : List UnitRaw) :
    ((placeFrom start us).map fun p => p.2.value A S P w p.1) =
      (List.range us.length).map (unitValues A S P w start us) := by
  apply ext_getElem?
  intro k
  by_cases hk : k < us.length
  · have hk' : k < (placeFrom start us).length := by rwa [placeFrom_length]
    simp [unitValues, hk, hk']
  · have hk' : ¬ k < (placeFrom start us).length := by rwa [placeFrom_length]
    rw [getElem?_eq_none (by simpa using hk'), getElem?_eq_none (by simpa using hk)]

theorem Window.map_value_eq {start : Nat} (h : Window relocationOffsets start us order)
    (A : FpArith α)
    (S : Surround W α) (w : W) (hP : ∀ o r, P.reloc o = some r -> 0 < r.width)
    (hQ : ∀ o r, Q.reloc o = some r -> 0 < r.width)
    (hmoved : ∀ p ∈ placements (layUnits start us) start order, ∀ o < p.1.length,
      Q.reloc (p.2 + o) = P.reloc (p.1.offset + o)) :
    ((placeFrom start (permuteUnits us order)).map fun p => p.2.value A S Q w p.1) =
      (List.range us.length).map fun i => unitValues A S P w start us (order.getD i 0) := by
  have hcount : order.length = us.length := by simpa using h.order.length_eq
  have hpermuted : (permuteUnits us order).length = us.length := by
    rw [<- hcount]
    apply le_antisymm
    · exact length_filterMap_le _ _
    · by_contra hlt
      have hlt' : (permuteUnits us order).length < order.length := by omega
      have hget := permuteUnits_getElem? h.order_lt (permuteUnits us order).length
      have hmem := h.order_lt (order.get ⟨_, hlt'⟩) (get_mem _ _)
      rw [getElem?_eq_none (le_refl _), getElem?_eq_getElem hlt'] at hget
      simp at hget hmem
      omega
  apply ext_getElem?
  intro i
  by_cases hi : i < us.length
  · have hi' : i < (placeFrom start (permuteUnits us order)).length := by
      rwa [placeFrom_length, hpermuted]
    have hio : i < order.length := by omega
    obtain ⟨⟨c, u⟩, hcu⟩ : ∃ p, (placeFrom start (permuteUnits us order))[i]? = some p :=
      ⟨_, getElem?_eq_getElem hi'⟩
    have hunit := (layUnits_getElem? hcu).2
    rw [permuteUnits_getElem? h.order_lt, getElem?_eq_getElem hio, bind_some] at hunit
    have hj : order[i] < us.length := (List.getElem?_eq_some_iff.mp hunit).1
    obtain ⟨⟨a, v⟩, hav⟩ : ∃ p, (placeFrom start us)[order[i]]? = some p := by
      have : order[i] < (placeFrom start us).length := by rwa [placeFrom_length]
      exact ⟨_, getElem?_eq_getElem this⟩
    obtain ⟨hlay, hv⟩ := layUnits_getElem? hav
    cases hunit.symm.trans hv
    have hplaced : ((⟨a, u.length, u.fld.length⟩ : SquaredUnit), c) ∈
        placements (layUnits start us) start order := by
      rw [placements_eq h.order_lt]
      refine mem_iff_getElem?.mpr ⟨i, ?_⟩
      rw [getElem?_zipWith, getElem?_eq_getElem hio, hcu]
      simp [hlay]
    have hvalue := UnitRaw.value_congr A S w hP hQ (hmoved _ hplaced)
    have hgetD : order.getD i 0 = order[i] := by simp [hio]
    rw [getElem?_map, hcu, getElem?_map, getElem?_range hi, map_some,
      map_some, hgetD]
    simp only [unitValues, List.getD, getElem?_map, hav, map_some, getD_some]
    rw [hvalue]
  · have hi' : ¬ i < (placeFrom start (permuteUnits us order)).length := by
      rwa [placeFrom_length, hpermuted]
    rw [getElem?_eq_none (by simpa using hi'), getElem?_eq_none (by simpa using hi)]

theorem lineRun_congr {is : List (Nat × Raw)} (h : ∀ p ∈ is, Q.fixups p.1 p.2 = P.fixups p.1 p.2)
    (s : W × FpStack α) :
    lineRun A S Q is s = lineRun A S P is s := by
  induction is generalizing s with
  | nil => rfl
  | cons p is ih =>
    simp only [lineRun, h p (by simp)]
    cases lineStep A S p.2 (P.fixups p.1 p.2) s with
    | none => rfl
    | some t => exact ih (fun q hq => h q (by simp [hq])) t

theorem foldTree_eq_ok {body : List Byte} {items : List RelationalItem} {scan : Nat}
    {context : String} (hwalk : Walked body items)
    (h : foldTree body items stop count context = .ok (tree, scan)) :
    (∀ n ∈ tree.leaves, n < count) ∧ ∃ is s, Lists lengthMap body stop is scan ∧
      Folds is (.initial count) s ∧ s.stack = [tree] ∧
      ∀ n ∈ tree.leaves, s.squared.getD n false = true := by
  simp only [foldTree, bind_eq_ok, require_eq_ok, Prod.exists] at h
  obtain ⟨s, scan', hconsume, _, ⟨hfolded, hsquared⟩, heq⟩ := h
  cases heq
  obtain ⟨is, hlists, hfolds, hlinear, hcount⟩ :=
    consumeFrom_folds hwalk (FoldState.initial_linear count) hconsume
  have hstack : ∃ tree, s.stack = [tree] := by
    unfold FoldState.folded at hfolded
    split at hfolded
    · next tree htree => exact ⟨tree, htree⟩
    · cases hfolded
  obtain ⟨tree, hstack⟩ := hstack
  have hhead : s.stack.headD (.leaf 0) = tree := by rw [hstack]; rfl
  rw [hhead]
  have hbelow : ∀ n ∈ tree.leaves, n < s.squared.length := by
    intro n hn
    exact hlinear.below n (by simpa [FoldState.leaves, hstack] using hn)
  refine ⟨fun n hn => ?_, is, s, hlists, hfolds, hstack, fun n hn => ?_⟩
  · have := hbelow n hn
    simpa [hcount, FoldState.initial] using this
  · have hlt := hbelow n hn
    simp only [List.getD, getElem?_eq_getElem hlt]
    exact hsquared _ (getElem_mem hlt)

/-- They agree just for trees equal up to exchanging children. -/
theorem canonical_eq_iff (h : ∀ n ∈ tree.leaves, n < count) (order : List Nat) :
    canonical order tree = canonical (List.range count) tree ↔
      FoldTree.SwapEq (tree.map fun n => order.getD n 0) tree := by
  have hself : tree.map (fun n => (List.range count).getD n 0) = tree := by
    refine tree.map_eq_self fun n hn => ?_
    simp [h n hn]
  rw [canonical_eq_sortedCode, canonical_eq_sortedCode, hself, FoldTree.sortedCode_eq_iff]

/-- The stack is the same if only children were exchanged. -/
theorem view_permuted {A : FpArith α} (hcomm : ∀ a b, A.add a b = A.add b a) {s : FoldState}
    (hstack : s.stack = [tree]) (hsquared : ∀ n ∈ tree.leaves, s.squared.getD n false = true)
    (hswap : FoldTree.SwapEq (tree.map fun n => order.getD n 0) tree)
    (v : Nat -> α) (below : Nat -> Option α) :
    s.view A (fun n => v (order.getD n 0)) below = s.view A v below := by
  have hunit : ∀ u : Nat -> α, tree.eval A.add (s.unitValue A u) =
      tree.eval A.add fun n => A.mul (u n) (u n) := by
    intro u
    refine tree.eval_congr A.add fun n hn => ?_
    simp only [FoldState.unitValue, hsquared n hn, if_true]
  simp only [FoldState.view, hstack, map_cons, hunit]
  have heval := hswap.eval_eq hcomm fun n => A.mul (v n) (v n)
  rw [FoldTree.eval_map] at heval
  exact congrArg (fun y => FpSlots.layer [y] below) heval

end Reprobit.Floating

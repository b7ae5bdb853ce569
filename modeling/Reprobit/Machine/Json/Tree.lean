import Reprobit.Machine.Bounded
import Mathlib.Data.List.Sort

/-!
# Trees of arrays and objects

The shape that JSON texts and JSON values share: leaves of any kind, arrays, and objects as
lists of named members.  Two trees are the same if their objects agree as dictionaries, whatever
the order of their members; for trees without repeated names this is equality of the forms whose
members are sorted by name.
-/

namespace Reprobit.Machine.Json

open List

abbrev Points := List Nat

inductive Tree (L : Type) where
  | leaf (value : L)
  | array (items : List (Tree L))
  | object (members : List (Points × Tree L))

variable {L : Type}

mutual

def Tree.Every (p : L -> Prop) (q : Points -> Prop) : Tree L -> Prop
  | .leaf a => p a
  | .array items => EveryItem p q items
  | .object members => EveryMember p q members

def EveryItem (p : L -> Prop) (q : Points -> Prop) : List (Tree L) -> Prop
  | [] => True
  | t :: items => t.Every p q ∧ EveryItem p q items

def EveryMember (p : L -> Prop) (q : Points -> Prop) : List (Points × Tree L) -> Prop
  | [] => True
  | (name, t) :: members => q name ∧ t.Every p q ∧ EveryMember p q members

end

mutual

def Tree.NoRepeat : Tree L -> Prop
  | .leaf _ => True
  | .array items => NoRepeatItems items
  | .object members => (members.map Prod.fst).Nodup ∧ NoRepeatMembers members

def NoRepeatItems : List (Tree L) -> Prop
  | [] => True
  | t :: items => t.NoRepeat ∧ NoRepeatItems items

def NoRepeatMembers : List (Points × Tree L) -> Prop
  | [] => True
  | (_, t) :: members => t.NoRepeat ∧ NoRepeatMembers members

end

mutual

variable {q : Points -> Prop} {p : L -> Prop}

theorem Tree.every_of_forall (hp : ∀ a, p a)
    (hq : ∀ name, q name) : ∀ t : Tree L, t.Every p q
  | .leaf a => hp a
  | .array items => everyItem_of_forall hp hq items
  | .object members => everyMember_of_forall hp hq members

theorem everyItem_of_forall (hp : ∀ a, p a)
    (hq : ∀ name, q name) : ∀ items : List (Tree L), EveryItem p q items
  | [] => trivial
  | t :: items => ⟨Tree.every_of_forall hp hq t, everyItem_of_forall hp hq items⟩

theorem everyMember_of_forall (hp : ∀ a, p a)
    (hq : ∀ name, q name) : ∀ members : List (Points × Tree L), EveryMember p q members
  | [] => trivial
  | (name, t) :: members =>
    ⟨hq name, Tree.every_of_forall hp hq t, everyMember_of_forall hp hq members⟩

end

theorem Tree.every_congr {p p' : L -> Prop} {q q' : Points -> Prop} (hp : ∀ a, p a ↔ p' a)
    (hq : ∀ name, q name ↔ q' name) (t : Tree L) : t.Every p q ↔ t.Every p' q' := by
  rw [funext fun a => propext (hp a), funext fun name => propext (hq name)]

variable {members : List (Points × Tree L)}

theorem everyMember_iff {p : L -> Prop} {q : Points -> Prop} :
    EveryMember p q members ↔ ∀ m ∈ members, q m.1 ∧ m.2.Every p q := by
  induction members with
  | nil => simp [EveryMember]
  | cons m members ih =>
    simp only [EveryMember, ih, forall_mem_cons, and_assoc]

theorem noRepeatMembers_iff : NoRepeatMembers members ↔ ∀ m ∈ members, m.2.NoRepeat := by
  induction members with
  | nil => simp [NoRepeatMembers]
  | cons m members ih =>
    simp only [NoRepeatMembers, ih, forall_mem_cons]

/-! ## Sorted members -/

def byName (m n : Points × Tree L) : Prop := m.1 <= n.1

instance : DecidableRel (byName (L := L)) := fun m n => inferInstanceAs (Decidable (m.1 <= n.1))

instance : Std.Total (byName (L := L)) := ⟨fun m n => le_total m.1 n.1⟩

instance : IsTrans (Points × Tree L) byName := ⟨fun _ _ _ => le_trans⟩

def sortMembers (members : List (Points × Tree L)) : List (Points × Tree L) :=
  members.insertionSort byName

mutual

def Tree.sorted : Tree L -> Tree L
  | .leaf a => .leaf a
  | .array items => .array (sortedItems items)
  | .object members => .object (sortMembers (sortedMembers members))

def sortedItems : List (Tree L) -> List (Tree L)
  | [] => []
  | t :: items => t.sorted :: sortedItems items

def sortedMembers : List (Points × Tree L) -> List (Points × Tree L)
  | [] => []
  | (name, t) :: members => (name, t.sorted) :: sortedMembers members

end

section

variable (members : List (Points × Tree L))

theorem sortedMembers_eq : sortedMembers members = members.map fun m => (m.1, m.2.sorted) := by
  induction members with
  | nil => rfl
  | cons m members ih =>
    simp [sortedMembers, ih]

theorem sortMembers_perm :
    (sortMembers members).Perm members := perm_insertionSort _ _

theorem sortedMembers_names :
    (sortedMembers members).map Prod.fst = members.map Prod.fst := by
  rw [sortedMembers_eq, map_map]
  rfl

end

mutual

theorem Tree.every_sorted (p : L -> Prop) (q : Points -> Prop) :
    ∀ t : Tree L, t.sorted.Every p q ↔ t.Every p q
  | .leaf _ => Iff.rfl
  | .array items => everyItem_sorted p q items
  | .object members => by
      simp only [Tree.sorted, Tree.Every]
      rw [<- everyMember_sorted p q members, everyMember_iff, everyMember_iff]
      simp only [(sortMembers_perm _).mem_iff]

theorem everyItem_sorted (p : L -> Prop) (q : Points -> Prop) :
    ∀ items : List (Tree L), EveryItem p q (sortedItems items) ↔ EveryItem p q items
  | [] => Iff.rfl
  | t :: items => and_congr (Tree.every_sorted p q t) (everyItem_sorted p q items)

theorem everyMember_sorted (p : L -> Prop)
    (q : Points -> Prop) : ∀ members : List (Points × Tree L),
      EveryMember p q (sortedMembers members) ↔ EveryMember p q members
  | [] => Iff.rfl
  | (_, t) :: members =>
    and_congr Iff.rfl (and_congr (Tree.every_sorted p q t) (everyMember_sorted p q members))

end

mutual

theorem Tree.NoRepeat.sorted : ∀ {t : Tree L}, t.NoRepeat -> t.sorted.NoRepeat
  | .leaf _, _ => trivial
  | .array _, h => NoRepeatItems.sorted h
  | .object members, h => by
      have hnames := ((sortMembers_perm (sortedMembers members)).map Prod.fst).nodup_iff
      refine ⟨hnames.mpr ?_, noRepeatMembers_iff.mpr fun m hm => ?_⟩
      · rw [sortedMembers_names]
        exact h.1
      · exact noRepeatMembers_iff.mp (NoRepeatMembers.sorted h.2) m
          ((sortMembers_perm _).mem_iff.mp hm)

theorem NoRepeatItems.sorted :
    ∀ {items : List (Tree L)}, NoRepeatItems items -> NoRepeatItems (sortedItems items)
  | [], _ => trivial
  | _ :: _, h => ⟨h.1.sorted, NoRepeatItems.sorted h.2⟩

theorem NoRepeatMembers.sorted : ∀ {members : List (Points × Tree L)},
      NoRepeatMembers members -> NoRepeatMembers (sortedMembers members)
  | [], _ => trivial
  | _ :: _, h => ⟨h.1.sorted, NoRepeatMembers.sorted h.2⟩

end

mutual

theorem Tree.sorted_sorted : ∀ t : Tree L, t.sorted.sorted = t.sorted
  | .leaf _ => rfl
  | .array items => congrArg Tree.array (sortedItems_sorted items)
  | .object members => by
      have hmember := sortedMembers_sorted members
      have hfixed : sortedMembers (sortMembers (sortedMembers members)) =
          sortMembers (sortedMembers members) := by
        rw [sortedMembers_eq]
        refine (map_congr_left fun m hm => ?_).trans (map_id _)
        exact Prod.ext rfl (hmember m ((sortMembers_perm _).mem_iff.mp hm))
      simp only [Tree.sorted, hfixed]
      exact congrArg Tree.object (pairwise_insertionSort byName _).insertionSort_eq

theorem sortedItems_sorted :
    ∀ items : List (Tree L), sortedItems (sortedItems items) = sortedItems items
  | [] => rfl
  | t :: items => congrArg₂ List.cons (Tree.sorted_sorted t) (sortedItems_sorted items)

theorem sortedMembers_sorted :
    ∀ members : List (Points × Tree L), ∀ m ∈ sortedMembers members, m.2.sorted = m.2
  | (name, t) :: members, m, hm => by
      rcases mem_cons.mp hm with rfl | hm
      · exact Tree.sorted_sorted t
      · exact sortedMembers_sorted members m hm

end

/-- Sorting forgets the order of members, and nothing else. -/
theorem sortMembers_eq_iff {ms ns : List (Points × Tree L)} (hns : (ns.map Prod.fst).Nodup) :
    sortMembers ms = sortMembers ns ↔ ms.Perm ns := by
  constructor
  · intro h
    exact (sortMembers_perm ms).symm.trans (h ▸ sortMembers_perm ns)
  · intro h
    refine List.Perm.eq_of_pairwise ?_ (pairwise_insertionSort byName ms)
      (pairwise_insertionSort byName ns)
      ((sortMembers_perm ms).trans (h.trans (sortMembers_perm ns).symm))
    intro m n hm hn hle hge
    have hm' := h.mem_iff.mp ((sortMembers_perm ms).mem_iff.mp hm)
    have hn' := (sortMembers_perm ns).mem_iff.mp hn
    exact inj_on_of_nodup_map hns hm' hn' (le_antisymm hle hge)

theorem lookup_eq_some (h : (members.map Prod.fst).Nodup) {name : Points} {t : Tree L} :
    members.lookup name = some t ↔ (name, t) ∈ members := by
  induction members with
  | nil => simp
  | cons m members ih =>
    obtain ⟨key, u⟩ := m
    rw [map_cons, nodup_cons] at h
    rw [lookup_cons, mem_cons, Prod.mk.injEq]
    by_cases hkey : name = key
    · subst hkey
      have hnot : (name, t) ∉ members := fun hmem =>
        h.1 (mem_map.mpr ⟨_, hmem, rfl⟩)
      simp [hnot, eq_comm]
    · rw [beq_eq_false_iff_ne.mpr hkey]
      simp [hkey, ih h.2]

section Same

variable [DecidableEq L]

mutual

def Tree.same : Tree L -> Tree L -> Bool
  | .leaf a, .leaf b => decide (a = b)
  | .array items, .array others => sameItems items others
  | .object members, .object others =>
    decide (members.length = others.length) && sameMembers members others
  | _, _ => false

def sameItems : List (Tree L) -> List (Tree L) -> Bool
  | [], [] => true
  | t :: items, u :: others => t.same u && sameItems items others
  | _, _ => false

def sameMembers : List (Points × Tree L) -> List (Points × Tree L) -> Bool
  | [], _ => true
  | (name, t) :: members, others =>
    (match others.lookup name with
      | some u => t.same u
      | none => false) && sameMembers members others

end

theorem sameMembers_iff {ms ns : List (Points × Tree L)} (hns : (ns.map Prod.fst).Nodup) :
    sameMembers ms ns = true ↔ ∀ m ∈ ms, ∃ u, (m.1, u) ∈ ns ∧ m.2.same u = true := by
  induction ms with
  | nil => simp [sameMembers]
  | cons m ms ih =>
    obtain ⟨name, t⟩ := m
    simp only [sameMembers, Bool.and_eq_true, ih, forall_mem_cons]
    refine and_congr_left fun _ => ?_
    cases hfound : ns.lookup name with
    | none =>
      simp only [Bool.false_eq_true, false_iff, not_exists, not_and]
      intro u hu
      rw [<- lookup_eq_some hns, hfound] at hu
      cases hu
    | some u =>
      have hmem := (lookup_eq_some hns).mp hfound
      constructor
      · intro h
        exact ⟨u, hmem, h⟩
      · rintro ⟨u', hu', h⟩
        rw [<- lookup_eq_some hns, hfound] at hu'
        cases hu'
        exact h

mutual

theorem Tree.same_iff : ∀ {t u : Tree L}, t.NoRepeat -> u.NoRepeat ->
    (t.same u = true ↔ t.sorted = u.sorted)
  | .leaf a, .leaf b, _, _ => by simp [Tree.same, Tree.sorted]
  | .array items, .array others, ht, hu => by
      simp only [Tree.same, Tree.sorted, Tree.array.injEq]
      exact sameItems_iff ht hu
  | .object ms, .object ns, ht, hu => by
      have hnodup : ((sortedMembers ns).map Prod.fst).Nodup := by
        rw [sortedMembers_names]
        exact hu.1
      simp only [Tree.same, Tree.sorted, Tree.object.injEq, Bool.and_eq_true, decide_eq_true_eq,
        sameMembers_iff hu.1, sortMembers_eq_iff hnodup]
      have hmember := sameMembers_sorted ht.2 (noRepeatMembers_iff.mp hu.2)
      have hms : (sortedMembers ms).Nodup := by
        refine List.Nodup.of_map Prod.fst ?_
        rw [sortedMembers_names]
        exact ht.1
      constructor
      · rintro ⟨hlength, h⟩
        refine (subperm_of_subset hms fun m hm => ?_).perm_of_length_le ?_
        · rw [sortedMembers_eq, mem_map] at hm ⊢
          obtain ⟨m, hm, rfl⟩ := hm
          obtain ⟨v, hv, hsame⟩ := h m hm
          exact ⟨_, hv, Prod.ext rfl ((hmember m hm _ hv).mp hsame).symm⟩
        · simp [sortedMembers_eq, hlength]
      · intro h
        refine ⟨by simpa [sortedMembers_eq] using h.length_eq, fun m hm => ?_⟩
        have hin : (m.1, m.2.sorted) ∈ sortedMembers ns := by
          rw [<- h.mem_iff, sortedMembers_eq]
          exact mem_map_of_mem (f := fun m : Points × Tree L => (m.1, m.2.sorted)) hm
        rw [sortedMembers_eq, mem_map] at hin
        obtain ⟨n, hn, heq⟩ := hin
        obtain ⟨hname, hsorted⟩ := Prod.mk.inj heq
        refine ⟨n.2, ?_, (hmember m hm n hn).mpr hsorted.symm⟩
        rw [<- hname]
        exact hn
  | .leaf _, .array _, _, _ => by simp [Tree.same, Tree.sorted]
  | .leaf _, .object _, _, _ => by simp [Tree.same, Tree.sorted]
  | .array _, .leaf _, _, _ => by simp [Tree.same, Tree.sorted]
  | .array _, .object _, _, _ => by simp [Tree.same, Tree.sorted]
  | .object _, .leaf _, _, _ => by simp [Tree.same, Tree.sorted]
  | .object _, .array _, _, _ => by simp [Tree.same, Tree.sorted]

theorem sameItems_iff : ∀ {items others : List (Tree L)}, NoRepeatItems items ->
    NoRepeatItems others -> (sameItems items others = true ↔ sortedItems items = sortedItems others)
  | [], [], _, _ => by simp [sameItems]
  | [], _ :: _, _, _ => by simp [sameItems, sortedItems]
  | _ :: _, [], _, _ => by simp [sameItems, sortedItems]
  | t :: items, u :: others, ht, hu => by
      simp only [sameItems, sortedItems, Bool.and_eq_true, List.cons.injEq]
      exact and_congr (Tree.same_iff ht.1 hu.1) (sameItems_iff ht.2 hu.2)

theorem sameMembers_sorted : ∀ {ms ns : List (Points × Tree L)}, NoRepeatMembers ms ->
    (∀ n ∈ ns, n.2.NoRepeat) ->
    ∀ m ∈ ms, ∀ n ∈ ns, (m.2.same n.2 = true ↔ m.2.sorted = n.2.sorted)
  | (_, t) :: ms, ns, hms, hns, m, hm, n, hn => by
      rcases mem_cons.mp hm with rfl | hm
      · exact Tree.same_iff hms.1 (hns n hn)
      · exact sameMembers_sorted hms.2 hns m hm n hn

end

end Same

end Reprobit.Machine.Json

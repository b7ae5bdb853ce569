import Reprobit.Evidence.Certified
import Reprobit.Pe.Image

/-!
# Exact quarantine coordinates

A function-scoped legacy install declares addresses; its quarantine names file bytes.  The
map between them looks up both ends of a range, and is exact as long as no range begins in
one section and ends in another.
-/

namespace Reprobit.Evidence

open Machine List Option

def candidatePe32Image (files : String -> Option (List Byte)) (path : String) :
    Option Pe.Pe32Image :=
  (files path).bind fun data => (Pe.parsePe32 data).toOption

def Surroundings.reading (env : Surroundings) (files : String -> Option (List Byte)) :
    Surroundings :=
  { env with pe32Image := fun path => (candidatePe32Image files path).map fun image =>
      ⟨image.imageBase, fun rva => (image.rvaToFileOffset rva).toOption⟩ }

def HoldsAddress (image : Pe.Pe32Image) (s : Pe.CoffSection) (address : Nat) : Prop :=
  ∃ rva, address = image.imageBase + rva ∧ s.Holds rva

def backing (image : Pe.Pe32Image) (address : Nat) : Set Nat :=
  {offset | ∃ s ∈ image.sections, ∃ rva, address = image.imageBase + rva ∧ s.Backs rva offset}

/-- A range in one section that the mapped range backs bytewise. -/
structure ExactRange (image : Pe.Pe32Image) (address : Nat) (declared mapped : ByteRange) :
    Prop where
  length : mapped.length = declared.length
  inSection : ∃ s ∈ image.sections, ∀ i < declared.length,
    HoldsAddress image s (address + declared.offset + i)
  backed : ∀ i < declared.length,
    backing image (address + declared.offset + i) = {mapped.offset + i}

/-- Different declared bytes have different file bytes. -/
structure Exact (image : Pe.Pe32Image) (address : Nat) (declared mapped : List ByteRange) :
    Prop where
  placed : Forall₂ (ExactRange image address) declared mapped
  distinct : (mapped.flatMap fun r => List.range' r.offset r.length).Nodup

def Uncrossed (image : Pe.Pe32Image) (address : Nat) (declared : List ByteRange) : Prop :=
  ∀ r ∈ declared, ∀ s ∈ image.sections, HoldsAddress image s (address + r.offset) ->
    HoldsAddress image s (address + r.offset + (r.length - 1))

/-- What the map looks up: the file offsets of both ends of a range. -/
structure MappedEnds (image : Pe.Pe32Image) (address : Nat) (declared mapped : ByteRange) :
    Prop where
  length : mapped.length = declared.length
  first : mapped.offset ∈ backing image (address + declared.offset)
  last : mapped.offset + (declared.length - 1) ∈
    backing image (address + declared.offset + (declared.length - 1))

theorem ByteRange.overlaps_eq_false {a b : ByteRange} :
    a.overlaps b = false ↔ b.stop <= a.offset ∨ a.stop <= b.offset := by
  simp only [overlaps, Bool.and_eq_false_iff, decide_eq_false_iff_not, Nat.not_lt]

theorem toOption_eq_some {ε α : Type} {x : Except ε α} {a : α} :
    x.toOption = some a ↔ x = .ok a := by
  cases x <;> simp [Except.toOption]

theorem mappedRanges_ends {image : Pe.Pe32Image} {address : Nat} {declared mapped : List ByteRange}
    (h : mappedRanges ⟨image.imageBase, fun rva => (image.rvaToFileOffset rva).toOption⟩ address
      declared = some mapped) : Forall₂ (MappedEnds image address) declared mapped := by
  induction declared generalizing mapped with
  | nil =>
    cases h
    exact .nil
  | cons item items ih =>
    simp only [mappedRanges, bind_eq_bind, bind_none, ite_not,
      ite_none_left_eq_some, ite_none_right_eq_some, bind_eq_some_iff,
      Option.pure_def, Option.some.injEq, toOption_eq_some] at h
    obtain ⟨hbase, start, hstart, last, hlast, heq, rest, hrest, rfl⟩ := h
    have hpos := item.nonempty
    obtain ⟨s, hs, hstart⟩ := Pe.Pe32Image.rvaToFileOffset_backs hstart
    obtain ⟨t, ht, hlast⟩ := Pe.Pe32Image.rvaToFileOffset_backs hlast
    rw [heq, Nat.add_sub_assoc hpos, Nat.add_sub_assoc hpos] at hlast
    exact .cons ⟨rfl, ⟨s, hs, _, by omega, hstart⟩, ⟨t, ht, _, by omega, hlast⟩⟩ (ih hrest)

section

variable {image : Pe.Pe32Image} {address a : Nat} {declared mapped : List ByteRange}
  (hapart : image.sections.Pairwise Pe.CoffSection.Apart)
include hapart

theorem holdsAddress_unique {s t : Pe.CoffSection} (hs : s ∈ image.sections)
    (ht : t ∈ image.sections) (hsa : HoldsAddress image s a) (hta : HoldsAddress image t a) :
    s = t := by
  by_contra hne
  have hst := (hapart.forall hs ht hne).1
  obtain ⟨rva, rfl, hsa⟩ := hsa
  obtain ⟨rva', heq, hta⟩ := hta
  unfold Pe.CoffSection.Holds at hsa hta
  omega

/-- A file byte backs one address. -/
theorem backing_inj {b offset : Nat} (ha : offset ∈ backing image a) (hb : offset ∈ backing image b)
    : a = b := by
  obtain ⟨s, hs, _, rfl, k, hk, rfl, rfl⟩ := ha
  obtain ⟨t, ht, _, rfl, l, hl, rfl, heq⟩ := hb
  by_cases hst : s = t
  · subst hst
    omega
  · have := (hapart.forall hs ht hst).2
    omega

theorem exactRange_of_ends {r m : ByteRange} (h : MappedEnds image address r m)
    (huncrossed : ∀ s ∈ image.sections, HoldsAddress image s (address + r.offset) ->
      HoldsAddress image s (address + r.offset + (r.length - 1))) :
    ExactRange image address r m := by
  obtain ⟨s, hs, rva, hfirst, k, hk, rfl, hoffset⟩ := h.first
  obtain ⟨t, ht, rva', hlast, l, hl, rfl, hend⟩ := h.last
  have hst : s = t := holdsAddress_unique hapart hs ht
    (huncrossed s hs ⟨_, hfirst, by unfold Pe.CoffSection.Holds Pe.CoffSection.extent; omega⟩)
    ⟨_, hlast, by unfold Pe.CoffSection.Holds Pe.CoffSection.extent; omega⟩
  subst hst
  have hinside : ∀ i < r.length, k + i < s.rawData.length ∧
      address + r.offset + i = image.imageBase + (s.virtualAddress + (k + i)) := by
    omega
  have hholds : ∀ i < r.length, HoldsAddress image s (address + r.offset + i) := fun i hi =>
    ⟨_, (hinside i hi).2, by
      unfold Pe.CoffSection.Holds Pe.CoffSection.extent
      omega⟩
  refine ⟨h.length, ⟨s, hs, hholds⟩, fun i hi => Set.ext fun offset => ⟨?_, ?_⟩⟩
  · rintro ⟨u, hu, _, hrva, n, hn, rfl, rfl⟩
    have hsu : s = u := holdsAddress_unique hapart hs hu (hholds i hi)
      ⟨_, hrva, by unfold Pe.CoffSection.Holds Pe.CoffSection.extent; omega⟩
    subst hsu
    exact Set.mem_singleton_iff.mpr (by omega)
  · rintro rfl
    exact ⟨s, hs, _, (hinside i hi).2, _, (hinside i hi).1, rfl, by omega⟩

theorem ExactRange.apart {r m r' m' : ByteRange} (h : ExactRange image address r m)
    (h' : ExactRange image address r' m') (hdeclared : r.stop <= r'.offset) :
    m.overlaps m' = false := by
  rw [ByteRange.overlaps_eq_false]
  by_contra hoverlap
  have hpos := r.nonempty
  have hpos' := r'.nonempty
  simp only [ByteRange.stop, h.length, h'.length] at hoverlap hdeclared
  -- the larger start is a byte of both
  obtain ⟨i, hi⟩ := Nat.exists_eq_add_of_le (Nat.le_max_left m.offset m'.offset)
  obtain ⟨j, hj⟩ := Nat.exists_eq_add_of_le (Nat.le_max_right m.offset m'.offset)
  have hsame := backing_inj hapart ((h.backed i (by omega)).ge rfl)
    ((hj.symm.trans hi) ▸ (h'.backed j (by omega)).ge rfl)
  omega

theorem exact_of_ends (hends : Forall₂ (MappedEnds image address) declared mapped)
    (hordered : declared.Pairwise fun a b => a.stop <= b.offset)
    (huncrossed : Uncrossed image address declared) :
    Exact image address declared mapped ∧ mapped.Pairwise fun a b => a.overlaps b = false := by
  have hplaced : Forall₂ (ExactRange image address) declared mapped := by
    induction hends with
    | nil => exact .nil
    | cons hr _ ih =>
      rw [pairwise_cons] at hordered
      exact .cons (exactRange_of_ends hapart hr (huncrossed _ (by simp)))
        (ih hordered.2 fun r hr => huncrossed r (by simp [hr]))
  have hpair := forall₂_pairwise hplaced hordered fun _ _ _ _ h h' => h.apart hapart h'
  refine ⟨⟨hplaced, nodup_flatMap.mpr ⟨fun r _ => nodup_range', hpair.imp fun {a b} hab => ?_⟩⟩,
    hpair⟩
  intro offset ha hb
  rw [ByteRange.overlaps_eq_false] at hab
  simp only [ByteRange.stop, mem_range'_1] at hab ha hb
  omega

theorem Exact.uncrossed (h : Exact image address declared mapped) :
    Uncrossed image address declared := by
  intro r hr s hs hfirst
  obtain ⟨m, -, hrange⟩ := forall₂_mem h.placed hr
  have hpos := r.nonempty
  obtain ⟨t, ht, hholds⟩ := hrange.inSection
  rw [holdsAddress_unique hapart hs ht hfirst (hholds 0 hpos)]
  exact hholds _ (by omega)

end

theorem buildQuarantine_isOk {intervention : Intervention} {install : LegacyOracleInstall}
    {artifactId : Identifier} {mapped : List ByteRange}
    (hlengths : mapped.map (·.length) = install.outputRanges.map (·.length))
    (hpair : mapped.Pairwise fun a b => a.overlaps b = false) :
    (buildQuarantine intervention install artifactId (mapped, .artifactFile)).isOk := by
  have hperm : (sortRanges mapped).Perm mapped := mergeSort_perm _ _
  have hchain := (hperm.pairwise_iff fun {a b} hab => by
    rw [ByteRange.overlaps_eq_false] at *
    exact hab.symm).mpr hpair
  have hsum := (hperm.map (·.length)).sum_eq
  rw [hlengths, install.byte_count_eq] at hsum
  simp [buildQuarantine, require, hchain.isChain, hsum, bind, Except.bind, pure, Except.pure,
    Except.isOk, Except.toBool]

theorem pairwise_stop_le {ranges : List ByteRange}
    (hordered : ranges.Pairwise fun a b => a.offset <= b.offset)
    (hdisjoint : ranges.IsChain fun a b => a.overlaps b = false) :
    ranges.Pairwise fun a b => a.stop <= b.offset := by
  induction ranges with
  | nil => exact .nil
  | cons a rest ih =>
    refine .cons (fun b hb => ?_) (ih hordered.of_cons hdisjoint.tail)
    cases rest with
    | nil => simp at hb
    | cons c rest =>
      have hac := ByteRange.overlaps_eq_false.mp (isChain_cons_cons.mp hdisjoint).1
      have hle : a.offset <= c.offset := rel_of_pairwise_cons hordered (by simp)
      have hcb : c.offset <= b.offset := by
        rcases mem_cons.mp hb with rfl | hb
        · rfl
        · exact rel_of_pairwise_cons hordered.of_cons hb
      have hpos := c.nonempty
      unfold ByteRange.stop at *
      omega

/-- Coordinates of a function-scoped install that are answered as file offsets are exact, and
make a quarantine record, exactly if no declared range begins in one section and ends in
another. -/
theorem legacyQuarantineRanges_exact_iff (env : Surroundings)
    (files : String -> Option (List Byte)) (intervention : Intervention)
    (install : LegacyOracleInstall) (target : Option TargetVerification) (artifactId : Identifier)
    (mapped : List ByteRange) (hscope : intervention.scope.function.isSome)
    (h : legacyQuarantineRanges (env.reading files) intervention install target =
      (mapped, .artifactFile)) :
    ∃ t image, target = some t ∧ candidatePe32Image files t.artifact = some image ∧
      (Exact image install.oracleAddress install.outputRanges mapped ∧
        (buildQuarantine intervention install artifactId (mapped, .artifactFile)).isOk ↔
      Uncrossed image install.oracleAddress install.outputRanges) := by
  obtain ⟨t, image, rfl, himage, hmapped⟩ : ∃ t image, target = some t ∧
      candidatePe32Image files t.artifact = some image ∧
      mappedRanges ⟨image.imageBase, fun rva => (image.rvaToFileOffset rva).toOption⟩
        install.oracleAddress install.outputRanges = some mapped := by
    unfold legacyQuarantineRanges at h
    rw [if_neg (by simpa [isSome_iff_ne_none] using hscope)] at h
    split at h
    · cases h
    · rename_i hsome
      cases h
      simpa [Surroundings.reading, bind_eq_some_iff, and_assoc] using hsome
  obtain ⟨data, -, hparsed⟩ := bind_eq_some_iff.mp himage
  have hapart := Pe.parsePe32_apart (toOption_eq_some.mp hparsed)
  have hends := mappedRanges_ends hmapped
  refine ⟨t, image, rfl, himage, fun hexact => hexact.1.uncrossed hapart, fun huncrossed => ?_⟩
  obtain ⟨hexact, hpair⟩ := exact_of_ends hapart hends
    (pairwise_stop_le install.ranges_ordered install.ranges_disjoint) huncrossed
  refine ⟨hexact, buildQuarantine_isOk ?_ hpair⟩
  rw [<- forall₂_eq_eq_eq, forall₂_map_left_iff, forall₂_map_right_iff]
  exact hends.flip.imp fun _ _ hr => hr.length

/-- Three sections of two bytes; the last lies between the others. -/
def gapImage : List Byte :=
  [0x4D#8, 0x5A#8] ++ replicate 58 0#8 ++ leBytes 4 64 ++ leBytes 4 0x4550 ++ leBytes 2 0x14C ++
    leBytes 2 3 ++ replicate 12 0#8 ++ leBytes 4 68 ++ leBytes 2 0x10B ++ replicate 66 0#8 ++
    [(0, 276), (4, 280), (8, 278)].flatMap (fun (address, raw) => leBytes 8 0x61 ++ leBytes 4 2 ++
      leBytes 4 address ++ leBytes 4 2 ++ leBytes 4 raw ++ replicate 16 0#8) ++ replicate 6 0#8

/-- One range over the first two sections, and the third. -/
def gapInstall : LegacyOracleInstall :=
  ⟨0, [⟨0, 6, by decide⟩, ⟨8, 2, by decide⟩], 8, by decide, by decide, by decide, by decide⟩

def sectionInstall : LegacyOracleInstall :=
  ⟨0, [⟨0, 2, by decide⟩, ⟨4, 2, by decide⟩, ⟨8, 2, by decide⟩], 6, by decide, by decide, by decide,
    by decide⟩

def installed (install : LegacyOracleInstall) : Intervention :=
  ⟨"install", ⟨"app", some "unit", some "f", by decide⟩, .legacyOracleInstall install⟩

/-- The two bytes between the first sections have no file byte; they are answered as the bytes of
the third section, and the record is refused. -/
theorem gapInstall_refused :
    legacyQuarantineRanges (plainSurroundings.reading fun _ => some gapImage)
        (installed gapInstall) gapInstall (some ⟨"app", "/app.exe", 1, "2"⟩) =
      ([⟨276, 6, by decide⟩, ⟨278, 2, by decide⟩], .artifactFile) ∧
    buildQuarantine (installed gapInstall) gapInstall "image"
        ([⟨276, 6, by decide⟩, ⟨278, 2, by decide⟩], .artifactFile) =
      .error "quarantine ranges overlap" := by
  refine ⟨by decide +kernel, ?_⟩
  have hsort : sortRanges [⟨276, 6, by decide⟩, ⟨278, 2, by decide⟩] =
      [⟨276, 6, by decide⟩, ⟨278, 2, by decide⟩] := mergeSort_of_pairwise (by simp)
  rw [buildQuarantine, hsort]
  rfl

theorem sectionInstall_exact :
    ∃ (t : TargetVerification) (image : _), some ⟨"app", "/app.exe", 1, "2"⟩ = some t ∧
      candidatePe32Image (fun _ => some gapImage) t.artifact = some image ∧
      (Exact image 0 sectionInstall.outputRanges
          [⟨276, 2, by decide⟩, ⟨280, 2, by decide⟩, ⟨278, 2, by decide⟩] ∧
        (buildQuarantine (installed sectionInstall) sectionInstall "image"
          ([⟨276, 2, by decide⟩, ⟨280, 2, by decide⟩, ⟨278, 2, by decide⟩], .artifactFile)).isOk ↔
      Uncrossed image 0 sectionInstall.outputRanges) :=
  legacyQuarantineRanges_exact_iff plainSurroundings (fun _ => some gapImage)
    (installed sectionInstall)
    sectionInstall (some ⟨"app", "/app.exe", 1, "2"⟩) "image" _ rfl
    (by decide +kernel)

end Reprobit.Evidence

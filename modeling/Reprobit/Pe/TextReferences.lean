import Reprobit.Pe.TextPads
import Reprobit.Pe.BaseRelocations

/-!
# References through a text repack

Branches and absolute references are rewritten at their new places while pieces move
and a range is filled, and nothing keeps these writes off one another.  In an image
whose sections and headers are laid out apart, every reference is kept exactly where
the writes do not meet.
-/

namespace Reprobit.Pe

open Machine List

/-- Two ranges of addresses have an address in common. -/
def Overlap (va : Int) (size : Nat) (va' : Int) (size' : Nat) : Prop :=
  va < va' + size' ∧ va' < va + size

instance (va : Int) (size : Nat) (va' : Int) (size' : Nat) :
    Decidable (Overlap va size va' size') := inferInstanceAs (Decidable (_ ∧ _))

def Image.Lies (image : Image) (va : Int) (size offset : Nat) : Prop :=
  ∃ s ∈ image.headers.sections, image.Backs s va size ∧ offset = image.place s va

def Pe32Section.AddressesApart (s t : Pe32Section) : Prop :=
  s.rawSize = 0 ∨ t.rawSize = 0 ∨ s.virtualAddress + s.rawSize <= t.virtualAddress ∨
    t.virtualAddress + t.rawSize <= s.virtualAddress

instance : Std.Symm Pe32Section.AddressesApart where
  symm s t h := by
    unfold Pe32Section.AddressesApart at *
    omega

instance (s t : Pe32Section) : Decidable (s.AddressesApart t) :=
  inferInstanceAs (Decidable (_ ∨ _))

namespace Image

variable {image : Image} {va va' : Int} {size size' offset offset' : Nat} {s t : Pe32Section}
  {data : List Byte}

theorem Lies.of_vaToOffset (h : image.vaToOffset va size = .ok offset) :
    image.Lies va size offset := by
  obtain ⟨s, hs, hbacks, rfl, -⟩ := image.vaToOffset_spec h
  exact ⟨s, hs, hbacks, rfl⟩

theorem Lies.sub (h : image.Lies va size offset) {k n : Nat} (hk : k + n <= size) :
    image.Lies (va + k) n (offset + k) := by
  obtain ⟨s, hs, hbacks, rfl⟩ := h
  refine ⟨s, hs, ?_, ?_⟩ <;>
    simp only [Backs, Pe32Section.BacksRva, place, Pe32Section.offsetOf] at hbacks ⊢ <;> omega

section

variable (haddresses : image.headers.sections.Pairwise Pe32Section.AddressesApart)

include haddresses

theorem eq_of_backs (hs : s ∈ image.headers.sections) (ht : t ∈ image.headers.sections)
    (hbacks : image.Backs s va size) (hbacks' : image.Backs t va' size') (hsize : 0 < size)
    (hsize' : 0 < size') (hoverlap : Overlap va size va' size') : s = t := by
  by_contra hne
  have hapart := haddresses.forall hs ht hne
  simp only [Pe32Section.AddressesApart, Backs, Pe32Section.BacksRva, Overlap] at *
  omega

/-- Ranges share file bytes exactly where they share addresses. -/
theorem Lies.apart_iff (himage : pe32 data = .ok image) (h : image.Lies va size offset)
    (h' : image.Lies va' size' offset') (hsize : 0 < size) (hsize' : 0 < size') :
    (Span.ofSize offset size).Apart (Span.ofSize offset' size') ↔ ¬ Overlap va size va' size' := by
  obtain ⟨s, hs, hbacks, rfl⟩ := h
  obtain ⟨t, ht, hbacks', rfl⟩ := h'
  by_cases hst : s = t
  · subst hst
    rw [Span.apart_iff]
    simp only [Span.ofSize, Backs, Pe32Section.BacksRva, place, Pe32Section.offsetOf, Overlap] at *
    omega
  · refine iff_of_true (fun o ho ho' => hst ?_) fun hoverlap =>
      hst (eq_of_backs haddresses hs ht hbacks hbacks' hsize hsize' hoverlap)
    obtain ⟨v, hv, rfl⟩ := (Image.mem_place_iff hbacks).mp ho
    obtain ⟨v', hv', heq⟩ := (Image.mem_place_iff hbacks').mp ho'
    exact (pe32_parsed himage).2.eq_of_mem_raw hs ht (Image.place_mem_raw hbacks hv)
      (heq ▸ Image.place_mem_raw hbacks' hv')

theorem Lies.unique
    (h : image.Lies va size offset) (h' : image.Lies va size' offset') (hsize : 0 < size)
    (hsize' : 0 < size') : offset = offset' := by
  obtain ⟨s, hs, hbacks, rfl⟩ := h
  obtain ⟨t, ht, hbacks', rfl⟩ := h'
  rw [eq_of_backs haddresses hs ht hbacks hbacks' hsize hsize' (by simp only [Overlap]; omega)]

end

theorem Lies.le_length (himage : pe32 data = .ok image) (h : image.Lies va size offset)
    (hsize : 0 < size) : offset + size <= data.length := by
  obtain ⟨s, hs, hbacks, rfl⟩ := h
  exact Image.place_add_le himage hs hbacks hsize

end Image

/-! ## References -/

/-- Its address before the move, its size, and its operand. -/
structure Reference where
  site : Int
  size : Nat
  operand : Nat
  rewritten : Bool
  deriving DecidableEq

def branchTarget (body : List Byte) (textStart index : Nat) : Option Int :=
  (branchAt body index).map fun (length, immediate) =>
    (textStart + index + length + signed32 (numberAt body (index + immediate) 4)) % 2 ^ 32

namespace Derived

variable (d : Derived)

def textStart : Nat := d.image.imageBase + d.text.virtualAddress

/-- The text of a file laid out like the image. -/
def body (data : List Byte) : List Byte := slice data d.text.rawOffset d.text.rawSize

def site (e : BaseEntry) : Int := (d.image.imageBase : Int) + e.rva

def ofEntry (e : BaseEntry) : Reference :=
  ⟨d.site e, 4, 0, d.absolute.any fun a => (a.siteVa : Int) = d.site e⟩

def ofBranch (f : Rel32Fixup) : Reference := ⟨f.siteVa, f.immOffset + 4, f.immOffset, true⟩

/-- Every base relocation, and every branch that is rewritten. -/
def references : List Reference := d.entries.map d.ofEntry ++ d.rel32.map ofBranch

/-- The first address of a reference after the move. -/
def newSite (r : Reference) : Int := moved d.pieces r.site

def movedEntry (e : BaseEntry) : BaseEntry :=
  ⟨e.entryAt, (moved d.pieces (d.site e) - d.image.imageBase).toNat⟩

end Derived

section

variable (candidate : List Byte) (declaration : RepackDeclaration) (d : Derived)
  (patches : RepackPatches) (result : List Byte)

/-- The writes keep off one another and off other references. -/
structure NoInterference : Prop where
  blocks : patches.blocks.Pairwise fun a b => a.span.Apart b.span
  fillBlocks : ∀ block ∈ patches.blocks, patches.fill.span.Apart block.span
  rewrites : ∀ (i j : Nat) r r' o o', d.references[i]? = some r -> d.references[j]? = some r' ->
    i ≠ j -> r.rewritten = true -> d.image.vaToOffset (d.newSite r) r.size = .ok o ->
    d.image.vaToOffset (d.newSite r') r'.size = .ok o' ->
    (Span.ofSize (o + r.operand) 4).Apart (.ofSize o' r'.size)
  fillReferences : ∀ r ∈ d.references, ∀ o, d.image.vaToOffset (d.newSite r) r.size = .ok o ->
    patches.fill.span.Apart (.ofSize o r.size)
  blockReferences : ∀ p ∈ d.pieces.list, ∀ block, blockPatch candidate d p = .ok block ->
    ∀ r ∈ d.references, ∀ o, d.image.vaToOffset (d.newSite r) r.size = .ok o ->
    block.span.Apart (.ofSize o r.size) ∨ (p.low <= r.site ∧ r.site + r.size <= p.high)

/-- The references of the candidate are those of the result, moved. -/
structure KeepsReferences : Prop where
  entries : ∃ entries, relocationEntries result d.reloc = .ok entries ∧
    ∀ e ∈ d.entries, d.movedEntry e ∈ entries
  dwords : ∀ e ∈ d.entries, ∃ old new, d.image.vaToOffset (d.site e) 4 = .ok old ∧
    d.image.vaToOffset (moved d.pieces (d.site e)) 4 = .ok new ∧
    (numberAt result new 4 : Int) = moved d.pieces (numberAt candidate old 4)
  branches : ∀ f ∈ d.rel32, ∃ target,
    branchTarget (d.body candidate) d.textStart (f.siteVa - d.textStart) = some target ∧
    branchTarget (d.body result) d.textStart ((moved d.pieces f.siteVa).toNat - d.textStart) =
      some (moved d.pieces target)
  noInterference : NoInterference candidate d patches

/-- Sections share no addresses, lie behind the headers, and the table is neither filled nor
relocated. -/
structure Tidy : Prop where
  addresses : d.image.headers.sections.Pairwise Pe32Section.AddressesApart
  headers : ∀ s ∈ d.image.headers.sections, s.rawSize = 0 ∨
    d.image.headers.headersEnd <= s.rawOffset
  fill : ¬ d.image.Backs d.reloc declaration.vacatedFill.va declaration.vacatedFill.length
  entries : ∀ e ∈ d.entries, ¬ d.image.Backs d.reloc (d.site e) 4

/-- The ranges that are written do not meet. -/
structure Separated : Prop where
  /-- an entry that moves has the low bits of its address -/
  aligned : ∀ e ∈ d.entries, pieceShift d.pieces (d.site e) ≠ none ->
    numberAt candidate e.entryAt 2 % 2 ^ 12 = e.rva % 2 ^ 12
  /-- the new place of every reference is in the file -/
  mapped : ∀ r ∈ d.references, ∃ o, d.image.vaToOffset (d.newSite r) r.size = .ok o
  /-- no rewritten operand meets another reference -/
  rewrites : ∀ (i j : Nat) r r', d.references[i]? = some r -> d.references[j]? = some r' -> i ≠ j ->
    r.rewritten = true -> ¬ Overlap (d.newSite r + r.operand) 4 (d.newSite r') r'.size
  /-- a piece comes to a reference only if it brings all of it -/
  pieces : ∀ p ∈ d.pieces.list, ∀ r ∈ d.references,
    Overlap p.target p.size (d.newSite r) r.size -> p.low <= r.site ∧ r.site + r.size <= p.high
  fillPieces : ∀ p ∈ d.pieces.list, ¬ Overlap declaration.vacatedFill.va
    declaration.vacatedFill.length p.target p.size
  fillReferences : ∀ r ∈ d.references, ¬ Overlap declaration.vacatedFill.va
    declaration.vacatedFill.length (d.newSite r) r.size

end

/-! ## What a repack has derived -/

/-- An accepted repack, taken apart. -/
structure Repacked (candidate : List Byte) (declaration : RepackDeclaration) (d : Derived)
    (patches : RepackPatches) (result : List Byte) : Prop where
  checked : d.Checked candidate declaration
  blocks : runEach (blockPatch candidate d) d.pieces.list = .ok patches.blocks
  fill : fillPatch d declaration.vacatedFill = .ok patches.fill
  rel32 : runEach (rel32Patch d) d.rel32 = .ok patches.rel32
  absolute : runEach (absolutePatch d) d.absolute = .ok patches.absolute
  virtualSize : virtualSizePatch d declaration = .ok patches.virtualSize
  result : result = written candidate d patches

theorem applyTextRepackCandidate_repacked {candidate : List Byte} {declaration : RepackDeclaration}
    {result : List Byte} (h : applyTextRepackCandidate candidate declaration = .ok result) :
    ∃ d patches, derive candidate declaration = .ok d ∧
      repackPatches candidate d declaration = .ok patches ∧
      Repacked candidate declaration d patches result := by
  simp only [applyTextRepackCandidate, bind_eq_ok, pure_eq_ok] at h
  obtain ⟨d, hd, patches, hpatches, _, -, _, -, rfl⟩ := h
  refine ⟨d, patches, hd, hpatches, ?_⟩
  simp only [repackPatches, bind_eq_ok, pure_eq_ok] at hpatches
  obtain ⟨blocks, hblocks, fill, hfill, rel32, hrel32, absolute, habsolute, size, hsize, rfl⟩ :=
    hpatches
  exact ⟨derive_checked hd, hblocks, hfill, hrel32, habsolute, hsize, rfl⟩

variable {candidate : List Byte} {declaration : RepackDeclaration} {d : Derived}
  {patches : RepackPatches} {result : List Byte}

/-! ### Pieces -/

variable {pieces : Pieces} {p : Piece} {f : Rel32Fixup} {e : BaseEntry} {i size o index old : Nat}
  {r : Reference}
  {q : Patch} {va : Int} {a : AbsoluteFixup} {s : Pe32Section} {image : Image}

theorem pieceShift_eq_some {shift : Nat} (h : pieceShift pieces va = some shift) :
    ∃ p ∈ pieces.list, p.Contains va ∧ p.shift = shift := by
  obtain ⟨p, hp, rfl⟩ := mem_map.mp (mem_of_head? h)
  obtain ⟨hmem, hcontains⟩ := mem_filter.mp hp
  exact ⟨p, hmem, by simpa using hcontains, rfl⟩

theorem pieceShift_eq_none :
    pieceShift pieces va = none ↔ ∀ p ∈ pieces.list, ¬ p.Contains va := by
  simp [pieceShift]

theorem moved_of_none (h : pieceShift pieces va = none) : moved pieces va = va := by
  simp [moved, h]

theorem Pieces.eq_of_contains (pieces : Pieces) {q : Piece} (hp : p ∈ pieces.list)
    (hq : q ∈ pieces.list) (hpva : p.Contains va) (hqva : q.Contains va) : p = q := by
  by_contra hne
  have hpair := pieces.sources.pairwise (by
    intro r hr
    obtain ⟨p, hp, rfl⟩ := mem_map.mp hr
    exact pieces.nonempty p hp)
  rw [pairwise_map] at hpair
  have hsymm : Std.Symm fun p q : Piece => p.high <= q.low ∨ q.high <= p.low := ⟨fun _ _ => Or.symm⟩
  have happart := hpair.forall hp hq hne
  simp only [Piece.Contains] at hpva hqva
  omega

theorem moved_of_contains (hp : p ∈ pieces.list) (hva : p.Contains va) :
    moved pieces va = va - p.shift := by
  cases h : pieceShift pieces va with
  | none => exact absurd hva (pieceShift_eq_none.mp h p hp)
  | some shift =>
    obtain ⟨q, hq, hqva, rfl⟩ := pieceShift_eq_some h
    rw [moved, h, pieces.eq_of_contains hp hq hva hqva]
    rfl

/-! ### Branches -/

theorem branchAt_spec {body : List Byte} {length immediate : Nat}
    (h : branchAt body index = some (length, immediate)) :
    length = immediate + 4 ∧ (immediate = 1 ∨ immediate = 2 ∧ index + 6 <= body.length) := by
  simp only [branchAt] at h
  split at h
  · cases h
    simp
  · split at h
    · rename_i hlong
      cases h
      exact ⟨rfl, .inr ⟨rfl, hlong.1⟩⟩
    · cases h

/-- A rewritten branch, and where it goes. -/
structure BranchFixup (candidate : List Byte) (d : Derived) (f : Rel32Fixup) (index : Nat)
    (target : Int) : Prop where
  site : f.siteVa = d.textStart + index
  branch : branchAt (d.body candidate) index = some (f.immOffset + 4, f.immOffset)
  room : index + f.immOffset + 4 <= (d.body candidate).length
  goes : target = (d.textStart + index + (f.immOffset + 4 : Nat) +
    signed32 (numberAt (d.body candidate) (index + f.immOffset) 4)) % 2 ^ 32
  new : f.new = moved d.pieces target - moved d.pieces f.siteVa - (f.immOffset + 4 : Nat)
  inText : d.textStart <= target ∧ target < d.textStart + (d.body candidate).length

theorem Derived.Checked.branchFixup (h : d.Checked candidate declaration) (hf : f ∈ d.rel32) :
    ∃ index target, BranchFixup candidate d f index target := by
  rw [h.rel32, derivedRel32] at hf
  obtain ⟨index, hindex, hfixup⟩ := mem_filterMap.mp hf
  rw [mem_range] at hindex
  unfold rel32FixupAt at hfixup
  split at hfixup
  · cases hfixup
  · rename_i length immediate hbranch
    obtain ⟨rfl, himmediate⟩ := branchAt_spec hbranch
    dsimp only at hfixup
    split at hfixup
    · rename_i hdue
      cases hfixup
      refine ⟨index, _, rfl, hbranch, ?_, rfl, rfl, hdue.2.1, hdue.2.2.1⟩
      change index + immediate + 4 <= (slice candidate d.text.rawOffset d.text.rawSize).length
      omega
    · cases hfixup

/-! ### Entries -/

theorem entryFixups_eq_ok {fixups : Option AbsoluteFixup × Option EntryMove} :
    entryFixups candidate image pieces e = .ok fixups ↔
      ∃ old, image.vaToOffset ((image.imageBase : Int) + e.rva) 4 = .ok old ∧
        (pieceShift pieces ((image.imageBase : Int) + e.rva) ≠ none -> (e.rva : Int) / 2 ^ 12 =
          (moved pieces ((image.imageBase : Int) + e.rva) - image.imageBase) / 2 ^ 12) ∧
        ((pieceShift pieces (numberAt candidate old 4)).map fun _ =>
            (⟨image.imageBase + e.rva, numberAt candidate old 4,
              moved pieces (numberAt candidate old 4)⟩ : AbsoluteFixup),
          (pieceShift pieces ((image.imageBase : Int) + e.rva)).map fun _ =>
            (⟨e.entryAt, e.rva,
              moved pieces ((image.imageBase : Int) + e.rva) - image.imageBase⟩ : EntryMove)) =
          fixups := by
  simp only [entryFixups, bind_eq_ok, require_eq_ok, pure_eq_ok, Int.natCast_add,
    exists_const]

theorem runEach_filterMap {α β γ : Type} {f : α -> Refusing β} {xs : List α} {ys : List β}
    (h : runEach f xs = .ok ys) {g : β -> Option γ} {k : α -> Option γ}
    (hgk : ∀ x y, f x = .ok y -> g y = k x) : ys.filterMap g = xs.filterMap k := by
  rw [runEach_eq_ok] at h
  induction h with
  | nil => rfl
  | cons hxy _ ih => rw [filterMap_cons, filterMap_cons, hgk _ _ hxy, ih]

def Derived.moveOf (d : Derived) (e : BaseEntry) : Option EntryMove :=
  (pieceShift d.pieces (d.site e)).map fun _ =>
    ⟨e.entryAt, e.rva, moved d.pieces (d.site e) - d.image.imageBase⟩

namespace Derived.Checked

variable (h : d.Checked candidate declaration)

include h

theorem moves_eq : d.moves = d.entries.filterMap d.moveOf := by
  obtain ⟨fixups, hfixups, -, hmoves⟩ := h.fixups
  rw [hmoves]
  refine runEach_filterMap hfixups fun e y hy => ?_
  obtain ⟨old, -, -, rfl⟩ := entryFixups_eq_ok.mp hy
  rfl

theorem entry (he : e ∈ d.entries) : ∃ old, d.image.vaToOffset (d.site e) 4 = .ok old ∧
      (pieceShift d.pieces (d.site e) ≠ none -> (e.rva : Int) / 2 ^ 12 =
        (moved d.pieces (d.site e) - d.image.imageBase) / 2 ^ 12) := by
  obtain ⟨fixups, hfixups, -⟩ := h.fixups
  obtain ⟨y, -, hy⟩ := runEach_mem hfixups he
  obtain ⟨old, hold, hpage, -⟩ := entryFixups_eq_ok.mp hy
  exact ⟨old, hold, hpage⟩

theorem absolute_mem : a ∈ d.absolute ↔ ∃ e ∈ d.entries, ∃ old,
    d.image.vaToOffset (d.site e) 4 = .ok old ∧
      pieceShift d.pieces (numberAt candidate old 4) ≠ none ∧
      a = ⟨d.image.imageBase + e.rva, numberAt candidate old 4,
        moved d.pieces (numberAt candidate old 4)⟩ := by
  obtain ⟨fixups, hfixups, habsolute, -⟩ := h.fixups
  rw [habsolute, mem_filterMap]
  constructor
  · rintro ⟨y, hy, hsome⟩
    obtain ⟨e, he, hye⟩ := runEach_mem_result hfixups hy
    obtain ⟨old, hold, -, rfl⟩ := entryFixups_eq_ok.mp hye
    obtain ⟨shift, hshift, rfl⟩ := Option.map_eq_some_iff.mp hsome
    exact ⟨e, he, old, hold, by simp [hshift], rfl⟩
  · rintro ⟨e, he, old, hold, hshift, rfl⟩
    obtain ⟨y, hy, hye⟩ := runEach_mem hfixups he
    refine ⟨y, hy, ?_⟩
    obtain ⟨old', hold', -, rfl⟩ := entryFixups_eq_ok.mp hye
    have heq := hold.symm.trans hold'
    cases heq
    obtain ⟨shift, hshift⟩ := Option.ne_none_iff_exists'.mp hshift
    simp [hshift]

theorem rewritten_iff (hold : d.image.vaToOffset (d.site e) 4 = .ok old) (he : e ∈ d.entries) :
    (d.ofEntry e).rewritten = true ↔ pieceShift d.pieces (numberAt candidate old 4) ≠ none := by
  simp only [Derived.ofEntry, any_eq_true, decide_eq_true_eq]
  constructor
  · rintro ⟨a, ha, hsite⟩
    obtain ⟨e', -, old', hold', hshift, rfl⟩ := h.absolute_mem.mp ha
    have hsites : d.site e' = d.site e := by
      rw [<- hsite, Derived.site]
      rfl
    rw [hsites, hold] at hold'
    cases hold'
    exact hshift
  · intro hshift
    refine ⟨_, h.absolute_mem.mpr ⟨e, he, old, hold, hshift, rfl⟩, ?_⟩
    rfl

end Derived.Checked

def Derived.operandBytes (d : Derived) (candidate : List Byte) (i : Nat) : Refusing (List Byte) :=
  match d.entries[i]? with
  | some e => do
    let old <- d.image.vaToOffset (d.site e) 4
    pure (leBytes 4 (moved d.pieces (numberAt candidate old 4)).toNat)
  | none =>
    match d.rel32[i - d.entries.length]? with
    | some f => packDisplacement f.new
    | none => .error "no such reference"

theorem Derived.references_entry (h : d.entries[i]? = some e) :
    d.references[i]? = some (d.ofEntry e) := by
  have hlt := (List.getElem?_eq_some_iff.mp h).1
  rw [references, getElem?_append_left (by simpa using hlt), getElem?_map, h]
  rfl

theorem Derived.references_branch {k : Nat} (h : d.rel32[k]? = some f) :
    d.references[d.entries.length + k]? = some (ofBranch f) := by
  rw [references, getElem?_append_right (by simp), getElem?_map, length_map,
    Nat.add_sub_cancel_left, h]
  rfl

theorem Derived.references_cases (h : d.references[i]? = some r) :
    (∃ e, d.entries[i]? = some e ∧ r = d.ofEntry e) ∨
      ∃ k f, i = d.entries.length + k ∧ d.rel32[k]? = some f ∧ r = ofBranch f := by
  by_cases hlt : i < d.entries.length
  · have he : d.entries[i]? = some d.entries[i] := getElem?_eq_getElem hlt
    rw [references_entry he, Option.some.injEq] at h
    exact .inl ⟨_, he, h.symm⟩
  · obtain ⟨k, rfl⟩ := Nat.exists_eq_add_of_le (Nat.le_of_not_lt hlt)
    rw [references, getElem?_append_right (by simp), getElem?_map, length_map,
      Nat.add_sub_cancel_left] at h
    obtain ⟨f, hf, rfl⟩ := Option.map_eq_some_iff.mp h
    exact .inr ⟨k, f, rfl, hf, rfl⟩

theorem Derived.operandBytes_branch {k : Nat} (h : d.rel32[k]? = some f) :
    d.operandBytes candidate (d.entries.length + k) = packDisplacement f.new := by
  rw [operandBytes, getElem?_eq_none (by simp), Nat.add_sub_cancel_left]
  rw [h]

theorem packDisplacement_eq_ok {value : Int} {bytes : List Byte} :
    packDisplacement value = .ok bytes ↔ (-2 ^ 31 <= value ∧ value < 2 ^ 31) ∧
      leBytes 4 (value % 2 ^ 32).toNat = bytes := by
  simp [packDisplacement]

theorem absolutePatch_eq_ok :
    absolutePatch d a = .ok q ↔ (0 <= (a.siteVa : Int) ∧ (a.siteVa : Int) < 2 ^ 32) ∧
      ∃ o, d.image.vaToOffset (moved d.pieces a.siteVa) 4 = .ok o ∧
        (0 <= a.new ∧ a.new < 2 ^ 32) ∧ ⟨o, leBytes 4 a.new.toNat⟩ = q := by
  simp only [absolutePatch, hexInt, bind_eq_ok, require_eq_ok, pure_eq_ok,
    exists_const]

theorem rel32Patch_eq_ok :
    rel32Patch d f = .ok q ↔ (0 <= (f.siteVa : Int) ∧ (f.siteVa : Int) < 2 ^ 32) ∧
      ∃ o, d.image.vaToOffset (moved d.pieces f.siteVa) (f.immOffset + 4) = .ok o ∧
        ∃ bytes, packDisplacement f.new = .ok bytes ∧ ⟨o + f.immOffset, bytes⟩ = q := by
  simp only [rel32Patch, hexInt, bind_eq_ok, require_eq_ok, pure_eq_ok, exists_const]

/-- A patch rewrites the operand of a reference. -/
structure Rewrites (candidate : List Byte) (d : Derived) (i : Nat) (r : Reference) (o : Nat)
    (q : Patch) : Prop where
  reference : d.references[i]? = some r
  rewritten : r.rewritten = true
  mapped : d.image.vaToOffset (d.newSite r) r.size = .ok o
  bytes : d.operandBytes candidate i = .ok q.bytes
  offset : q.offset = o + r.operand
  length : q.bytes.length = 4

theorem Derived.Checked.absolute_rewrites (h : d.Checked candidate declaration)
    (he : d.entries[i]? = some e) (hold : d.image.vaToOffset (d.site e) 4 = .ok old)
    (hshift : pieceShift d.pieces (numberAt candidate old 4) ≠ none)
    (hq : absolutePatch d ⟨d.image.imageBase + e.rva, numberAt candidate old 4,
      moved d.pieces (numberAt candidate old 4)⟩ = .ok q) :
    ∃ o, Rewrites candidate d i (d.ofEntry e) o q := by
  obtain ⟨-, o, ho, -, rfl⟩ := absolutePatch_eq_ok.mp hq
  refine ⟨o, Derived.references_entry he,
    (h.rewritten_iff hold (mem_of_getElem? he)).mpr hshift, ?_, ?_, rfl, by simp⟩
  · rw [Int.natCast_add] at ho
    exact ho
  · simp only [Derived.operandBytes, he, hold]
    rfl

theorem rel32_rewrites {k : Nat} (hf : d.rel32[k]? = some f) (hq : rel32Patch d f = .ok q) :
    ∃ o, Rewrites candidate d (d.entries.length + k) (Derived.ofBranch f) o q := by
  obtain ⟨-, o, ho, bytes, hbytes, rfl⟩ := rel32Patch_eq_ok.mp hq
  refine ⟨o, Derived.references_branch hf, rfl, ho, ?_, rfl, ?_⟩
  · rw [Derived.operandBytes_branch hf, hbytes]
  · obtain ⟨-, rfl⟩ := packDisplacement_eq_ok.mp hbytes
    simp

theorem Repacked.rewrites_of_patch (h : Repacked candidate declaration d patches result)
    (hq : q ∈ patches.rel32 ++ patches.absolute) : ∃ i r o, Rewrites candidate d i r o q := by
  rcases mem_append.mp hq with hq | hq
  · obtain ⟨f, hf, hpatch⟩ := runEach_mem_result h.rel32 hq
    obtain ⟨k, hk⟩ := mem_iff_getElem?.mp hf
    exact ⟨_, _, rel32_rewrites hk hpatch⟩
  · obtain ⟨a, ha, hpatch⟩ := runEach_mem_result h.absolute hq
    obtain ⟨e, he, old, hold, hshift, rfl⟩ := h.checked.absolute_mem.mp ha
    obtain ⟨i, hi⟩ := mem_iff_getElem?.mp he
    exact ⟨i, _, h.checked.absolute_rewrites hi hold hshift hpatch⟩

theorem Repacked.patch_of_rewritten (h : Repacked candidate declaration d patches result)
    (hr : d.references[i]? = some r) (hrewritten : r.rewritten = true) :
    ∃ q ∈ patches.rel32 ++ patches.absolute, ∃ o, Rewrites candidate d i r o q := by
  rcases Derived.references_cases hr with ⟨e, he, rfl⟩ | ⟨k, f, rfl, hf, rfl⟩
  · have hmem := mem_of_getElem? he
    obtain ⟨old, hold, -⟩ := h.checked.entry hmem
    have hshift := (h.checked.rewritten_iff hold hmem).mp hrewritten
    obtain ⟨q, hq, hpatch⟩ := runEach_mem h.absolute
      (h.checked.absolute_mem.mpr ⟨e, hmem, old, hold, hshift, rfl⟩)
    exact ⟨q, mem_append_right _ hq, h.checked.absolute_rewrites he hold hshift hpatch⟩
  · obtain ⟨q, hq, hpatch⟩ := runEach_mem h.rel32 (mem_of_getElem? hf)
    exact ⟨q, mem_append_left _ hq, rel32_rewrites hf hpatch⟩

theorem Derived.size_eq (h : r ∈ d.references) : r.size = r.operand + 4 := by
  rcases mem_append.mp h with h | h
  · obtain ⟨e, -, rfl⟩ := mem_map.mp h
    rfl
  · obtain ⟨f, -, rfl⟩ := mem_map.mp h
    rfl

theorem Derived.Checked.body_length (h : d.Checked candidate declaration) :
    (d.body candidate).length = d.text.rawSize := by
  obtain ⟨hdata, hparsed⟩ := pe32_parsed h.image
  have hraw := hparsed.raw d.text (Image.sectionNamed_mem h.text)
  rw [hdata] at hraw
  rw [Derived.body, slice_length]
  simp only [Pe32Section.rawEnd] at hraw
  omega

theorem BranchFixup.backs (h : d.Checked candidate declaration) {target : Int}
    (hf : BranchFixup candidate d f index target) :
    d.image.Backs d.text f.siteVa (f.immOffset + 4) := by
  have hroom := hf.room
  have hsite := hf.site
  rw [h.body_length] at hroom
  simp only [Image.Backs, Pe32Section.BacksRva, Derived.textStart] at hsite ⊢
  omega

theorem Image.sectionNamed_name {name : String} (h : image.sectionNamed name = .ok s) :
    (sectionName s).map (fun b => Char.ofNat b.toNat) = name.toList := by
  unfold sectionNamed at h
  split at h
  · rename_i t ht
    cases h
    have hmem : s ∈ [s] := by simp
    rw [<- ht] at hmem
    simpa using (mem_filter.mp hmem).2
  · cases h

theorem Derived.Checked.text_ne_reloc (h : d.Checked candidate declaration) : d.text ≠ d.reloc := by
  intro heq
  have htext := Image.sectionNamed_name h.text
  have hreloc := Image.sectionNamed_name h.reloc
  rw [heq, hreloc] at htext
  exact absurd htext (by decide)

def Derived.OffTable (d : Derived) (o : Nat) : Prop :=
  ∃ s ∈ d.image.headers.sections, s ≠ d.reloc ∧ o ∈ s.raw

theorem Derived.OffTable.of_backs (hs : s ∈ d.image.headers.sections) (hne : s ≠ d.reloc)
    (hbacks : d.image.Backs s va size) (ho : o ∈ Span.ofSize (d.image.place s va) size) :
    d.OffTable o := by
  obtain ⟨v, hv, rfl⟩ := (Image.mem_place_iff hbacks).mp ho
  exact ⟨s, hs, hne, Image.place_mem_raw hbacks hv⟩

/-- A destination has the address of every reference that moves to it. -/
theorem overlap_target {site : Int} (hsite : p.Contains site) (hsize : 0 < size) :
    Overlap p.target p.size (site - p.shift) size := by
  simp only [Piece.Contains, Overlap, Piece.target, Piece.size] at *
  omega

variable (h : d.Checked candidate declaration) (htidy : Tidy declaration d)

include h htidy

theorem Derived.Checked.moved_home (hsize : 0 < size)
    (hin : pieceShift d.pieces va ≠ none ∨ d.image.Backs d.text va size)
    (hlies : d.image.Lies (moved d.pieces va) size o) :
    d.image.Backs d.text (moved d.pieces va) size ∧
      o = d.image.place d.text (moved d.pieces va) := by
  obtain ⟨s, hs, hbacks, rfl⟩ := hlies
  have htext := Image.sectionNamed_mem h.text
  suffices heq : s = d.text by
    subst heq
    exact ⟨hbacks, rfl⟩
  symm
  cases hshift : pieceShift d.pieces va with
  | some shift =>
    obtain ⟨p, hp, hcontains, -⟩ := pieceShift_eq_some hshift
    rw [moved_of_contains hp hcontains] at hbacks
    have hpsize : 0 < p.size := Nat.sub_pos_of_lt (d.pieces.nonempty p hp)
    exact Image.eq_of_backs htidy.addresses htext hs (h.inText p hp).backs.2 hbacks hpsize hsize
      (overlap_target hcontains hsize)
  | none =>
    rw [moved_of_none hshift] at hbacks
    refine Image.eq_of_backs htidy.addresses htext hs (hin.resolve_left (absurd hshift)) hbacks
      hsize hsize ?_
    simp only [Overlap]
    omega

theorem Derived.Checked.offTable (hr : r ∈ d.references) {o' : Nat}
    (hlies : d.image.Lies (d.newSite r) r.size o) (ho' : o' ∈ Span.ofSize o r.size) :
    d.OffTable o' := by
  have hsize : 0 < r.size := by
    rw [Derived.size_eq hr]
    omega
  by_cases hin : pieceShift d.pieces r.site ≠ none ∨ d.image.Backs d.text r.site r.size
  · obtain ⟨hbacks, rfl⟩ := h.moved_home htidy hsize hin hlies
    exact .of_backs (Image.sectionNamed_mem h.text) h.text_ne_reloc hbacks ho'
  · obtain ⟨hshift, hbacks⟩ := not_or.mp hin
    rw [Derived.newSite, moved_of_none (not_not.mp hshift)] at hlies
    rcases mem_append.mp hr with hr | hr
    · obtain ⟨e, he, rfl⟩ := mem_map.mp hr
      obtain ⟨s, hs, hhome, rfl⟩ := hlies
      exact .of_backs hs (fun heq => htidy.entries e he (heq ▸ hhome)) hhome ho'
    · obtain ⟨f, hf, rfl⟩ := mem_map.mp hr
      obtain ⟨index, target, hfixup⟩ := h.branchFixup hf
      exact absurd (hfixup.backs h) hbacks

end Reprobit.Pe

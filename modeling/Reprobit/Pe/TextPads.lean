import Reprobit.Pe.TextRepack

/-!
# Bytes lost by a text repack

Pieces move over other bytes, and a declared range is filled.  The declared pads are
compared with the candidate, but never with the places that are written: no code is
lost exactly where the pads cover the gap in front of every piece and the part of the
filled range that did not move.
-/

namespace Reprobit.Pe

open Machine List

/-- The addresses from `va` on that `size` bytes take. -/
def InRange (va : Int) (size : Nat) (v : Int) : Prop := va <= v ∧ v < va + size

instance (va : Int) (size : Nat) (v : Int) : Decidable (InRange va size v) :=
  inferInstanceAs (Decidable (_ ∧ _))

def Image.Backs (image : Image) (s : Pe32Section) (va : Int) (size : Nat) : Prop :=
  s.BacksRva (va - image.imageBase) size

instance (image : Image) (s : Pe32Section) (va : Int) (size : Nat) :
    Decidable (image.Backs s va size) := inferInstanceAs (Decidable (Pe32Section.BacksRva ..))

def Image.place (image : Image) (s : Pe32Section) (va : Int) : Nat :=
  s.offsetOf (va - image.imageBase)

variable {image : Image} {va : Int} {size offset : Nat} {s : Pe32Section} {data : List Byte}

theorem Image.vaToOffset_spec (h : image.vaToOffset va size = .ok offset) :
    ∃ s ∈ image.headers.sections, image.Backs s va size ∧ offset = image.place s va ∧
      ∀ t ∈ image.headers.sections, image.Backs t va size -> t = s := by
  obtain ⟨s, hs, rfl⟩ := Pe32Headers.rvaToOffset_eq_ok.mp h
  obtain ⟨hmem, hbacks, hunique⟩ := Pe32Headers.sectionForRva_spec hs
  exact ⟨s, hmem, hbacks, rfl, hunique⟩

theorem Image.vaToOffset_of_backs (h : image.vaToOffset va size = .ok offset)
    (hs : s ∈ image.headers.sections) (hbacks : image.Backs s va size) :
    offset = image.place s va := by
  obtain ⟨t, -, -, rfl, hunique⟩ := image.vaToOffset_spec h
  rw [hunique s hs hbacks]

theorem Image.mem_place_iff {o : Nat} (h : image.Backs s va size) :
    o ∈ Span.ofSize (image.place s va) size ↔ ∃ v, InRange va size v ∧ image.place s v = o := by
  simp only [Backs, Pe32Section.BacksRva, place, Pe32Section.offsetOf, Span.mem_ofSize,
    InRange] at h ⊢
  constructor
  · intro ho
    exact ⟨va + (o - (s.rawOffset + (va - image.imageBase - s.virtualAddress)).toNat), by omega,
      by omega⟩
  · rintro ⟨v, hv, rfl⟩
    omega

theorem Image.place_mem_raw {v : Int} (h : image.Backs s va size) (hv : InRange va size v) :
    image.place s v ∈ s.raw := by
  simp only [Backs, Pe32Section.BacksRva, place, Pe32Section.offsetOf, InRange, Pe32Section.raw,
    Pe32Section.rawEnd, Span.mem_def] at h hv ⊢
  omega

theorem Image.place_inj {va' v v' : Int} {size' : Nat} (h : image.Backs s va size)
    (h' : image.Backs s va' size') (hv : InRange va size v) (hv' : InRange va' size' v')
    (heq : image.place s v = image.place s v') : v = v' := by
  simp only [Backs, Pe32Section.BacksRva, place, Pe32Section.offsetOf, InRange] at *
  omega

/-- What the checks of a repack establish. -/
structure Derived.Checked (candidate : List Byte) (declaration : RepackDeclaration)
    (d : Derived) : Prop where
  pieces : d.pieces.list = declaration.pieces
  image : pe32 candidate = .ok d.image
  text : d.image.sectionNamed ".text" = .ok d.text
  reloc : d.image.sectionNamed ".reloc" = .ok d.reloc
  inText : ∀ p ∈ d.pieces.list, InText d.image d.text p
  pads : ∀ pad ∈ declaration.expectedPads, ∃ offset,
    d.image.vaToOffset pad.va pad.length = .ok offset ∧
      slice candidate offset pad.length = List.replicate pad.length pad.fill
  rel32 : d.rel32 = derivedRel32 d.pieces (slice candidate d.text.rawOffset d.text.rawSize)
    (d.image.imageBase + d.text.virtualAddress)
  entries : relocationEntries candidate d.reloc = .ok d.entries
  fixups : ∃ fixups, runEach (entryFixups candidate d.image d.pieces) d.entries = .ok fixups ∧
    d.absolute = fixups.filterMap (·.1) ∧ d.moves = fixups.filterMap (·.2)

theorem validatedPieces_list {pieces : List Piece} {validated : Pieces}
    (h : validatedPieces pieces = .ok validated) : validated.list = pieces := by
  unfold validatedPieces at h
  split at h
  · split at h
    · cases h
      rfl
    · cases h
  · cases h

theorem validatedPlan_list {declaration : RepackDeclaration} {pieces : Pieces}
    (h : validatedPlan declaration = .ok pieces) : pieces.list = declaration.pieces := by
  simp only [validatedPlan, bind_eq_ok] at h
  obtain ⟨_, -, _, -, _, -, _, -, hpieces⟩ := h
  exact validatedPieces_list hpieces

theorem derive_checked {candidate : List Byte} {declaration : RepackDeclaration} {d : Derived}
    (h : derive candidate declaration = .ok d) : d.Checked candidate declaration := by
  simp only [derive, bind_eq_ok, requireEach_eq_ok, pure_eq_ok] at h
  obtain ⟨pieces, hplan, image, himage, text, htext, reloc, hreloc, _, hin, pads, hpads, _, hrel32,
    entries, hentries, fixups, hfixups, _, habsolute, _, hmoves, rfl⟩ := h
  refine ⟨validatedPlan_list hplan, himage, htext, hreloc, hin, ?_, rfl, hentries,
    fixups, hfixups, rfl, rfl⟩
  intro pad hpad
  obtain ⟨index, hindex⟩ := mem_iff_getElem?.mp hpad
  obtain ⟨_, -, hvalid⟩ := (enumerateFrom_eq_ok.mp hpads).2 index pad hindex
  simp only [validatePad, bind_eq_ok, require_eq_ok] at hvalid
  obtain ⟨_, -, offset, hoffset, hsame⟩ := hvalid
  exact ⟨offset, hoffset, hsame⟩

theorem Image.sectionNamed_mem {name : String} (h : image.sectionNamed name = .ok s) :
    s ∈ image.headers.sections := by
  unfold sectionNamed at h
  split at h
  · rename_i t ht
    cases h
    have : s ∈ [s] := by simp
    rw [<- ht] at this
    exact mem_of_mem_filter this
  · cases h

theorem pe32_parsed (h : pe32 data = .ok image) :
    image.headers.data = data ∧ image.headers.Parsed 32 := by
  simp only [pe32, bind_eq_ok, pure_eq_ok] at h
  obtain ⟨headers, hheaders, _, -, _, -, rfl⟩ := h
  exact parsePe32Headers_parsed hheaders

theorem InText.backs {text : Pe32Section} {p : Piece} (h : InText image text p) :
    image.Backs text p.low p.size ∧ image.Backs text p.target p.size := by
  simp only [InText, Piece.target, Image.Backs, Pe32Section.BacksRva, Piece.size] at h ⊢
  omega

/-! ## Lost bytes -/

section

variable (declaration : RepackDeclaration) (d : Derived)

/-- The file byte belongs to a piece. -/
def InPiece (o : Nat) : Prop :=
  ∃ p ∈ d.pieces.list, ∃ offset, d.image.vaToOffset p.low p.size = .ok offset ∧
    o ∈ Span.ofSize offset p.size

/-- The file byte belongs to a declared pad. -/
def InPad (o : Nat) : Prop :=
  ∃ pad ∈ declaration.expectedPads, ∃ offset,
    d.image.vaToOffset pad.va pad.length = .ok offset ∧ o ∈ Span.ofSize offset pad.length

/-- Every overwritten byte is part of a piece or a pad. -/
def LosesNoCode (patches : RepackPatches) : Prop :=
  ∀ patch ∈ patches.fill :: patches.blocks, ∀ o ∈ patch.span, InPiece d o ∨ InPad declaration d o

def Padded (s : Pe32Section) (va : Int) : Prop :=
  ∃ pad ∈ declaration.expectedPads, d.image.Backs s pad.va pad.length ∧ InRange pad.va pad.length va

def Unmoved (s : Pe32Section) (va : Int) : Prop :=
  s = d.text -> ∀ p ∈ d.pieces.list, ¬ p.Contains va

/-- The pads cover the gaps before pieces and what the fill overwrites. -/
structure GapsPadded : Prop where
  gaps : ∀ p ∈ d.pieces.list, ∀ va, p.target <= va -> va < p.low -> va < p.targetEnd ->
    Unmoved d d.text va -> Padded declaration d d.text va
  vacated : ∀ s ∈ d.image.headers.sections,
    d.image.Backs s declaration.vacatedFill.va declaration.vacatedFill.length ->
    ∀ va, InRange declaration.vacatedFill.va declaration.vacatedFill.length va ->
      Unmoved d s va -> Padded declaration d s va

end

section

variable {candidate : List Byte} {declaration : RepackDeclaration} {d : Derived} {p : Piece}
  {va v : Int} {s : Pe32Section} {size : Nat}

theorem Piece.contains_iff : p.Contains va ↔ InRange p.low p.size va := by
  simp only [Contains, InRange, size]
  omega

theorem inPiece_place_iff (h : d.Checked candidate declaration) (hs : s ∈ d.image.headers.sections)
    (hbacks : d.image.Backs s va size) (hv : InRange va size v)
    (hmap : ∀ p ∈ d.pieces.list, ∃ offset, d.image.vaToOffset p.low p.size = .ok offset) :
    InPiece d (d.image.place s v) ↔ ¬ Unmoved d s v := by
  have hparsed := (pe32_parsed h.image).2
  have htext := Image.sectionNamed_mem h.text
  simp only [Unmoved, not_forall, not_not]
  constructor
  · rintro ⟨p, hp, offset, hoffset, ho⟩
    have hpbacks := (h.inText p hp).backs.1
    rw [Image.vaToOffset_of_backs hoffset htext hpbacks, Image.mem_place_iff hpbacks] at ho
    obtain ⟨v', hv', heq⟩ := ho
    obtain rfl : s = d.text := hparsed.eq_of_mem_raw hs htext (Image.place_mem_raw hbacks hv)
      (heq ▸ Image.place_mem_raw hpbacks hv')
    obtain rfl := Image.place_inj hpbacks hbacks hv' hv heq
    exact ⟨rfl, p, hp, p.contains_iff.mpr hv'⟩
  · rintro ⟨rfl, p, hp, hcontains⟩
    obtain ⟨offset, hoffset⟩ := hmap p hp
    have hpbacks := (h.inText p hp).backs.1
    refine ⟨p, hp, offset, hoffset, ?_⟩
    rw [Image.vaToOffset_of_backs hoffset htext hpbacks, Image.mem_place_iff hpbacks]
    exact ⟨v, p.contains_iff.mp hcontains, rfl⟩

theorem inPad_place_iff (h : d.Checked candidate declaration) (hs : s ∈ d.image.headers.sections)
    (hbacks : d.image.Backs s va size) (hv : InRange va size v) :
    InPad declaration d (d.image.place s v) ↔ Padded declaration d s v := by
  have hparsed := (pe32_parsed h.image).2
  constructor
  · rintro ⟨pad, hpad, offset, hoffset, ho⟩
    obtain ⟨t, ht, htbacks, rfl, -⟩ := Image.vaToOffset_spec hoffset
    obtain ⟨v', hv', heq⟩ := (Image.mem_place_iff htbacks).mp ho
    obtain rfl : s = t := hparsed.eq_of_mem_raw hs ht (Image.place_mem_raw hbacks hv)
      (heq ▸ Image.place_mem_raw htbacks hv')
    obtain rfl := Image.place_inj htbacks hbacks hv' hv heq
    exact ⟨pad, hpad, htbacks, hv'⟩
  · rintro ⟨pad, hpad, hpadbacks, hrange⟩
    obtain ⟨offset, hoffset, -⟩ := h.pads pad hpad
    refine ⟨pad, hpad, offset, hoffset, ?_⟩
    rw [Image.vaToOffset_of_backs hoffset hs hpadbacks, Image.mem_place_iff hpadbacks]
    exact ⟨v, hrange, rfl⟩

theorem Image.place_add_le (h : pe32 data = .ok image) (hs : s ∈ image.headers.sections)
    (hbacks : image.Backs s va size) (hsize : 0 < size) :
    image.place s va + size <= data.length := by
  obtain ⟨hdata, hparsed⟩ := pe32_parsed h
  have hraw := hparsed.raw s hs
  rw [hdata] at hraw
  simp only [Image.Backs, Pe32Section.BacksRva, Image.place, Pe32Section.offsetOf,
    Pe32Section.rawEnd] at hbacks hraw ⊢
  omega

theorem blockPatch_span (h : d.Checked candidate declaration) (hp : p ∈ d.pieces.list)
    {patch : Patch} (hpatch : blockPatch candidate d p = .ok patch) :
    (∃ offset, d.image.vaToOffset p.low p.size = .ok offset) ∧
      patch.span = .ofSize (d.image.place d.text p.target) p.size := by
  have htext := Image.sectionNamed_mem h.text
  obtain ⟨hlow, htarget⟩ := (h.inText p hp).backs
  have hsize : 0 < p.size := Nat.sub_pos_of_lt (d.pieces.nonempty p hp)
  simp only [blockPatch, bind_eq_ok, pure_eq_ok] at hpatch
  obtain ⟨source, hsource, destination, hdestination, rfl⟩ := hpatch
  refine ⟨⟨source, hsource⟩, ?_⟩
  have hfits := Image.place_add_le h.image htext hlow hsize
  rw [<- Image.vaToOffset_of_backs hsource htext hlow] at hfits
  rw [<- Image.vaToOffset_of_backs hdestination htext htarget]
  simp only [Patch.span, slice_length]
  congr 1
  omega

theorem unmoved_target (hp : p ∈ d.pieces.list) (hv : InRange p.target p.size v)
    (hunmoved : Unmoved d d.text v) : p.target <= v ∧ v < p.low ∧ v < p.targetEnd := by
  have hno := hunmoved rfl p hp
  simp only [Piece.Contains, InRange, Piece.target, Piece.targetEnd, Piece.size] at hno hv ⊢
  omega

end

def headerBytes (name : String) (virtualSize virtualAddress rawSize rawOffset : Nat) : List Byte :=
  (name.toList.map fun c => BitVec.ofNat 8 c.toNat) ++ List.replicate (8 - name.length) 0#8 ++
    leBytes 4 virtualSize ++ leBytes 4 virtualAddress ++ leBytes 4 rawSize ++ leBytes 4 rawOffset ++
    List.replicate 16 0#8

/-- An image at `0x400000` with a text section and a relocation section. -/
def smallImage (text reloc : List Byte) : List Byte :=
  [0x4D#8, 0x5A#8] ++ List.replicate 58 0#8 ++ leBytes 4 64 ++
    [0x50#8, 0x45#8, 0#8, 0#8] ++ leBytes 2 0x014C ++ leBytes 2 2 ++ List.replicate 12 0#8 ++
    leBytes 2 32 ++ leBytes 2 0 ++
    leBytes 2 0x010B ++ List.replicate 26 0#8 ++ leBytes 4 0x400000 ++
    headerBytes ".text" text.length 0x1000 text.length 200 ++
    headerBytes ".reloc" reloc.length 0x2000 reloc.length (200 + text.length) ++ text ++ reloc

def smallRepack (pads : List FillDeclaration) : RepackDeclaration where
  schema := "comdat_tail_thunk_repack_v1"
  rationale := "tail thunk"
  pieces := [⟨0x401001, 0x401002, 1⟩]
  expectedPads := pads
  vacatedFill := ⟨0x401001, 1, 0xCC#8⟩
  expectedRel32Fixups := []
  expectedAbsoluteFixups := []
  expectedRelocEntryMoves := []
  oldTextVirtualSize := 4
  newTextVirtualSize := 3

/-- A `RET` in front of the piece, and no pad. -/
def returnImage : List Byte := smallImage [0xC3#8, 0x90#8, 0xCC#8, 0xCC#8] []

/-- The byte in front of the piece is padding, and declared. -/
def paddedImage : List Byte := smallImage [0xCC#8, 0xC3#8, 0xCC#8, 0xCC#8] []

def paddedRepack : RepackDeclaration := smallRepack [⟨0x401000, 1, 0xCC#8⟩]

end Reprobit.Pe

import Reprobit.Pe.Headers

/-!
# Sections of a PE32 image

The reader of `formats.py`: sections with their raw data, and the file offset that backs
an address.
-/

namespace Reprobit.Pe

open Machine List

def requireRange (data : List Byte) (offset size : Nat) (label : String) :
    Refusing (List Byte) := do
  require (offset + size <= data.length)
    s!"{label} range [{offset}, {offset + size}) exceeds file size {data.length}"
  pure (slice data offset size)

def decodeSectionName (raw stringTable : List Byte) : Refusing String := do
  let short := raw.rdropWhile (· = 0#8)
  let digits := short.tail.map (·.toNat)
  let short <- if short.head? = some 0x2F#8 ∧ digits ≠ [] ∧ ∀ d ∈ digits, 48 <= d ∧ d <= 57 then do
      require (stringTable ≠ []) "long COFF section name has no string table"
      let offset := digits.foldl (fun n d => 10 * n + (d - 48)) 0
      require (4 <= offset ∧ offset < stringTable.length)
        s!"COFF section-name offset {offset} is out of range"
      require (0#8 ∈ stringTable.drop offset) "unterminated long COFF section name"
      pure ((stringTable.drop offset).takeWhile (· ≠ 0#8))
    else pure short
  require (∀ b ∈ short, b.toNat < 128) ("non-ASCII COFF section name: " ++ reprBytes short)
  pure (String.ofList (short.map fun b => Char.ofNat b.toNat))

structure CoffSection where
  name : String
  virtualSize : Nat
  virtualAddress : Nat
  rawDataOffset : Nat
  rawData : List Byte
deriving DecidableEq

namespace CoffSection

variable (s : CoffSection)

def extent : Nat := max s.virtualSize s.rawData.length

def Holds (rva : Nat) : Prop :=
  s.virtualAddress <= rva ∧ rva < s.virtualAddress + s.extent

instance (rva : Nat) : Decidable (s.Holds rva) :=
  inferInstanceAs (Decidable (_ ∧ _))

def Backs (rva offset : Nat) : Prop :=
  ∃ k < s.rawData.length, rva = s.virtualAddress + k ∧ offset = s.rawDataOffset + k

/-- Sections without common addresses and without common file bytes. -/
def Apart (a b : CoffSection) : Prop :=
  (a.virtualAddress + a.extent <= b.virtualAddress ∨
    b.virtualAddress + b.extent <= a.virtualAddress) ∧
    (a.rawData.length = 0 ∨ b.rawData.length = 0 ∨
      a.rawDataOffset + a.rawData.length <= b.rawDataOffset ∨
      b.rawDataOffset + b.rawData.length <= a.rawDataOffset)

instance : Std.Symm Apart where
  symm a b hab := by
    unfold Apart at *
    omega

end CoffSection

variable (data : List Byte)

def sectionData (header : Pe32Section) (label : String) : Refusing (List Byte) :=
  if header.rawSize = 0 then pure [] else requireRange data header.rawOffset header.rawSize label

def parseSection (tableOffset : Nat) (stringTable : List Byte) (index : Nat) :
    Refusing CoffSection := do
  let offset := tableOffset + index * 40
  let _ <- requireRange data offset 40 s!"section {index} header"
  let header := sectionHeader data offset
  let rawData <- sectionData data header s!"section {index} data"
  let relocationOffset := numberAt data (offset + 24) 4
  let relocationCount := numberAt data (offset + 32) 2
  require (relocationCount ≠ 0 -> relocationOffset ≠ 0)
    s!"section {index} has relocations but no relocation offset"
  let _ <- runEach (fun k => requireRange data (relocationOffset + k * 10) 10
    s!"section {index} relocation") (List.range relocationCount)
  let name <- decodeSectionName header.rawName stringTable
  pure ⟨name, header.virtualSize, header.virtualAddress, header.rawOffset, rawData⟩

def parseSections (tableOffset count : Nat) (stringTable : List Byte) :
    Refusing (List CoffSection) :=
  runEach (parseSection data tableOffset stringTable) (List.range count)

/-- A parsed image, as far as addresses are mapped through it. -/
structure Pe32Image where
  imageBase : Nat
  sections : List CoffSection

def Pe32Image.rvaToFileOffset (image : Pe32Image) (rva : Nat) : Refusing Nat :=
  let shown := "RVA 0x" ++ String.ofList (Nat.toDigits 16 rva)
  match image.sections.find? fun s => s.Holds rva with
  | none => .error (shown ++ " is not mapped by a section")
  | some s => do
    let delta := rva - s.virtualAddress
    require (delta < s.rawData.length) (shown ++ " belongs to an unbacked section tail")
    pure (s.rawDataOffset + delta)

def requireApart : Nat -> List CoffSection -> Refusing Unit
  | _, [] => pure ()
  | previousEnd, s :: rest => do
    require (previousEnd <= s.virtualAddress)
      ("section " ++ reprText s.name ++ " overlaps its neighbor")
    requireApart (s.virtualAddress + s.extent) rest

def parsePe32 : Refusing Pe32Image := do
  let signature <- requireRange data 0 2 "DOS signature"
  require (signature = [0x4D#8, 0x5A#8]) "missing DOS MZ signature"
  let _ <- requireRange data 0x3C 4 "PE offset"
  let peOffset := numberAt data 0x3C 4
  require (64 <= peOffset) "PE offset points into the DOS header"
  let headers <- parsePe32Headers data 68
  let _ <- requireRange data (peOffset + 4) 20 "PE COFF header"
  let count := numberAt data (peOffset + 6) 2
  let sections <- parseSections data headers.sectionTableOffset count []
  requireApart 0 (sections.insertionSort (·.virtualAddress <= ·.virtualAddress))
  let imageBase <- headers.imageBase
  pure ⟨imageBase, sections⟩

theorem Pe32Image.rvaToFileOffset_backs {image : Pe32Image} {rva offset : Nat}
    (h : image.rvaToFileOffset rva = .ok offset) : ∃ s ∈ image.sections, s.Backs rva offset := by
  unfold rvaToFileOffset at h
  split at h
  · cases h
  · rename_i s hs
    simp only [require_bind_eq_ok, pure_eq_ok] at h
    obtain ⟨hraw, rfl⟩ := h
    have hholds : s.Holds rva := by simpa using find?_some hs
    exact ⟨s, mem_of_find?_eq_some hs, _, hraw, by have := hholds.1; omega, rfl⟩

theorem requireApart_pairwise {previousEnd : Nat} {sections : List CoffSection}
    (h : requireApart previousEnd sections = .ok ()) :
    (∀ s ∈ sections, previousEnd <= s.virtualAddress) ∧
      sections.Pairwise fun a b => a.virtualAddress + a.extent <= b.virtualAddress := by
  induction sections generalizing previousEnd with
  | nil => simp
  | cons s rest ih =>
    simp only [requireApart, require_bind_eq_ok] at h
    obtain ⟨hbehind, hpair⟩ := ih h.2
    refine ⟨fun t ht => ?_, pairwise_cons.mpr ⟨hbehind, hpair⟩⟩
    rcases mem_cons.mp ht with rfl | ht
    · exact h.1
    · have := hbehind t ht
      omega

variable {data : List Byte} {tableOffset : Nat} {image : Pe32Image}

theorem sectionData_length {header : Pe32Section} {label : String} {raw : List Byte}
    (h : sectionData data header label = .ok raw) : raw.length = header.rawSize := by
  unfold sectionData requireRange at h
  split at h
  · cases h
    simp [*]
  · simp only [require_bind_eq_ok, pure_eq_ok] at h
    obtain ⟨hfits, rfl⟩ := h
    rw [slice_length]
    omega

theorem parseSection_raw {stringTable : List Byte} {index : Nat} {s : CoffSection}
    (h : parseSection data tableOffset stringTable index = .ok s) :
    s.rawDataOffset = (sectionHeader data (tableOffset + index * 40)).rawOffset ∧
      s.rawData.length = (sectionHeader data (tableOffset + index * 40)).rawSize := by
  simp only [parseSection, bind_eq_ok, pure_eq_ok] at h
  obtain ⟨-, -, raw, hraw, -, -, -, -, -, -, rfl⟩ := h
  exact ⟨rfl, sectionData_length hraw⟩

theorem parsePe32Headers_count {minimum : Nat} {headers : Pe32Headers}
    (h : parsePe32Headers data minimum = .ok headers) :
    headers.sectionCount = numberAt data (numberAt data 0x3C 4 + 6) 2 := by
  simp only [parsePe32Headers, bind_eq_ok, pure_eq_ok] at h
  obtain ⟨_, -, _, -, _, -, _, -, _, -, _, -, _, -, _, -, _, -, rfl⟩ := h
  rfl

theorem parsePe32_apart (h : parsePe32 data = .ok image) :
    image.sections.Pairwise CoffSection.Apart := by
  simp only [parsePe32, bind_eq_ok, pure_eq_ok] at h
  obtain ⟨-, -, -, -, -, -, -, -, headers, hheaders, -, -, sections, hsections, ⟨⟩, hvirtual, -, -,
    rfl⟩ := h
  obtain ⟨rfl, hparsed⟩ := parsePe32Headers_parsed hheaders
  have hraw := hparsed.apart
  rw [hparsed.sections, parsePe32Headers_count hheaders] at hraw
  have hrawApart := forall₂_pairwise (runEach_eq_ok.mp hsections) (pairwise_map.mp hraw)
    (Q := fun a b => a.rawData.length = 0 ∨ b.rawData.length = 0 ∨
      a.rawDataOffset + a.rawData.length <= b.rawDataOffset ∨
      b.rawDataOffset + b.rawData.length <= a.rawDataOffset) fun i a j b ha hb hab => by
    rwa [(parseSection_raw ha).1, (parseSection_raw ha).2, (parseSection_raw hb).1,
      (parseSection_raw hb).2]
  have hperm := perm_insertionSort (fun a b : CoffSection => a.virtualAddress <= b.virtualAddress)
    sections
  have hvirtualApart := (hperm.pairwise_iff (R := fun a b : CoffSection =>
    a.virtualAddress + a.extent <= b.virtualAddress ∨
      b.virtualAddress + b.extent <= a.virtualAddress)
    fun hab => hab.symm).mp ((requireApart_pairwise hvirtual).2.imp .inl)
  exact (hvirtualApart.and hrawApart).imp id

end Reprobit.Pe

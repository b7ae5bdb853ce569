import Reprobit.Foundation
import Reprobit.Machine.Patches
import Mathlib.Data.List.DropRight
import Mathlib.Data.List.Pairwise

/-!
# PE32 headers

The header geometry every reader of a PE32 image relies on: the section table, the
raw ranges of the sections, and the map from addresses to file offsets.
-/

namespace Reprobit.Pe

open Machine List

/-- A number in base sixteen with at least eight places. -/
def hex08 (n : Int) : String :=
  let digits := Nat.toDigits 16 n.natAbs
  if 0 <= n then String.ofList (List.replicate (8 - digits.length) '0' ++ digits)
  else "-" ++ String.ofList (List.replicate (7 - digits.length) '0' ++ digits)

/-- The `repr` of a byte string. -/
def reprBytes (bytes : List Byte) : String :=
  let quote := if 39#8 ∈ bytes ∧ 34#8 ∉ bytes then '"' else '\''
  let shown (b : Byte) : List Char :=
    if b.toNat < 128 then reprChar quote (Char.ofNat b.toNat)
    else ['\\', 'x'] ++ (hex02 b.toNat).toList
  String.ofList ('b' :: quote :: bytes.flatMap shown ++ [quote])

/-- The number of `width` bytes at an offset of a file. -/
def numberAt (data : List Byte) (offset width : Nat) : Nat := leNat (slice data offset width)

structure Pe32Section where
  headerOffset : Nat
  rawDescriptor : List Byte
  rawName : List Byte
  virtualSize : Nat
  virtualAddress : Nat
  rawSize : Nat
  rawOffset : Nat
  characteristics : Nat
  deriving DecidableEq

namespace Pe32Section

variable (s : Pe32Section)

def rawEnd : Nat := s.rawOffset + s.rawSize

/-- The file bytes of a section. -/
def raw : Span := ⟨s.rawOffset, s.rawEnd⟩

/-- The section backs `size` bytes from an address on with file bytes. -/
def BacksRva (rva : Int) (size : Nat) : Prop :=
  0 <= rva - s.virtualAddress ∧ rva - s.virtualAddress <= (s.rawSize : Int) - size

instance (rva : Int) (size : Nat) : Decidable (s.BacksRva rva size) :=
  inferInstanceAs (Decidable (_ ∧ _))

def offsetOf (rva : Int) : Nat :=
  (s.rawOffset + (rva - s.virtualAddress)).toNat

end Pe32Section

def sectionHeader (data : List Byte) (header : Nat) : Pe32Section where
  headerOffset := header
  rawDescriptor := slice data header 40
  rawName := slice data header 8
  virtualSize := numberAt data (header + 8) 4
  virtualAddress := numberAt data (header + 12) 4
  rawSize := numberAt data (header + 16) 4
  rawOffset := numberAt data (header + 20) 4
  characteristics := numberAt data (header + 36) 4

def strippedName (s : Pe32Section) : List Byte := s.rawName.rdropWhile (· = 0#8)

/-! ## Headers -/

structure Pe32Headers where
  data : List Byte
  peOffset : Nat
  machine : Nat
  sectionCount : Nat
  optionalOffset : Nat
  optionalSize : Nat
  sections : List Pe32Section
  deriving DecidableEq

def sectionTable (data : List Byte) (table count : Nat) : List Pe32Section :=
  (List.range count).map fun index => sectionHeader data (table + index * 40)

def occupied (sections : List Pe32Section) : List (Nat × Nat) :=
  (sections.filter (·.rawSize ≠ 0)).map fun s => (s.rawOffset, s.rawEnd)

def parsePe32Headers (data : List Byte) (minimumOptionalSize : Nat) : Refusing Pe32Headers := do
  require (64 <= data.length ∧ data.take 2 = [0x4D#8, 0x5A#8]) "missing DOS MZ header"
  let pe := numberAt data 0x3C 4
  require (64 <= pe ∧ pe + 24 <= data.length ∧ slice data pe 4 = [0x50#8, 0x45#8, 0#8, 0#8])
    "missing PE signature"
  let machine := numberAt data (pe + 4) 2
  let count := numberAt data (pe + 6) 2
  let optionalSize := numberAt data (pe + 20) 2
  require (machine = 0x014C) "only i386 PE images are supported"
  require (0 < count ∧ count <= 96) "invalid PE section count"
  let optional := pe + 24
  require (max minimumOptionalSize 32 <= optionalSize ∧ optional + optionalSize <= data.length)
    "invalid PE32 optional header"
  require (numberAt data optional 2 = 0x010B) "only PE32 images are supported"
  let table := optional + optionalSize
  require (table + count * 40 <= data.length) "section table extends past EOF"
  let sections := sectionTable data table count
  requireEach sections (fun s => s.rawSize = 0 ∨ s.rawEnd <= data.length)
    fun s => "section " ++ reprBytes (strippedName s) ++ " raw data extends past EOF"
  require (Stacked (occupied sections)) "PE sections overlap in the file"
  pure ⟨data, pe, machine, count, optional, optionalSize, sections⟩

namespace Pe32Headers

variable (headers : Pe32Headers)

def sectionTableOffset : Nat :=
  headers.optionalOffset + headers.optionalSize

def headersEnd : Nat :=
  headers.sectionTableOffset + headers.sectionCount * 40

def optionalField (offset : Nat) (label : String) : Refusing Nat := do
  require (offset + 4 <= headers.optionalSize) ("PE32 optional header lacks " ++ label)
  pure (numberAt headers.data (headers.optionalOffset + offset) 4)

def imageBase : Refusing Nat := headers.optionalField 28 "ImageBase"

def sectionAlignment : Refusing Nat :=
  headers.optionalField 32 "SectionAlignment"

def directoryCount : Refusing Nat :=
  headers.optionalField 92 "NumberOfRvaAndSizes"

def dataDirectory (index : Nat) (label : String) : Refusing (Nat × Nat) := do
  let count <- headers.directoryCount
  require (index < count) ("PE image lacks " ++ label)
  let rva <- headers.optionalField (96 + index * 8) label
  let size <- headers.optionalField (96 + index * 8 + 4) label
  pure (rva, size)

def backing (rva : Int) (size : Nat) : List Pe32Section :=
  headers.sections.filter (·.BacksRva rva size)

def sectionForRva (rva : Int) (size : Nat) (context : String) : Refusing Pe32Section :=
  match headers.backing rva size with
  | [s] => .ok s
  | _ => .error (context ++ " does not map uniquely to raw data")

def rvaToOffset (rva : Int) (size : Nat) (context : String) : Refusing Nat := do
  let s <- headers.sectionForRva rva size context
  pure (s.offsetOf rva)

end Pe32Headers

/-- Sections without common file bytes. -/
def Pe32Section.RawApart (a b : Pe32Section) : Prop :=
  a.rawSize = 0 ∨ b.rawSize = 0 ∨ a.rawEnd <= b.rawOffset ∨ b.rawEnd <= a.rawOffset

instance : Std.Symm Pe32Section.RawApart where
  symm a b hab := by
    unfold Pe32Section.RawApart at *
    omega

/-- What parsed headers guarantee. -/
structure Pe32Headers.Parsed (headers : Pe32Headers) (minimum : Nat) : Prop where
  sections : headers.sections =
    sectionTable headers.data headers.sectionTableOffset headers.sectionCount
  optional : headers.optionalOffset = headers.peOffset + 24
  optionalSize : max minimum 32 <= headers.optionalSize
  inFile : headers.headersEnd <= headers.data.length
  raw : ∀ s ∈ headers.sections, s.rawSize = 0 ∨ s.rawEnd <= headers.data.length
  apart : headers.sections.Pairwise Pe32Section.RawApart

theorem rawApart_of_stacked {sections : List Pe32Section} (h : Stacked (occupied sections)) :
    sections.Pairwise Pe32Section.RawApart := by
  have hpair := h.pairwise (by
    intro r hr
    simp only [occupied, mem_map, mem_filter, decide_eq_true_eq] at hr
    obtain ⟨s, ⟨-, hs⟩, rfl⟩ := hr
    simp only [Pe32Section.rawEnd]
    omega)
  rw [occupied, pairwise_map, pairwise_filter] at hpair
  refine hpair.imp fun {a b} hab => ?_
  by_cases ha : a.rawSize = 0
  · exact .inl ha
  · by_cases hb : b.rawSize = 0
    · exact .inr (.inl hb)
    · exact .inr (.inr (hab (by simpa using ha) (by simpa using hb)))

variable {headers : Pe32Headers} {rva : Int} {size : Nat} {context : String} {s : Pe32Section}

theorem parsePe32Headers_parsed {data : List Byte} {minimum : Nat}
    (h : parsePe32Headers data minimum = .ok headers) :
    headers.data = data ∧ headers.Parsed minimum := by
  simp only [parsePe32Headers, bind_eq_ok, require_eq_ok, requireEach_eq_ok,
    pure_eq_ok] at h
  obtain ⟨_, -, _, -, _, -, _, -, _, ⟨hoptional, -⟩, _, -, _, htable, _, hraw, _, hstacked,
    rfl⟩ := h
  exact ⟨rfl, rfl, rfl, hoptional, htable, hraw, rawApart_of_stacked hstacked⟩

theorem Pe32Headers.sectionForRva_eq_ok :
    headers.sectionForRva rva size context = .ok s ↔ headers.backing rva size = [s] := by
  unfold sectionForRva
  split
  · rename_i t ht
    simp [ht]
  · rename_i hno
    constructor
    · intro h
      cases h
    · intro h
      exact absurd h (hno s)

theorem Pe32Headers.sectionForRva_spec (h : headers.sectionForRva rva size context = .ok s) :
    s ∈ headers.sections ∧ s.BacksRva rva size ∧
      ∀ t ∈ headers.sections, t.BacksRva rva size -> t = s := by
  rw [sectionForRva_eq_ok] at h
  have hmem : ∀ t, t ∈ headers.backing rva size ↔ t ∈ headers.sections ∧ t.BacksRva rva size := by
    simp [backing]
  obtain ⟨hs, hbacks⟩ := (hmem s).mp (by rw [h]; simp)
  refine ⟨hs, hbacks, fun t ht htb => ?_⟩
  have := (hmem t).mpr ⟨ht, htb⟩
  rw [h] at this
  simpa using this

theorem Pe32Headers.rvaToOffset_eq_ok {offset : Nat} :
    headers.rvaToOffset rva size context = .ok offset ↔
      ∃ s, headers.sectionForRva rva size context = .ok s ∧ s.offsetOf rva = offset := by
  simp only [rvaToOffset, bind_eq_ok, pure_eq_ok]

theorem Pe32Headers.Parsed.eq_of_mem_raw {minimum : Nat} (h : headers.Parsed minimum)
    {t : Pe32Section} (hs : s ∈ headers.sections) (ht : t ∈ headers.sections) {o : Nat}
    (hso : o ∈ s.raw) (hto : o ∈ t.raw) : s = t := by
  by_contra hne
  have hapart := h.apart.forall hs ht hne
  unfold Pe32Section.RawApart at hapart
  simp only [Pe32Section.raw, Span.mem_def, Pe32Section.rawEnd] at hso hto hapart
  omega

end Reprobit.Pe

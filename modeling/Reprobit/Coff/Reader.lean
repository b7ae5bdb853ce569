import Reprobit.Coff.Format

/-!
# The reader is fail-closed and in range

What the reader promises for every byte string: each failure is a failed check,
each name comes from a name field or the string table, each definition record
from the symbol table, and what it hands out as section data lies in the raw data
of that section and in no other structure of the file.
-/

namespace Reprobit.Coff

open Machine List

/-- The only failures are failed checks. -/
def FailsClosed {α : Type} (x : Reading α) : Prop := ∀ e, x = .error e -> e.isByteIdentity = true

variable {α : Type} {a : α}

@[simp] theorem failsClosed_ok (a : α) : FailsClosed (.ok a : Reading α) := by
  simp [FailsClosed]

@[simp] theorem failsClosed_pure (a : α) : FailsClosed (pure a : Reading α) :=
  failsClosed_ok a

@[simp] theorem checked_eq_ok {x : Refusing α} : checked x = .ok a ↔ x = .ok a := by
  cases x <;> simp [checked, Except.mapError]

@[simp] theorem failsClosed_checked (x : Refusing α) : FailsClosed (checked x) := by
  intro e h
  cases x with
  | error m =>
    simp only [checked, Except.mapError, Except.error.injEq] at h
    rw [<- h]
    rfl
  | ok a => simp [checked, Except.mapError] at h

theorem failsClosed_bind {α β : Type} {x : Reading α} {f : α -> Reading β} :
    FailsClosed (x >>= f) ↔ FailsClosed x ∧ ∀ a, x = .ok a -> FailsClosed (f a) := by
  cases x <;> simp [FailsClosed, bind, Except.bind]

variable {raw : List Byte} {h : CoffHeader} {index : Nat} {s : CoffSection}
  {nameBytes : Refusing (List Byte)} {fields : String -> Refusing α} {context : String}

theorem failsClosed_decodeAscii : FailsClosed (decodeAscii raw) ↔ isAscii raw = true := by
  unfold decodeAscii
  split
  · next h => simp [h]
  · next h => simp [h, FailsClosed, CoffError.isByteIdentity]

theorem failsClosed_readNamed :
    FailsClosed (readNamed nameBytes fields) ↔ ∀ raw, nameBytes = .ok raw ->
    isAscii raw = true := by
  simp [readNamed, failsClosed_bind, failsClosed_decodeAscii]

theorem readNamed_eq_ok : readNamed nameBytes fields = .ok a ↔
      ∃ raw name, nameBytes = .ok raw ∧ decodeAscii raw = .ok name ∧ fields name = .ok a := by
  simp [readNamed, bind_eq_ok]

theorem failsClosed_scan {read : Nat -> Reading α} {next : Nat -> α -> Nat} {bound : Nat}
    (hnext : ∀ i a, i < next i a) :
    FailsClosed (scan read next bound bound 0) ↔
      ∀ index < bound, Reached read next bound 0 index -> FailsClosed (read index) := by
  constructor
  · intro h index hlt hr e he
    exact h e (scan_eq_error hnext (by omega) hr hlt he)
  · intro h e he
    obtain ⟨index, hlt, hr, herr⟩ := scan_error he
    exact h index hlt hr e herr

theorem failsClosed_collect {α β : Type} {f : α -> Reading (Option β)} {xs : List α}
    (h : ∀ x ∈ xs, FailsClosed (f x)) : FailsClosed (collect f xs) := by
  intro e he
  obtain ⟨x, hx, herr⟩ := collect_error he
  exact h x hx e herr

theorem coffUnpack_eq_ok {data record : List Byte} {offset size : Nat} :
    coffUnpack data offset size context = .ok record ↔
      offset + size <= data.length ∧ slice data offset size = record := by
  simp [coffUnpack]

/-- The layout a header that was read has. -/
structure HeaderFits (data : List Byte) (h : CoffHeader) : Prop where
  sections : h.tableEnd <= data.length
  strings : h.stringOffset = h.symbolOffset + h.symbolCount * 18
  stringEnd : h.stringEnd = data.length
  stringSize : h.stringOffset + 4 <= h.stringEnd

variable {data : List Byte} {name : String}

theorem readHeader_fits (hread : readHeader data = .ok h) :
    HeaderFits data h := by
  simp only [readHeader, bind_eq_ok, pure_eq_ok, ↓require_bind_eq_ok] at hread
  obtain ⟨-, -, record, -, -, -, -, -, strings, -, ⟨hfour, hin⟩, hend, htable, rfl⟩ := hread
  exact ⟨htable, rfl, hend, by simp only; omega⟩

/-- The layout a section header that was read has. -/
structure SectionFits (data : List Byte) (h : CoffHeader) (s : CoffSection) : Prop where
  raw : s.rawSize ≠ 0 -> s.uninitialised = false ->
    h.tableEnd <= s.rawOffset ∧ s.rawOffset + s.rawSize <= data.length
  bare : s.rawSize ≠ 0 -> s.uninitialised = true -> s.rawOffset = 0
  relocations : s.relocationCount ≠ 0 ->
    h.tableEnd <= s.relocationOffset ∧ s.relocationOffset + s.relocationCount * 10 <= data.length
  lines : s.lineCount ≠ 0 -> h.tableEnd <= s.lineOffset ∧
    s.lineOffset + s.lineCount * 6 <= data.length

theorem sectionFields_fits (hread : sectionFields data h index name = .ok s) :
    SectionFits data h s ∧ s.number = index + 1 ∧ s.name = name := by
  simp only [sectionFields, bind_eq_ok, pure_eq_ok, ↓require_bind_eq_ok] at hread
  obtain ⟨record, -, hraw, hbare, -, hrel, hline, rfl⟩ := hread
  exact ⟨⟨hraw, hbare, hrel, hline⟩, rfl, rfl⟩

theorem symbolFields_fits {symbol : CoffSymbol}
    (hread : symbolFields data h index name = .ok symbol) :
    symbol.index = index ∧ symbol.name = name ∧ index + symbol.auxCount < h.symbolCount := by
  simp only [symbolFields, bind_eq_ok, pure_eq_ok, ↓require_bind_eq_ok] at hread
  obtain ⟨record, -, haux, rfl⟩ := hread
  exact ⟨rfl, rfl, haux⟩

/-- What the construction of an object establishes. -/
structure Parsed (data : List Byte) (coff : CoffObject) : Prop where
  data_eq : coff.data = data
  header : readHeader data = .ok coff.header
  sections : readSections data coff.header = .ok coff.sections
  symbolTable : coff.header.tableEnd <= coff.header.symbolOffset
  symbols : readSymbols data coff.header = .ok coff.symbols

variable {coff : CoffObject}

theorem coffObject_parsed
    (h : coffObject data = .ok coff) : Parsed data coff := by
  simp only [coffObject, bind_eq_ok, checked_eq_ok, checkSymbolTable, require_eq_ok,
    pure_eq_ok] at h
  obtain ⟨header, hheader, sections, hsections, -, ⟨htable, -⟩, symbols, hsymbols, rfl⟩ := h
  exact ⟨rfl, hheader, hsections, htable, hsymbols⟩

theorem Parsed.mem_sections (p : Parsed data coff)
    (hs : s ∈ coff.sections) :
    ∃ index < coff.header.sectionCount, readSection data coff.header index = .ok s := by
  obtain ⟨index, hlt, -, hread⟩ := scan_mem p.sections hs
  exact ⟨index, hlt, hread⟩

theorem Parsed.section_fits (p : Parsed data coff)
    (hs : s ∈ coff.sections) : SectionFits data coff.header s := by
  obtain ⟨index, -, hread⟩ := p.mem_sections hs
  obtain ⟨raw, name, -, -, hfields⟩ := readNamed_eq_ok.mp hread
  exact (sectionFields_fits hfields).1

theorem Parsed.mem_symbols (p : Parsed data coff)
    {symbol : CoffSymbol} (hs : symbol ∈ coff.symbols) :
    readSymbol data coff.header symbol.index = .ok symbol ∧
      symbol.index + symbol.auxCount < coff.header.symbolCount := by
  obtain ⟨index, -, -, hread⟩ := scan_mem p.symbols hs
  obtain ⟨raw, name, -, -, hfields⟩ := readNamed_eq_ok.mp hread
  obtain ⟨hindex, -, haux⟩ := symbolFields_fits hfields
  rw [hindex]
  exact ⟨hread, haux⟩

namespace CoffObject

variable (coff : CoffObject)

def file : Span := ⟨0, coff.data.length⟩

def headers : Span := ⟨0, coff.header.tableEnd⟩

def symbolTable : Span :=
  .ofSize coff.header.symbolOffset (coff.header.symbolCount * 18)

def stringTable : Span := ⟨coff.header.stringOffset, coff.header.stringEnd⟩

end CoffObject

namespace CoffSection

/-- The bytes of the file that belong to the section. -/
def rawData (s : CoffSection) : Span :=
  .ofSize s.rawOffset (if s.uninitialised then 0 else s.rawSize)

def relocationTable (s : CoffSection) : Span := .ofSize s.relocationOffset (s.relocationCount * 10)

def lineTable (s : CoffSection) : Span := .ofSize s.lineOffset (s.lineCount * 6)

end CoffSection

section

variable (data : List Byte) (coff : CoffObject)

/-- Every other structure of the file. -/
def neighbours (s : CoffSection) : List Span :=
  [coff.headers, coff.symbolTable, coff.stringTable] ++
    coff.sections.flatMap (fun t => [t.relocationTable, t.lineTable]) ++
    (coff.sections.filter fun t => t.number ≠ s.number).map CoffSection.rawData

/-- In the file, in the raw data of the section and nothing else. -/
structure IsSectionData (coff : CoffObject) (s : CoffSection) (span : Span) : Prop where
  inFile : span.Within coff.file
  inSection : span.Within s.rawData
  apart : ∀ other ∈ neighbours coff s, span.Apart other

def operandSpan (s : CoffSection) (row : Relocation) : Span :=
  .ofSize (s.rawOffset + row.offset) row.width

/-- The bytes are those of one of two structures. -/
def TakenFrom (data raw : List Byte) (a b : Span) : Prop :=
  ∃ span : Span, raw = span.bytes data ∧ (span.Within a ∨ span.Within b)

/-- What a query returns is read from the structure it names. -/
structure QueriesSound (coff : CoffObject) : Prop where
  tables : coff.symbolTable.Within coff.file ∧ coff.stringTable.Within coff.file ∧
    ∀ s ∈ coff.sections, s.relocationTable.Within coff.file ∧ s.lineTable.Within coff.file
  sectionNames : ∀ s ∈ coff.sections, ∃ raw, decodeAscii raw = .ok s.name ∧
    TakenFrom coff.data raw coff.headers coff.stringTable
  symbolNames : ∀ symbol ∈ coff.symbols, ∃ raw, decodeAscii raw = .ok symbol.name ∧
    TakenFrom coff.data raw coff.symbolTable coff.stringTable
  bodies : ∀ s ∈ coff.sections, coffBody coff s = s.rawData.bytes coff.data ∧
    IsSectionData coff s s.rawData
  functionSection : ∀ mangled, FailsClosed (functionSection coff mangled)
  functionMultiset : FailsClosed (functionMultiset coff)
  definitions : FailsClosed (sectionDefinitions coff) ∧
    ∀ ds, sectionDefinitions coff = .ok ds -> ∀ d ∈ ds, ∃ span : Span,
      d.raw = span.bytes coff.data ∧ span.Within coff.symbolTable ∧ d.raw.length = 18
  operands : ∀ s ∈ coff.sections, ∀ rows, detailedRelocations coff s = .ok rows ->
    ∀ row ∈ rows, row.addend = leNat ((operandSpan s row).bytes coff.data) ∧
      IsSectionData coff s (operandSpan s row)

def ReaderSound : Prop :=
  FailsClosed (coffObject data) ∧ ∀ coff, coffObject data = .ok coff -> QueriesSound coff

def NamesAscii : Prop :=
  ∀ h, readHeader data = .ok h -> (∀ index < h.sectionCount,
      Reached (readSection data h) (fun index _ => index + 1) h.sectionCount 0 index ->
      ∀ raw, sectionNameBytes data h (sectionNameField data index) = .ok raw ->
        isAscii raw = true) ∧
    ∀ sections, readSections data h = .ok sections -> checkSymbolTable data h = .ok () ->
      ∀ index < h.symbolCount, Reached (readSymbol data h) nextSymbol h.symbolCount 0 index ->
        ∀ raw, symbolNameBytes data h (symbolNameField data h index) = .ok raw -> isAscii raw = true

def FunctionsInTable : Prop :=
  ∀ symbol ∈ coff.symbols, symbol.definesFunction = true -> symbol.section' <= coff.sections.length

/-- Its symbol is primary, its type known, its operand in the section. -/
def RelocationAdmitted (s : CoffSection) (ordinal : Nat) : Prop :=
  let record := slice coff.data (s.relocationOffset + ordinal * 10) 10
  (∃ target, coff.symbolAt (field record 4 4) = some target) ∧
    ∃ width, relocationWidths (field record 8 2) = some width ∧
    field record 0 4 + width <= s.rawSize

/-- A section without raw data has no relocations, or one that is refused. -/
def NoOperandsUninitialised : Prop :=
  ∀ s ∈ coff.sections, s.uninitialised = true ->
    s.relocationCount = 0 ∨ ∃ ordinal < s.relocationCount, ¬ RelocationAdmitted coff s ordinal

def RawDataApart : Prop :=
  ∀ s ∈ coff.sections, ∀ other ∈ neighbours coff s, s.rawData.Apart other

/-- The byte strings the reader keeps its promise on. -/
def ReaderCondition : Prop :=
  NamesAscii data ∧ ∀ coff, coffObject data = .ok coff ->
    FunctionsInTable coff ∧ NoOperandsUninitialised coff ∧ RawDataApart coff

theorem failsClosed_readSections :
    FailsClosed (readSections data h) ↔ ∀ index < h.sectionCount,
      Reached (readSection data h) (fun index _ => index + 1) h.sectionCount 0 index ->
      ∀ raw, sectionNameBytes data h (sectionNameField data index) = .ok raw ->
        isAscii raw = true := by
  unfold readSections
  rw [failsClosed_scan fun i _ => Nat.lt_succ_self i]
  simp only [readSection, failsClosed_readNamed]

theorem failsClosed_readSymbols :
    FailsClosed (readSymbols data h) ↔ ∀ index < h.symbolCount,
      Reached (readSymbol data h) nextSymbol h.symbolCount 0 index ->
      ∀ raw, symbolNameBytes data h (symbolNameField data h index) = .ok raw ->
        isAscii raw = true := by
  have hnext : ∀ i a, i < nextSymbol i a := by
    unfold nextSymbol
    omega
  unfold readSymbols
  rw [failsClosed_scan hnext]
  simp only [readSymbol, failsClosed_readNamed]

theorem failsClosed_coffObject :
    FailsClosed (coffObject data) ↔ NamesAscii data := by
  simp only [coffObject, failsClosed_bind, failsClosed_checked, checked_eq_ok, true_and,
    failsClosed_pure, implies_true, and_true, failsClosed_readSections, failsClosed_readSymbols]
  constructor
  · intro h header hheader
    exact ⟨(h header hheader).1, fun sections hs hcheck => (h header hheader).2 sections hs
      () hcheck⟩
  · intro h header hheader
    exact ⟨(h header hheader).1,
      fun sections hs _ hcheck => (h header hheader).2 sections hs hcheck⟩

theorem stripNuls_length_le (raw : List Byte) : (stripNuls raw).length <= raw.length :=
  ( rdropWhile_prefix _ _).length_le

/-- An inline name is the beginning of its field. -/
theorem stripNuls_slice (start size : Nat) :
    ∃ n ≤ size, stripNuls (slice data start size) = slice data start n := by
  have hle := stripNuls_length_le (slice data start size)
  rw [slice_length] at hle
  have htake : stripNuls (slice data start size) =
      (slice data start size).take (stripNuls (slice data start size)).length :=
    prefix_iff_eq_take.mp ( rdropWhile_prefix _ _)
  generalize (stripNuls (slice data start size)).length = n at hle htake
  refine ⟨n, by omega, ?_⟩
  rw [htake, slice, take_take, min_eq_left (by omega), slice]

end

theorem stringBytes_taken {relative : Nat} (hread : stringBytes data h relative context = .ok raw) :
    ∃ span : Span, raw = span.bytes data ∧ span.Within ⟨h.stringOffset, h.stringEnd⟩ := by
  simp only [stringBytes, require_bind_eq_ok] at hread
  obtain ⟨⟨-, hlt⟩, hread⟩ := hread
  split at hread
  · cases hread
  · next length hfind =>
      rw [pure_eq_ok] at hread
      have hend := (findIdx?_eq_some_iff_getElem.mp hfind).1
      rw [slice_length] at hend
      refine ⟨Span.ofSize (h.stringOffset + relative) length, by rw [Span.bytes_ofSize, hread], ?_⟩
      rw [Span.within_iff]
      simp only [Span.ofSize]
      omega

theorem inline_taken {start : Nat} {a : Span}
    (hin : (Span.ofSize start 8).Within a) (h : stripNuls (slice data start 8) = raw) :
    ∃ span : Span, raw = span.bytes data ∧ span.Within a := by
  obtain ⟨n, hn, heq⟩ := stripNuls_slice data start 8
  refine ⟨Span.ofSize start n, by rw [Span.bytes_ofSize, <- heq, h], fun o ho => hin o ?_⟩
  rw [Span.mem_ofSize] at ho ⊢
  omega

theorem sectionNameBytes_taken (hlt : index < h.sectionCount)
    (hread : sectionNameBytes data h (sectionNameField data index) = .ok raw) :
    TakenFrom data raw ⟨0, h.tableEnd⟩ ⟨h.stringOffset, h.stringEnd⟩ := by
  unfold sectionNameBytes at hread
  split at hread
  · simp only [require_bind_eq_ok] at hread
    obtain ⟨span, hraw, hin⟩ := stringBytes_taken hread.2
    exact ⟨span, hraw, .inr hin⟩
  · have hfield : (Span.ofSize (20 + index * 40) 8).Within ⟨0, h.tableEnd⟩ := by
      rw [Span.within_iff]
      simp only [Span.ofSize, CoffHeader.tableEnd]
      omega
    obtain ⟨span, hraw, hin⟩ := inline_taken hfield (pure_eq_ok.mp hread)
    exact ⟨span, hraw, .inl hin⟩

theorem symbolNameBytes_taken (hlt : index < h.symbolCount)
    (hread : symbolNameBytes data h (symbolNameField data h index) = .ok raw) :
    TakenFrom data raw (.ofSize h.symbolOffset (h.symbolCount * 18))
      ⟨h.stringOffset, h.stringEnd⟩ := by
  unfold symbolNameBytes at hread
  split at hread
  · rw [bind_eq_ok] at hread
    obtain ⟨record, -, hread⟩ := hread
    obtain ⟨span, hraw, hin⟩ := stringBytes_taken hread
    exact ⟨span, hraw, .inr hin⟩
  · have hfield : (Span.ofSize (h.symbolOffset + index * 18) 8).Within
        (.ofSize h.symbolOffset (h.symbolCount * 18)) := by
      rw [Span.within_iff]
      simp only [Span.ofSize]
      omega
    obtain ⟨span, hraw, hin⟩ := inline_taken hfield (pure_eq_ok.mp hread)
    exact ⟨span, hraw, .inl hin⟩

section Queries

variable {data : List Byte} {coff : CoffObject} {s : CoffSection} {symbol : CoffSymbol}
  {row : Relocation} {rows : List Relocation} {ordinal : Nat}

theorem coffBody_eq (coff : CoffObject) (s : CoffSection) :
    coffBody coff s = s.rawData.bytes coff.data := by
  unfold coffBody CoffSection.rawData
  rw [Span.bytes_ofSize]
  split
  · next h =>
      rcases h with h | h
      · simp [h, slice]
      · simp [h, slice]
  · next h =>
      rw [not_or, Bool.not_eq_true] at h
      rw [h.2]
      rfl

theorem definedSection_auxCount (h : definedSection coff symbol = some s) :
    1 <= symbol.auxCount := by
  unfold definedSection at h
  split at h
  · next hc => exact hc.2.2.2
  · cases h

theorem failsClosed_sectionAt (hpos : 0 < symbol.section') :
    FailsClosed (coff.sectionAt symbol.section') ↔ symbol.section' <= coff.sections.length := by
  unfold CoffObject.sectionAt
  split
  · next s hs =>
      have hlt := (List.getElem?_eq_some_iff.mp hs).1
      simp only [failsClosed_ok, true_iff]
      omega
  · next hnone =>
      rw [List.getElem?_eq_none_iff] at hnone
      simp only [FailsClosed, Except.error.injEq, forall_eq', CoffError.isByteIdentity,
        Bool.false_eq_true, false_iff]
      omega

theorem CoffSymbol.definesFunction_pos (h : symbol.definesFunction = true) :
    0 < symbol.section' := by
  simp only [CoffSymbol.definesFunction, Bool.and_eq_true, decide_eq_true_eq] at h
  exact h.1.1.1

theorem failsClosed_functionName : FailsClosed (functionName coff symbol) ↔
      (symbol.definesFunction = true -> symbol.section' <= coff.sections.length) := by
  unfold functionName
  split
  · next h =>
      simp only [failsClosed_bind, failsClosed_sectionAt (CoffSymbol.definesFunction_pos h), h,
        failsClosed_pure, implies_true, and_true, forall_const]
  · next h => simp [h]

theorem FunctionsInTable.functionSection (h : FunctionsInTable coff) (mangled : String) :
    FailsClosed (functionSection coff mangled) := by
  unfold Coff.functionSection
  simp only
  split
  · next symbol hfound =>
      have hmem : symbol ∈ coff.symbols.filter fun symbol =>
          symbol.name = mangled && symbol.definesFunction := by
        rw [hfound]
        exact mem_singleton_self symbol
      obtain ⟨hsym, hp⟩ := mem_filter.mp hmem
      simp only [Bool.and_eq_true] at hp
      have hin := (failsClosed_sectionAt (CoffSymbol.definesFunction_pos hp.2)).mpr
        (h symbol hsym hp.2)
      simp only [failsClosed_bind, hin, failsClosed_checked, failsClosed_pure, implies_true,
        and_true]
  · simp [FailsClosed, CoffError.isByteIdentity]

theorem failsClosed_functionMultiset :
    FailsClosed (functionMultiset coff) ↔ FunctionsInTable coff := by
  constructor
  · intro h symbol hs hdef
    rw [<- failsClosed_sectionAt (CoffSymbol.definesFunction_pos hdef)]
    -- the census has no failed check to offer, so it must succeed, and on every symbol
    have hok : ∃ names, functionMultiset coff = .ok names := by
      cases hm : functionMultiset coff with
      | ok names => exact ⟨names, rfl⟩
      | error e =>
        obtain ⟨other, -, herr⟩ := collect_error hm
        have hclosed := h e hm
        unfold functionName at herr
        split at herr
        · unfold CoffObject.sectionAt at herr
          split at herr
          · simp [bind, Except.bind, pure, Except.pure] at herr
          · simp only [bind, Except.bind, Except.error.injEq] at herr
            rw [<- herr] at hclosed
            cases hclosed
        · cases herr
    obtain ⟨o, ho⟩ := collect_isOk.mp hok symbol hs
    rw [functionName, if_pos hdef, bind_eq_ok] at ho
    obtain ⟨s, hsec, -⟩ := ho
    rw [hsec]
    exact failsClosed_ok s
  · intro h
    exact failsClosed_collect fun symbol hs => failsClosed_functionName.mpr (h symbol hs)

theorem readRelocation_isOk (hin : s.relocationOffset + ordinal * 10 + 10 <= coff.data.length) :
    (∃ row, readRelocation coff s ordinal = .ok row) ↔ RelocationAdmitted coff s ordinal := by
  simp only [readRelocation, RelocationAdmitted, coffUnpack, require, hin, if_true, bind,
    Except.bind, pure, Except.pure]
  split
  · next hnone => simp [hnone]
  · next target hsome =>
      simp only [hsome, Option.some.injEq]
      split
      · next hnone => simp [hnone]
      · next width hwidth =>
          simp only [hwidth]
          by_cases hle : field (slice coff.data (s.relocationOffset + ordinal * 10) 10) 0 4 +
              width <= s.rawSize
          · simp [hle]
          · simp [hle]

theorem readRelocation_operand (h : readRelocation coff s ordinal = .ok row) :
    row.offset + row.width <= s.rawSize ∧ 2 <= row.width ∧
      row.addend = leNat (slice coff.data (s.rawOffset + row.offset) row.width) := by
  simp only [readRelocation, bind_eq_ok] at h
  obtain ⟨record, -, h⟩ := h
  split at h
  · cases h
  · split at h
    · cases h
    · next width hwidth =>
        simp only [require_bind_eq_ok, pure_eq_ok] at h
        obtain ⟨hle, rfl⟩ := h
        refine ⟨hle, ?_, rfl⟩
        unfold relocationWidths at hwidth
        split at hwidth <;> cases hwidth <;> simp

theorem operandSpan_within (hu : s.uninitialised = false)
    (hle : row.offset + row.width <= s.rawSize)
    : (operandSpan s row).Within s.rawData := by
  rw [Span.within_iff]
  simp only [operandSpan, CoffSection.rawData, Span.ofSize, hu, Bool.false_eq_true, if_false]
  omega

theorem not_operandSpan_within (hu : s.uninitialised = true) (hwidth : 2 <= row.width) :
    ¬ (operandSpan s row).Within s.rawData := by
  rw [Span.within_iff]
  simp only [operandSpan, CoffSection.rawData, Span.ofSize, hu, if_true]
  omega

theorem mem_detailedRelocations (h : detailedRelocations coff s = .ok rows) (hrow : row ∈ rows) :
    ∃ ordinal < s.relocationCount, readRelocation coff s ordinal = .ok row := by
  obtain ⟨ordinal, hlt, -, hread⟩ := scan_mem h hrow
  exact ⟨ordinal, hlt, hread⟩

variable (p : Parsed data coff)

include p

theorem Parsed.sectionName (hs : s ∈ coff.sections) : ∃ raw, decodeAscii raw = .ok s.name ∧
      TakenFrom coff.data raw coff.headers coff.stringTable := by
  obtain ⟨index, hlt, hread⟩ := p.mem_sections hs
  obtain ⟨raw, name, hraw, hname, hfields⟩ := readNamed_eq_ok.mp hread
  obtain ⟨-, -, heq⟩ := sectionFields_fits hfields
  have htaken := sectionNameBytes_taken hlt hraw
  rw [<- p.data_eq] at htaken
  exact ⟨raw, heq ▸ hname, htaken⟩

theorem Parsed.symbolName (hs : symbol ∈ coff.symbols) : ∃ raw, decodeAscii raw = .ok symbol.name ∧
      TakenFrom coff.data raw coff.symbolTable coff.stringTable := by
  obtain ⟨hread, hlt⟩ := p.mem_symbols hs
  obtain ⟨raw, name, hraw, hname, hfields⟩ := readNamed_eq_ok.mp hread
  obtain ⟨-, heq, -⟩ := symbolFields_fits hfields
  have htaken := symbolNameBytes_taken (by omega) hraw
  rw [<- p.data_eq] at htaken
  exact ⟨raw, heq ▸ hname, htaken⟩

theorem Parsed.tables : coff.symbolTable.Within coff.file ∧ coff.stringTable.Within coff.file ∧
      ∀ s ∈ coff.sections, s.relocationTable.Within coff.file ∧ s.lineTable.Within coff.file := by
  obtain ⟨-, hstrings, hend, hsize⟩ := readHeader_fits p.header
  refine ⟨?_, ?_, fun s hs => ?_⟩
  · rw [Span.within_iff]
    simp only [CoffObject.symbolTable, CoffObject.file, Span.ofSize, p.data_eq]
    omega
  · rw [Span.within_iff]
    simp only [CoffObject.stringTable, CoffObject.file, p.data_eq]
    omega
  · have hrel := (p.section_fits hs).relocations
    have hline := (p.section_fits hs).lines
    rw [Span.within_iff, Span.within_iff]
    simp only [CoffSection.relocationTable, CoffSection.lineTable, CoffObject.file, Span.ofSize,
      p.data_eq]
    omega

theorem Parsed.rawData_inFile (hs : s ∈ coff.sections) : s.rawData.Within coff.file := by
  have hraw := (p.section_fits hs).raw
  rw [Span.within_iff]
  simp only [CoffSection.rawData, CoffObject.file, Span.ofSize, p.data_eq]
  cases hu : s.uninitialised with
  | true => simp
  | false =>
    simp only [Bool.false_eq_true, if_false]
    have hraw := fun hne => hraw hne hu
    omega

theorem Parsed.isSectionData (hapart : RawDataApart coff)
    (hs : s ∈ coff.sections) {span : Span} (hin : span.Within s.rawData) :
    IsSectionData coff s span :=
  { inFile := fun o ho => p.rawData_inFile hs o (hin o ho)
    inSection := hin
    apart := fun other hother o ho => hapart s hs other hother o (hin o ho) }

theorem Parsed.auxiliary_within (hs : symbol ∈ coff.symbols) (haux : 1 <= symbol.auxCount) :
    (Span.ofSize (coff.header.symbolOffset + (symbol.index + 1) * 18) 18).Within
      coff.symbolTable := by
  have hlt := (p.mem_symbols hs).2
  rw [Span.within_iff]
  simp only [CoffObject.symbolTable, Span.ofSize]
  omega

theorem Parsed.auxiliary_length (hs : symbol ∈ coff.symbols) (haux : 1 <= symbol.auxCount) :
    (slice coff.data (coff.header.symbolOffset + (symbol.index + 1) * 18) 18).length = 18 := by
  have hlt := (p.mem_symbols hs).2
  obtain ⟨-, hstrings, hend, hsize⟩ := readHeader_fits p.header
  rw [slice_length, p.data_eq]
  omega

theorem Parsed.coffAuxiliary_eq (hs : symbol ∈ coff.symbols) (haux : 1 <= symbol.auxCount) :
    ∃ auxiliary selection, coffAuxiliary coff symbol = .ok auxiliary ∧
      auxiliary[14]? = some selection ∧ auxiliary.length = 18 ∧
      auxiliary = slice coff.data (coff.header.symbolOffset + (symbol.index + 1) * 18) 18 := by
  have hlen := p.auxiliary_length hs haux
  refine ⟨_, _, ?_, getElem?_eq_getElem (by omega), hlen, rfl⟩
  simp [coffAuxiliary, require, haux, checked, Except.mapError, bind, Except.bind, pure,
    Except.pure]

theorem Parsed.failsClosed_sectionDefinition (hs : symbol ∈ coff.symbols) :
    FailsClosed (sectionDefinition coff symbol) := by
  unfold sectionDefinition
  split
  · simp
  · next s hdef =>
      obtain ⟨auxiliary, selection, haux, hsel, -, -⟩ :=
        p.coffAuxiliary_eq hs (definedSection_auxCount hdef)
      simp [haux, hsel, bind, Except.bind]

theorem Parsed.definitions : FailsClosed (sectionDefinitions coff) ∧
    ∀ ds, sectionDefinitions coff = .ok ds -> ∀ d ∈ ds, ∃ span : Span,
      d.raw = span.bytes coff.data ∧ span.Within coff.symbolTable ∧ d.raw.length = 18 := by
  refine ⟨failsClosed_collect fun symbol hs => p.failsClosed_sectionDefinition hs,
    fun ds hds d hd => ?_⟩
  obtain ⟨symbol, hs, hread⟩ := (collect_mem hds).mp hd
  unfold sectionDefinition at hread
  split at hread
  · cases hread
  · next s hdef =>
      have hcount := definedSection_auxCount hdef
      obtain ⟨auxiliary, selection, haux, hsel, hlen, heq⟩ := p.coffAuxiliary_eq hs hcount
      simp only [haux, hsel, bind, Except.bind, pure, Except.pure, Except.ok.injEq,
        Option.some.injEq] at hread
      subst hread
      exact ⟨_, by rw [Span.bytes_ofSize]; exact heq, p.auxiliary_within hs hcount, hlen⟩

theorem Parsed.detailedRelocations_isOk (hs : s ∈ coff.sections)
    (hall : ∀ ordinal < s.relocationCount, RelocationAdmitted coff s ordinal) :
    ∃ rows, detailedRelocations coff s = .ok rows := by
  cases hrows : detailedRelocations coff s with
  | ok rows => exact ⟨rows, rfl⟩
  | error e =>
    obtain ⟨ordinal, hlt, -, herr⟩ := scan_error hrows
    have hfits := (p.section_fits hs).relocations (by omega)
    obtain ⟨row, hok⟩ := (readRelocation_isOk (by rw [p.data_eq]; omega)).mpr (hall ordinal hlt)
    rw [hok] at herr
    cases herr

theorem Parsed.noOperands (hs : s ∈ coff.sections)
    (hrows : detailedRelocations coff s = .ok rows) (hno : s.relocationCount = 0 ∨
      ∃ ordinal < s.relocationCount, ¬ RelocationAdmitted coff s ordinal) : rows = [] := by
  rw [eq_nil_iff_forall_not_mem]
  intro row hrow
  obtain ⟨ordinal, hlt, -⟩ := mem_detailedRelocations hrows hrow
  rcases hno with hzero | ⟨bad, hbad, hrefused⟩
  · omega
  · have hfits := (p.section_fits hs).relocations (by omega)
    obtain ⟨other, -, hok⟩ := scan_succ_read hrows hbad
    exact hrefused ((readRelocation_isOk (by rw [p.data_eq]; omega)).mp ⟨other, hok⟩)

theorem Parsed.operands (hno : NoOperandsUninitialised coff)
    (hapart : RawDataApart coff) (hs : s ∈ coff.sections)
    (hrows : detailedRelocations coff s = .ok rows) (hrow : row ∈ rows) :
    row.addend = leNat ((operandSpan s row).bytes coff.data) ∧
      IsSectionData coff s (operandSpan s row) := by
  obtain ⟨ordinal, -, hread⟩ := mem_detailedRelocations hrows hrow
  obtain ⟨hle, -, haddend⟩ := readRelocation_operand hread
  have hu : s.uninitialised = false := by
    rw [Bool.eq_false_iff]
    intro hu
    simp [p.noOperands hs hrows (hno s hs hu)] at hrow
  refine ⟨?_, p.isSectionData hapart hs (operandSpan_within hu hle)⟩
  rw [haddend, operandSpan, Span.bytes_ofSize]

theorem Parsed.noOperandsUninitialised
    (h : ∀ s ∈ coff.sections, ∀ rows, detailedRelocations coff s = .ok rows ->
      ∀ row ∈ rows, (operandSpan s row).Within s.rawData) : NoOperandsUninitialised coff := by
  intro s hs hu
  by_contra hno
  push Not at hno
  obtain ⟨hne, hall⟩ := hno
  obtain ⟨rows, hrows⟩ := p.detailedRelocations_isOk hs hall
  obtain ⟨row, hrow, hread⟩ := scan_succ_read hrows (Nat.pos_of_ne_zero hne)
  exact not_operandSpan_within hu (readRelocation_operand hread).2.1 (h s hs rows hrows row hrow)

end Queries

/-- On which byte strings the reader is fail-closed and in range: every name it
comes to is ASCII, every function symbol names a section of the table, no
uninitialised section has a table of admitted relocations, and the raw data of no
section meets another structure. -/
theorem readerSound_iff (data : List Byte) : ReaderSound data ↔ ReaderCondition data := by
  unfold ReaderSound ReaderCondition
  rw [failsClosed_coffObject]
  constructor
  · rintro ⟨hnames, hqueries⟩
    refine ⟨hnames, fun coff hcoff => ?_⟩
    have p := coffObject_parsed hcoff
    have q := hqueries coff hcoff
    exact ⟨failsClosed_functionMultiset.mp q.functionMultiset,
      p.noOperandsUninitialised fun s hs rows hrows row hrow =>
        (q.operands s hs rows hrows row hrow).2.inSection,
      fun s hs => (q.bodies s hs).2.apart⟩
  · rintro ⟨hnames, hcond⟩
    refine ⟨hnames, fun coff hcoff => ?_⟩
    have p := coffObject_parsed hcoff
    obtain ⟨hfunctions, hoperands, hapart⟩ := hcond coff hcoff
    exact
      { tables := p.tables
        sectionNames := fun s hs => p.sectionName hs
        symbolNames := fun symbol hs => p.symbolName hs
        bodies := fun s hs =>
          ⟨coffBody_eq coff s, p.isSectionData hapart hs fun _ ho => ho⟩
        functionSection := hfunctions.functionSection
        functionMultiset := failsClosed_functionMultiset.mpr hfunctions
        definitions := p.definitions
        operands := fun s hs rows hrows row hrow => p.operands hoperands hapart hs hrows hrow }

/-- An empty section and a function symbol of section 5. -/
def straySymbolFile : List Byte :=
  [0x4C, 0x01, 1, 0, 0, 0, 0, 0, 60, 0, 0, 0, 1, 0, 0, 0, 0, 0, 0, 0] ++
  [0x2E, 0x74, 0x65, 0x78, 0x74, 0, 0, 0] ++ List.replicate 32 0 ++
  [0x5F, 0x66, 0, 0, 0, 0, 0, 0, 0, 0, 0, 0, 5, 0, 0x20, 0, 2, 0] ++
  [4, 0, 0, 0]

/-- The file is accepted, and the census of its functions raises an index error. -/
theorem straySymbolFile_not_sound : ¬ ReaderSound straySymbolFile := by
  intro h
  cases hcoff : coffObject straySymbolFile with
  | error e =>
    have hok : (coffObject straySymbolFile).isOk = true := by decide
    rw [hcoff] at hok
    cases hok
  | ok coff =>
    have herr : (coffObject straySymbolFile >>= functionMultiset) = .error .indexError := by
      decide
    rw [hcoff] at herr
    exact absurd ((h.2 coff hcoff).functionMultiset .indexError herr) (by decide)

end Reprobit.Coff

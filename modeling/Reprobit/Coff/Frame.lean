import Reprobit.Coff.Compose
import Reprobit.Coff.Reader

/-!
# The frame of the equal-body composition

The composer writes into file ranges, and the reader does not prove that the
ranges of a file are disjoint.  The composition keeps its frame exactly when no
byte it changes lies in another structure of the seed.
-/

namespace Reprobit.Coff

open Machine List Option

section Agreement

variable {data data' : List Byte} {h : CoffHeader}

/-- One length, the same headers, symbol table and string table. -/
structure SameTables (data data' : List Byte) (h : CoffHeader) : Prop where
  length : data'.length = data.length
  headers : AgreeOn data data' ⟨0, h.tableEnd⟩
  symbols : AgreeOn data data' (.ofSize h.symbolOffset (h.symbolCount * 18))
  strings : AgreeOn data data' ⟨h.stringOffset, h.stringEnd⟩

section

variable (t : SameTables data data' h)

include t

theorem SameTables.header_slice {start size : Nat}
    (hle : start + size <= h.tableEnd) : slice data' start size = slice data start size :=
  t.headers.slice (Nat.zero_le _) hle

variable {index : Nat}

theorem SameTables.symbol_slice (start size : Nat)
    (hlt : index < h.symbolCount) (hle : start + size <= 18) :
    slice data' (h.symbolOffset + index * 18 + start) size =
      slice data (h.symbolOffset + index * 18 + start) size :=
  t.symbols.slice (by simp only [Span.ofSize]; omega) (by simp only [Span.ofSize]; omega)

theorem SameTables.string_slice {start size : Nat}
    (hge : h.stringOffset <= start) (hle : start + size <= h.stringEnd) :
    slice data' start size = slice data start size :=
  t.strings.slice hge hle

theorem SameTables.readHeader (hread : readHeader data = .ok h) :
    Coff.readHeader data' = .ok h := by
  have hfirst : slice data' 0 20 = slice data 0 20 :=
    t.header_slice (by simp only [CoffHeader.tableEnd]; omega)
  have fits := readHeader_fits hread
  have hsize := fits.stringSize
  simp only [Coff.readHeader, bind_eq_ok, coffUnpack_eq_ok, pure_eq_ok,
    ↓require_bind_eq_ok] at hread ⊢
  obtain ⟨u, hlen, record, ⟨hin, rfl⟩, hmachine, hoptional, hcount, hsymbols, strings,
    ⟨hstr, rfl⟩, htable, hend, hsections, rfl⟩ := hread
  have hstring := t.string_slice (Nat.le_refl _) hsize
  rw [hfirst, t.length]
  exact ⟨u, hlen, _, ⟨hin, rfl⟩, hmachine, hoptional, hcount, hsymbols, _, ⟨hstr, hstring⟩,
    htable, hend, hsections, rfl⟩

theorem SameTables.stringBytes (relative : Nat) (context : String) :
    stringBytes data' h relative context = Coff.stringBytes data h relative context := by
  unfold Coff.stringBytes
  by_cases hin : 4 <= relative ∧ relative < h.stringEnd - h.stringOffset
  · have hstart : slice data' (h.stringOffset + relative)
        (h.stringEnd - (h.stringOffset + relative)) =
        slice data (h.stringOffset + relative) (h.stringEnd - (h.stringOffset + relative)) :=
      t.string_slice (by omega) (by omega)
    simp only [require, hin, and_self, if_true, hstart]
    split
    · rfl
    · next length hfind =>
        have hlt := (findIdx?_eq_some_iff_getElem.mp hfind).1
        rw [slice_length] at hlt
        rw [t.string_slice (by omega) (by omega)]
  · simp [require, hin, bind, Except.bind]

theorem SameTables.readSection (hlt : index < h.sectionCount) :
    readSection data' h index = Coff.readSection data h index := by
  have hend : 20 + index * 40 + 40 <= h.tableEnd := by
    simp only [CoffHeader.tableEnd]
    omega
  have hname : sectionNameField data' index = sectionNameField data index :=
    t.header_slice (by omega)
  have hfields : sectionFields data' h index = sectionFields data h index := by
    funext name
    simp only [sectionFields, coffUnpack, t.length,
      t.header_slice (show 20 + index * 40 + 8 + 32 <= h.tableEnd by omega)]
  simp only [Coff.readSection, sectionNameBytes, hname, t.stringBytes, hfields]

theorem SameTables.readSymbol (hlt : index < h.symbolCount) :
    readSymbol data' h index = Coff.readSymbol data h index := by
  have hname : symbolNameField data' h index = symbolNameField data h index :=
    t.symbol_slice 0 8 hlt (by omega)
  have hfields : symbolFields data' h index = symbolFields data h index := by
    funext name
    simp only [symbolFields, coffUnpack, t.length, t.symbol_slice 8 10 hlt (by omega)]
  simp only [Coff.readSymbol, symbolNameBytes, hname, t.stringBytes, hfields]

end

theorem SameTables.coffObject {coff : CoffObject} (t : SameTables data data' coff.header)
    (hread : coffObject data = .ok coff) :
    coffObject data' = .ok { coff with data := data' } := by
  have p := coffObject_parsed hread
  have hsections : readSections data' coff.header = .ok coff.sections := by
    rw [<- p.sections]
    exact scan_congr (fun _ hlt => t.readSection hlt) _ _
  have hsymbols : readSymbols data' coff.header = .ok coff.symbols := by
    rw [<- p.symbols]
    exact scan_congr (fun _ hlt => t.readSymbol hlt) _ _
  simp only [Coff.coffObject, bind_eq_ok, checked_eq_ok, checkSymbolTable, pure_eq_ok] at hread ⊢
  obtain ⟨header, hheader, sections, -, u, hcheck, symbols, -, rfl⟩ := hread
  exact ⟨header, t.readHeader hheader, sections, hsections, u, by rw [t.length]; exact hcheck,
    symbols, hsymbols, rfl⟩

end Agreement

def offsetField (table : Nat) (offsets : List Nat) (o : Nat) : Option Byte :=
  if table <= o then
    (offsets[(o - table) / 10]?).bind fun offset => (leBytes 4 offset)[(o - table) % 10]?
  else none

def composedByte (seedBytes : List Byte) (target : CoffSection) (body : List Byte)
    (offsets : List Nat) (o : Nat) : Option Byte :=
  (offsetField target.relocationOffset offsets o).or
    (if o ∈ target.rawData then body[o - target.rawOffset]? else seedBytes[o]?)

variable {table ordinal o : Nat} {offsets : List Nat} {coff : CoffObject} {s : CoffSection}
  {sel : Selected} {moves : List (Nat × Nat)}

theorem offsetField_of_lt (h : o < table) (offsets : List Nat) :
    offsetField table offsets o = none := by
  rw [offsetField, if_neg (by omega)]

theorem offsetField_cons (table offset : Nat) (offsets : List Nat) (o : Nat) :
    offsetField table (offset :: offsets) o =
      if o ∈ Span.ofSize table 10 then (leBytes 4 offset)[o - table]?
      else offsetField (table + 10) offsets o := by
  unfold offsetField
  by_cases hge : table <= o
  · rw [if_pos hge]
    by_cases hlt : o < table + 10
    · rw [if_pos ⟨hge, hlt⟩, show (o - table) / 10 = 0 by omega,
        show (o - table) % 10 = o - table by omega]
      rfl
    · rw [if_neg (fun hc => hlt hc.2), if_pos (by omega),
        show (o - table) / 10 = (o - (table + 10)) / 10 + 1 by omega,
        show (o - table) % 10 = (o - (table + 10)) % 10 by omega, getElem?_cons_succ]
  · rw [if_neg hge, if_neg (fun hc => hge hc.1), if_neg (by omega)]

variable {image body : List Byte}

theorem reseatOffsets_length_le {n : Nat} (himage : image.length <= n)
    (hfit : table + (ordinal + offsets.length) * 10 <= n + 6) :
    (reseatOffsets table offsets ordinal image).length <= n := by
  induction offsets generalizing ordinal image with
  | nil => exact himage
  | cons offset offsets ih =>
    simp only [length_cons] at hfit
    refine ih ?_ (by omega)
    have hle : (sliceAssign image (table + ordinal * 10) (leBytes 4 offset).length
        (leBytes 4 offset)).length <= _ := sliceAssign_length_le
    rw [leBytes_length] at hle
    omega

theorem reseatOffsets_getElem?
    (hfit : table + (ordinal + offsets.length) * 10 <= image.length) (o : Nat) :
    (reseatOffsets table offsets ordinal image)[o]? =
      (offsetField (table + ordinal * 10) offsets o).or image[o]? := by
  induction offsets generalizing ordinal image with
  | nil => simp [reseatOffsets, offsetField]
  | cons offset offsets ih =>
    simp only [length_cons] at hfit
    rw [reseatOffsets, sliceAssign_eq_overwrite (leBytes_length 4 offset),
      ih (by rw [overwrite_length (by rw [leBytes_length]; omega)]; omega),
      overwrite_getElem? (by rw [leBytes_length]; omega), leBytes_length, offsetField_cons,
      show table + (ordinal + 1) * 10 = table + ordinal * 10 + 10 by omega]
    simp only [Span.mem_ofSize]
    by_cases hrecord : table + ordinal * 10 <= o ∧ o < table + ordinal * 10 + 10
    · rw [if_pos hrecord, offsetField_of_lt hrecord.2, none_or]
      by_cases hin : o < table + ordinal * 10 + 4
      · rw [if_pos ⟨hrecord.1, hin⟩, getElem?_eq_getElem (by rw [leBytes_length]; omega),
          some_or]
      · have hnone : (leBytes 4 offset)[o - (table + ordinal * 10)]? = none :=
          getElem?_eq_none (by rw [leBytes_length]; omega)
        rw [if_neg (fun hc => hin hc.2), hnone, none_or]
    · rw [if_neg hrecord, if_neg (fun hc => hrecord ⟨hc.1, by omega⟩)]

theorem image_getElem? {seedBytes : List Byte} {target : CoffSection}
    (hraw : target.rawData = .ofSize target.rawOffset body.length)
    (hbody : body.length = target.rawSize)
    (hin : body ≠ [] -> target.rawOffset + body.length <= seedBytes.length)
    (hfit : offsets ≠ [] -> target.relocationOffset + offsets.length * 10 <= seedBytes.length)
    (o : Nat) : (reseatOffsets target.relocationOffset offsets 0
      (sliceAssign seedBytes target.rawOffset target.rawSize body))[o]? =
      composedByte seedBytes target body offsets o := by
  rw [sliceAssign_eq_overwrite hbody]
  have hpatch : (overwrite seedBytes target.rawOffset body).length = seedBytes.length ∧
      (overwrite seedBytes target.rawOffset body)[o]? =
        if o ∈ target.rawData then body[o - target.rawOffset]? else seedBytes[o]? := by
    rw [hraw]
    by_cases hempty : body = []
    · simp only [hempty, overwrite, length_nil, Nat.add_zero, append_nil, take_append_drop,
        Span.mem_ofSize, true_and]
      rw [if_neg (by omega)]
    · exact ⟨overwrite_length (hin hempty), overwrite_getElem? (hin hempty) o⟩
  unfold composedByte
  by_cases hnone : offsets = []
  · rw [hnone, reseatOffsets, hpatch.2]
    simp [offsetField]
  · have hle := hfit hnone
    rw [reseatOffsets_getElem? (by rw [hpatch.1]; omega), hpatch.2, Nat.zero_mul, Nat.add_zero]

/-! ## What a composition has established -/

/-- A function found in an object file. -/
structure FunctionIn (bytes : List Byte) (mangled : String) where
  object : CoffObject
  target : CoffSection
  parsed : coffObject bytes = .ok object
  found : functionSection object mangled = .ok target

theorem functionSection_mem {mangled : String} (h : functionSection coff mangled = .ok s) :
    s ∈ coff.sections := by
  unfold functionSection at h
  simp only at h
  split at h
  · next symbol hfound =>
      simp only [bind_eq_ok, pure_eq_ok] at h
      obtain ⟨t, ht, -, -, -, -, rfl⟩ := h
      unfold CoffObject.sectionAt at ht
      split at ht
      · next hget =>
          simp only [Except.ok.injEq] at ht
          exact ht ▸ mem_of_getElem? hget
      · cases ht
  · cases h

def EqualBodyEntry.reseats (entry : EqualBodyEntry) : Bool :=
  entry.spliceClass = some .equalBodyEhRelocLayout && entry.expectedRelocationMoves ≠ some []

def EqualBodyEntry.donorOffsets (entry : EqualBodyEntry) {donorBytes : List Byte}
    {mangled : String} (donor : FunctionIn donorBytes mangled) : List Nat :=
  if entry.reseats then
    match detailedRelocations donor.object donor.target with
    | .ok rows => rows.map Relocation.offset
    | .error _ => []
  else []

def SamePlace (r d : Relocation) : Prop := r.offset = d.offset ∧ r.type = d.type

variable {rows : List Relocation}

theorem detailedRelocations_length
    (h : detailedRelocations coff s = .ok rows) : rows.length = s.relocationCount := by
  have hlen := scan_succ_length h
  omega

theorem layoutMove_eq_none {a b : Relocation} (h : layoutMove (a, b) = .ok none) :
    SamePlace a b := by
  simp only [layoutMove, require_bind_eq_ok] at h
  obtain ⟨⟨htype, -⟩, -, h⟩ := h
  split at h
  · next hoffset => exact ⟨hoffset, htype⟩
  · cases h

theorem layoutMoves_eq_nil (h : layoutMoves sel = .ok []) :
    ∃ left right, detailedRelocations sel.seed sel.seedPrimary = .ok left ∧
      detailedRelocations sel.donor sel.donorPrimary = .ok right ∧
      List.Forall₂ SamePlace left right := by
  simp only [layoutMoves, bind_eq_ok, ↓require_bind_eq_ok] at h
  obtain ⟨left, hleft, right, hright, hlen, h⟩ := h
  refine ⟨left, right, hleft, hright, List.forall₂_iff_zip.mpr ⟨hlen, fun {a b} hp => ?_⟩⟩
  exact layoutMove_eq_none (collect_eq_nil h (a, b) hp)

theorem layoutMoves_lengths (h : layoutMoves sel = .ok moves) :
    ∃ right, detailedRelocations sel.donor sel.donorPrimary = .ok right ∧
      right.length = sel.seedPrimary.relocationCount := by
  simp only [layoutMoves, bind_eq_ok, ↓require_bind_eq_ok] at h
  obtain ⟨left, hleft, right, hright, hlen, -⟩ := h
  exact ⟨right, hright, by rw [<- hlen, detailedRelocations_length hleft]⟩

variable {entry : EqualBodyEntry} {sha256 : List Byte -> String} {row : Relocation}

theorem getKey_eq_ok {α : Type} {key : String} {o : Option α} {a : α} :
    getKey key o = .ok a ↔ o = some a := by
  unfold getKey
  split
  · simp
  · simp

theorem relocationMoves_eq_ok (h : relocationMoves entry sel = .ok moves) :
    (entry.reseats = true ↔ moves ≠ []) ∧
      (entry.spliceClass = some .equalBodyEhRelocLayout -> layoutMoves sel = .ok moves) := by
  unfold relocationMoves at h
  split at h
  · next hclass =>
      simp only [bind_eq_ok, checked_eq_ok, require_eq_ok, pure_eq_ok, getKey_eq_ok] at h
      obtain ⟨m, hm, expected, hdeclared, -, rfl, rfl⟩ := h
      refine ⟨?_, fun _ => hm⟩
      simp [EqualBodyEntry.reseats, hclass, hdeclared]
  · next hclass =>
      cases h
      exact ⟨by simp [EqualBodyEntry.reseats, hclass], fun hc => absurd hc hclass⟩

/-- The records that passed the check stand where the donor's do. -/
theorem requireRelocations_layout (hmoves : layoutMoves sel = .ok moves)
    (h : requireRelocations sel moves rows = .ok ()) :
    ∃ right, detailedRelocations sel.donor sel.donorPrimary = .ok right ∧
      List.Forall₂ SamePlace rows right := by
  simp only [requireRelocations, bind_eq_ok, checked_eq_ok] at h
  obtain ⟨seedRows, hseed, h⟩ := h
  split at h
  · next hnil =>
      rw [checked_eq_ok, require_eq_ok] at h
      obtain ⟨left, right, hleft, hright, hall⟩ := layoutMoves_eq_nil (hnil ▸ hmoves)
      rw [hseed, Except.ok.injEq] at hleft
      exact ⟨right, hright, by rw [h, hleft]; exact hall⟩
  · simp only [bind_eq_ok, checked_eq_ok] at h
    obtain ⟨right, hright, h⟩ := h
    split at h
    · next hlen =>
        rw [checked_eq_ok, require_eq_ok] at h
        have hrows : rows.length = right.length := by
          have hl := congrArg List.length h
          simp only [length_map, length_zip] at hl
          omega
        refine ⟨right, hright, List.forall₂_iff_get.mpr ⟨hrows, fun i h1 h2 => ?_⟩⟩
        have hi := congrArg (fun l : List (Nat × Nat × Nat × Nat) => l[i]?) h
        simp only [getElem?_map, getElem?_eq_getElem h1, map_some,
          getElem?_eq_getElem (show i < (right.zip seedRows).length by
            rw [length_zip]; omega), getElem_zip, some.injEq,
          Prod.mk.injEq] at hi
        exact ⟨hi.1, hi.2.1⟩
    · cases h

theorem readRelocation_width (h : readRelocation coff s ordinal = .ok row) :
    relocationWidths row.type = some row.width := by
  simp only [readRelocation, bind_eq_ok] at h
  obtain ⟨record, -, h⟩ := h
  split at h
  · cases h
  · split at h
    · cases h
    · next width hwidth =>
        simp only [require_bind_eq_ok, pure_eq_ok] at h
        obtain ⟨-, rfl⟩ := h
        exact hwidth

/-- What a composition that returned has read, written and checked. -/
structure Composed (seedBytes donorBytes : List Byte) (entry : EqualBodyEntry)
    (image : List Byte) (mangled : String) (seed : FunctionIn seedBytes mangled)
    (donor : FunctionIn donorBytes mangled) : Prop where
  declared : entry.mangled = some mangled
  uninitialised : seed.target.uninitialised = donor.target.uninitialised
  rawSize : seed.target.rawSize = donor.target.rawSize
  image_eq : image = reseatOffsets seed.target.relocationOffset (entry.donorOffsets donor) 0
    (sliceAssign seedBytes seed.target.rawOffset seed.target.rawSize
      (coffBody donor.object donor.target))
  offsets : entry.donorOffsets donor ≠ [] ->
    (entry.donorOffsets donor).length = seed.target.relocationCount
  length : image.length = seedBytes.length
  output : ∃ output primary rows, coffObject image = .ok output ∧
    functionSection output mangled = .ok primary ∧
    coffBody output primary = coffBody donor.object donor.target ∧
    detailedRelocations output primary = .ok rows ∧
    (entry.spliceClass = some .equalBodyEhRelocLayout ->
      ∃ right, detailedRelocations donor.object donor.target = .ok right ∧
        List.Forall₂ SamePlace rows right)

theorem lengthPinned_eq_ok {d : CoffSection}
    (h : lengthPinned entry s d = .ok true) : s.rawSize = d.rawSize := by
  unfold lengthPinned at h
  split at h
  · assumption
  · cases h

theorem selectTarget_eq_ok {seedBytes donorBytes : List Byte}
    (h : selectTarget sha256 seedBytes donorBytes entry = .ok sel) :
    ∃ mangled, entry.mangled = some mangled ∧ coffObject seedBytes = .ok sel.seed ∧
      coffObject donorBytes = .ok sel.donor ∧
      functionSection sel.seed mangled = .ok sel.seedPrimary ∧
      functionSection sel.donor mangled = .ok sel.donorPrimary ∧
      sel.seedPrimary.rawSize = sel.donorPrimary.rawSize ∧
      sel.seedPrimary.characteristics = sel.donorPrimary.characteristics := by
  simp only [selectTarget, bind_eq_ok, checked_eq_ok, require_eq_ok, pure_eq_ok,
    getKey_eq_ok] at h
  obtain ⟨-, -, -, -, seed, hseed, donor, hdonor, mangled, hmangled, -, -, seedPrimary, hs,
    donorPrimary, hd, pinned, hpinned, -, rfl, -, -, -, hchar, h⟩ := h
  obtain ⟨-, -, -, -, -, -, -, -, -, -, changed, -, -, -, -, -, closure, -, -, -, -, -, rfl⟩ := h
  exact ⟨mangled, hmangled, hseed, hdonor, hs, hd, lengthPinned_eq_ok hpinned, hchar⟩

theorem changedOffsets_length {left right : List Byte} {changed : List Nat}
    (h : changedOffsets left right = .ok changed) : left.length = right.length := by
  unfold changedOffsets at h
  split at h
  · assumption
  · cases h

theorem reseatedOffsets_eq (h : reseatedOffsets sel moves = .ok offsets) :
    (moves = [] ∧ offsets = []) ∨ moves ≠ [] ∧
      ∃ rows, detailedRelocations sel.donor sel.donorPrimary = .ok rows ∧
        offsets = rows.map Relocation.offset := by
  unfold reseatedOffsets at h
  split at h
  · next hnil => exact .inl ⟨hnil, (Except.ok.inj h).symm⟩
  · next hne =>
      simp only [bind_eq_ok, checked_eq_ok, pure_eq_ok] at h
      obtain ⟨rows, hrows, rfl⟩ := h
      exact .inr ⟨hne, rows, hrows, rfl⟩

theorem recheck_eq_ok {seedBytes : List Byte} {mangled : String}
    (h : recheck seedBytes mangled sel moves image = .ok ()) :
    image.length = seedBytes.length ∧ ∃ output primary rows, coffObject image = .ok output ∧
      functionSection output mangled = .ok primary ∧ coffBody output primary = sel.donorBody ∧
      detailedRelocations output primary = .ok rows ∧
      requireRelocations sel moves rows = .ok () := by
  simp only [recheck, bind_eq_ok, checked_eq_ok, require_eq_ok] at h
  obtain ⟨output, houtput, primary, hprimary, -, hbody, rows, hrows, ⟨⟩, hreloc, changed, hchanged,
    -⟩ := h
  exact ⟨(changedOffsets_length hchanged).symm, output, primary, rows, houtput, hprimary, hbody,
    hrows, hreloc⟩

theorem composeEqualBodyComdat_composed {seedBytes donorBytes : List Byte} {report : ComposeReport}
    (h : composeEqualBodyComdat sha256 seedBytes donorBytes entry = .ok (image, report)) :
    ∃ mangled, ∃ seed : FunctionIn seedBytes mangled, ∃ donor : FunctionIn donorBytes mangled,
      Composed seedBytes donorBytes entry image mangled seed donor := by
  simp only [composeEqualBodyComdat, bind_eq_ok, pure_eq_ok, getKey_eq_ok,
    Prod.mk.injEq] at h
  obtain ⟨sel, hsel, mangled, hmangled, spliceClass, -, moves, hmoves, detail, -, offsets,
    hoffsets, ⟨⟩, hrecheck, himage, -⟩ := h
  obtain ⟨mangled', hmangled', hseed, hdonor, hs, hd, hsize, hchar⟩ := selectTarget_eq_ok hsel
  rw [hmangled, some.injEq] at hmangled'
  subst hmangled'
  obtain ⟨hreseats, hlayout⟩ := relocationMoves_eq_ok hmoves
  let seed : FunctionIn seedBytes mangled := ⟨sel.seed, sel.seedPrimary, hseed, hs⟩
  let donor : FunctionIn donorBytes mangled := ⟨sel.donor, sel.donorPrimary, hdonor, hd⟩
  have hdonorOffsets : entry.donorOffsets donor = offsets := by
    unfold EqualBodyEntry.donorOffsets
    rcases reseatedOffsets_eq hoffsets with ⟨hnil, rfl⟩ | ⟨hne, rows, hrows, rfl⟩
    · rw [if_neg (fun hr => hreseats.mp hr hnil)]
    · rw [if_pos (hreseats.mpr hne)]
      simp only [donor, hrows]
  obtain ⟨hlen, output, primary, rows, houtput, hprimary, hbody, hrows, hreloc⟩ :=
    recheck_eq_ok hrecheck
  rw [himage] at hlen houtput
  refine ⟨mangled, seed, donor, ?_⟩
  exact
    { declared := hmangled
      uninitialised := by simp only [CoffSection.uninitialised, seed, donor, hchar]
      rawSize := hsize
      image_eq := by rw [hdonorOffsets, <- himage]; rfl
      offsets := by
        rw [hdonorOffsets]
        intro hne
        rcases reseatedOffsets_eq hoffsets with ⟨-, rfl⟩ | ⟨hmoved, rows, hrows, rfl⟩
        · exact absurd rfl hne
        · have hclass : entry.spliceClass = some .equalBodyEhRelocLayout := by
            have hr := hreseats.mpr hmoved
            simp only [EqualBodyEntry.reseats, Bool.and_eq_true, decide_eq_true_eq] at hr
            exact hr.1
          obtain ⟨right, hright, hcount⟩ := layoutMoves_lengths (hlayout hclass)
          rw [hrows, Except.ok.injEq] at hright
          rw [length_map, hright]
          exact hcount
      length := hlen
      output := ⟨output, primary, rows, houtput, hprimary, hbody, hrows, fun hclass =>
        requireRelocations_layout (hlayout hclass) hreloc⟩ }

section Composed

variable {seedBytes donorBytes : List Byte} {entry : EqualBodyEntry} {image : List Byte}
variable {mangled : String} {seed : FunctionIn seedBytes mangled}
variable {donor : FunctionIn donorBytes mangled} {bytes : List Byte} (f : FunctionIn bytes mangled)

theorem FunctionIn.fits :
    SectionFits bytes f.object.header f.target :=
  (coffObject_parsed f.parsed).section_fits (functionSection_mem f.found)

theorem FunctionIn.data_eq :
    f.object.data = bytes :=
  (coffObject_parsed f.parsed).data_eq

variable (c : Composed seedBytes donorBytes entry image mangled seed donor)

include c

theorem Composed.table_fits (hne : entry.donorOffsets donor ≠ []) :
    seed.object.header.tableEnd <= seed.target.relocationOffset ∧
      seed.target.relocationOffset +
      (entry.donorOffsets donor).length * 10 <= seedBytes.length := by
  have hlen := c.offsets hne
  have hpos := length_pos_iff.mpr hne
  have hfits := seed.fits.relocations (by omega)
  omega

theorem Composed.initialised : seed.target.uninitialised = false ∨ seed.target.rawSize = 0 := by
  by_contra hno
  rw [not_or, Bool.not_eq_false] at hno
  obtain ⟨hun, hsize⟩ := hno
  have hzero := seed.fits.bare hsize hun
  have hbody : coffBody donor.object donor.target = [] := by
    rw [coffBody, if_pos (.inr (c.uninitialised ▸ hun))]
  have hpos : 20 <= seedBytes.length := by
    have h := (readHeader_fits (coffObject_parsed seed.parsed).header).sections
    simp only [CoffHeader.tableEnd] at h
    omega
  have hshort : (sliceAssign seedBytes 0 seed.target.rawSize []).length <=
      seedBytes.length - 1 := by
    simp only [sliceAssign, take_zero, nil_append, length_drop]
    omega
  have hlen := c.length
  have himage := c.image_eq
  rw [hbody, hzero] at himage
  have hle : image.length <= seedBytes.length - 1 := by
    by_cases hne : entry.donorOffsets donor = []
    · rw [himage, hne, reseatOffsets]
      exact hshort
    · rw [himage]
      have hfit := (c.table_fits hne).2
      exact reseatOffsets_length_le hshort (by omega)
  omega

theorem Composed.body_length :
    (coffBody donor.object donor.target).length = seed.target.rawSize := by
  have hraw := donor.fits.raw
  have hinit := c.initialised
  rw [c.uninitialised, c.rawSize] at hinit
  rw [coffBody_eq, CoffSection.rawData, Span.bytes_ofSize, slice_length, donor.data_eq, c.rawSize]
  rcases hinit with hinit | hzero
  · rw [hinit] at hraw ⊢
    simp only [Bool.false_eq_true, if_false]
    by_cases hz : donor.target.rawSize = 0
    · omega
    · have := hraw hz rfl
      omega
  · simp [hzero]

theorem Composed.rawData_eq : seed.target.rawData =
      .ofSize seed.target.rawOffset (coffBody donor.object donor.target).length := by
  rw [c.body_length, CoffSection.rawData]
  rcases c.initialised with h | h
  · simp [h]
  · simp [h]

theorem Composed.raw_fits (hne : seed.target.rawSize ≠ 0) :
    seed.object.header.tableEnd <= seed.target.rawOffset ∧
      seed.target.rawOffset + seed.target.rawSize <= seedBytes.length :=
  seed.fits.raw hne (c.initialised.resolve_right hne)

theorem Composed.getElem? (o : Nat) :
    image[o]? = composedByte seedBytes seed.target (coffBody donor.object donor.target)
      (entry.donorOffsets donor) o := by
  have himage := c.image_eq
  rw [himage]
  refine image_getElem? c.rawData_eq c.body_length (fun hne => ?_)
    (fun hne => (c.table_fits hne).2) o
  rw [c.body_length]
  refine (c.raw_fits fun hzero => hne ?_).2
  rw [<- length_eq_zero_iff, c.body_length, hzero]

theorem Composed.headers_agree : AgreeOn seedBytes image ⟨0, seed.object.header.tableEnd⟩ := by
  intro o ho
  simp only [Span.mem_def] at ho
  have hfield : offsetField seed.target.relocationOffset (entry.donorOffsets donor) o = none := by
    by_cases hne : entry.donorOffsets donor = []
    · simp [hne, offsetField]
    · have := (c.table_fits hne).1
      exact offsetField_of_lt (by omega) _
  have hraw : o ∉ seed.target.rawData := by
    rw [c.rawData_eq, c.body_length, Span.mem_ofSize]
    intro hin
    have := (c.raw_fits (by omega)).1
    omega
  rw [c.getElem?, composedByte, hfield, none_or, if_neg hraw]

def CoversSame (body donorBody : List Byte) (r d : Relocation) : Prop :=
  r.offset = d.offset ∧ r.width = d.width ∧
    slice body r.offset r.width = slice donorBody d.offset d.width

/-- The output read back is the seed, but for the body and the reseated offsets. -/
structure SameFrame (entry : EqualBodyEntry) (seed : FunctionIn seedBytes mangled)
    (donor : FunctionIn donorBytes mangled) (image : List Byte) (output : CoffObject) : Prop where
  header : output.header = seed.object.header
  sections : output.sections = seed.object.sections
  symbols : output.symbols = seed.object.symbols
  target : functionSection output mangled = .ok seed.target
  symbolTable : seed.object.symbolTable.bytes seedBytes = seed.object.symbolTable.bytes image
  stringTable : seed.object.stringTable.bytes seedBytes = seed.object.stringTable.bytes image
  lineTables : ∀ s ∈ seed.object.sections, coffLineTable seed.object s = coffLineTable output s
  relocationTables : ∀ s ∈ seed.object.sections, s.number ≠ seed.target.number ->
    coffRelocationTable seed.object s = coffRelocationTable output s
  ownTable : ∀ o ∈ seed.target.relocationTable,
    offsetField seed.target.relocationOffset (entry.donorOffsets donor) o = none ->
      seedBytes[o]? = image[o]?
  bodies : ∀ s ∈ seed.object.sections, s.number ≠ seed.target.number ->
    coffBody seed.object s = coffBody output s
  body : coffBody output seed.target = coffBody donor.object donor.target
  elsewhere : ∀ o, o ∉ seed.target.rawData ->
    offsetField seed.target.relocationOffset (entry.donorOffsets donor) o = none ->
      seedBytes[o]? = image[o]?
  operands : entry.spliceClass = some .equalBodyEhRelocLayout ->
    ∃ rows donorRows, detailedRelocations output seed.target = .ok rows ∧
      detailedRelocations donor.object donor.target = .ok donorRows ∧
      List.Forall₂ (CoversSame (coffBody output seed.target)
        (coffBody donor.object donor.target)) rows donorRows

def FrameKept (entry : EqualBodyEntry) (seed : FunctionIn seedBytes mangled)
    (donor : FunctionIn donorBytes mangled) (image : List Byte) : Prop :=
  ∃ output, coffObject image = .ok output ∧ SameFrame entry seed donor image output

/-- In the body or a reseated field, or in no structure of the seed. -/
structure OnlyInTarget (entry : EqualBodyEntry) (seed : FunctionIn seedBytes mangled)
    (donor : FunctionIn donorBytes mangled) (o : Nat) : Prop where
  symbolTable : o ∉ seed.object.symbolTable
  stringTable : o ∉ seed.object.stringTable
  lineTables : ∀ s ∈ seed.object.sections, o ∉ s.lineTable
  relocationTables : ∀ s ∈ seed.object.sections, s.number ≠ seed.target.number ->
    o ∉ s.relocationTable
  ownTable : o ∈ seed.target.relocationTable ->
    offsetField seed.target.relocationOffset (entry.donorOffsets donor) o ≠ none
  bodies : ∀ s ∈ seed.object.sections, s.number ≠ seed.target.number -> o ∉ s.rawData

def FrameCondition (entry : EqualBodyEntry) (seed : FunctionIn seedBytes mangled)
    (donor : FunctionIn donorBytes mangled) : Prop :=
  ∀ o, composedByte seedBytes seed.target (coffBody donor.object donor.target)
    (entry.donorOffsets donor) o ≠ seedBytes[o]? -> OnlyInTarget entry seed donor o

theorem Composed.agree (hcond : FrameCondition entry seed donor)
    (h : ¬ OnlyInTarget entry seed donor o) : seedBytes[o]? = image[o]? := by
  by_contra hne
  refine h (hcond o ?_)
  rw [<- c.getElem?]
  exact fun heq => hne heq.symm

theorem Composed.sameTables (hcond : FrameCondition entry seed donor) :
    SameTables seedBytes image seed.object.header :=
  { length := c.length
    headers := c.headers_agree
    symbols := fun _ ho => c.agree hcond fun h => h.symbolTable ho
    strings := fun _ ho => c.agree hcond fun h => h.stringTable ho }

omit c in
theorem detailedRelocations_width {coff : CoffObject} (h : detailedRelocations coff s = .ok rows)
    (hrow : row ∈ rows) : relocationWidths row.type = some row.width := by
  obtain ⟨ordinal, -, hread⟩ := mem_detailedRelocations h hrow
  exact readRelocation_width hread

omit c in
theorem coversSame_of_samePlace {donorBody : List Byte} (hbody : body = donorBody)
    {rows donorRows : List Relocation} (hrows : ∀ r ∈ rows, relocationWidths r.type = some r.width)
    (hdonor : ∀ d ∈ donorRows, relocationWidths d.type = some d.width)
    (h : List.Forall₂ SamePlace rows donorRows) :
    List.Forall₂ (CoversSame body donorBody) rows donorRows := by
  induction h with
  | nil => exact .nil
  | @cons r d rows donorRows hplace _ ih =>
    have hwidth : r.width = d.width := by
      have hr := hrows r (by simp)
      rw [hplace.2, hdonor d (by simp), some.injEq] at hr
      exact hr.symm
    refine .cons ⟨hplace.1, hwidth, by rw [hbody, hplace.1, hwidth]⟩
      (ih (fun r hr => hrows r (by simp [hr])) fun d hd => hdonor d (by simp [hd]))

theorem Composed.sameFrame (hcond : FrameCondition entry seed donor) :
    SameFrame entry seed donor image { seed.object with data := image } := by
  have hread := (c.sameTables hcond).coffObject seed.parsed
  have htarget : functionSection { seed.object with data := image } mangled = .ok seed.target :=
    seed.found
  obtain ⟨output, primary, rows, houtput, hprimary, hbody, hrows, hlayout⟩ := c.output
  rw [hread, Except.ok.injEq] at houtput
  subst houtput
  rw [htarget, Except.ok.injEq] at hprimary
  subst hprimary
  have hdata := seed.data_eq
  exact
    { header := rfl
      sections := rfl
      symbols := rfl
      target := htarget
      symbolTable := Span.bytes_eq_iff.mpr (c.sameTables hcond).symbols
      stringTable := Span.bytes_eq_iff.mpr (c.sameTables hcond).strings
      lineTables := fun s hs => by
        rw [coffLineTable, coffLineTable, hdata, slice_eq_iff]
        exact fun o ho => c.agree hcond fun h => h.lineTables s hs ho
      relocationTables := fun s hs hne => by
        rw [coffRelocationTable, coffRelocationTable, hdata, slice_eq_iff]
        exact fun o ho => c.agree hcond fun h => h.relocationTables s hs hne ho
      ownTable := fun o ho hfield => c.agree hcond fun h => h.ownTable ho hfield
      bodies := fun s hs hne => by
        rw [coffBody_eq, coffBody_eq, hdata, Span.bytes_eq_iff]
        exact fun o ho => c.agree hcond fun h => h.bodies s hs hne ho
      body := hbody
      elsewhere := fun o hraw hfield => by
        rw [c.getElem?, composedByte, hfield, none_or, if_neg hraw]
      operands := fun hclass => by
        obtain ⟨donorRows, hdonorRows, hplaces⟩ := hlayout hclass
        exact ⟨rows, donorRows, hrows, hdonorRows, coversSame_of_samePlace hbody
          (fun _ hr => detailedRelocations_width hrows hr)
          (fun _ hd => detailedRelocations_width hdonorRows hd) hplaces⟩ }

theorem Composed.condition
    (hframe : FrameKept entry seed donor image) : FrameCondition entry seed donor := by
  obtain ⟨output, houtput, f⟩ := hframe
  have hdata := (coffObject_parsed houtput).data_eq
  intro o hchanged
  rw [<- c.getElem?] at hchanged
  have hclash : ∀ span : Span, AgreeOn seedBytes image span -> o ∉ span :=
    fun span hagree ho => hchanged (hagree o ho).symm
  exact
    { symbolTable := hclash _ (Span.bytes_eq_iff.mp f.symbolTable)
      stringTable := hclash _ (Span.bytes_eq_iff.mp f.stringTable)
      lineTables := fun s hs => hclash _ (by
        have h := f.lineTables s hs
        rw [coffLineTable, coffLineTable, seed.data_eq, hdata, slice_eq_iff] at h
        exact h)
      relocationTables := fun s hs hne => hclash _ (by
        have h := f.relocationTables s hs hne
        rw [coffRelocationTable, coffRelocationTable, seed.data_eq, hdata, slice_eq_iff] at h
        exact h)
      ownTable := fun ho hfield => hchanged (f.ownTable o ho hfield).symm
      bodies := fun s hs hne => hclash _ (by
        have h := f.bodies s hs hne
        rw [coffBody_eq, coffBody_eq, seed.data_eq, hdata, Span.bytes_eq_iff] at h
        exact h) }

end Composed

def sectionHeader (name : List Byte) (rawSize rawOffset : Nat) : List Byte :=
  name ++ List.replicate 8 0 ++ leBytes 4 rawSize ++ leBytes 4 rawOffset ++ List.replicate 12 0 ++
    leBytes 4 0x1000

def symbolRecord (name : List Byte) (number type storage auxCount : Nat) : List Byte :=
  name ++ leBytes 4 0 ++ leBytes 2 number ++ leBytes 2 type ++ leBytes 1 storage ++
    leBytes 1 auxCount

def definitionRecord (length associated selection : Nat) : List Byte :=
  leBytes 4 length ++ List.replicate 8 0 ++ leBytes 2 associated ++ leBytes 1 selection ++
    List.replicate 3 0

/-- A function `_f` of one byte and its `.debug$S` of one byte. -/
def oneByteObject (debugAt : Nat) (code : Byte) : List Byte :=
  let text : List Byte := [0x2E, 0x74, 0x65, 0x78, 0x74, 0, 0, 0]
  let debug : List Byte := [0x2E, 0x64, 0x65, 0x62, 0x75, 0x67, 0x24, 0x53]
  [0x4C, 0x01, 2, 0, 0, 0, 0, 0, 102, 0, 0, 0, 5, 0, 0, 0, 0, 0, 0, 0] ++
    sectionHeader text 1 100 ++ sectionHeader debug 1 debugAt ++ [code, 0] ++
    symbolRecord text 1 0 3 1 ++ definitionRecord 1 0 2 ++
    symbolRecord debug 2 0 3 1 ++ definitionRecord 1 1 5 ++
    symbolRecord [0x5F, 0x66, 0, 0, 0, 0, 0, 0] 1 0x20 2 0 ++ leBytes 4 4

def oneByteEntry : EqualBodyEntry :=
  { mangled := some "_f"
    spliceClass := some .equalBodyEhStructuralLocal
    expectedBodyLength := some 1
    expectedBodySha256 := some "digest"
    expectedChangedOffsets := some [0]
    expectedRelocationMoves := none
    expectedXdataRenameOffsets := some []
    expectedCodeRenames := some []
    expectedDonorSectionNumber := none
    others := [] }

def oneByteReport : ComposeReport :=
  { mangled := "_f"
    spliceClass := .equalBodyEhStructuralLocal
    sectionNumber := 1
    bodyLength := 1
    bodyChangedOffsets := [0]
    detail := ⟨some [], none, some []⟩ }

def bodiesOf (bytes : List Byte) : Reading (List (Nat × List Byte)) := do
  let coff <- coffObject bytes
  pure (coff.sections.map fun s => (s.number, coffBody coff s))

theorem bodiesOf_eq {rows : List (Nat × List Byte)}
    (hcoff : coffObject bytes = .ok coff) (hrows : bodiesOf bytes = .ok rows) :
    coff.sections.map (fun s => (s.number, coffBody coff s)) = rows := by
  simp only [bodiesOf, hcoff, bind, Except.bind, pure, Except.pure, Except.ok.injEq] at hrows
  exact hrows

end Reprobit.Coff

import Reprobit.Pe.TextReferences

/-!
# The bytes of a repacked file

Where the writes of a repack do not meet, the operand of every rewritten reference has
its new bytes and every other byte of a reference the bytes it had.  The relocation
table is read with the same entries, each for a new address where its word has moved.
-/

namespace Reprobit.Pe

open Machine List Option

variable {candidate : List Byte} {declaration : RepackDeclaration} {d : Derived}
  {patches : RepackPatches} {result : List Byte}

theorem RepackPatches.early_eq :
    patches.early = patches.blocks ++ [patches.fill] ++ (patches.rel32 ++ patches.absolute) := by
  simp [RepackPatches.early]

/-- Pieces moved, the range filled and references rewritten. -/
def rewrittenFile (candidate : List Byte) (patches : RepackPatches) : List Byte :=
  Patch.applyAll candidate patches.early

variable {q : Patch}

theorem Rewrites.span_eq {i o : Nat} {r : Reference}
    (h : Rewrites candidate d i r o q) : q.span = .ofSize (o + r.operand) 4 := by
  rw [Patch.span, h.offset, h.length]

theorem Rewrites.mem_span {i o o' : Nat} {r : Reference}
    (h : Rewrites candidate d i r o q) (ho' : o' ∈ q.span) : o' ∈ Span.ofSize o r.size := by
  rw [h.span_eq, Span.mem_ofSize] at ho'
  rw [Span.mem_ofSize, Derived.size_eq (mem_of_getElem? h.reference)]
  omega

namespace Repacked

variable (h : Repacked candidate declaration d patches result) {s : Pe32Section}

include h

theorem block_spec {block : Patch} (hblock : block ∈ patches.blocks) :
    ∃ p ∈ d.pieces.list, ∃ source destination, d.image.Lies p.low p.size source ∧
      d.image.Lies p.target p.size destination ∧
      block = ⟨destination, slice candidate source p.size⟩ ∧ block.bytes.length = p.size := by
  obtain ⟨p, hp, hpatch⟩ := runEach_mem_result h.blocks hblock
  have hspan := (blockPatch_span h.checked hp hpatch).2
  simp only [blockPatch, bind_eq_ok, pure_eq_ok] at hpatch
  obtain ⟨source, hsource, destination, hdestination, rfl⟩ := hpatch
  refine ⟨p, hp, source, destination, .of_vaToOffset hsource, .of_vaToOffset hdestination, rfl, ?_⟩
  simp only [Patch.span, Span.ofSize, Span.mk.injEq] at hspan
  dsimp only
  omega

theorem block_of_piece {p : Piece} (hp : p ∈ d.pieces.list) :
    ∃ block ∈ patches.blocks, blockPatch candidate d p = .ok block := runEach_mem h.blocks hp

theorem fill_spec : 0 < declaration.vacatedFill.length ∧
      d.image.Lies declaration.vacatedFill.va declaration.vacatedFill.length patches.fill.offset ∧
      patches.fill.span = .ofSize patches.fill.offset declaration.vacatedFill.length := by
  have hfill := h.fill
  simp only [fillPatch, validateFill, bind_eq_ok, require_eq_ok, pure_eq_ok] at hfill
  obtain ⟨_, ⟨_, -, _, hlength, -⟩, offset, hoffset, hpatch⟩ := hfill
  rw [<- hpatch]
  exact ⟨hlength, .of_vaToOffset hoffset, by simp [Patch.span]⟩

theorem fits : ∀ q ∈ patches.early, q.Fits candidate.length := by
  intro q hq
  have himage := h.checked.image
  rw [RepackPatches.early_eq] at hq
  rcases mem_append.mp hq with hq | hq
  · rcases mem_append.mp hq with hq | hq
    · obtain ⟨p, hp, source, destination, -, hlies, rfl, hlength⟩ := h.block_spec hq
      have hsize : 0 < p.size := Nat.sub_pos_of_lt (d.pieces.nonempty p hp)
      rw [Patch.Fits, hlength]
      exact hlies.le_length himage hsize
    · rw [mem_singleton] at hq
      subst hq
      obtain ⟨hsize, hlies, hspan⟩ := h.fill_spec
      have hle := hlies.le_length himage hsize
      simp only [Patch.span, Span.ofSize, Span.mk.injEq] at hspan
      rw [Patch.Fits]
      omega
  · obtain ⟨i, r, o, hrewrites⟩ := h.rewrites_of_patch hq
    have hsize := Derived.size_eq (mem_of_getElem? hrewrites.reference)
    have hle := (Image.Lies.of_vaToOffset hrewrites.mapped).le_length himage (by omega)
    rw [Patch.Fits, hrewrites.offset, hrewrites.length]
    omega

section

variable (htidy : Tidy declaration d) (hseparated : Separated candidate declaration d)

include htidy hseparated

variable {i o k o₀ : Nat} {r : Reference}

theorem rewrite_own {j o' o'' : Nat} {r' : Reference} (hr : d.references[i]? = some r)
    (hmapped : d.image.vaToOffset (d.newSite r) r.size = .ok o)
    (hq : Rewrites candidate d j r' o' q) (ho : o'' ∈ Span.ofSize o r.size) (hoq : o'' ∈ q.span) :
    j = i := by
  by_contra hne
  have hapart := hseparated.rewrites j i r' r hq.reference hr hne hq.rewritten
  have hsize := Derived.size_eq (mem_of_getElem? hr)
  have hsize' := Derived.size_eq (mem_of_getElem? hq.reference)
  have hoperand := (Image.Lies.of_vaToOffset hq.mapped).sub (k := r'.operand) (n := 4) (by omega)
  rw [<- Image.Lies.apart_iff htidy.addresses h.checked.image hoperand (.of_vaToOffset hmapped)
    (by omega) (by omega), <- hq.span_eq] at hapart
  exact hapart o'' hoq ho

theorem operand_getElem? {bytes : List Byte} (hr : d.references[i]? = some r)
    (hmapped : d.image.vaToOffset (d.newSite r) r.size = .ok o) (hrewritten : r.rewritten = true)
    (hbytes : d.operandBytes candidate i = .ok bytes) (hk : k < 4) :
    (rewrittenFile candidate patches)[o + r.operand + k]? = bytes[k]? := by
  have hsize := Derived.size_eq (mem_of_getElem? hr)
  have hin : o + r.operand + k ∈ Span.ofSize o r.size := by
    rw [Span.mem_ofSize]
    omega
  have hown : ∀ q j r' o', Rewrites candidate d j r' o' q -> o + r.operand + k ∈ q.span ->
      q.offset = o + r.operand ∧ q.bytes = bytes := by
    intro q j r' o' hq hoq
    obtain rfl := h.rewrite_own htidy hseparated hr hmapped hq hin hoq
    obtain rfl : r' = r := some.inj (hq.reference.symm.trans hr)
    obtain rfl : o' = o := Except.ok.inj (hq.mapped.symm.trans hmapped)
    exact ⟨hq.offset, Except.ok.inj (hq.bytes.symm.trans hbytes)⟩
  have hfits := h.fits
  rw [RepackPatches.early_eq] at hfits
  rw [rewrittenFile, RepackPatches.early_eq, Patch.applyAll_append]
  refine Patch.applyAll_getElem?_of_agree (fun q hq => ?_) ?_ fun q hq hoq => ?_
  · rw [Patch.applyAll_length fun q hq => hfits q (mem_append_left _ hq)]
    exact hfits q (mem_append_right _ hq)
  · obtain ⟨q, hq, o', hrewrites⟩ := h.patch_of_rewritten hr hrewritten
    obtain rfl : o' = o := Except.ok.inj (hrewrites.mapped.symm.trans hmapped)
    refine ⟨q, hq, ?_⟩
    rw [hrewrites.span_eq, Span.mem_ofSize]
    omega
  · obtain ⟨j, r', o', hrewrites⟩ := h.rewrites_of_patch hq
    obtain ⟨hoffset, rfl⟩ := hown q j r' o' hrewrites hoq
    rw [hoffset, Nat.add_sub_cancel_left]

theorem blocks_getElem? (hr : r ∈ d.references) (hlies : d.image.Lies (d.newSite r) r.size o)
    (hlies₀ : d.image.Lies r.site r.size o₀) (hk : k < r.size) :
    (Patch.applyAll candidate patches.blocks)[o + k]? = candidate[o₀ + k]? := by
  have hfits : ∀ q ∈ patches.blocks, q.Fits candidate.length := fun q hq =>
    h.fits q (by rw [RepackPatches.early_eq]; simp [hq])
  have hin : o + k ∈ Span.ofSize o r.size := by
    rw [Span.mem_ofSize]
    omega
  -- a block that meets the reference brings all of it
  have hbrings : ∀ block ∈ patches.blocks, o + k ∈ block.span -> ∃ p ∈ d.pieces.list,
      (p.low <= r.site ∧ r.site + r.size <= p.high) ∧ ∃ source destination,
      d.image.Lies p.low p.size source ∧ d.image.Lies p.target p.size destination ∧
      block = ⟨destination, slice candidate source p.size⟩ := by
    intro block hblock ho
    obtain ⟨p, hp, source, destination, hsource, hdestination, rfl, hlength⟩ := h.block_spec hblock
    refine ⟨p, hp, hseparated.pieces p hp r hr ?_, source, destination, hsource, hdestination, rfl⟩
    have hsize : 0 < p.size := Nat.sub_pos_of_lt (d.pieces.nonempty p hp)
    by_contra hno
    rw [<- Image.Lies.apart_iff htidy.addresses h.checked.image hdestination hlies hsize
      (by omega)] at hno
    rw [Patch.span, hlength] at ho
    exact hno _ ho hin
  cases hshift : pieceShift d.pieces r.site with
  | none =>
    have hnone : ∀ block ∈ patches.blocks, o + k ∉ block.span := by
      intro block hblock ho
      obtain ⟨p, hp, hwhole, -⟩ := hbrings block hblock ho
      exact pieceShift_eq_none.mp hshift p hp ⟨hwhole.1, by omega⟩
    rw [Derived.newSite, moved_of_none hshift] at hlies
    rw [Patch.applyAll_getElem?_of_notMem hfits hnone,
      hlies.unique htidy.addresses hlies₀ (by omega) (by omega)]
  | some shift =>
    obtain ⟨p, hp, hcontains, rfl⟩ := pieceShift_eq_some hshift
    have hnew : d.newSite r = r.site - p.shift := moved_of_contains hp hcontains
    have hwhole := hseparated.pieces p hp r hr (hnew ▸ overlap_target hcontains (by omega))
    -- how far the reference is in the piece
    obtain ⟨m, hm⟩ : ∃ m : Nat, r.site = p.low + m := ⟨(r.site - p.low).toNat, by omega⟩
    have hsizes : m + r.size <= p.size := by
      simp only [Piece.size]
      omega
    have hbyte : ∀ source destination, d.image.Lies p.low p.size source ->
        d.image.Lies p.target p.size destination -> o = destination + m ∧ o₀ = source + m := by
      intro source destination hsource hdestination
      have hsub := hsource.sub hsizes
      have hsub' := hdestination.sub hsizes
      rw [<- hm] at hsub
      have htarget : p.target + m = d.newSite r := by
        rw [hnew, hm, Piece.target]
        omega
      rw [htarget] at hsub'
      exact ⟨hlies.unique htidy.addresses hsub' (by omega) (by omega),
        hlies₀.unique htidy.addresses hsub (by omega) (by omega)⟩
    refine Patch.applyAll_getElem?_of_agree hfits ?_ fun block hblock ho => ?_
    · obtain ⟨block, hblock, hpatch⟩ := h.block_of_piece hp
      refine ⟨block, hblock, ?_⟩
      rw [(blockPatch_span h.checked hp hpatch).2]
      have hbacks := (h.checked.inText p hp).backs.2
      obtain ⟨hlow, -⟩ := (h.checked.inText p hp).backs
      have htext := Image.sectionNamed_mem h.checked.text
      obtain ⟨rfl, -⟩ := hbyte _ _ ⟨d.text, htext, hlow, rfl⟩ ⟨d.text, htext, hbacks, rfl⟩
      rw [Span.mem_ofSize]
      omega
    · obtain ⟨p', hp', hwhole', source, destination, hsource, hdestination, rfl⟩ :=
        hbrings block hblock ho
      obtain rfl : p' = p :=
        d.pieces.eq_of_contains hp' hp ⟨hwhole'.1, by omega⟩ hcontains
      obtain ⟨rfl, rfl⟩ := hbyte _ _ hsource hdestination
      dsimp only
      rw [slice_getElem?, if_pos (by omega)]
      congr 1
      omega

theorem kept_getElem? (hr : d.references[i]? = some r)
    (hmapped : d.image.vaToOffset (d.newSite r) r.size = .ok o)
    (hlies₀ : d.image.Lies r.site r.size o₀) (hk : k < r.size)
    (hkept : r.rewritten = true -> k < r.operand) :
    (rewrittenFile candidate patches)[o + k]? = candidate[o₀ + k]? := by
  have hmem := mem_of_getElem? hr
  have hin : o + k ∈ Span.ofSize o r.size := by
    rw [Span.mem_ofSize]
    omega
  have hfits := h.fits
  rw [RepackPatches.early_eq] at hfits
  have hleft : (Patch.applyAll candidate (patches.blocks ++ [patches.fill])).length =
      candidate.length := Patch.applyAll_length fun q hq => hfits q (mem_append_left _ hq)
  have hblocks : (Patch.applyAll candidate patches.blocks).length = candidate.length :=
    Patch.applyAll_length fun q hq => hfits q (by simp [hq])
  rw [rewrittenFile, RepackPatches.early_eq, Patch.applyAll_append,
    Patch.applyAll_getElem?_of_notMem, Patch.applyAll_append, Patch.applyAll_getElem?_of_notMem]
  · exact h.blocks_getElem? htidy hseparated hmem (.of_vaToOffset hmapped) hlies₀ hk
  · intro q hq
    rw [hblocks]
    exact hfits q (mem_append_left _ (mem_append_right _ hq))
  · intro q hq ho
    rw [mem_singleton] at hq
    subst hq
    obtain ⟨hsize, hlies, hspan⟩ := h.fill_spec
    have hapart := hseparated.fillReferences r hmem
    rw [<- Image.Lies.apart_iff htidy.addresses h.checked.image hlies (.of_vaToOffset hmapped) hsize
      (by omega), <- hspan] at hapart
    exact hapart _ ho hin
  · intro q hq
    rw [hleft]
    exact hfits q (mem_append_right _ hq)
  · intro q hq ho
    obtain ⟨j, r', o', hrewrites⟩ := h.rewrites_of_patch hq
    obtain rfl := h.rewrite_own htidy hseparated hr hmapped hrewrites hin ho
    obtain rfl : r' = r := some.inj (hrewrites.reference.symm.trans hr)
    obtain rfl : o' = o := Except.ok.inj (hrewrites.mapped.symm.trans hmapped)
    have hlt := hkept hrewrites.rewritten
    rw [hrewrites.span_eq, Span.mem_ofSize] at ho
    omega

end

/-! ## The file after the entries have moved -/

omit h in
theorem header_le (hchecked : d.Checked candidate declaration) (hs : s ∈ d.image.headers.sections) :
    s.headerOffset + 40 <= d.image.headers.headersEnd := by
  rw [(pe32_parsed hchecked.image).2.sections] at hs
  obtain ⟨index, hindex, rfl⟩ := mem_map.mp hs
  rw [mem_range] at hindex
  simp only [sectionHeader, Pe32Headers.headersEnd]
  omega

theorem virtualSize_span : patches.virtualSize.span = .ofSize (d.text.headerOffset + 8) 4 := by
  have hpatch := h.virtualSize
  simp only [virtualSizePatch, bind_eq_ok, pure_eq_ok] at hpatch
  obtain ⟨_, -, _, -, _, -, hpatch⟩ := hpatch
  rw [<- hpatch]
  simp [Patch.span]

theorem virtualSize_lt {o : Nat} (ho : o ∈ patches.virtualSize.span) :
    o < d.image.headers.headersEnd := by
  have hle := header_le h.checked (Image.sectionNamed_mem h.checked.text)
  rw [h.virtualSize_span, Span.mem_ofSize] at ho
  omega

omit h in
theorem moves_layout (hchecked : d.Checked candidate declaration) :
    (d.moves.Pairwise fun m m' => m.entryFileOffset + 2 <= m'.entryFileOffset) ∧
      ∀ m ∈ d.moves, d.reloc.rawOffset <= m.entryFileOffset ∧
        m.entryFileOffset + 2 <= relocEnd d.reloc := by
  obtain ⟨hpairwise, hwithin⟩ := baseEntries_layout hchecked.entries
  rw [hchecked.moves_eq]
  constructor
  · refine hpairwise.filterMap _ fun e e' hle m hm m' hm' => ?_
    obtain ⟨_, -, rfl⟩ := map_eq_some_iff.mp hm
    obtain ⟨_, -, rfl⟩ := map_eq_some_iff.mp hm'
    exact hle
  · intro m hm
    obtain ⟨e, he, hsome⟩ := mem_filterMap.mp hm
    obtain ⟨_, -, rfl⟩ := map_eq_some_iff.mp hsome
    have hat := (hwithin e he).1
    dsimp only
    omega

omit h in
theorem relocEnd_le (hchecked : d.Checked candidate declaration)
    (hlt : d.reloc.rawOffset < relocEnd d.reloc) : relocEnd d.reloc <= d.reloc.rawEnd ∧
      d.reloc.rawEnd <= candidate.length := by
  obtain ⟨hdata, hparsed⟩ := pe32_parsed hchecked.image
  have hraw := hparsed.raw d.reloc (Image.sectionNamed_mem hchecked.reloc)
  rw [hdata] at hraw
  simp only [relocEnd, Pe32Section.rawEnd] at *
  omega

theorem file_length : (rewrittenFile candidate patches).length = candidate.length :=
  Patch.applyAll_length h.fits

theorem moves_fit : ∀ q ∈ d.moves.map (movePatch (rewrittenFile candidate patches)),
    q.Fits (rewrittenFile candidate patches).length := by
  intro q hq
  obtain ⟨m, hm, rfl⟩ := mem_map.mp hq
  have hlayout := (moves_layout h.checked).2 m hm
  have hend := relocEnd_le h.checked (by omega)
  rw [h.file_length]
  simp only [Patch.Fits, movePatch, leBytes_length]
  omega

theorem result_eq : result = patches.virtualSize.apply
    (Patch.applyAll (rewrittenFile candidate patches)
      (d.moves.map (movePatch (rewrittenFile candidate patches)))) := by
  rw [h.result, written, <- foldl_applyMove (moves_layout h.checked).1 fun m hm => ?_]
  · rfl
  · simpa [Patch.Fits, movePatch] using h.moves_fit _ (mem_map_of_mem hm)

theorem virtualSize_fits : patches.virtualSize.Fits
    (Patch.applyAll (rewrittenFile candidate patches)
      (d.moves.map (movePatch (rewrittenFile candidate patches)))).length := by
  have hspan := h.virtualSize_span
  have hheader := header_le h.checked (Image.sectionNamed_mem h.checked.text)
  obtain ⟨hdata, hparsed⟩ := pe32_parsed h.checked.image
  have hin := hparsed.inFile
  rw [hdata] at hin
  simp only [Patch.span, Span.ofSize, Span.mk.injEq] at hspan
  rw [Patch.Fits, Patch.applyAll_length h.moves_fit, h.file_length]
  omega

theorem result_length : result.length = candidate.length := by
  rw [h.result_eq, Patch.apply_length h.virtualSize_fits, Patch.applyAll_length h.moves_fit,
    h.file_length]

theorem result_getElem? {o : Nat} (ho : o ∉ patches.virtualSize.span) :
    result[o]? = (Patch.applyAll (rewrittenFile candidate patches)
      (d.moves.map (movePatch (rewrittenFile candidate patches))))[o]? := by
  rw [h.result_eq, Patch.apply_getElem?_of_notMem h.virtualSize_fits ho]

variable (htidy : Tidy declaration d)

include htidy

variable {o : Nat} {e : BaseEntry}

theorem not_mem_virtualSize (hs : s ∈ d.image.headers.sections) (ho : o ∈ s.raw) :
    o ∉ patches.virtualSize.span := by
  intro hspan
  have hlt := h.virtualSize_lt hspan
  have hbehind := htidy.headers s hs
  simp only [Pe32Section.raw, Span.mem_def, Pe32Section.rawEnd] at ho
  omega

theorem offTable_getElem? (ho : d.OffTable o) :
    result[o]? = (rewrittenFile candidate patches)[o]? := by
  obtain ⟨s, hs, hne, hraw⟩ := ho
  rw [h.result_getElem? (h.not_mem_virtualSize htidy hs hraw)]
  refine Patch.applyAll_getElem?_of_notMem h.moves_fit fun q hq hoq => hne ?_
  obtain ⟨m, hm, rfl⟩ := mem_map.mp hq
  have hlayout := (moves_layout h.checked).2 m hm
  have hend := relocEnd_le h.checked (by omega)
  rw [movePatch_span, Span.mem_ofSize] at hoq
  refine (pe32_parsed h.checked.image).2.eq_of_mem_raw hs (Image.sectionNamed_mem h.checked.reloc)
    hraw ?_
  simp only [Pe32Section.raw, Span.mem_def]
  omega

theorem early_offTable (hq : q ∈ patches.early) (ho : o ∈ q.span) : d.OffTable o := by
  rw [RepackPatches.early_eq] at hq
  rcases mem_append.mp hq with hq | hq
  · rcases mem_append.mp hq with hq | hq
    · obtain ⟨p, hp, hpatch⟩ := runEach_mem_result h.blocks hq
      rw [(blockPatch_span h.checked hp hpatch).2] at ho
      exact .of_backs (Image.sectionNamed_mem h.checked.text) h.checked.text_ne_reloc
        (h.checked.inText p hp).backs.2 ho
    · rw [mem_singleton] at hq
      subst hq
      obtain ⟨-, ⟨s, hs, hbacks, hoffset⟩, hspan⟩ := h.fill_spec
      rw [hspan, hoffset] at ho
      exact .of_backs hs (fun heq => htidy.fill (heq ▸ hbacks)) hbacks ho
  · obtain ⟨i, r, o', hrewrites⟩ := h.rewrites_of_patch hq
    exact h.checked.offTable htidy (mem_of_getElem? hrewrites.reference)
      (.of_vaToOffset hrewrites.mapped) (hrewrites.mem_span ho)

theorem table_getElem? (ho : o ∈ d.reloc.raw) :
    (rewrittenFile candidate patches)[o]? = candidate[o]? := by
  refine Patch.applyAll_getElem?_of_notMem h.fits fun q hq hoq => ?_
  obtain ⟨s, hs, hne, hraw⟩ := h.early_offTable htidy hq hoq
  exact hne ((pe32_parsed h.checked.image).2.eq_of_mem_raw hs
    (Image.sectionNamed_mem h.checked.reloc) hraw ho)

/-! ### The table -/

omit h htidy in
/-- Words of the table that meet belong to one entry. -/
theorem entry_eq_of_mem (hchecked : d.Checked candidate declaration) {e' : BaseEntry}
    (he : e ∈ d.entries) (he' : e' ∈ d.entries) (ho : o ∈ Span.ofSize e.entryAt 2)
    (ho' : o ∈ Span.ofSize e'.entryAt 2) : e = e' := by
  by_contra hne
  have hpairwise := (baseEntries_layout hchecked.entries).1.imp
    (S := fun a b : BaseEntry => a.entryAt + 2 <= b.entryAt ∨ b.entryAt + 2 <= a.entryAt) .inl
  have hsymm : Std.Symm fun a b : BaseEntry =>
    a.entryAt + 2 <= b.entryAt ∨ b.entryAt + 2 <= a.entryAt := ⟨fun _ _ => Or.symm⟩
  have hapart := hpairwise.forall he he' hne
  rw [Span.mem_ofSize] at ho ho'
  omega

omit htidy in
theorem move_own (he : e ∈ d.entries) (ho : o ∈ Span.ofSize e.entryAt 2) {m : EntryMove}
    (hm : m ∈ d.moves) (hom : o ∈ Span.ofSize m.entryFileOffset 2) : d.moveOf e = some m := by
  rw [h.checked.moves_eq] at hm
  obtain ⟨e', he', hsome⟩ := mem_filterMap.mp hm
  have hat : m.entryFileOffset = e'.entryAt := by
    obtain ⟨_, -, rfl⟩ := map_eq_some_iff.mp hsome
    rfl
  rw [entry_eq_of_mem h.checked he he' ho (hat ▸ hom), hsome]

theorem table_result_getElem? (ho : o ∈ d.reloc.raw)
    (hno : ∀ m ∈ d.moves, o ∉ Span.ofSize m.entryFileOffset 2) : candidate[o]? = result[o]? := by
  rw [h.result_getElem? (h.not_mem_virtualSize htidy (Image.sectionNamed_mem h.checked.reloc) ho),
    Patch.applyAll_getElem?_of_notMem h.moves_fit, h.table_getElem? htidy ho]
  intro q hq hoq
  obtain ⟨m, hm, rfl⟩ := mem_map.mp hq
  exact hno m hm hoq

omit h htidy in
theorem entry_mem_raw (hchecked : d.Checked candidate declaration) (he : e ∈ d.entries)
    (ho : o ∈ Span.ofSize e.entryAt 2) : o ∈ d.reloc.raw := by
  have hat := ((baseEntries_layout hchecked.entries).2 e he).1
  have hend := relocEnd_le hchecked (by omega)
  rw [Span.mem_ofSize] at ho
  simp only [Pe32Section.raw, Span.mem_def]
  omega

end Repacked

def Derived.lowOf (d : Derived) (candidate : List Byte) (e : BaseEntry) : Nat :=
  if pieceShift d.pieces (d.site e) = none then numberAt candidate e.entryAt 2 % 2 ^ 12
  else ((moved d.pieces (d.site e) - d.image.imageBase) % 2 ^ 12).toNat

namespace Repacked

variable (h : Repacked candidate declaration d patches result) (htidy : Tidy declaration d)
  {e : BaseEntry}

include h htidy

theorem word_eq (he : e ∈ d.entries) :
    numberAt result e.entryAt 2 = 3 * 2 ^ 12 + d.lowOf candidate e := by
  have hkind := ((baseEntries_layout h.checked.entries).2 e he).2.1
  by_cases hshift : pieceShift d.pieces (d.site e) = none
  · have hsame : numberAt candidate e.entryAt 2 = numberAt result e.entryAt 2 := by
      refine numberAt_congr fun o ho => h.table_result_getElem? htidy
        (entry_mem_raw h.checked he ho) fun m hm hom => ?_
      have hmove := h.move_own he ho hm hom
      simp [Derived.moveOf, hshift] at hmove
    rw [Derived.lowOf, if_pos hshift, <- hsame]
    omega
  · obtain ⟨shift, hsome⟩ := ne_none_iff_exists'.mp hshift
    -- the word that the move finds is that of the candidate
    have hfound : numberAt (rewrittenFile candidate patches) e.entryAt 2 =
        numberAt candidate e.entryAt 2 :=
      numberAt_congr fun o ho => h.table_getElem? htidy (entry_mem_raw h.checked he ho)
    have hmove : d.moveOf e = some ⟨e.entryAt, e.rva,
        moved d.pieces (d.site e) - d.image.imageBase⟩ := by
      rw [Derived.moveOf, hsome]
      rfl
    have hmem : (⟨e.entryAt, e.rva, moved d.pieces (d.site e) - d.image.imageBase⟩ : EntryMove) ∈
        d.moves := by
      rw [h.checked.moves_eq]
      exact mem_filterMap.mpr ⟨e, he, hmove⟩
    have hbytes : ∀ k < (leBytes 2 (3 * 2 ^ 12 + d.lowOf candidate e)).length,
        result[e.entryAt + k]? = (leBytes 2 (3 * 2 ^ 12 + d.lowOf candidate e))[k]? := by
      intro k hk
      rw [leBytes_length] at hk
      have ho : e.entryAt + k ∈ Span.ofSize e.entryAt 2 := by
        rw [Span.mem_ofSize]
        omega
      rw [h.result_getElem? (h.not_mem_virtualSize htidy
        (Image.sectionNamed_mem h.checked.reloc) (entry_mem_raw h.checked he ho))]
      refine Patch.applyAll_getElem?_of_agree h.moves_fit ⟨_, mem_map_of_mem hmem, ?_⟩
        fun q hq hoq => ?_
      · rw [movePatch_span]
        exact ho
      · obtain ⟨m, hm, rfl⟩ := mem_map.mp hq
        have hown := h.move_own he ho hm hoq
        rw [hmove, some.injEq] at hown
        subst hown
        simp only [movePatch, hfound, hkind, Derived.lowOf, if_neg hshift, Nat.add_sub_cancel_left]
    have hword := numberAt_of_bytes hbytes
    rw [leBytes_length, leNat_leBytes] at hword
    rw [hword, Derived.lowOf, if_neg hshift]
    omega

theorem relocationEntries_eq : relocationEntries result d.reloc =
      .ok (d.entries.map (·.withLow candidate (d.lowOf candidate))) := by
  refine baseEntries_newLow h.checked.entries ⟨fun e he => ⟨h.word_eq htidy he, ?_⟩,
    fun o hle hlt hno => ?_⟩
  · unfold Derived.lowOf
    split <;> omega
  · have hend := relocEnd_le h.checked (by omega)
    refine h.table_result_getElem? htidy ?_ fun m hm hom => ?_
    · simp only [Pe32Section.raw, Span.mem_def]
      omega
    · rw [h.checked.moves_eq] at hm
      obtain ⟨e, he, hsome⟩ := mem_filterMap.mp hm
      obtain ⟨_, -, rfl⟩ := map_eq_some_iff.mp hsome
      exact hno e he hom

omit htidy in
theorem withLow_eq_iff (he : e ∈ d.entries) :
    e.withLow candidate (d.lowOf candidate) = d.movedEntry e ↔
      (pieceShift d.pieces (d.site e) ≠ none ->
        numberAt candidate e.entryAt 2 % 2 ^ 12 = e.rva % 2 ^ 12) := by
  have hle := ((baseEntries_layout h.checked.entries).2 e he).2.2
  obtain ⟨-, -, hpage⟩ := h.checked.entry he
  rw [BaseEntry.withLow, Derived.movedEntry, Derived.lowOf, BaseEntry.mk.injEq]
  by_cases hshift : pieceShift d.pieces (d.site e) = none
  · have hsite : d.site e = d.image.imageBase + e.rva := rfl
    simp only [hshift, if_true, true_and, ne_eq, not_true, false_imp_iff, iff_true,
      moved_of_none hshift]
    omega
  · have hpage := hpage hshift
    simp only [hshift, if_false, true_and, ne_eq, not_false_eq_true, true_imp_iff]
    omega

theorem entries_iff : (∃ entries, relocationEntries result d.reloc = .ok entries ∧
      ∀ e ∈ d.entries, d.movedEntry e ∈ entries) ↔
    ∀ e ∈ d.entries, pieceShift d.pieces (d.site e) ≠ none ->
      numberAt candidate e.entryAt 2 % 2 ^ 12 = e.rva % 2 ^ 12 := by
  rw [h.relocationEntries_eq htidy]
  constructor
  · rintro ⟨entries, heq, hall⟩ e he
    cases heq
    obtain ⟨e', he', hsame⟩ := mem_map.mp (hall e he)
    have hat : e'.entryAt = e.entryAt := by
      simpa [BaseEntry.withLow, Derived.movedEntry] using congrArg BaseEntry.entryAt hsame
    obtain rfl : e' = e := entry_eq_of_mem h.checked he' he (o := e.entryAt)
      (by rw [Span.mem_ofSize]; omega) (by rw [Span.mem_ofSize]; omega)
    exact (h.withLow_eq_iff he).mp hsame
  · exact fun haligned => ⟨_, rfl, fun e he =>
      mem_map.mpr ⟨e, he, (h.withLow_eq_iff he).mpr (haligned e he)⟩⟩

end Repacked

end Reprobit.Pe

import Reprobit.Pe.RepackedFile

/-!
# Text repacks that keep every reference

In an image laid out as linkers lay it out, a repack keeps the references of the image
exactly where its writes do not meet: then every relocated address and every rewritten
branch leads where it led, by way of the move.
-/

namespace Reprobit.Pe

open Machine List

section

variable {candidate bytes body : List Byte} {declaration : RepackDeclaration} {d : Derived}
  {patches : RepackPatches} {result : List Byte}

/-- A move goes down, and not below the text. -/
theorem Derived.Checked.moved_bounds (h : d.Checked candidate declaration) {va : Int}
    (hva : 0 <= va) : 0 <= moved d.pieces va ∧ moved d.pieces va <= va := by
  cases hshift : pieceShift d.pieces va with
  | none => simp [moved_of_none hshift, hva]
  | some shift =>
    obtain ⟨p, hp, hcontains, -⟩ := pieceShift_eq_some hshift
    have hin := h.inText p hp
    rw [moved_of_contains hp hcontains]
    simp only [InText, Piece.target, Piece.Contains] at hin hcontains
    omega

theorem signed32_of_pack {value : Int} (h : packDisplacement value = .ok bytes) :
    signed32 (leNat bytes) = value := by
  obtain ⟨hrange, rfl⟩ := packDisplacement_eq_ok.mp h
  rw [leNat_leBytes, signed32]
  split <;> omega

theorem branchAt_congr {body' : List Byte} {i i' immediate : Nat}
    (h : branchAt body i = some (immediate + 4, immediate))
    (hbytes : ∀ k < immediate, body'[i' + k]? = body[i + k]?)
    (hroom : i' + immediate + 4 <= body'.length) :
    branchAt body' i' = some (immediate + 4, immediate) := by
  have hone := (branchAt_spec h).2
  have hopcode : numberAt body' i' 1 = numberAt body i 1 :=
    numberAt_eq_of_moved fun k hk => hbytes k (by omega)
  rcases hone with rfl | ⟨rfl, hlong⟩
  · simp only [branchAt, hopcode] at h ⊢
    split at h
    · rw [if_pos ‹_›]
    · split at h <;> simp at h
  · have hsecond : numberAt body' (i' + 1) 1 = numberAt body (i + 1) 1 := by
      refine numberAt_eq_of_moved fun k hk => ?_
      obtain rfl : k = 0 := by omega
      exact hbytes 1 (by omega)
    simp only [branchAt, hopcode, hsecond] at h ⊢
    split at h
    · simp at h
    · rw [if_neg ‹_›]
      split at h
      · rename_i hjump
        rw [if_pos ⟨by omega, hjump.2⟩]
      · simp at h

theorem branchTarget_of_branchAt {textStart index length immediate : Nat}
    (h : branchAt body index = some (length, immediate)) :
    branchTarget body textStart index = some ((textStart + index + length +
      signed32 (numberAt body (index + immediate) 4)) % 2 ^ 32) := by
  rw [branchTarget, h]
  rfl

theorem runEach_pairwise {α β : Type} {f : α -> Refusing β} {xs : List α} {ys : List β}
    {R : α -> α -> Prop} {S : β -> β -> Prop} (h : runEach f xs = .ok ys) (hpair : xs.Pairwise R)
    (hRS : ∀ x x' y y', f x = .ok y -> f x' = .ok y' -> R x x' -> S y y') : ys.Pairwise S := by
  rw [runEach_eq_ok] at h
  induction h with
  | nil => exact .nil
  | @cons x y xs ys hxy hrest ih =>
    obtain ⟨hhead, htail⟩ := pairwise_cons.mp hpair
    refine pairwise_cons.mpr ⟨fun y' hy' => ?_, ih htail⟩
    obtain ⟨x', hx', hxy'⟩ := runEach_mem_result (runEach_eq_ok.mpr hrest) hy'
    exact hRS x x' y y' hxy hxy' (hhead x' hx')

namespace Repacked

variable (h : Repacked candidate declaration d patches result) (htidy : Tidy declaration d)

include h htidy

variable {r : Reference} {o k : Nat}

theorem reference_getElem? {i : Nat} (hr : d.references[i]? = some r)
    (hmapped : d.image.vaToOffset (d.newSite r) r.size = .ok o) (hk : k < r.size) :
    result[o + k]? = (rewrittenFile candidate patches)[o + k]? := by
  refine h.offTable_getElem? htidy
    (h.checked.offTable htidy (mem_of_getElem? hr) (.of_vaToOffset hmapped) ?_)
  rw [Span.mem_ofSize]
  omega

variable (hseparated : Separated candidate declaration d) {p : Piece} {block : Patch}

include hseparated

theorem dword_eq {i old : Nat} {e : BaseEntry} (he : d.entries[i]? = some e)
    (hold : d.image.vaToOffset (d.site e) 4 = .ok old)
    (hnew : d.image.vaToOffset (moved d.pieces (d.site e)) 4 = .ok o) :
    (numberAt result o 4 : Int) = moved d.pieces (numberAt candidate old 4) := by
  have hr := Derived.references_entry he
  have hrewritten := h.checked.rewritten_iff hold (mem_of_getElem? he)
  by_cases hshift : pieceShift d.pieces (numberAt candidate old 4) = none
  · rw [moved_of_none hshift]
    congr 1
    refine numberAt_eq_of_moved fun k hk => ?_
    rw [h.reference_getElem? htidy hr hnew hk]
    exact h.kept_getElem? htidy hseparated hr hnew (.of_vaToOffset hold) hk fun hyes =>
      absurd hshift (hrewritten.mp hyes)
  · have hbytes : d.operandBytes candidate i =
        .ok (leBytes 4 (moved d.pieces (numberAt candidate old 4)).toNat) := by
      simp only [Derived.operandBytes, he, hold]
      rfl
    have hword : numberAt result o 4 =
        leNat (leBytes 4 (moved d.pieces (numberAt candidate old 4)).toNat) := by
      refine (numberAt_of_bytes fun k hk => ?_ : numberAt result o (leBytes 4 _).length = _)
      rw [h.reference_getElem? htidy hr hnew hk]
      exact h.operand_getElem? htidy hseparated hr hnew (hrewritten.mpr hshift) hbytes hk
    have hlt := numberAt_lt candidate old 4
    have hbounds := h.checked.moved_bounds (Int.natCast_nonneg (numberAt candidate old 4))
    rw [hword, leNat_leBytes]
    omega

theorem branch_eq {f : Rel32Fixup} (hf : d.rel32[k]? = some f)
    (hnew : d.image.vaToOffset (moved d.pieces f.siteVa) (f.immOffset + 4) = .ok o) {index : Nat}
    {target : Int} (hfixup : BranchFixup candidate d f index target)
    (hbytes : packDisplacement f.new = .ok bytes) :
    branchTarget (d.body result) d.textStart ((moved d.pieces f.siteVa).toNat - d.textStart) =
      some (moved d.pieces target) := by
  have hr := Derived.references_branch hf
  obtain ⟨hbacks, ho⟩ := h.checked.moved_home htidy (by omega) (.inr (hfixup.backs h.checked))
    (.of_vaToOffset hnew)
  -- the index of the branch in the new text
  obtain ⟨index', hindex'⟩ : ∃ index' : Nat, moved d.pieces f.siteVa = d.textStart + index' := by
    refine ⟨(moved d.pieces f.siteVa - d.textStart).toNat, ?_⟩
    simp only [Image.Backs, Pe32Section.BacksRva, Derived.textStart] at hbacks ⊢
    omega
  have hroom : index' + f.immOffset + 4 <= d.text.rawSize := by
    simp only [Image.Backs, Pe32Section.BacksRva, Derived.textStart] at hbacks hindex'
    omega
  have hplace : o = d.text.rawOffset + index' := by
    rw [ho]
    simp only [Image.place, Pe32Section.offsetOf, Derived.textStart] at hindex' ⊢
    omega
  have hread : ∀ j < f.immOffset + 4,
      (d.body result)[index' + j]? = (rewrittenFile candidate patches)[o + j]? := by
    intro j hj
    rw [<- h.reference_getElem? htidy hr hnew hj, Derived.body, slice_getElem?, if_pos (by omega),
      hplace, Nat.add_assoc]
  have hbranch : branchAt (d.body result) index' = some (f.immOffset + 4, f.immOffset) := by
    refine branchAt_congr hfixup.branch (fun j hj => ?_) ?_
    · rw [hread j (by omega), h.kept_getElem? htidy hseparated hr hnew
        ⟨d.text, Image.sectionNamed_mem h.checked.text, hfixup.backs h.checked, rfl⟩
        (by simp only [Derived.ofBranch]; omega) fun _ => hj]
      have hold := hfixup.room
      have hsite := hfixup.site
      rw [h.checked.body_length] at hold
      rw [Derived.body, slice_getElem?, if_pos (by omega)]
      congr 1
      simp only [Derived.ofBranch, Image.place, Pe32Section.offsetOf, Derived.textStart] at hsite ⊢
      omega
    · have hraw := (pe32_parsed h.checked.image).2.raw d.text
        (Image.sectionNamed_mem h.checked.text)
      rw [(pe32_parsed h.checked.image).1] at hraw
      rw [Derived.body, slice_length, h.result_length]
      simp only [Pe32Section.rawEnd] at hraw
      omega
  have hoperand : numberAt (d.body result) (index' + f.immOffset) 4 = leNat bytes := by
    obtain ⟨-, hlength⟩ := packDisplacement_eq_ok.mp hbytes
    have hfour : bytes.length = 4 := by rw [<- hlength, leBytes_length]
    rw [<- hfour]
    refine numberAt_of_bytes fun j hj => ?_
    rw [Nat.add_assoc, hread _ (by omega), <- Nat.add_assoc]
    exact h.operand_getElem? htidy hseparated hr hnew rfl
      ((Derived.operandBytes_branch hf).trans hbytes) (by omega)
  have htarget : 0 <= target ∧ target < 2 ^ 32 := by
    rw [hfixup.goes]
    omega
  have hbounds := h.checked.moved_bounds htarget.1
  have hnewValue := hfixup.new
  rw [show (moved d.pieces f.siteVa).toNat - d.textStart = index' by omega,
    branchTarget_of_branchAt hbranch, hoperand, signed32_of_pack hbytes, Option.some.injEq]
  omega

omit hseparated

/-! ### Writes that do not meet -/

omit htidy in
theorem block_lies (hp : p ∈ d.pieces.list) (hblock : blockPatch candidate d p = .ok block) :
    0 < p.size ∧ ∃ o, d.image.Lies p.target p.size o ∧ block.span = .ofSize o p.size :=
  ⟨Nat.sub_pos_of_lt (d.pieces.nonempty p hp), _,
    ⟨d.text, Image.sectionNamed_mem h.checked.text, (h.checked.inText p hp).backs.2, rfl⟩,
    (blockPatch_span h.checked hp hblock).2⟩

theorem blocks_apart : patches.blocks.Pairwise fun a b => a.span.Apart b.span := by
  have hpair := d.pieces.destinations.pairwise (by
    intro r hr
    obtain ⟨p, hp, rfl⟩ := mem_map.mp hr
    have := d.pieces.nonempty p hp
    simp only [Piece.target, Piece.targetEnd]
    omega)
  rw [pairwise_map] at hpair
  refine runEach_pairwise h.blocks (List.Pairwise.and_mem.mp hpair) ?_
  rintro p p' block block' hblock hblock' ⟨hp, hp', hapart⟩
  obtain ⟨hsize, o, hlies, hspan⟩ := h.block_lies hp hblock
  obtain ⟨hsize', o', hlies', hspan'⟩ := h.block_lies hp' hblock'
  rw [hspan, hspan', Image.Lies.apart_iff htidy.addresses h.checked.image hlies hlies' hsize hsize']
  simp only [Overlap, Piece.target, Piece.targetEnd, Piece.size] at *
  omega

theorem fillBlocks_iff : (∀ block ∈ patches.blocks, patches.fill.span.Apart block.span) ↔
      ∀ p ∈ d.pieces.list, ¬ Overlap declaration.vacatedFill.va declaration.vacatedFill.length
        p.target p.size := by
  obtain ⟨hfillSize, hfillLies, hfillSpan⟩ := h.fill_spec
  have hiff : ∀ p ∈ d.pieces.list, ∀ block, blockPatch candidate d p = .ok block ->
      (patches.fill.span.Apart block.span ↔ ¬ Overlap declaration.vacatedFill.va
        declaration.vacatedFill.length p.target p.size) := by
    intro p hp block hblock
    obtain ⟨hsize, o, hlies, hspan⟩ := h.block_lies hp hblock
    rw [hfillSpan, hspan]
    exact hfillLies.apart_iff htidy.addresses h.checked.image hlies hfillSize hsize
  constructor
  · intro hapart p hp
    obtain ⟨block, hmem, hblock⟩ := h.block_of_piece hp
    exact (hiff p hp block hblock).mp (hapart block hmem)
  · intro hapart block hmem
    obtain ⟨p, hp, hblock⟩ := runEach_mem_result h.blocks hmem
    exact (hiff p hp block hblock).mpr (hapart p hp)

theorem rewrite_apart_iff {r r' : Reference} (hr : r ∈ d.references) (hr' : r' ∈ d.references)
    {o' : Nat} (ho : d.image.vaToOffset (d.newSite r) r.size = .ok o)
    (ho' : d.image.vaToOffset (d.newSite r') r'.size = .ok o') :
    (Span.ofSize (o + r.operand) 4).Apart (.ofSize o' r'.size) ↔
      ¬ Overlap (d.newSite r + r.operand) 4 (d.newSite r') r'.size := by
  have hsize := Derived.size_eq hr
  have hsize' := Derived.size_eq hr'
  exact ((Image.Lies.of_vaToOffset ho).sub (by omega)).apart_iff htidy.addresses h.checked.image
    (.of_vaToOffset ho') (by omega) (by omega)

theorem fill_apart_iff (hr : r ∈ d.references)
    (ho : d.image.vaToOffset (d.newSite r) r.size = .ok o) :
    patches.fill.span.Apart (.ofSize o r.size) ↔ ¬ Overlap declaration.vacatedFill.va
      declaration.vacatedFill.length (d.newSite r) r.size := by
  obtain ⟨hfillSize, hfillLies, hfillSpan⟩ := h.fill_spec
  have hsize := Derived.size_eq hr
  rw [hfillSpan]
  exact hfillLies.apart_iff htidy.addresses h.checked.image (.of_vaToOffset ho) hfillSize (by omega)

theorem block_apart_iff (hp : p ∈ d.pieces.list) (hblock : blockPatch candidate d p = .ok block)
    (hr : r ∈ d.references) (ho : d.image.vaToOffset (d.newSite r) r.size = .ok o) :
    block.span.Apart (.ofSize o r.size) ↔ ¬ Overlap p.target p.size (d.newSite r) r.size := by
  obtain ⟨hpsize, o', hlies, hspan⟩ := h.block_lies hp hblock
  have hsize := Derived.size_eq hr
  rw [hspan]
  exact hlies.apart_iff htidy.addresses h.checked.image (.of_vaToOffset ho) hpsize (by omega)

omit htidy in
theorem mapped_of_entries
    (hentries : ∀ e ∈ d.entries, ∃ o, d.image.vaToOffset (moved d.pieces (d.site e)) 4 = .ok o) :
    ∀ r ∈ d.references, ∃ o, d.image.vaToOffset (d.newSite r) r.size = .ok o := by
  intro r hr
  rcases mem_append.mp hr with hr | hr
  · obtain ⟨e, he, rfl⟩ := mem_map.mp hr
    exact hentries e he
  · obtain ⟨f, hf, rfl⟩ := mem_map.mp hr
    obtain ⟨q, -, hpatch⟩ := runEach_mem h.rel32 hf
    obtain ⟨-, o, ho, -⟩ := rel32Patch_eq_ok.mp hpatch
    exact ⟨o, ho⟩

theorem separated (hkeeps : KeepsReferences candidate d patches result) :
    Separated candidate declaration d := by
  have happart := hkeeps.noInterference
  have hmapped := h.mapped_of_entries fun e he => by
    obtain ⟨_, new, -, hnew, -⟩ := hkeeps.dwords e he
    exact ⟨new, hnew⟩
  constructor
  case aligned => exact (h.entries_iff htidy).mp hkeeps.entries
  case mapped => exact hmapped
  case rewrites =>
    intro i j r r' hr hr' hne hrewritten
    have hmem := mem_of_getElem? hr
    have hmem' := mem_of_getElem? hr'
    obtain ⟨o, ho⟩ := hmapped r hmem
    obtain ⟨o', ho'⟩ := hmapped r' hmem'
    exact (h.rewrite_apart_iff htidy hmem hmem' ho ho').mp
      (happart.rewrites i j r r' o o' hr hr' hne hrewritten ho ho')
  case pieces =>
    intro p hp r hr hoverlap
    obtain ⟨o, ho⟩ := hmapped r hr
    obtain ⟨block, -, hblock⟩ := h.block_of_piece hp
    refine (happart.blockReferences p hp block hblock r hr o ho).resolve_left fun hno => ?_
    exact (h.block_apart_iff htidy hp hblock hr ho).mp hno hoverlap
  case fillPieces => exact (h.fillBlocks_iff htidy).mp happart.fillBlocks
  case fillReferences =>
    intro r hr
    obtain ⟨o, ho⟩ := hmapped r hr
    exact (h.fill_apart_iff htidy hr ho).mp (happart.fillReferences r hr o ho)

include hseparated

theorem noInterference : NoInterference candidate d patches := by
  constructor
  case blocks => exact h.blocks_apart htidy
  case fillBlocks => exact (h.fillBlocks_iff htidy).mpr hseparated.fillPieces
  case rewrites =>
    intro i j r r' o o' hr hr' hne hrewritten ho ho'
    exact (h.rewrite_apart_iff htidy (mem_of_getElem? hr) (mem_of_getElem? hr') ho
      ho').mpr (hseparated.rewrites i j r r' hr hr' hne hrewritten)
  case fillReferences =>
    exact fun r hr o ho => (h.fill_apart_iff htidy hr ho).mpr (hseparated.fillReferences r hr)
  case blockReferences =>
    intro p hp block hblock r hr o ho
    by_cases hoverlap : Overlap p.target p.size (d.newSite r) r.size
    · exact .inr (hseparated.pieces p hp r hr hoverlap)
    · exact .inl ((h.block_apart_iff htidy hp hblock hr ho).mpr hoverlap)

theorem keeps : KeepsReferences candidate d patches result := by
  constructor
  case entries => exact (h.entries_iff htidy).mpr hseparated.aligned
  case dwords =>
    intro e he
    obtain ⟨i, hi⟩ := mem_iff_getElem?.mp he
    obtain ⟨old, hold, -⟩ := h.checked.entry he
    obtain ⟨o, ho⟩ := hseparated.mapped (d.ofEntry e)
      (mem_append_left _ (mem_map_of_mem he))
    exact ⟨old, o, hold, ho, h.dword_eq htidy hseparated hi hold ho⟩
  case branches =>
    intro f hf
    obtain ⟨k, hk⟩ := mem_iff_getElem?.mp hf
    obtain ⟨index, target, hfixup⟩ := h.checked.branchFixup hf
    obtain ⟨q, -, hpatch⟩ := runEach_mem h.rel32 hf
    obtain ⟨-, o, ho, bytes, hbytes, -⟩ := rel32Patch_eq_ok.mp hpatch
    refine ⟨target, ?_, h.branch_eq htidy hseparated hk ho hfixup hbytes⟩
    rw [show f.siteVa - d.textStart = index by rw [hfixup.site]; omega,
      branchTarget_of_branchAt hfixup.branch, hfixup.goes]
  case noInterference => exact h.noInterference htidy hseparated

end Repacked

end

/-- A tail thunk whose operand begins with an opcode. -/
def overlappingText : List Byte :=
  List.replicate 23 0x90#8 ++
    [0xCC#8, 0xE9#8, 0xE8#8, 0xFF#8, 0xFF#8, 0xFF#8, 0xFF#8, 0xD0#8, 0xC3#8]

def overlappingRepack : RepackDeclaration where
  schema := "comdat_tail_thunk_repack_v1"
  rationale := "tail thunk"
  pieces := [⟨0x401018, 0x40101D, 1⟩]
  expectedPads := [⟨0x401017, 1, 0xCC#8⟩]
  vacatedFill := ⟨0x40101C, 1, 0xCC#8⟩
  expectedRel32Fixups := [⟨0x401018, 1, -24, -23⟩, ⟨0x401019, 1, -1, 0⟩]
  expectedAbsoluteFixups := []
  expectedRelocEntryMoves := []
  oldTextVirtualSize := 32
  newTextVirtualSize := 31

/-- `MOV EAX, [0x401010]` and a tail thunk behind it, both in one piece. -/
def thunkImage : List Byte :=
  smallImage (List.replicate 15 0x90#8 ++ [0xCC#8, 0xA1#8] ++ leBytes 4 0x401010 ++
    [0xE9#8, 0xEA#8, 0xFF#8, 0xFF#8, 0xFF#8] ++ List.replicate 6 0xCC#8)
    (leBytes 4 0x1000 ++ leBytes 4 12 ++ leBytes 2 0x3011 ++ leBytes 2 0)

def thunkRepack : RepackDeclaration where
  schema := "comdat_tail_thunk_repack_v1"
  rationale := "tail thunk"
  pieces := [⟨0x401010, 0x40101A, 1⟩]
  expectedPads := [⟨0x40100F, 1, 0xCC#8⟩]
  vacatedFill := ⟨0x401019, 1, 0xCC#8⟩
  expectedRel32Fixups := [⟨0x401015, 1, -22, -21⟩]
  expectedAbsoluteFixups := [⟨0x401011, 0x401010, 0x40100F⟩]
  expectedRelocEntryMoves := [⟨240, 0x1011, 0x1010⟩]
  oldTextVirtualSize := 32
  newTextVirtualSize := 31

end Reprobit.Pe

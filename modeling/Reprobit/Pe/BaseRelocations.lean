import Reprobit.Pe.TextRepack

/-!
# The base-relocation table

The blocks of the table lie one behind the other, and so do the words of their entries.
A table in which only words of HIGHLOW entries change, and only in their low bits, is
read with the same blocks and entries.
-/

namespace Reprobit.Pe

open Machine List

theorem numberAt_congr {data data' : List Byte} {offset width : Nat}
    (h : ∀ o ∈ Span.ofSize offset width, data[o]? = data'[o]?) :
    numberAt data offset width = numberAt data' offset width := by
  rw [numberAt, numberAt, slice_eq_iff.mpr h]

theorem numberAt_eq_of_moved {data data' : List Byte} {offset offset' width : Nat}
    (h : ∀ k < width, data[offset + k]? = data'[offset' + k]?) :
    numberAt data offset width = numberAt data' offset' width := by
  have hslice : slice data offset width = slice data' offset' width := by
    refine ext_getElem? fun k => ?_
    rw [slice_getElem?, slice_getElem?]
    split
    · exact h k ‹_›
    · rfl
  rw [numberAt, numberAt, hslice]

theorem numberAt_lt (data : List Byte) (offset width : Nat) :
    numberAt data offset width < 256 ^ width := by
  refine (leNat_lt _).trans_le (Nat.pow_le_pow_right (by decide) ?_)
  rw [slice_length]
  omega

theorem numberAt_of_bytes {data bytes : List Byte} {offset : Nat}
    (h : ∀ k < bytes.length, data[offset + k]? = bytes[k]?) :
    numberAt data offset bytes.length = leNat bytes := by
  have hslice : slice data offset bytes.length = bytes := by
    refine ext_getElem? fun k => ?_
    rw [slice_getElem?]
    split
    · exact h k ‹_›
    · exact (getElem?_eq_none (by omega)).symm
  rw [numberAt, hslice]

section

variable {data data' : List Byte} {cursor page block stop fuel : Nat} {entries : List BaseEntry}

theorem mem_blockEntries {e : BaseEntry} (h : e ∈ blockEntries data cursor page block) :
    ∃ ordinal < (block - 8) / 2, e.entryAt = cursor + 8 + ordinal * 2 ∧
      numberAt data e.entryAt 2 / 2 ^ 12 = 3 ∧
      e.rva = page + numberAt data e.entryAt 2 % 2 ^ 12 := by
  obtain ⟨ordinal, hordinal, hsome⟩ := mem_filterMap.mp h
  rw [mem_range] at hordinal
  dsimp only at hsome
  split at hsome
  · cases hsome
    exact ⟨ordinal, hordinal, rfl, ‹_›, rfl⟩
  · cases hsome

theorem blockEntries_pairwise :
    (blockEntries data cursor page block).Pairwise fun a b => a.entryAt + 2 <= b.entryAt := by
  have hrange : (List.range ((block - 8) / 2)).Pairwise (· < ·) := pairwise_lt_range
  refine hrange.filterMap _ fun a b hlt e he e' he' => ?_
  dsimp only at he he'
  split at he
  · cases he
    split at he'
    · cases he'
      dsimp only
      omega
    · cases he'
  · cases he

theorem baseEntries_cons (h : baseEntries data stop (fuel + 1) cursor = .ok entries)
    (hlt : cursor < stop) (hblock : numberAt data (cursor + 4) 4 ≠ 0) :
    ∃ rest, (8 <= numberAt data (cursor + 4) 4 ∧ numberAt data (cursor + 4) 4 % 2 = 0 ∧
        cursor + numberAt data (cursor + 4) 4 <= stop) ∧ cursor + 8 <= stop ∧
      baseEntries data stop fuel (cursor + numberAt data (cursor + 4) 4) = .ok rest ∧
      entries = blockEntries data cursor (numberAt data cursor 4) (numberAt data (cursor + 4) 4) ++
        rest := by
  rw [baseEntries, if_neg (by omega)] at h
  simp only [hblock, if_false, bind_eq_ok, require_eq_ok, pure_eq_ok] at h
  obtain ⟨_, hroom, _, hvalid, rest, hrest, rfl⟩ := h
  exact ⟨rest, hvalid, hroom, hrest, rfl⟩

/-- The words of the entries lie one behind the other. -/
theorem baseEntries_layout (h : baseEntries data stop fuel cursor = .ok entries) :
    (entries.Pairwise fun a b => a.entryAt + 2 <= b.entryAt) ∧
      ∀ e ∈ entries, (cursor + 8 <= e.entryAt ∧ e.entryAt + 2 <= stop) ∧
        numberAt data e.entryAt 2 / 2 ^ 12 = 3 ∧ numberAt data e.entryAt 2 % 2 ^ 12 <= e.rva := by
  induction fuel generalizing cursor entries with
  | zero =>
    cases h
    simp
  | succ fuel ih =>
    by_cases hend : stop <= cursor
    · rw [baseEntries, if_pos hend] at h
      cases h
      simp
    by_cases hblock : numberAt data (cursor + 4) 4 = 0
    · rw [baseEntries, if_neg hend] at h
      simp only [hblock, if_true, bind_eq_ok, pure_eq_ok] at h
      obtain ⟨_, -, rfl⟩ := h
      simp
    obtain ⟨rest, hvalid, -, hrest, rfl⟩ := baseEntries_cons h (by omega) hblock
    obtain ⟨hpairwise, hwithin⟩ := ih hrest
    refine ⟨pairwise_append.mpr ⟨blockEntries_pairwise, hpairwise, fun a ha b hb => ?_⟩,
      fun e he => ?_⟩
    · obtain ⟨ordinal, hordinal, hat, -⟩ := mem_blockEntries ha
      have hb := (hwithin b hb).1
      omega
    · rcases mem_append.mp he with he | he
      · obtain ⟨ordinal, hordinal, hat, hkind, hrva⟩ := mem_blockEntries he
        exact ⟨by omega, hkind, by omega⟩
      · obtain ⟨hat, hrest⟩ := hwithin e he
        exact ⟨by omega, hrest⟩

def BaseEntry.withLow (data : List Byte) (low : BaseEntry -> Nat) (e : BaseEntry) : BaseEntry :=
  ⟨e.entryAt, e.rva - numberAt data e.entryAt 2 % 2 ^ 12 + low e⟩

/-- The HIGHLOW words have new low bits, nothing else is new. -/
structure NewLow (data data' : List Byte) (stop cursor : Nat) (entries : List BaseEntry)
    (low : BaseEntry -> Nat) : Prop where
  words : ∀ e ∈ entries, numberAt data' e.entryAt 2 = 3 * 2 ^ 12 + low e ∧ low e < 2 ^ 12
  others : ∀ o, cursor <= o -> o < stop -> (∀ e ∈ entries, o ∉ Span.ofSize e.entryAt 2) ->
    data[o]? = data'[o]?

variable {low : BaseEntry -> Nat}

theorem blockEntries_newLow {rest : List BaseEntry}
    (h : NewLow data data' stop cursor (blockEntries data cursor page block ++ rest) low)
    (hblock : 8 <= block) (hstop : cursor + block <= stop)
    (hrest : ∀ e ∈ rest, cursor + block <= e.entryAt) :
    blockEntries data' cursor page block =
      (blockEntries data cursor page block).map (·.withLow data low) := by
  rw [blockEntries, blockEntries, map_filterMap]
  refine filterMap_congr fun ordinal hordinal => ?_
  rw [mem_range] at hordinal
  dsimp only
  by_cases hkind : numberAt data (cursor + 8 + ordinal * 2) 2 / 2 ^ 12 = 3
  · have hmem : (⟨cursor + 8 + ordinal * 2,
        page + numberAt data (cursor + 8 + ordinal * 2) 2 % 2 ^ 12⟩ : BaseEntry) ∈
        blockEntries data cursor page block :=
      mem_filterMap.mpr ⟨ordinal, mem_range.mpr hordinal, if_pos hkind⟩
    obtain ⟨hword, hlow⟩ := h.words _ (mem_append_left _ hmem)
    dsimp only at hword
    rw [if_pos (by omega), if_pos hkind, Option.map_some, Option.some.injEq, BaseEntry.withLow,
      BaseEntry.mk.injEq]
    dsimp only
    omega
  · have hsame : numberAt data (cursor + 8 + ordinal * 2) 2 =
        numberAt data' (cursor + 8 + ordinal * 2) 2 := by
      refine numberAt_congr fun o ho => h.others o ?_ ?_ fun e he hoe => ?_ <;>
        rw [Span.mem_ofSize] at ho
      · omega
      · omega
      · rw [Span.mem_ofSize] at hoe
        rcases mem_append.mp he with he | he
        · obtain ⟨other, -, hat, hother, -⟩ := mem_blockEntries he
          obtain rfl : other = ordinal := by omega
          exact hkind (hat ▸ hother)
        · have hle := hrest e he
          omega
    rw [<- hsame, if_neg hkind]
    rfl

theorem baseEntries_newLow (hentries : baseEntries data stop fuel cursor = .ok entries)
    (h : NewLow data data' stop cursor entries low) :
    baseEntries data' stop fuel cursor = .ok (entries.map (·.withLow data low)) := by
  induction fuel generalizing cursor entries with
  | zero =>
    cases hentries
    rfl
  | succ fuel ih =>
    have hlayout := (baseEntries_layout hentries).2
    by_cases hend : stop <= cursor
    · rw [baseEntries, if_pos hend] at hentries ⊢
      cases hentries
      rfl
    by_cases hroom : cursor + 8 <= stop
    swap
    · rw [baseEntries, if_neg hend] at hentries
      simp [require, hroom, bind, Except.bind] at hentries
    -- the head of the block has no entry
    have hhead : ∀ offset width, cursor <= offset -> offset + width <= cursor + 8 ->
        numberAt data offset width = numberAt data' offset width := by
      intro offset width hle hwidth
      refine numberAt_congr fun o ho => ?_
      rw [Span.mem_ofSize] at ho
      refine h.others o (by omega) (by omega) fun e he hoe => ?_
      have hat := (hlayout e he).1
      rw [Span.mem_ofSize] at hoe
      omega
    have hpage := hhead cursor 4 (by omega) (by omega)
    have hsize := hhead (cursor + 4) 4 (by omega) (by omega)
    by_cases hblock : numberAt data (cursor + 4) 4 = 0
    · rw [baseEntries, if_neg hend] at hentries ⊢
      simp only [<- hsize, hblock, if_true, bind_eq_ok, require_eq_ok,
        pure_eq_ok] at hentries ⊢
      obtain ⟨_, -, rfl⟩ := hentries
      exact ⟨(), hroom, rfl⟩
    obtain ⟨rest, hvalid, -, hrest, rfl⟩ := baseEntries_cons hentries (by omega) hblock
    have hbehind : ∀ e ∈ rest, cursor + numberAt data (cursor + 4) 4 + 8 <= e.entryAt :=
      fun e he => ((baseEntries_layout hrest).2 e he).1.1
    have hnext : NewLow data data' stop (cursor + numberAt data (cursor + 4) 4) rest low := by
      refine ⟨fun e he => h.words e (mem_append_right _ he), fun o hle hlt hno => ?_⟩
      refine h.others o (by omega) hlt fun e he hoe => ?_
      rcases mem_append.mp he with he | he
      · obtain ⟨ordinal, hordinal, hat, -⟩ := mem_blockEntries he
        rw [Span.mem_ofSize] at hoe
        omega
      · exact hno e he hoe
    have hentries' := blockEntries_newLow h hvalid.1 hvalid.2.2 fun e he => by
      have hle := hbehind e he
      omega
    rw [baseEntries, if_neg hend]
    simp only [<- hsize, <- hpage, hblock, if_false, bind_eq_ok, require_eq_ok,
      pure_eq_ok]
    refine ⟨(), hroom, (), hvalid, _, ih hrest hnext, ?_⟩
    rw [hentries', map_append]

end

variable {output : List Byte}

theorem movePatch_span {move : EntryMove} :
    (movePatch output move).span = .ofSize move.entryFileOffset 2 := by
  simp [movePatch, Patch.span]

/-- Moves of words that lie apart can be made at once. -/
theorem foldl_applyMove {moves : List EntryMove}
    (hpairwise : moves.Pairwise fun m m' => m.entryFileOffset + 2 <= m'.entryFileOffset)
    (hfits : ∀ m ∈ moves, m.entryFileOffset + 2 <= output.length) :
    moves.foldl applyMove output = Patch.applyAll output (moves.map (movePatch output)) := by
  induction moves generalizing output with
  | nil => rfl
  | cons m rest ih =>
    rw [pairwise_cons] at hpairwise
    have hfit : (movePatch output m).Fits output.length := by
      simpa [Patch.Fits, movePatch] using hfits m (by simp)
    have hsame : ∀ m' ∈ rest, movePatch (applyMove output m) m' = movePatch output m' := by
      intro m' hm'
      have hword : numberAt (applyMove output m) m'.entryFileOffset 2 =
          numberAt output m'.entryFileOffset 2 := by
        refine numberAt_congr fun o ho => Patch.apply_getElem?_of_notMem hfit ?_
        have hle := hpairwise.1 m' hm'
        rw [Span.mem_ofSize] at ho
        rw [movePatch_span, Span.mem_ofSize]
        omega
      rw [movePatch, movePatch, hword]
    rw [foldl_cons, ih hpairwise.2, map_congr_left hsame, map_cons]
    · rfl
    · intro m' hm'
      rw [applyMove, Patch.apply_length hfit]
      exact hfits m' (by simp [hm'])

end Reprobit.Pe

import Reprobit.Foundation
import Reprobit.Machine.Bytes
import Mathlib.Data.List.Sort

/-!
# Replaced ranges

The parts of a resized object are replaced range by range, and the pointers of its headers move
along.  Two walks over the sorted ranges count the change of length, each on its own.
-/

namespace Reprobit.Coff

open Machine List

/-- A range, `end` read as `stop`, and what comes in its place. -/
structure Replacement where
  start : Nat
  stop : Nat
  replacement : List Byte

def Replacement.Inside (r : Replacement) (p : Nat) : Prop := r.start < p ∧ p < r.stop

def ordered (replacements : List Replacement) : List Replacement :=
  replacements.insertionSort fun a b => a.start <= b.start

/-- `_apply_replacements` from `cursor` on. -/
def replaceFrom (data : List Byte) (cursor : Nat) : List Replacement -> Refusing (List Byte)
  | [] => .ok (data.drop cursor)
  | r :: rest => do
    require (cursor <= r.start ∧ r.start <= r.stop ∧ r.stop <= data.length)
      "COFF replacement ranges overlap"
    let chunks <- replaceFrom data r.stop rest
    pure (slice data cursor (r.start - cursor) ++ (r.replacement ++ chunks))

def applyReplacements (data : List Byte) (replacements : List Replacement) :
    Refusing (List Byte) :=
  replaceFrom data 0 (ordered replacements)

/-- The loop of `shifted_pointer`. -/
def shiftFrom (pointer : Nat) (delta : Int) : List Replacement -> Refusing Int
  | [] => .ok (pointer + delta)
  | r :: rest =>
    if pointer < r.start then .ok (pointer + delta)
    else if pointer = r.start then .ok (r.start + delta)
    else do
      require (r.stop <= pointer) "COFF pointer falls inside a replaced range"
      shiftFrom pointer (delta + (r.replacement.length - (r.stop - r.start))) rest

def shiftedPointer (pointer : Nat) (replacements : List Replacement) : Refusing Int :=
  if pointer = 0 then .ok 0 else shiftFrom pointer 0 (ordered replacements)

/-- The bytes start with the byte at `p`, or the replacement there. -/
def Stands (data : List Byte) (replacements : List Replacement) (p : Nat) (bytes : List Byte) :
    Prop :=
  if ∃ r ∈ replacements, r.start = p then
    ∃ r ∈ replacements, r.start = p ∧ r.replacement <+: bytes
  else bytes[0]? = data[p]?

variable {data out : List Byte} {cursor p q n : Nat} {delta a b : Int} {r : Replacement}
  {rest replacements : List Replacement}

theorem replaceFrom_cons_eq_ok :
    replaceFrom data cursor (r :: rest) = .ok out ↔
      (cursor <= r.start ∧ r.start <= r.stop ∧ r.stop <= data.length) ∧
        ∃ chunks, replaceFrom data r.stop rest = .ok chunks ∧
          slice data cursor (r.start - cursor) ++ (r.replacement ++ chunks) = out := by
  rw [replaceFrom, require_bind_eq_ok, bind_eq_ok]
  simp only [pure_eq_ok]

theorem start_ge (h : replaceFrom data cursor rest = .ok out) : ∀ r ∈ rest, cursor <= r.start := by
  induction rest generalizing cursor out with
  | nil => simp
  | cons r rest ih =>
    obtain ⟨hchecks, chunks, hchunks, -⟩ := replaceFrom_cons_eq_ok.mp h
    grind

/-- The walk stops at the first range from the pointer on. -/
theorem shiftFrom_eq_ok (delta : Int) (h : replaceFrom data cursor rest = .ok out)
    (hcursor : cursor <= p) (hp : ∀ r ∈ rest, ¬ r.Inside p) :
    ∃ k : Nat, shiftFrom p delta rest = .ok (cursor + delta + k) ∧
      Stands data rest p (out.drop k) := by
  induction rest generalizing cursor delta out with
  | nil =>
    obtain rfl : data.drop cursor = out := Except.ok.inj h
    refine ⟨p - cursor, congrArg Except.ok (by omega), ?_⟩
    simp [Stands, Nat.add_sub_cancel' hcursor]
  | cons r rest ih =>
    obtain ⟨hchecks, chunks, hchunks, rfl⟩ := replaceFrom_cons_eq_ok.mp h
    have hlen : (slice data cursor (r.start - cursor)).length = r.start - cursor := by
      rw [slice_length]
      omega
    rcases lt_trichotomy r.start p with hlt | rfl | hgt
    · have hstop : r.stop <= p := not_lt.mp fun hin => hp r (by simp) ⟨hlt, hin⟩
      obtain ⟨k, hshift, hstands⟩ := ih _ hchunks hstop fun r hr => hp r (by simp [hr])
      refine ⟨r.start - cursor + (r.replacement.length + k), ?_, ?_⟩
      · rw [shiftFrom, if_neg (by omega), if_neg (by omega), require_bind_eq_ok, hshift]
        exact ⟨hstop, congrArg _ (by omega)⟩
      · rw [<- drop_drop, drop_left' hlen, <- drop_drop, drop_left]
        simpa [Stands, hlt.ne] using hstands
    · refine ⟨r.start - cursor, ?_, ?_⟩
      · rw [shiftFrom, if_neg (lt_irrefl _), if_pos rfl]
        exact congrArg _ (by omega)
      · rw [Stands, if_pos ⟨r, by simp, rfl⟩, drop_left' hlen]
        exact ⟨r, by simp, rfl, prefix_append _ _⟩
    · refine ⟨p - cursor, ?_, ?_⟩
      · rw [shiftFrom, if_pos hgt]
        exact congrArg _ (by omega)
      · have hlater : ¬ ∃ r' ∈ r :: rest, r'.start = p := by
          have := start_ge hchunks
          grind
        rw [Stands, if_neg hlater, getElem?_drop, getElem?_append_left (by omega), slice_getElem?,
          if_pos (by omega), Nat.add_zero, Nat.add_sub_cancel' hcursor]

theorem shiftFrom_mono (h : replaceFrom data cursor rest = .ok out) (hpq : p <= q)
    (hq : ∀ r ∈ rest, ¬ r.Inside q) (ha : shiftFrom p delta rest = .ok a)
    (hb : shiftFrom q delta rest = .ok b) : a <= b := by
  induction rest generalizing cursor delta out with
  | nil =>
    rw [shiftFrom, Except.ok.injEq] at ha hb
    omega
  | cons r rest ih =>
    obtain ⟨hchecks, chunks, hchunks, -⟩ := replaceFrom_cons_eq_ok.mp h
    by_cases hlt : r.start < p
    · rw [shiftFrom, if_neg (by omega), if_neg (by omega), require_bind_eq_ok] at ha hb
      exact ih hchunks (fun r hr => hq r (by simp [hr])) ha.2 hb.2
    · -- Nothing before the first range moves, so the pointer can be the cursor.
      have hle : p <= r.start := not_lt.mp hlt
      obtain ⟨k, hshift, -⟩ := shiftFrom_eq_ok delta
        (replaceFrom_cons_eq_ok.mpr ⟨⟨hle, hchecks.2⟩, chunks, hchunks, rfl⟩) hpq hq
      rw [shiftFrom] at ha
      grind

/-- A pointer that is not inside a replaced range moves to where the content it points to stands,
and pointers keep their order. -/
theorem shiftedPointer_position (h : applyReplacements data replacements = .ok out)
    (hp : p ≠ 0 ∧ ∀ r ∈ replacements, ¬ r.Inside p) :
    ∃ k : Nat, shiftedPointer p replacements = .ok k ∧ Stands data replacements p (out.drop k) ∧
      ∀ q, p <= q -> (∀ r ∈ replacements, ¬ r.Inside q) ->
        ∃ k', shiftedPointer q replacements = .ok k' ∧ k <= k' := by
  have hmem (r : Replacement) : r ∈ ordered replacements ↔ r ∈ replacements :=
    mem_insertionSort _
  have hwalk (q : Nat) (hq : ∀ r ∈ replacements, ¬ r.Inside q) :=
    shiftFrom_eq_ok 0 h (Nat.zero_le q) fun r hr => hq r ((hmem r).mp hr)
  obtain ⟨k, hk, hstands⟩ := hwalk p hp.2
  refine ⟨k, ?_, by simpa only [Stands, hmem] using hstands, fun q hpq hq => ?_⟩
  · simpa [shiftedPointer, hp.1] using hk
  · obtain ⟨k', hk', -⟩ := hwalk q hq
    refine ⟨_, (if_neg (by omega)).trans hk', ?_⟩
    have := shiftFrom_mono h hpq (fun r hr => hq r ((hmem r).mp hr)) hk hk'
    omega

/-- No range starts in the block or reaches into it. -/
def Clear (replacements : List Replacement) (p n : Nat) : Prop :=
  ∀ r ∈ replacements, (r.start < p ∧ r.stop <= p) ∨ p + n <= r.start

theorem shiftFrom_add (h : Clear rest p n) (hq : q < n) (ha : shiftFrom p delta rest = .ok a) :
    shiftFrom (p + q) delta rest = .ok (a + q) := by
  induction rest generalizing delta with
  | nil =>
    obtain rfl : p + delta = a := Except.ok.inj ha
    exact congrArg Except.ok (by omega)
  | cons r rest ih =>
    obtain ⟨hr, hrest⟩ := forall_mem_cons.mp h
    rcases hr with hbefore | hbehind
    · rw [shiftFrom, if_neg (by omega), if_neg (by omega), require_bind_eq_ok] at ha ⊢
      exact ⟨by omega, ih hrest ha.2⟩
    · rw [shiftFrom, if_pos (by omega)] at ha ⊢
      obtain rfl : p + delta = a := Except.ok.inj ha
      exact congrArg Except.ok (by omega)

/-- A block that no range meets is whole where its pointer has moved. -/
theorem shiftedPointer_block (h : applyReplacements data replacements = .ok out) (hp : p ≠ 0)
    (hn : n ≠ 0) (hclear : Clear replacements p n) :
    ∃ k : Nat, shiftedPointer p replacements = .ok k ∧ ∀ i < n, out[k + i]? = data[p + i]? := by
  have hclear' : Clear (ordered replacements) p n := fun r hr =>
    hclear r ((mem_insertionSort _).mp hr)
  have hbyte : ∀ i < n, ∃ k : Nat, shiftFrom (p + i) 0 (ordered replacements) = .ok k ∧
      out[k]? = data[p + i]? := by
    intro i hi
    obtain ⟨k, hk, hstands⟩ := shiftFrom_eq_ok 0 h (Nat.zero_le (p + i)) fun r hr hin => by
      have := hclear' r hr
      have := hin.1
      have := hin.2
      omega
    rw [Stands, if_neg fun ⟨r, hr, heq⟩ => by have := hclear' r hr; omega] at hstands
    exact ⟨k, by simpa using hk, by simpa using hstands⟩
  obtain ⟨k, hk, -⟩ := hbyte 0 (by omega)
  refine ⟨k, by rwa [shiftedPointer, if_neg hp], fun i hi => ?_⟩
  obtain ⟨k', hk', hsame⟩ := hbyte i hi
  rw [shiftFrom_add hclear' hi hk] at hk'
  have hsum : k + i = k' := by exact_mod_cast Except.ok.inj hk'
  rw [hsum, hsame]

/-- The second byte of three is replaced by two. -/
def widened : List Replacement := [⟨1, 2, [8#8, 9#8]⟩]

theorem widened_moves : applyReplacements [5#8, 6#8, 7#8] widened = .ok [5#8, 8#8, 9#8, 7#8] ∧
    ∃ k : Nat, shiftedPointer 2 widened = .ok k ∧
      Stands [5#8, 6#8, 7#8] widened 2 ([5#8, 8#8, 9#8, 7#8].drop k) := by
  obtain ⟨k, hk, hstands, -⟩ := shiftedPointer_position (p := 2)
    (rfl : applyReplacements [5#8, 6#8, 7#8] widened = .ok [5#8, 8#8, 9#8, 7#8])
    ⟨by decide, by simp [widened, Replacement.Inside]⟩
  exact ⟨rfl, k, hk, hstands⟩

theorem widened_block : ∃ k : Nat, shiftedPointer 2 widened = .ok k ∧
    ∀ i < 1, [5#8, 8#8, 9#8, 7#8][k + i]? = [5#8, 6#8, 7#8][2 + i]? :=
  shiftedPointer_block rfl (by decide) (by decide) (by simp [Clear, widened])

end Reprobit.Coff

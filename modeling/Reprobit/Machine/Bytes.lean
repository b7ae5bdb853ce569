import Reprobit.Machine.State

/-!
# Slices of a byte string

A file is a list of bytes.  A span is a half-open range of offsets; two files can
agree on a span, and a range can be overwritten in place.
-/

namespace Reprobit.Machine

open List

/-- The offsets from `start` up to but not including `stop`. -/
structure Span where
  start : Nat
  stop : Nat
  deriving DecidableEq, Repr

namespace Span

instance : Membership Nat Span := ⟨fun span o => span.start <= o ∧ o < span.stop⟩

theorem mem_def {o : Nat} {span : Span} : o ∈ span ↔ span.start <= o ∧ o < span.stop := Iff.rfl

instance (o : Nat) (span : Span) : Decidable (o ∈ span) :=
  inferInstanceAs (Decidable (span.start <= o ∧ o < span.stop))

/-- The span of `size` offsets from `start` on. -/
def ofSize (start size : Nat) : Span := ⟨start, start + size⟩

@[simp] theorem mem_ofSize {o start size : Nat} :
    o ∈ ofSize start size ↔ start <= o ∧ o < start + size := Iff.rfl

def Within (a b : Span) : Prop := ∀ o, o ∈ a -> o ∈ b

/-- No offset lies in both spans. -/
def Apart (a b : Span) : Prop := ∀ o, o ∈ a -> o ∉ b

theorem within_iff {a b : Span} :
    a.Within b ↔ a.stop <= a.start ∨ (b.start <= a.start ∧ a.stop <= b.stop) := by
  constructor
  · intro h
    by_cases hempty : a.stop <= a.start
    · exact .inl hempty
    · have h1 := h a.start ⟨Nat.le_refl _, by omega⟩
      have h2 := h (a.stop - 1) ⟨by omega, by omega⟩
      simp only [mem_def] at h1 h2
      omega
  · intro h o ho
    simp only [mem_def] at ho ⊢
    omega

theorem apart_iff {a b : Span} :
    a.Apart b ↔ a.stop <= a.start ∨ b.stop <= b.start ∨ a.stop <= b.start ∨ b.stop <= a.start := by
  constructor
  · intro h
    have hmem := h (max a.start b.start)
    simp only [mem_def] at hmem
    omega
  · intro h o ho hb
    simp only [mem_def] at ho hb
    omega

instance (a b : Span) : Decidable (a.Within b) := decidable_of_iff _ within_iff.symm

instance (a b : Span) : Decidable (a.Apart b) := decidable_of_iff _ apart_iff.symm

end Span

def slice (data : List Byte) (start size : Nat) : List Byte := (data.drop start).take size

@[simp] theorem slice_length (data : List Byte) (start size : Nat) :
    (slice data start size).length = min size (data.length - start) := by
  simp [slice]

theorem slice_getElem? (data : List Byte) (start size i : Nat) :
    (slice data start size)[i]? = if i < size then data[start + i]? else none := by
  simp only [slice, getElem?_take, getElem?_drop]

def AgreeOn (data data' : List Byte) (span : Span) : Prop := ∀ o ∈ span, data[o]? = data'[o]?

variable {data data' : List Byte} {start size : Nat}

theorem slice_eq_iff :
    slice data start size = slice data' start size ↔
      AgreeOn data data' (Span.ofSize start size) := by
  constructor
  · intro h o ho
    simp only [Span.mem_ofSize] at ho
    have hi := congrArg (fun l : List Byte => l[o - start]?) h
    simp only [slice_getElem?, show o - start < size by omega,
      show start + (o - start) = o by omega] at hi
    exact hi
  · intro h
    apply ext_getElem?
    intro i
    rw [slice_getElem?, slice_getElem?]
    split
    · exact h (start + i) (Span.mem_ofSize.mpr (by omega))
    · rfl

theorem AgreeOn.slice {span : Span} (h : AgreeOn data data' span) (hstart : span.start <= start)
    (hstop : start + size <= span.stop) : slice data' start size = slice data start size :=
  (slice_eq_iff.mpr fun o ho => h o ⟨hstart.trans ho.1, ho.2.trans_le hstop⟩).symm

def Span.bytes (span : Span) (data : List Byte) : List Byte :=
  Machine.slice data span.start (span.stop - span.start)

@[simp] theorem Span.bytes_ofSize (data : List Byte) (start size : Nat) :
    (Span.ofSize start size).bytes data = Machine.slice data start size := by
  simp [Span.bytes, Span.ofSize]

theorem Span.bytes_eq_iff {span : Span} :
    span.bytes data = span.bytes data' ↔ AgreeOn data data' span := by
  rw [Span.bytes, Span.bytes, slice_eq_iff]
  constructor
  · intro h o ho
    rw [Span.mem_def] at ho
    exact h o (Span.mem_ofSize.mpr (by omega))
  · intro h o ho
    rw [Span.mem_ofSize] at ho
    exact h o (Span.mem_def.mpr (by omega))

/-- The file with some bytes written over those at `start`. -/
def overwrite (data : List Byte) (start : Nat) (bytes : List Byte) : List Byte :=
  data.take start ++ bytes ++ data.drop (start + bytes.length)

variable {data bytes : List Byte}

theorem overwrite_length {start : Nat}
    (h : start + bytes.length <= data.length) :
    (overwrite data start bytes).length = data.length := by
  simp only [overwrite, length_append, length_take, length_drop]
  omega

theorem slice_overwrite {start : Nat} (h : start + bytes.length <= data.length) :
    slice (overwrite data start bytes) start bytes.length = bytes := by
  have hstart : (data.take start).length = start := by
    rw [length_take]
    omega
  rw [slice, overwrite, append_assoc, drop_left' hstart, take_left]

theorem overwrite_getElem? {start : Nat}
    (h : start + bytes.length <= data.length) (o : Nat) :
    (overwrite data start bytes)[o]? =
      if o ∈ Span.ofSize start bytes.length then bytes[o - start]? else data[o]? := by
  have hlen : (data.take start).length = start := by
    rw [length_take]
    omega
  unfold overwrite
  split
  · next hin =>
      simp only [Span.mem_ofSize] at hin
      rw [append_assoc, getElem?_append_right (by omega), hlen,
        getElem?_append_left (by omega)]
  · next hout =>
      simp only [Span.mem_ofSize, not_and_or, not_le] at hout
      rcases hout with hlt | hge
      · rw [append_assoc, getElem?_append_left (by omega), getElem?_take_of_lt hlt]
      · rw [getElem?_append_right (by simp only [length_append]; omega),
          getElem?_drop]
        congr 1
        simp only [length_append]
        omega

/-- Python's assignment to a slice, whatever the length of the bytes. -/
def sliceAssign (data : List Byte) (start size : Nat) (bytes : List Byte) : List Byte :=
  data.take start ++ bytes ++ data.drop (start + size)

theorem sliceAssign_eq_overwrite
    (h : bytes.length = size) : sliceAssign data start size bytes = overwrite data start bytes := by
  rw [sliceAssign, overwrite, h]

theorem sliceAssign_length_le {start : Nat} :
    (sliceAssign data start bytes.length bytes).length <=
      max data.length (start + bytes.length) := by
  simp only [sliceAssign, length_append, length_take, length_drop]
  omega

/-- The little-endian bytes of a number. -/
def leBytes : Nat -> Nat -> List Byte
  | 0, _ => []
  | width + 1, n => BitVec.ofNat 8 n :: leBytes width (n / 256)

@[simp] theorem leBytes_length (width n : Nat) : (leBytes width n).length = width := by
  induction width generalizing n with
  | zero => rfl
  | succ width ih => simp [leBytes, ih]

end Reprobit.Machine

import Reprobit.Machine.Bounded

/-!
# Encodings of code points

Texts as lists of code points, surrogates included, and the octets of UTF-8, UTF-16 and
UTF-32.  Decoding lets surrogates pass that stand alone; encoding to UTF-8 refuses them.
-/

namespace Reprobit.Machine.Unicode

open List Option

def isHigh (c : Nat) : Bool := 0xD800 <= c && c <= 0xDBFF

def isLow (c : Nat) : Bool := 0xDC00 <= c && c <= 0xDFFF

def isSurrogate (c : Nat) : Bool := 0xD800 <= c && c <= 0xDFFF

/-- The code point of a pair of surrogates. -/
def paired (high low : Nat) : Nat := 0x10000 + (high - 0xD800) * 0x400 + (low - 0xDC00)

/-! ## UTF-8 -/

def isTail (b : Nat) : Bool := 0x80 <= b && b <= 0xBF

def decodePoint (octets : List Nat) : Option (Nat × List Nat) :=
  match octets with
  | [] => none
  | a :: rest =>
    if a < 0x80 then some (a, rest)
    else
      match rest with
      | [] => none
      | b :: rest =>
        if a < 0xE0 then
          if 0xC2 <= a ∧ isTail b then some ((a - 0xC0) * 0x40 + (b - 0x80), rest) else none
        else
          match rest with
          | [] => none
          | c :: rest =>
            if a < 0xF0 then
              let code := (a - 0xE0) * 0x1000 + (b - 0x80) * 0x40 + (c - 0x80)
              if isTail b ∧ isTail c ∧ 0x800 <= code then some (code, rest) else none
            else
              match rest with
              | [] => none
              | d :: rest =>
                let code := (a - 0xF0) * 0x40000 + (b - 0x80) * 0x1000 +
                  (c - 0x80) * 0x40 + (d - 0x80)
                if isTail b ∧ isTail c ∧ isTail d ∧ 0x10000 <= code ∧ code < 0x110000 then
                  some (code, rest)
                else none

def decodePoints : Nat -> List Nat -> Option (List Nat)
  | _, [] => some []
  | 0, _ :: _ => none
  | fuel + 1, octet :: octets => do
    let (code, rest) <- decodePoint (octet :: octets)
    let text <- decodePoints fuel rest
    some (code :: text)

def decodeUtf8 (octets : List Nat) : Option (List Nat) := decodePoints octets.length octets

def encodePoint (c : Nat) : Option (List Nat) :=
  if c < 0x80 then some [c]
  else if c < 0x800 then some [0xC0 + c / 0x40, 0x80 + c % 0x40]
  else if isSurrogate c then none
  else if c < 0x10000 then
    some [0xE0 + c / 0x1000, 0x80 + c / 0x40 % 0x40, 0x80 + c % 0x40]
  else if c < 0x110000 then
    some [0xF0 + c / 0x40000, 0x80 + c / 0x1000 % 0x40, 0x80 + c / 0x40 % 0x40, 0x80 + c % 0x40]
  else none

def encodeUtf8 : List Nat -> Option (List Nat)
  | [] => some []
  | c :: rest => do
    let octets <- encodePoint c
    let more <- encodeUtf8 rest
    some (octets ++ more)

variable {c : Nat} {octets text : List Nat}

theorem decodePoint_encodePoint (h : encodePoint c = some octets) (rest : List Nat) :
    decodePoint (octets ++ rest) = some (c, rest) := by
  unfold encodePoint at h
  split at h
  · rename_i hc
    cases h
    simp only [cons_append, nil_append, decodePoint, if_pos hc]
  split at h
  · cases h
    have hlead : ¬0xC0 + c / 0x40 < 0x80 := by omega
    have htwo : 0xC0 + c / 0x40 < 0xE0 := by omega
    have hcode : (0xC0 + c / 0x40 - 0xC0) * 0x40 + (0x80 + c % 0x40 - 0x80) = c := by omega
    have hform : 0xC2 <= 0xC0 + c / 0x40 ∧ isTail (0x80 + c % 0x40) = true := by
      simp only [isTail, Bool.and_eq_true, decide_eq_true_eq]
      omega
    simp only [cons_append, nil_append, decodePoint, if_neg hlead, if_pos htwo,
      if_pos hform, hcode]
  split at h
  · cases h
  split at h
  · cases h
    have hlead : ¬0xE0 + c / 0x1000 < 0x80 := by omega
    have htwo : ¬0xE0 + c / 0x1000 < 0xE0 := by omega
    have hthree : 0xE0 + c / 0x1000 < 0xF0 := by omega
    have hcode : (0xE0 + c / 0x1000 - 0xE0) * 0x1000 + (0x80 + c / 0x40 % 0x40 - 0x80) * 0x40 +
        (0x80 + c % 0x40 - 0x80) = c := by omega
    have hform : isTail (0x80 + c / 0x40 % 0x40) = true ∧ isTail (0x80 + c % 0x40) = true ∧
        0x800 <= c := by
      simp only [isTail, Bool.and_eq_true, decide_eq_true_eq]
      omega
    simp only [cons_append, nil_append, decodePoint, if_neg hlead, if_neg htwo,
      if_pos hthree, hcode, if_pos hform]
  split at h
  · cases h
    have hlead : ¬0xF0 + c / 0x40000 < 0x80 := by omega
    have htwo : ¬0xF0 + c / 0x40000 < 0xE0 := by omega
    have hthree : ¬0xF0 + c / 0x40000 < 0xF0 := by omega
    have hcode : (0xF0 + c / 0x40000 - 0xF0) * 0x40000 +
        (0x80 + c / 0x1000 % 0x40 - 0x80) * 0x1000 + (0x80 + c / 0x40 % 0x40 - 0x80) * 0x40 +
        (0x80 + c % 0x40 - 0x80) = c := by omega
    have hform : isTail (0x80 + c / 0x1000 % 0x40) = true ∧
        isTail (0x80 + c / 0x40 % 0x40) = true ∧ isTail (0x80 + c % 0x40) = true ∧
        0x10000 <= c ∧ c < 0x110000 := by
      simp only [isTail, Bool.and_eq_true, decide_eq_true_eq]
      omega
    simp only [cons_append, nil_append, decodePoint, if_neg hlead, if_neg htwo,
      if_neg hthree, hcode, if_pos hform]
  · cases h

theorem encodePoint_ne_nil (h : encodePoint c = some octets) : octets ≠ [] := by
  unfold encodePoint at h
  split_ifs at h <;> (cases h; simp)

theorem decodePoints_encodeUtf8 (h : encodeUtf8 text = some octets) {fuel : Nat}
    (hfuel : octets.length <= fuel) : decodePoints fuel octets = some text := by
  induction text generalizing octets fuel with
  | nil =>
    cases h
    cases fuel <;> rfl
  | cons c rest ih =>
    obtain ⟨first, hfirst, h⟩ := bind_eq_some_iff.mp h
    obtain ⟨more, hmore, h⟩ := bind_eq_some_iff.mp h
    cases h
    obtain ⟨octet, tail, rfl⟩ := exists_cons_of_ne_nil (encodePoint_ne_nil hfirst)
    rw [length_append, length_cons] at hfuel
    obtain ⟨fuel, rfl⟩ : ∃ n, fuel = n + 1 := ⟨fuel - 1, by omega⟩
    have hpoint := decodePoint_encodePoint hfirst more
    rw [cons_append] at hpoint
    rw [cons_append, decodePoints, hpoint]
    change ((decodePoints fuel more).bind fun text => some (c :: text)) = _
    rw [ih hmore (by omega)]
    rfl

theorem decodeUtf8_encodeUtf8 (h : encodeUtf8 text = some octets) :
    decodeUtf8 octets = some text := decodePoints_encodeUtf8 h (Nat.le_refl _)

/-- Unicode scalar values: the code points that have an encoding. -/
def Scalar (c : Nat) : Prop := c < 0x110000 ∧ isSurrogate c = false

instance (c : Nat) : Decidable (Scalar c) := inferInstanceAs (Decidable (_ ∧ _))

theorem exists_encodePoint : (∃ octets, encodePoint c = some octets) ↔ Scalar c := by
  have hlow : c < 0x800 -> isSurrogate c = false := by
    simp only [isSurrogate, Bool.and_eq_false_iff, decide_eq_false_iff_not]
    omega
  unfold encodePoint Scalar
  split_ifs with h1 h2 h3 h4 h5
  · simpa using ⟨by omega, hlow (by omega)⟩
  · simpa using ⟨by omega, hlow h2⟩
  · simp [h3]
  · simpa [h3] using (by omega : c < 1114112)
  · simpa [h3] using h5
  · simpa [h3] using h5

theorem exists_encodeUtf8 : (∃ octets, encodeUtf8 text = some octets) ↔ ∀ c ∈ text, Scalar c := by
  induction text with
  | nil => simp [encodeUtf8]
  | cons c rest ih =>
    rw [forall_mem_cons, <- exists_encodePoint, <- ih]
    constructor
    · rintro ⟨octets, h⟩
      obtain ⟨first, hfirst, h⟩ := bind_eq_some_iff.mp h
      obtain ⟨more, hmore, _⟩ := bind_eq_some_iff.mp h
      exact ⟨⟨_, hfirst⟩, ⟨_, hmore⟩⟩
    · rintro ⟨⟨first, hfirst⟩, ⟨more, hmore⟩⟩
      exact ⟨first ++ more, by rw [encodeUtf8, hfirst, hmore]; rfl⟩

theorem encodePoint_octets (h : encodePoint c = some octets) {o : Nat} (ho : o ∈ octets) :
    o < 256 ∧ (c ≠ 0 -> o ≠ 0) := by
  unfold encodePoint at h
  split_ifs at h
  all_goals
    cases h
    simp only [mem_cons, not_mem_nil, or_false] at ho
    omega

theorem encodeUtf8_octets (h : encodeUtf8 text = some octets) {o : Nat} (ho : o ∈ octets) :
    o < 256 ∧ ((∀ c ∈ text, c ≠ 0) -> o ≠ 0) := by
  induction text generalizing octets with
  | nil =>
    cases h
    cases ho
  | cons c rest ih =>
    obtain ⟨first, hfirst, h⟩ := bind_eq_some_iff.mp h
    obtain ⟨more, hmore, h⟩ := bind_eq_some_iff.mp h
    cases h
    simp only [forall_mem_cons]
    rcases mem_append.mp ho with ho | ho
    · have := encodePoint_octets hfirst ho
      exact ⟨this.1, fun hc => this.2 hc.1⟩
    · have := ih hmore ho
      exact ⟨this.1, fun hc => this.2 hc.2⟩

theorem encodeUtf8_ascii (hc : c < 0x80) {rest : List Nat}
    (h : encodeUtf8 (c :: rest) = some octets) : ∃ more, octets = c :: more := by
  obtain ⟨first, hfirst, h⟩ := bind_eq_some_iff.mp h
  obtain ⟨more, _, h⟩ := bind_eq_some_iff.mp h
  rw [encodePoint, if_pos hc] at hfirst
  cases hfirst
  cases h
  exact ⟨more, rfl⟩

def units16 (bigEndian : Bool) : List Nat -> Option (List Nat)
  | [] => some []
  | [_] => none
  | a :: b :: rest =>
    (units16 bigEndian rest).map ((if bigEndian then a * 0x100 + b else b * 0x100 + a) :: ·)

def joinPairs : List Nat -> List Nat
  | [] => []
  | [unit] => [unit]
  | high :: low :: rest =>
    if isHigh high ∧ isLow low then paired high low :: joinPairs rest
    else high :: joinPairs (low :: rest)

def decodeUtf16 (bigEndian : Bool) (octets : List Nat) : Option (List Nat) :=
  (units16 bigEndian octets).map joinPairs

def decodeUtf32 (bigEndian : Bool) : List Nat -> Option (List Nat)
  | [] => some []
  | a :: b :: c :: d :: rest =>
    let code :=
      if bigEndian then ((a * 0x100 + b) * 0x100 + c) * 0x100 + d
      else ((d * 0x100 + c) * 0x100 + b) * 0x100 + a
    if code < 0x110000 then (decodeUtf32 bigEndian rest).map (code :: ·) else none
  | _ => none

end Reprobit.Machine.Unicode

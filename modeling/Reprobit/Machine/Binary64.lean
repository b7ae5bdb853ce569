import Reprobit.Machine.Bounded
import Mathlib.Data.Nat.Digits.Lemmas

/-!
# Binary64 numbers and their decimal spellings

A number without a sign is a bit pattern: the patterns are ordered as the numbers are,
and the one behind the last finite number stands for infinity.  Decimals are rounded to
the nearest pattern, ties to the even one.  A number is spelled with as few digits as
round back to it.
-/

namespace Reprobit.Machine

open List

namespace Binary64

/-- The number in units of `2 ^ -1074`. -/
def magnitude (pattern : Nat) : Nat :=
  if pattern < 2 ^ 52 then pattern
  else (2 ^ 52 + pattern % 2 ^ 52) * 2 ^ (pattern / 2 ^ 52 - 1)

def infinity : Nat := 2047 * 2 ^ 52

/-- The next pattern is the next number, by one unit in the last place. -/
theorem magnitude_lt_succ (n : Nat) : magnitude n < magnitude (n + 1) := by
  unfold magnitude
  by_cases hsmall : n + 1 < 2 ^ 52
  · rw [if_pos (by omega), if_pos hsmall]
    omega
  by_cases hfirst : n < 2 ^ 52
  · have hn : n + 1 = 2 ^ 52 := by omega
    rw [if_pos hfirst, if_neg hsmall, hn]
    omega
  · rw [if_neg hfirst, if_neg hsmall]
    have hpos : 0 < 2 ^ (n / 2 ^ 52 - 1) := Nat.two_pow_pos _
    by_cases hcarry : n % 2 ^ 52 + 1 < 2 ^ 52
    · have hdiv : (n + 1) / 2 ^ 52 = n / 2 ^ 52 := by omega
      have hmod : (n + 1) % 2 ^ 52 = n % 2 ^ 52 + 1 := by omega
      rw [hdiv, hmod]
      exact Nat.mul_lt_mul_of_pos_right (by omega) hpos
    · -- the exponent grows, and the fraction begins again
      have hdiv : (n + 1) / 2 ^ 52 - 1 = (n / 2 ^ 52 - 1) + 1 := by omega
      have hmod : (n + 1) % 2 ^ 52 = 0 := by omega
      have hfull : n % 2 ^ 52 = 2 ^ 52 - 1 := by omega
      rw [hdiv, hmod, hfull, Nat.add_zero, pow_succ' 2 (n / 2 ^ 52 - 1), <- mul_assoc]
      exact Nat.mul_lt_mul_of_pos_right (by omega) hpos

theorem magnitude_strictMono : StrictMono magnitude := strictMono_nat_of_lt_succ magnitude_lt_succ

def greatest (p : Nat -> Bool) : Nat -> Nat -> Nat
  | 0, found => found
  | bits + 1, found => greatest p bits (if p (found + 2 ^ bits) then found + 2 ^ bits else found)

theorem greatest_spec {p : Nat -> Bool} (bits found : Nat) (hfound : p found = true)
    (hend : p (found + 2 ^ bits) = false) :
    p (greatest p bits found) = true ∧ p (greatest p bits found + 1) = false := by
  induction bits generalizing found with
  | zero => exact ⟨hfound, hend⟩
  | succ bits ih =>
    unfold greatest
    split
    · rename_i h
      refine ih _ h ?_
      rwa [Nat.add_assoc, <- Nat.two_mul, <- pow_succ']
    · rename_i h
      exact ih _ hfound (Bool.eq_false_iff.mpr h)

/-- The binary places behind the point. -/
def places : Nat := 1074

def unit : Nat := 2 ^ places

/-- The patterns up to a quotient. -/
def atMost (p q : Nat) (n : Nat) : Bool := decide (magnitude n * q <= p * unit)

/-- The pattern nearest to a quotient, the even one of two. -/
def nearest (p q : Nat) : Nat :=
  let low := greatest (atMost p q) 63 0
  let twice := 2 * (p * unit)
  let middle := (magnitude low + magnitude (low + 1)) * q
  min infinity (if twice < middle then low
    else if middle < twice then low + 1
    else low + low % 2)

theorem nearest_le (p q : Nat) : nearest p q <= infinity := Nat.min_le_left _ _

theorem nearest_congr {p q p' q' : Nat} (hq : 0 < q) (hq' : 0 < q') (h : p * q' = p' * q) :
    nearest p q = nearest p' q' := by
  -- a comparison of products with the one quotient is one with the other
  have hleft : ∀ a, a * q * q' = a * q' * q := fun a => by ring
  have hright : ∀ b, b * (p * unit) * q' = b * (p' * unit) * q := fun b => by
    calc b * (p * unit) * q' = b * unit * (p * q') := by ring
      _ = b * (p' * unit) * q := by rw [h]; ring
  have hlow : ∀ a b, a * q < b * (p * unit) ↔ a * q' < b * (p' * unit) := fun a b => by
    rw [<- Nat.mul_lt_mul_right hq', hleft, hright, Nat.mul_lt_mul_right hq]
  have hhigh : ∀ a b, b * (p * unit) < a * q ↔ b * (p' * unit) < a * q' := fun a b => by
    rw [<- Nat.mul_lt_mul_right hq', hleft, hright, Nat.mul_lt_mul_right hq]
  have hatMost : atMost p q = atMost p' q' := by
    funext n
    have hn := hhigh (magnitude n) 1
    rw [one_mul, one_mul] at hn
    simp only [atMost, <- not_lt, hn]
  simp only [nearest, hatMost, hlow, hhigh]

variable {n : Nat} (fuel : Nat)

/-- A quotient that is a number of the format is rounded to it. -/
theorem nearest_eq {p q : Nat} (hq : 0 < q) (hn : n < infinity) (h : p * unit = magnitude n * q) :
    nearest p q = n := by
  have hmono : ∀ k, atMost p q k = decide (k <= n) := fun k => by
    simp only [atMost, h, Nat.mul_le_mul_right_iff hq, magnitude_strictMono.le_iff_le]
  have hlow : greatest (atMost p q) 63 0 = n := by
    have hspec := greatest_spec (p := atMost p q) 63 0 (by simp [hmono]) (by
        rw [hmono, decide_eq_false_iff_not]
        unfold infinity at hn
        omega)
    simp only [hmono, decide_eq_true_eq, decide_eq_false_iff_not] at hspec
    omega
  have hbelow : 2 * (p * unit) < (magnitude n + magnitude (n + 1)) * q := by
    have hlt : magnitude n * q < magnitude (n + 1) * q :=
      Nat.mul_lt_mul_of_pos_right (magnitude_lt_succ n) hq
    rw [h, Nat.add_mul]
    omega
  simp only [nearest, hlow, if_pos hbelow]
  exact Nat.min_eq_right hn.le

def nearestDecimal (mantissa : Nat) (scale : Int) : Nat :=
  nearest (mantissa * 10 ^ scale.toNat) (10 ^ (-scale).toNat)

theorem nearestDecimal_shift (mantissa : Nat) (scale : Int) (zeros : Nat) :
    nearestDecimal (mantissa * 10 ^ zeros) (scale - zeros) = nearestDecimal mantissa scale := by
  refine nearest_congr (Nat.pow_pos (by omega)) (Nat.pow_pos (by omega)) ?_
  have hexponent : zeros + (scale - zeros).toNat + (-scale).toNat =
      scale.toNat + (-(scale - zeros)).toNat := by omega
  calc mantissa * 10 ^ zeros * 10 ^ (scale - zeros).toNat * 10 ^ (-scale).toNat
      = mantissa * 10 ^ (zeros + (scale - zeros).toNat + (-scale).toNat) := by ring
    _ = mantissa * 10 ^ scale.toNat * 10 ^ (-(scale - zeros)).toNat := by rw [hexponent]; ring

theorem nearestDecimal_zero (scale : Int) : nearestDecimal 0 scale = 0 := by
  refine nearest_eq (Nat.pow_pos (by omega)) (by decide) ?_
  simp [magnitude]

/-! ## The shortest spelling -/

/-- All digits of a number: it is this many times `10 ^ -1074`. -/
def allDigits (pattern : Nat) : Nat := magnitude pattern * 5 ^ places

theorem nearestDecimal_allDigits (hn : n < infinity) :
    nearestDecimal (allDigits n) (-places) = n := by
  refine nearest_eq (Nat.pow_pos (by omega)) hn ?_
  have hten : (10 : Nat) ^ places = 5 ^ places * 2 ^ places := by rw [<- Nat.mul_pow]
  have hpos : (-(places : Int)).toNat = 0 := by omega
  have hneg : (- -(places : Int)).toNat = places := by omega
  rw [hpos, hneg, hten, pow_zero, mul_one, allDigits, unit, mul_assoc]

/-- The neighbour rounded back to it, or the nearer one. -/
def shortened (pattern dropped : Nat) : Option Nat :=
  let low := allDigits pattern / 10 ^ dropped
  let rest := allDigits pattern % 10 ^ dropped
  let back := fun mantissa => nearestDecimal mantissa ((dropped : Int) - places) = pattern
  if back low ∧ back (low + 1) then
    some (if 2 * rest < 10 ^ dropped ∨ 2 * rest = 10 ^ dropped ∧ low % 2 = 0 then low else low + 1)
  else if back low then some low
  else if back (low + 1) then some (low + 1)
  else none

theorem shortened_back {dropped mantissa : Nat} (h : shortened n dropped = some mantissa) :
    nearestDecimal mantissa ((dropped : Int) - places) = n := by
  simp only [shortened] at h
  split at h
  · rename_i hback
    cases h
    split
    · exact hback.1
    · exact hback.2
  split at h
  · rename_i hback
    cases h
    exact hback
  split at h
  · rename_i hback
    cases h
    exact hback
  · cases h

/-- As many digits left out as possible, and how many are out. -/
def shortestFrom (pattern : Nat) : Nat -> Nat × Nat
  | 0 => (allDigits pattern, 0)
  | dropped + 1 =>
    ((shortened pattern (dropped + 1)).map fun mantissa => (mantissa, dropped + 1)).getD
      (shortestFrom pattern dropped)

theorem shortestFrom_back (hn : n < infinity) (dropped : Nat) :
    nearestDecimal (shortestFrom n dropped).1 ((shortestFrom n dropped).2 - places) = n := by
  induction dropped with
  | zero =>
    have hall := nearestDecimal_allDigits hn
    rwa [<- Int.zero_sub] at hall
  | succ dropped ih =>
    rw [shortestFrom]
    cases hmantissa : shortened n (dropped + 1) with
    | some mantissa => exact shortened_back hmantissa
    | none => exact ih

/-- Without zeros at its end; first a bound on their number. -/
def stripZeros : Nat -> Nat × Int -> Nat × Int
  | 0, decimal => decimal
  | fuel + 1, (mantissa, scale) =>
    if mantissa ≠ 0 ∧ mantissa % 10 = 0 then stripZeros fuel (mantissa / 10, scale + 1)
    else (mantissa, scale)

theorem nearestDecimal_stripZeros (decimal : Nat × Int) :
    nearestDecimal (stripZeros fuel decimal).1 (stripZeros fuel decimal).2 =
      nearestDecimal decimal.1 decimal.2 := by
  induction fuel generalizing decimal with
  | zero => rfl
  | succ fuel ih =>
    obtain ⟨mantissa, scale⟩ := decimal
    unfold stripZeros
    split
    · rename_i h
      rw [ih, <- nearestDecimal_shift (mantissa / 10) (scale + 1) 1]
      have hmantissa : mantissa / 10 * 10 ^ 1 = mantissa := by omega
      have hscale : scale + 1 - ((1 : Nat) : Int) = scale := by omega
      rw [hmantissa, hscale]
    · rfl

/-- The decimal digits a number has at most. -/
def digitCount (pattern : Nat) : Nat := (Nat.digits 10 (allDigits pattern)).length

/-- The number with as few digits as possible. -/
def fewest (pattern : Nat) : Nat × Nat := shortestFrom pattern (digitCount pattern - 1)

def shortest (pattern : Nat) : Nat × Int :=
  stripZeros (digitCount pattern) ((fewest pattern).1, ((fewest pattern).2 : Int) - places)

theorem fewest_back (hn : n < infinity) : nearestDecimal (fewest n).1 ((fewest n).2 - places) = n :=
  shortestFrom_back hn (digitCount n - 1)

theorem stripZeros_back (decimal : Nat × Nat)
    (h : nearestDecimal decimal.1 (decimal.2 - places) = n) :
    nearestDecimal (stripZeros fuel (decimal.1, (decimal.2 : Int) - places)).1
      (stripZeros fuel (decimal.1, (decimal.2 : Int) - places)).2 = n := by
  rw [nearestDecimal_stripZeros]
  exact h

theorem shortest_back (hn : n < infinity) : nearestDecimal (shortest n).1 (shortest n).2 = n :=
  stripZeros_back (digitCount n) (fewest n) (fewest_back hn)

end Binary64

/-- A number that is not NaN. -/
@[ext] structure Binary64 where
  negative : Bool
  pattern : Nat
  le_infinity : pattern <= Binary64.infinity
  deriving DecidableEq

def Binary64.isFinite (x : Binary64) : Bool := decide (x.pattern < Binary64.infinity)

/-- The digits of a number, the first one first. -/
def decimalDigits (n : Nat) : List Nat := if n = 0 then [0] else (Nat.digits 10 n).reverse

def ofDecimalDigits (digits : List Nat) : Nat := Nat.ofDigits 10 digits.reverse

theorem ofDecimalDigits_append (xs ys : List Nat) :
    ofDecimalDigits (xs ++ ys) = ofDecimalDigits xs * 10 ^ ys.length + ofDecimalDigits ys := by
  rw [ofDecimalDigits, reverse_append, Nat.ofDigits_append, length_reverse]
  simp only [ofDecimalDigits]
  ring

@[simp] theorem ofDecimalDigits_decimalDigits (n : Nat) :
    ofDecimalDigits (decimalDigits n) = n := by
  unfold decimalDigits
  split
  · rename_i h
    rw [h]
    rfl
  · rw [ofDecimalDigits, reverse_reverse, Nat.ofDigits_digits]

theorem ofDecimalDigits_zeros (count : Nat) : ofDecimalDigits (List.replicate count 0) = 0 := by
  induction count with
  | zero => rfl
  | succ count ih =>
    have happend := ofDecimalDigits_append [0] (List.replicate count 0)
    exact happend.trans (by simp [ofDecimalDigits])

theorem decimalDigits_lt {n d : Nat} (h : d ∈ decimalDigits n) : d < 10 := by
  unfold decimalDigits at h
  split at h
  · rw [mem_singleton] at h
    omega
  · exact Nat.digits_lt_base (by omega) (mem_reverse.mp h)

theorem decimalDigits_ne_nil (n : Nat) : decimalDigits n ≠ [] := by
  unfold decimalDigits
  split
  · simp
  · rename_i h
    simpa [Nat.digits_ne_nil_iff_ne_zero] using h

theorem decimalDigits_head {n : Nat} (hn : n ≠ 0) {d : Nat} {rest : List Nat}
    (h : decimalDigits n = d :: rest) : d ≠ 0 := by
  rw [decimalDigits, if_neg hn] at h
  have hlast := Nat.getLast_digit_ne_zero 10 hn
  have hdigits : Nat.digits 10 n = rest.reverse ++ [d] := by
    rw [<- reverse_reverse (Nat.digits 10 n), h, reverse_cons]
  simpa [hdigits] using hlast

inductive ExponentSign where
  | none | plus | minus
  deriving DecidableEq, Repr

/-- Without digits behind the point there is no point. -/
structure DecimalLiteral where
  negative : Bool
  integer : List Nat
  fraction : List Nat
  exponent : Option (ExponentSign × List Nat)
  deriving DecidableEq, Repr

namespace DecimalLiteral

variable (literal : DecimalLiteral)

def IsFloat : Prop :=
  literal.fraction ≠ [] ∨ literal.exponent ≠ none

instance : Decidable literal.IsFloat :=
  inferInstanceAs (Decidable (_ ∨ _))

/-- Digits where the grammar has digits, and no zero in front of others. -/
structure WellFormed (literal : DecimalLiteral) : Prop where
  integer_ne_nil : literal.integer ≠ []
  integer_lt : ∀ d ∈ literal.integer, d < 10
  no_leading_zero : ∀ rest, literal.integer = 0 :: rest -> rest = []
  fraction_lt : ∀ d ∈ literal.fraction, d < 10
  exponent_ne_nil : ∀ e ∈ literal.exponent, e.2 ≠ []
  exponent_lt : ∀ e ∈ literal.exponent, ∀ d ∈ e.2, d < 10

def exponentValue : Int :=
  match literal.exponent with
  | none => 0
  | some (.minus, digits) => -(ofDecimalDigits digits : Int)
  | some (_, digits) => ofDecimalDigits digits

def toBinary64 : Binary64 where
  negative := literal.negative
  pattern := Binary64.nearestDecimal (ofDecimalDigits (literal.integer ++ literal.fraction))
    (literal.exponentValue - literal.fraction.length)
  le_infinity := Binary64.nearest_le _ _

theorem toBinary64_negative : literal.toBinary64.negative = literal.negative := rfl

end DecimalLiteral

namespace Binary64

def exponentDigits (n : Nat) : List Nat := if n < 10 then [0, n] else decimalDigits n

theorem ofDecimalDigits_exponentDigits (n : Nat) : ofDecimalDigits (exponentDigits n) = n := by
  unfold exponentDigits
  split
  · simp [ofDecimalDigits, Nat.ofDigits]
  · exact ofDecimalDigits_decimalDigits n

def exponentSign (point : Int) : ExponentSign := if point <= 0 then .minus else .plus

def pointed (negative : Bool) (digits : List Nat) (point : Int) : DecimalLiteral :=
  if -4 < point ∧ point <= 16 then
    if point <= 0 then ⟨negative, [0], List.replicate (-point).toNat 0 ++ digits, none⟩
    else if point < digits.length then
      ⟨negative, digits.take point.toNat, digits.drop point.toNat, none⟩
    else ⟨negative, digits ++ List.replicate (point - digits.length).toNat 0, [0], none⟩
  else
    ⟨negative, digits.take 1, digits.drop 1,
      some (exponentSign point, exponentDigits (point - 1).natAbs)⟩

def spell (negative : Bool) (decimal : Nat × Int) : DecimalLiteral :=
  if decimal.1 = 0 then ⟨negative, [0], [0], none⟩
  else
    pointed negative (decimalDigits decimal.1) ((decimalDigits decimal.1).length + decimal.2)

def repr (x : Binary64) : DecimalLiteral := spell x.negative (shortest x.pattern)

variable {digits : List Nat} (negative : Bool) (x : Binary64)

theorem pointed_toBinary64 {negative : Bool} (hdigits : digits ≠ []) (point : Int) :
    (pointed negative digits point).toBinary64.pattern =
      nearestDecimal (ofDecimalDigits digits) (point - digits.length) := by
  have hlength : 0 < digits.length := length_pos_iff.mpr hdigits
  unfold pointed
  split
  · split
    · -- zeros in front
      simp only [DecimalLiteral.toBinary64, DecimalLiteral.exponentValue]
      rw [ofDecimalDigits_append, ofDecimalDigits_append, ofDecimalDigits_zeros]
      have hzero : ofDecimalDigits [0] = 0 := rfl
      rw [hzero, Nat.zero_mul, Nat.zero_mul, Nat.zero_add, Nat.zero_add]
      congr 1
      rw [length_append, length_replicate]
      omega
    split
    · -- the point among the digits
      simp only [DecimalLiteral.toBinary64, DecimalLiteral.exponentValue, take_append_drop]
      congr 1
      rw [length_drop]
      omega
    · -- zeros behind
      simp only [DecimalLiteral.toBinary64, DecimalLiteral.exponentValue]
      rw [<- nearestDecimal_shift (ofDecimalDigits digits) (point - digits.length)
        ((point - digits.length).toNat + 1)]
      congr 1
      · have hzero : ofDecimalDigits [0] = 0 := rfl
        rw [ofDecimalDigits_append, ofDecimalDigits_append, ofDecimalDigits_zeros, hzero,
          length_replicate, length_singleton]
        ring
      · rw [length_singleton]
        omega
  · -- a point behind the first digit and an exponent
    simp only [DecimalLiteral.toBinary64, DecimalLiteral.exponentValue, take_append_drop]
    congr 1
    rw [length_drop]
    by_cases hnegative : point <= 0
    · simp only [exponentSign, if_pos hnegative, ofDecimalDigits_exponentDigits]
      omega
    · simp only [exponentSign, if_neg hnegative, ofDecimalDigits_exponentDigits]
      omega

theorem pointed_negative (digits : List Nat) (point : Int) :
    (pointed negative digits point).negative = negative := by
  unfold pointed
  split_ifs <;> rfl

theorem spell_pattern (decimal : Nat × Int) :
    (spell negative decimal).toBinary64.pattern = nearestDecimal decimal.1 decimal.2 := by
  unfold spell
  split
  · rename_i hzero
    rw [hzero, nearestDecimal_zero]
    exact nearestDecimal_zero _
  · rw [pointed_toBinary64 (decimalDigits_ne_nil decimal.1), ofDecimalDigits_decimalDigits,
      add_sub_cancel_left]

theorem spell_negative (decimal : Nat × Int) :
    (spell negative decimal).negative = negative := by
  unfold spell
  split
  · rfl
  · exact pointed_negative negative _ _

theorem repr_back {x : Binary64} (hx : x.isFinite = true) : x.repr.toBinary64 = x := by
  have hfinite : x.pattern < infinity := of_decide_eq_true hx
  have hpattern : x.repr.toBinary64.pattern = x.pattern :=
    (spell_pattern x.negative (shortest x.pattern)).trans (shortest_back hfinite)
  have hnegative : x.repr.toBinary64.negative = x.negative := by
    rw [DecimalLiteral.toBinary64_negative, repr, spell_negative]
  exact Binary64.ext hnegative hpattern

theorem exponentDigits_ne_nil (n : Nat) : exponentDigits n ≠ [] := by
  unfold exponentDigits
  split
  · simp
  · exact decimalDigits_ne_nil n

theorem exponentDigits_lt {n d : Nat} (h : d ∈ exponentDigits n) : d < 10 := by
  unfold exponentDigits at h
  split at h
  · simp only [mem_cons, not_mem_nil, or_false] at h
    omega
  · exact decimalDigits_lt h

theorem pointed_isFloat (hdigits : digits ≠ []) (point : Int) :
    (pointed negative digits point).IsFloat := by
  unfold pointed
  split_ifs with _ hfront hamong
  · exact .inl (by simp [hdigits])
  · refine .inl fun hnil => ?_
    have hlength := congrArg List.length hnil
    rw [length_drop, length_nil] at hlength
    omega
  · exact .inl (by simp)
  · exact .inr (by simp)

theorem pointed_wellFormed (hdigits : digits ≠ []) (hlt : ∀ d ∈ digits, d < 10)
    (hhead : ∀ rest, digits ≠ 0 :: rest) (point : Int) :
    (pointed negative digits point).WellFormed := by
  have hzeros : ∀ {count d : Nat}, d ∈ List.replicate count 0 -> d < 10 := by
    intro count d hd
    rw [eq_of_mem_replicate hd]
    omega
  obtain ⟨first, more, rfl⟩ := exists_cons_of_ne_nil hdigits
  have hfirst : first ≠ 0 := fun h => hhead more (h ▸ rfl)
  unfold pointed
  split_ifs with _ hfront hamong
  · refine ⟨by simp, by simp, by simp, fun d hd => ?_, by simp, by simp⟩
    exact (mem_append.mp hd).elim hzeros (hlt d)
  · obtain ⟨count, hcount⟩ : ∃ count, point.toNat = count + 1 := ⟨point.toNat - 1, by omega⟩
    refine ⟨by simp [hcount], fun d hd => hlt d (mem_of_mem_take hd), fun rest hrest => ?_,
      fun d hd => hlt d (mem_of_mem_drop hd), by simp, by simp⟩
    rw [hcount, take_succ_cons] at hrest
    exact absurd (List.cons.inj hrest).1 hfirst
  · refine ⟨by simp, fun d hd => ?_, fun rest hrest => ?_, by simp, by simp, by simp⟩
    · exact (mem_append.mp hd).elim (hlt d) hzeros
    · exact absurd (List.cons.inj hrest).1 hfirst
  · refine ⟨by simp, fun d hd => hlt d (mem_of_mem_take hd), fun rest hrest => ?_,
      fun d hd => hlt d (mem_of_mem_drop hd), ?_, ?_⟩
    · exact absurd (List.cons.inj hrest).1 hfirst
    · rintro e he
      cases he
      exact exponentDigits_ne_nil _
    · rintro e he d hd
      cases he
      exact exponentDigits_lt hd

theorem repr_isFloat : x.repr.IsFloat := by
  unfold repr
  unfold spell
  split
  · exact .inl (by simp)
  · exact pointed_isFloat _ (decimalDigits_ne_nil _) _

theorem repr_wellFormed : x.repr.WellFormed := by
  unfold repr
  unfold spell
  split
  · exact ⟨by simp, by simp, by simp, by simp, by simp, by simp⟩
  · rename_i hmantissa
    exact pointed_wellFormed _ (decimalDigits_ne_nil _) (fun d hd => decimalDigits_lt hd)
      (fun rest h => decimalDigits_head hmantissa h rfl) _

end Binary64

end Reprobit.Machine

import Reprobit.Machine.Region
import Reprobit.Machine.Bytes

/-!
# Straight-line runs around the floating-point unit

A stretch of instructions that all pass control to the next one.  Of what is
outside the floating-point unit nothing is said but which instructions touch
the unit: the others are arbitrary functions of the world around it.
-/

namespace Reprobit.Machine

open List Option

variable {W α : Type}

def mmxOpcode (b : Nat) : Bool :=
  b ∈ [0x2A, 0x2C, 0x2D, 0x6E, 0x6F, 0x77, 0x7E, 0x7F, 0xC4, 0xC5] || (0x60 <= b && b <= 0x6B) ||
    (0x70 <= b && b <= 0x76) || (0xD1 <= b && b <= 0xFE && b != 0xD6 && b != 0xE6 && b != 0xF0)

def Raw.touchesUnit (raw : Raw) : Bool :=
  match raw.opcode with
  | .one b => 0xD8 <= b.toNat && b.toNat < 0xE0
  | .two b => (mmxOpcode b.toNat && !raw.opsize) ||
      ((b.toNat == 0xAE || b.toNat == 0xC7) && raw.mode != 3#2 &&
        [0, 1, 3, 4, 5, 6].contains raw.digit.toNat)

/-- The instructions that fill `[pc, hi)`. -/
def listing (map : OpcodeMap) (code : List Byte) (hi : Nat) : Nat -> Nat ->
    Option (List (Nat × Raw))
  | 0, _ => none
  | fuel + 1, pc =>
    if pc < hi then
      match parse map (code.drop pc) with
      | none => none
      | some (raw, _) => (listing map code hi fuel (pc + raw.length)).map ((pc, raw) :: ·)
    else if pc = hi then some [] else none

/-- The instructions stand one behind the other in the code. -/
def Lists (map : OpcodeMap) (code : List Byte) : Nat -> List (Nat × Raw) -> Nat -> Prop
  | lo, [], hi => lo = hi
  | lo, p :: is, hi => p.1 = lo ∧ p.2.WellFormed map ∧ (∃ r, code.drop lo = p.2.encode ++ r) ∧
      Lists map code (lo + p.2.length) is hi

namespace Lists

variable {map : OpcodeMap} {code : List Byte} {lo hi : Nat} {is : List (Nat × Raw)}

theorem le (h : Lists map code lo is hi) : lo <= hi := by
  induction is generalizing lo with
  | nil => exact Nat.le_of_eq h
  | cons p is ih => exact (Nat.le_add_right _ _).trans (ih h.2.2.2)

theorem append {lo mid hi : Nat} {js : List (Nat × Raw)} (h : Lists map code lo is mid)
    (h' : Lists map code mid js hi) : Lists map code lo (is ++ js) hi := by
  induction is generalizing lo with
  | nil =>
    cases (show lo = mid from h)
    exact h'
  | cons p is ih => exact ⟨h.1, h.2.1, h.2.2.1, ih h.2.2.2⟩

theorem bounds (h : Lists map code lo is hi) :
    ∀ p ∈ is, lo <= p.1 ∧ p.1 + p.2.length <= hi := by
  induction is generalizing lo with
  | nil => simp
  | cons q is ih =>
    intro p hp
    have hle := h.2.2.2.le
    rcases mem_cons.mp hp with rfl | hp
    · exact ⟨h.1.ge, by rw [h.1]; exact hle⟩
    · have := ih h.2.2.2 p hp
      omega

theorem congr {code' : List Byte}
    (h : Lists map code lo is hi) (hagree : AgreeOn code code' ⟨lo, hi⟩) :
    Lists map code' lo is hi := by
  induction is generalizing lo with
  | nil => exact h
  | cons p is ih =>
    obtain ⟨hp, hwf, ⟨r, hr⟩, hrest⟩ := h
    have hle := hrest.le
    refine ⟨hp, hwf, ⟨code'.drop (lo + p.2.length), ?_⟩, ih hrest fun o ho => hagree o ?_⟩
    · have hslice : slice code' lo p.2.length = slice code lo p.2.length := hagree.slice le_rfl hle
      have hencode : slice code lo p.2.length = p.2.encode := by
        rw [slice, hr, Raw.length, take_left]
      rw [<- hencode, <- hslice, slice, <- drop_drop, take_append_drop]
    · rw [Span.mem_def] at ho ⊢
      exact ⟨by dsimp only at ho ⊢; omega, ho.2⟩

theorem listing_eq {lo hi fuel : Nat} (h : Lists map code lo is hi)
    (hfuel : hi - lo < fuel) : listing map code hi fuel lo = some is := by
  induction is generalizing lo fuel with
  | nil =>
    cases (show lo = hi from h)
    obtain ⟨n, rfl⟩ : ∃ n, fuel = n + 1 := ⟨fuel - 1, by omega⟩
    simp [listing]
  | cons p is ih =>
    obtain ⟨pc, raw⟩ := p
    obtain ⟨hp, hwf, ⟨r, hr⟩, hrest⟩ := h
    have hpos := raw.length_pos
    have hle := hrest.le
    dsimp only at hp hr hrest hle
    subst hp
    obtain ⟨n, rfl⟩ : ∃ n, fuel = n + 1 := ⟨fuel - 1, by omega⟩
    rw [listing, if_pos (by omega), hr, parse_encode hwf]
    simp only
    rw [ih hrest (by omega)]
    rfl

end Lists

/-! ## Runs -/

/-- Memory operands, and what other instructions do. -/
structure Surround (W α : Type) where
  operand : Raw -> Fixups -> W -> Nat
  other : Raw -> Fixups -> W -> Option W
  unit : Raw -> Fixups -> W -> FpStack α -> Option (W × FpStack α)

def lineStep (A : FpArith α) (S : Surround W α) (raw : Raw) (fix : Fixups) (s : W × FpStack α) :
    Option (W × FpStack α) :=
  if raw.touchesUnit then
    match raw.fpInstr with
    | some i => some (s.1, s.2.bind (i.exec A (S.operand raw fix s.1)))
    | none => S.unit raw fix s.1 s.2
  else (S.other raw fix s.1).map fun w => (w, s.2)

def lineRun (A : FpArith α) (S : Surround W α) (P : Program) :
    List (Nat × Raw) -> W × FpStack α -> Option (W × FpStack α)
  | [], s => some s
  | p :: is, s => (lineStep A S p.2 (P.fixups p.1 p.2) s).bind (lineRun A S P is)

theorem lineRun_append (A : FpArith α) (S : Surround W α) (P : Program)
    (is js : List (Nat × Raw)) (s : W × FpStack α) :
    lineRun A S P (is ++ js) s = (lineRun A S P is s).bind (lineRun A S P js) := by
  induction is generalizing s with
  | nil => rfl
  | cons p is ih =>
    simp only [cons_append, lineRun]
    cases lineStep A S p.2 (P.fixups p.1 p.2) s with
    | none => rfl
    | some t => exact ih t

/-- Run the instructions of `[lo, hi)` one after the other. -/
def regionRun (map : OpcodeMap) (A : FpArith α) (S : Surround W α) (P : Program) (lo hi : Nat)
    (s : W × FpStack α) : Option (W × FpStack α) :=
  (listing map P.code hi (hi - lo + 1) lo).bind fun is => lineRun A S P is s

theorem regionRun_eq {map : OpcodeMap} {P : Program} (h : Lists map P.code lo is hi) (A : FpArith α)
    (S : Surround W α) (s : W × FpStack α) : regionRun map A S P lo hi s = lineRun A S P is s := by
  rw [regionRun, h.listing_eq (by omega)]
  rfl

/-! ## Layers

A stack as the values known to be on top and what lies below them. -/

namespace FpSlots

def layer (top : List α) (below : Nat -> Option α) : FpSlots α := fun i =>
  if h : i.val < top.length then some (top.get ⟨i, h⟩) else below (i.val - top.length)

def all (s : FpSlots α) (i : Nat) : Option α := if h : i < 8 then s ⟨i, h⟩ else none

@[simp] theorem layer_nil_all (s : FpSlots α) : layer [] s.all = s := by
  funext i
  simp [layer, all]

/-- The values on top fit, and a shift brings nothing into slot 7. -/
structure Room (depth : Nat) (below : Nat -> Option α) : Prop where
  depth_le : depth <= 8
  empty : ∀ k, 8 <= k + depth -> below k = none

theorem Room.all (s : FpSlots α) : Room 0 s.all := by
  refine ⟨by omega, fun k hk => ?_⟩
  simp only [FpSlots.all]
  rw [dif_neg (by omega)]

variable {below : Nat -> Option α} {depth : Nat}

theorem Room.push (h : Room depth below) (hlt : depth < 8) (hlast : below (7 - depth) = none) :
    Room (depth + 1) below := by
  refine ⟨hlt, fun k hk => ?_⟩
  by_cases hk7 : k = 7 - depth
  · rw [hk7]
    exact hlast
  · exact h.empty k (by omega)

theorem Room.pop (h : Room (depth + 1) below) : Room depth below :=
  ⟨by have := h.depth_le; omega, fun k hk => h.empty k (by omega)⟩

variable {top : List α}

theorem layer_push (v : α) : (layer top below).push v =
      if top.length < 8 ∧ below (7 - top.length) = none then some (layer (v :: top) below)
      else none := by
  have h7 : layer top below 7 =
      if h : 7 < top.length then some (top.get ⟨7, h⟩) else below (7 - top.length) := rfl
  unfold push
  rw [h7]
  by_cases hlen : 7 < top.length
  · rw [dif_pos hlen, if_neg (by omega)]
  · rw [dif_neg hlen]
    cases hbelow : below (7 - top.length) with
    | some _ => rw [if_neg (by simp)]
    | none =>
      rw [if_pos ⟨by omega, rfl⟩]
      simp only [some.injEq]
      funext i
      by_cases hi : i = 0
      · subst hi
        simp [layer]
      · have hpred : (i - 1).val = i.val - 1 := by omega
        rw [if_neg hi]
        simp only [layer, hpred, length_cons]
        by_cases hlt : i.val - 1 < top.length
        · rw [dif_pos hlt, dif_pos (by omega)]
          simp only [get_eq_getElem]
          rw [getElem_cons, dif_neg (by omega)]
        · rw [dif_neg hlt, dif_neg (by omega)]
          congr 1
          omega

/-- The stack after pushing values one after the other. -/
def pushAll (vs : List α) (x : FpStack α) : FpStack α := vs.foldl (fun x v => x.bind (push v)) x

@[simp] theorem pushAll_none (vs : List α) : pushAll vs none = none := by
  induction vs with
  | nil => rfl
  | cons v vs ih => exact ih

/-- Whether pushes fault depends on their number only. -/
theorem pushAll_layer {vs ws top top' : List α}
    (hlen : vs.length = ws.length) (htop : top.length = top'.length)
    (hroom : Room top.length below) :
    (pushAll vs (some (layer top below)) = none ∧ pushAll ws (some (layer top' below)) = none) ∨
      (Room (vs.length + top.length) below ∧
        pushAll vs (some (layer top below)) = some (layer (vs.reverse ++ top) below) ∧
        pushAll ws (some (layer top' below)) = some (layer (ws.reverse ++ top') below)) := by
  induction vs generalizing ws top top' with
  | nil =>
    have hws : ws = [] := length_eq_zero_iff.mp hlen.symm
    subst hws
    exact .inr ⟨by simpa using hroom, rfl, rfl⟩
  | cons v vs ih =>
    cases ws with
    | nil => simp at hlen
    | cons w ws =>
      have hv : pushAll (v :: vs) (some (layer top below)) =
          pushAll vs ((layer top below).push v) := rfl
      have hw : pushAll (w :: ws) (some (layer top' below)) =
          pushAll ws ((layer top' below).push w) := rfl
      rw [hv, hw, layer_push, layer_push, <- htop]
      by_cases hfits : top.length < 8 ∧ below (7 - top.length) = none
      · rw [if_pos hfits, if_pos hfits]
        have hrest := @ih ws (v :: top) (w :: top')
          (by simpa using hlen) (by simpa using htop) (by simpa using hroom.push hfits.1 hfits.2)
        rcases hrest with hnone | ⟨hroom', hvs, hws⟩
        · exact .inl hnone
        · refine .inr ⟨?_, by simpa using hvs, by simpa using hws⟩
          simpa [Nat.add_assoc, Nat.add_comm 1] using hroom'
      · rw [if_neg hfits, if_neg hfits]
        exact .inl ⟨pushAll_none vs, pushAll_none ws⟩

theorem layer_mapTop {v : α} (f : α -> α) :
    (layer (v :: top) below).mapTop f = some (layer (f v :: top) below) := by
  have h0 : layer (v :: top) below 0 = some v := rfl
  rw [mapTop, h0, map_some, some.injEq]
  funext i
  by_cases hi : i = 0
  · subst hi
    rfl
  · rw [Function.update_of_ne hi]
    simp only [layer, length_cons]
    split
    · simp only [get_eq_getElem]
      rw [getElem_cons, getElem_cons, dif_neg (by omega), dif_neg (by omega)]
    · rfl

theorem layer_addPop {add : α -> α -> α} {v w : α} (hroom : Room (top.length + 2) below) :
    (layer (v :: w :: top) below).addPop add = some (layer (add w v :: top) below) := by
  have hdepth := hroom.depth_le
  refine addPop_eq_some.mpr ⟨v, w, rfl, rfl, ?_⟩
  funext i
  by_cases hi : i = 0
  · subst hi
    rfl
  · rw [if_neg hi]
    by_cases hi7 : i = 7
    · subst hi7
      simp only [layer]
      rw [dif_neg (by simp; omega)]
      exact hroom.empty _ (by simp; omega)
    · have hsucc : (i + 1).val = i.val + 1 := by omega
      rw [if_neg hi7]
      simp only [layer, length_cons, hsucc]
      by_cases hlt : i.val < top.length + 1
      · rw [dif_pos hlt, dif_pos (by omega)]
        simp only [get_eq_getElem, getElem_cons_succ]
        rw [getElem_cons, getElem_cons, dif_neg (by omega), dif_neg (by omega)]
      · rw [dif_neg hlt, dif_neg (by omega)]
        congr 1
        omega

theorem layer_exchange {k : Fin 8} (hk : k.val < top.length) (v : α) :
    (layer top below).exchange k =
      some (layer ((top.set 0 (top.getD k v)).set k (top.getD 0 v)) below) := by
  have h0 : layer top below 0 = some (top.getD 0 v) := by
    simp only [layer]
    simp [show 0 < top.length by omega]
  have hkv : layer top below k = some (top.getD k v) := by
    simp only [layer]
    simp [hk]
  rw [exchange, h0, hkv, some.injEq]
  funext i
  rw [Function.comp_apply, Equiv.swap_apply_def]
  have hset : ∀ j : Fin 8, layer ((top.set 0 (top.getD k v)).set k (top.getD 0 v)) below j =
      if j = k then some (top.getD 0 v) else if j = 0 then some (top.getD k v)
      else layer top below j := by
    intro j
    simp only [layer, length_set, get_eq_getElem, getElem_set]
    by_cases hj : j.val < top.length
    · rw [dif_pos hj]
      by_cases hjk : j = k
      · rw [if_pos hjk, if_pos (by rw [hjk])]
      · rw [if_neg hjk, if_neg (by simpa [Fin.ext_iff, eq_comm] using hjk)]
        by_cases hj0 : j = 0
        · rw [if_pos hj0, if_pos (by rw [hj0]; rfl)]
        · have hj0' : ¬ 0 = j.val := fun h => hj0 (Fin.ext h.symm)
          rw [if_neg hj0, if_neg hj0', dif_pos hj]
    · have hj0 : j ≠ 0 := fun h => hj (by rw [h]; exact Nat.zero_lt_of_lt hk)
      rw [dif_neg hj, if_neg (by rintro rfl; omega), if_neg hj0, dif_neg hj]
  rw [hset]
  by_cases hi0 : i = 0
  · rw [if_pos hi0, hkv]
    by_cases hik : i = k
    · rw [if_pos hik, <- hik, hi0]
      rfl
    · rw [if_neg hik, if_pos hi0]
  · rw [if_neg hi0]
    by_cases hik : i = k
    · rw [if_pos hik, if_pos hik, h0]
    · rw [if_neg hik, if_neg hik, if_neg hi0]

end FpSlots

end Reprobit.Machine

import Reprobit.Machine.Exec
import Reprobit.Machine.Except

/-!
# Linear sweep and control transfers

Items that stand one behind the other, the sweep that reads a code range
instruction by instruction, and where control can go after each of them.
-/

namespace Reprobit.Machine

open List

section

variable {α : Type} {off len : α -> Nat}

/-- The items stand one behind the other from `start` to `stop`. -/
def Tiled (off len : α -> Nat) : Nat -> List α -> Nat -> Prop
  | start, [], stop => start = stop
  | start, item :: rest, stop => off item = start ∧ 0 < len item ∧
      Tiled off len (start + len item) rest stop

namespace Tiled

variable {start stop : Nat} {items : List α} {a b : α}

variable (h : Tiled off len start items stop) {o : Nat} {item : α}

include h

theorem le : start <= stop := by
  induction items generalizing start with
  | nil => exact Nat.le_of_eq h
  | cons item rest ih =>
    have := ih h.2.2
    omega

/-- An instruction lies inside the tiled range. -/
theorem mem_bounds (hitem : item ∈ items) :
    start <= off item ∧ off item + len item <= stop ∧ 0 < len item := by
  induction items generalizing start with
  | nil => cases hitem
  | cons first rest ih =>
    obtain ⟨hoff, hpos, htail⟩ := h
    rcases mem_cons.mp hitem with rfl | hitem
    · exact ⟨hoff.ge, by have := htail.le; omega, hpos⟩
    · obtain ⟨h1, h2, h3⟩ := ih htail hitem
      exact ⟨by omega, h2, h3⟩

theorem next {k : Nat} (hitem : items[k]? = some item) : match items[k + 1]? with
    | some other => off other = off item + len item
    | none => off item + len item = stop := by
  induction items generalizing start k with
  | nil => simp at hitem
  | cons first rest ih =>
    obtain ⟨hoff, hpos, htail⟩ := h
    cases k with
    | zero =>
      cases hitem
      cases rest with
      | nil => simpa [hoff, Tiled] using htail
      | cons second rest => simpa [hoff] using htail.1
    | succ k =>
      exact ih htail hitem

theorem offset_lt {i j : Nat} (hij : i < j)
    (ha : items[i]? = some a) (hb : items[j]? = some b) : off a + len a <= off b := by
  induction items generalizing start i j with
  | nil => simp at ha
  | cons first rest ih =>
    obtain ⟨hoff, hpos, htail⟩ := h
    cases j with
    | zero => omega
    | succ j =>
      cases i with
      | zero =>
        cases ha
        have := (mem_bounds htail (mem_of_getElem? hb)).1
        omega
      | succ i =>
        exact ih htail (by omega) ha hb

theorem index_unique {i j : Nat} (ha : items[i]? = some a) (hb : items[j]? = some b)
    (hao : off a <= o ∧ o < off a + len a) (hbo : off b <= o ∧ o < off b + len b) : i = j := by
  rcases Nat.lt_trichotomy i j with hlt | heq | hgt
  · have := h.offset_lt hlt ha hb; omega
  · exact heq
  · have := h.offset_lt hgt hb ha; omega

theorem offset_injective {i j : Nat} (ha : items[i]? = some a)
    (hb : items[j]? = some b) (hoff : off a = off b) : i = j := by
  have hapos := (h.mem_bounds (mem_of_getElem? ha)).2.2
  have hbpos := (h.mem_bounds (mem_of_getElem? hb)).2.2
  exact h.index_unique (o := off a) ha hb (by omega) (by omega)

theorem unique (ha : a ∈ items) (hb : b ∈ items) (hao : off a <= o ∧ o < off a + len a)
    (hbo : off b <= o ∧ o < off b + len b) : a = b := by
  obtain ⟨i, hi⟩ := mem_iff_getElem?.mp ha
  obtain ⟨j, hj⟩ := mem_iff_getElem?.mp hb
  obtain rfl := h.index_unique hi hj hao hbo
  exact Option.some.inj (hi.symm.trans hj)

end Tiled

end

def sweepFrom (map : OpcodeMap) (code : List Byte) : Nat -> Nat -> List (Nat × Raw)
  | 0, _ => []
  | fuel + 1, offset =>
    match parse map (code.drop offset) with
    | none => []
    | some (raw, _) => (offset, raw) :: sweepFrom map code fuel (offset + raw.length)

/-- The instructions of a code range with their offsets. -/
def sweep (map : OpcodeMap) (code : List Byte) : List (Nat × Raw) :=
  sweepFrom map code code.length 0

variable {code : List Byte}

theorem parse_of_mem_sweepFrom {map : OpcodeMap} {fuel offset : Nat} {entry : Nat × Raw}
    (h : entry ∈ sweepFrom map code fuel offset) :
    ∃ r, parse map (code.drop entry.1) = some (entry.2, r) := by
  induction fuel generalizing offset with
  | zero => simp [sweepFrom] at h
  | succ fuel ih =>
    unfold sweepFrom at h
    split at h
    · simp at h
    · next raw r hparse =>
        rcases mem_cons.mp h with rfl | h
        · exact ⟨r, hparse⟩
        · exact ih h

/-- Items read one behind the other up to the end. -/
structure Loops {ε ι : Type} (code : List Byte) (read : Nat -> Except ε ι) (len : ι -> Nat)
    (loop : Nat -> Nat -> Except ε (List ι)) : Prop where
  done : ∀ offset, loop 0 offset = .ok []
  round : ∀ fuel offset, loop (fuel + 1) offset = if offset < code.length then (do
      let item <- read offset
      let rest <- loop fuel (offset + len item)
      pure (item :: rest))
    else .ok []

theorem Loops.sweeps {ε ι : Type} {read : Nat -> Except ε ι}
    {loop : Nat -> Nat -> Except ε (List ι)} {m : OpcodeMap} {R : Nat -> Raw -> ι -> Prop}
    {off len : ι -> Nat} (hloop : Loops code read len loop)
    (hread : ∀ offset item, read offset = .ok item -> ∃ raw r,
      parse m (code.drop offset) = some (raw, r) ∧ R offset raw item)
    (hitem : ∀ offset raw item, R offset raw item -> off item = offset ∧ len item = raw.length)
    {fuel offset : Nat} {items : List ι} (h : loop fuel offset = .ok items) :
    List.Forall₂ (fun entry item => R entry.1 entry.2 item) (sweepFrom m code fuel offset) items ∧
      (code.length <= offset + fuel -> offset <= code.length ->
        Tiled off len offset items code.length) := by
  induction fuel generalizing offset items with
  | zero =>
    rw [hloop.done] at h
    cases h
    exact ⟨.nil, fun hfuel hle => show offset = code.length by omega⟩
  | succ fuel ih =>
    rw [hloop.round] at h
    unfold sweepFrom
    split at h
    · simp only [bind_eq_ok, pure_eq_ok] at h
      obtain ⟨item, hreads, rest, hrest, rfl⟩ := h
      obtain ⟨raw, r, hparse, hR⟩ := hread offset item hreads
      obtain ⟨hoff, hlen⟩ := hitem _ _ _ hR
      have hbytes := congrArg List.length (parse_eq_some.mp hparse).2
      have hpos := raw.length_pos
      rw [length_append, length_drop, show raw.encode.length = raw.length from rfl] at hbytes
      rw [hparse]
      simp only [<- hlen]
      obtain ⟨hswept, htiled⟩ := ih hrest
      exact ⟨.cons hR hswept, fun hfuel hle =>
        ⟨hoff, by omega, htiled (by omega) (by omega)⟩⟩
    · cases h
      rw [drop_eq_nil_of_le (by omega), show parse m [] = none from rfl]
      exact ⟨.nil, fun hfuel hle => show offset = code.length by omega⟩

inductive TransferKind
  | next | branch | jump | call | indirect | leave
  deriving DecidableEq, Repr

/-- How control is passed on; indirect calls and traps come back. -/
def transferKindOf (op : Opcode) (digit : Nat) : TransferKind :=
  match op with
  | .one b =>
    if (0x70 <= b.toNat ∧ b.toNat < 0x80) ∨ (0xE0 <= b.toNat ∧ b.toNat < 0xE4) then .branch
    else if b.toNat = 0xE9 ∨ b.toNat = 0xEB then .jump
    else if b.toNat = 0xE8 then .call
    else if b.toNat ∈ [0xC2, 0xC3, 0xCA, 0xCB, 0xCF, 0xEA] then .leave
    else if b.toNat = 0xFF ∧ digit = 4 then .indirect
    else if b.toNat = 0xFF ∧ digit = 5 then .leave
    else .next
  | .two b => if 0x80 <= b.toNat ∧ b.toNat < 0x90 then .branch else .next

namespace Raw

def transferKind (raw : Raw) : TransferKind := transferKindOf raw.opcode raw.digit.toNat

/-- The target, of sixteen bits under the operand-size prefix. -/
def branchAddress (raw : Raw) (origin offset : Nat) : Int :=
  ((origin : Int) + offset + raw.length + raw.rel) % (if raw.opsize then 2 ^ 16 else 2 ^ 32)

/-- Behind it, at its relative target, or where jumps land. -/
def CanFollow (raw : Raw) (relocated : Bool) (landings : List Int) (origin offset target : Nat) :
    Prop :=
  ((raw.transferKind = .next ∨ raw.transferKind = .branch ∨ raw.transferKind = .call) ∧
      target = offset + raw.length) ∨
  ((raw.transferKind = .branch ∨ raw.transferKind = .jump ∨ raw.transferKind = .call) ∧
      relocated = false ∧ (origin : Int) + target = raw.branchAddress origin offset) ∨
  (raw.transferKind = .indirect ∧ (target : Int) ∈ landings)

theorem branchAddress_eq_iff {raw : Raw} {origin offset target goal limit : Nat}
    (hsize : raw.opsize = false) (hfit : origin + limit <= 2 ^ 32) (hg : goal < limit)
    (hgoal : (goal : Int) = (offset : Int) + raw.length + raw.rel) :
    (origin : Int) + target = raw.branchAddress origin offset ↔ target = goal := by
  have haddr : raw.branchAddress origin offset = (origin : Int) + goal := by
    unfold branchAddress
    rw [hsize, if_neg (by simp), hgoal, <- Int.add_assoc, <- Int.add_assoc]
    exact Int.emod_eq_of_lt (by omega) (by omega)
  omega

end Raw

end Reprobit.Machine

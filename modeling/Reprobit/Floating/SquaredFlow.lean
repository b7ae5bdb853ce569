import Reprobit.Floating.SquaredAddend
import Reprobit.Floating.SumFlow
import Reprobit.Machine.Line

/-!
# What exchanged squares compute

The consumption region is a program over a symbolic stack of trees.  Whatever
values the units have, it leaves the value of the final tree, so a permutation
of the units is invisible exactly when it only exchanges children of that tree.
-/

namespace Reprobit.Floating

open Machine List

variable {W α : Type}

theorem canonical_eq_sortedCode (labels : List Nat) (t : FoldTree Nat) :
    canonical labels t = (t.map fun unit => labels.getD unit 0).sortedCode := by
  induction t with
  | leaf unit => rfl
  | node l r ihl ihr => simp only [canonical, FoldTree.map, FoldTree.sortedCode, ihl, ihr]

namespace FoldState

def unitValue (A : FpArith α) (s : FoldState) (v : Nat -> α) (unit : Nat) : α :=
  if s.squared.getD unit false then A.mul (v unit) (v unit) else v unit

def view (A : FpArith α) (s : FoldState) (v : Nat -> α) (below : Nat -> Option α) : FpSlots α :=
  FpSlots.layer (s.stack.map fun t => t.eval A.add (s.unitValue A v)) below

def leaves (s : FoldState) : List Nat := s.stack.flatMap FoldTree.leaves

/-- Every unit occurs at most once. -/
structure Linear (s : FoldState) : Prop where
  nodup : s.leaves.Nodup
  below : ∀ unit ∈ s.leaves, unit < s.squared.length

theorem Linear.of_perm {s t : FoldState} (h : s.Linear) (hperm : t.leaves.Perm s.leaves)
    (hlen : t.squared.length = s.squared.length) : t.Linear where
  nodup := hperm.nodup_iff.mpr h.nodup
  below unit hunit := hlen ▸ h.below unit (hperm.mem_iff.mp hunit)

theorem initial_leaves (count : Nat) :
    (FoldState.initial count).leaves = (List.range count).reverse := by
  have hsingle : ∀ l : List Nat,
      (l.map (FoldTree.leaf : Nat -> FoldTree Nat)).flatMap FoldTree.leaves = l := by
    intro l
    induction l with
    | nil => rfl
    | cons n l ih => simpa [FoldTree.leaves] using ih
  exact hsingle _

theorem initial_linear (count : Nat) : (FoldState.initial count).Linear where
  nodup := by
    rw [initial_leaves]
    exact nodup_reverse.mpr nodup_range
  below unit hunit := by
    rw [initial_leaves] at hunit
    simpa [FoldState.initial] using hunit

theorem view_initial (A : FpArith α) (count : Nat) (v : Nat -> α) (below : Nat -> Option α) :
    (FoldState.initial count).view A v below =
      FpSlots.layer (((List.range count).map v).reverse) below := by
  unfold view
  congr 1
  simp only [FoldState.initial, map_map, <- map_reverse]
  refine map_congr_left fun unit _ => ?_
  simp only [Function.comp_apply, FoldTree.eval, unitValue]
  by_cases hlt : unit < count <;> simp [hlt]

end FoldState

/-- What an instruction that the region consumes does to the stack. -/
structure Consumes (i : FpInstr) (s t : FoldState) : Prop where
  linear : t.Linear
  count : t.squared.length = s.squared.length
  exec : ∀ {α : Type} (A : FpArith α) (operand : Nat) (v : Nat -> α) (below : Nat -> Option α),
    FpSlots.Room s.stack.length below ->
      FpSlots.Room t.stack.length below ∧
      i.exec A operand (s.view A v below) = some (t.view A v below)

variable {s t : FoldState} {op modrm b : Byte} {context : String} {i : FpInstr} {raw : Raw}
  {body : List Byte} {stop pc scan fuel offset n : Nat} {rest : List (FoldTree Nat)}
  {items : List RelationalItem}
  {is : List (Nat × Raw)} {units : List SquaredUnit}

theorem consumes_exchange (hs : s.Linear) {k : Fin 8} (hk : k.val < s.stack.length) :
    Consumes (.exchange k) s { s with
      stack := (s.stack.set 0 (s.stack.getD k (.leaf 0))).set k (s.stack.getD 0 (.leaf 0)) } where
  linear := by
    refine hs.of_perm ?_ rfl
    refine List.Perm.flatMap_right _ ?_
    have h0 : 0 < s.stack.length := by omega
    have : ((s.stack.set 0 s.stack[k]).set k s.stack[0]).Perm s.stack := set_set_perm h0 hk
    simpa [h0, hk] using this
  count := rfl
  exec A operand v below hroom := by
    refine ⟨by simpa using hroom, ?_⟩
    have hk' : k.val < (s.stack.map fun t => t.eval A.add (s.unitValue A v)).length := by simpa
    rw [FpInstr.exec, FoldState.view,
      FpSlots.layer_exchange hk' ((FoldTree.leaf 0).eval A.add (s.unitValue A v))]
    simp only [FoldState.view, map_set, List.getD, getElem?_map, Option.getD_map]
    rfl

theorem consumes_square (hs : s.Linear) {unit : Nat} (hstack : s.stack = .leaf unit :: rest)
    (hfresh : s.squared.getD unit false = false) :
    Consumes .square s { s with squared := s.squared.set unit true } where
  linear := hs.of_perm (List.Perm.refl _) (by simp)
  count := by simp
  exec A operand v below hroom := by
    refine ⟨hroom, ?_⟩
    have hlt : unit < s.squared.length := by
      refine hs.below unit ?_
      simp [FoldState.leaves, hstack, FoldTree.leaves]
    have hne : ∀ t ∈ rest, ∀ n ∈ t.leaves, n ≠ unit := by
      intro t ht n hn hnu
      have hnd := hs.nodup
      simp only [FoldState.leaves, hstack, flatMap_cons, FoldTree.leaves] at hnd
      refine (nodup_append.mp hnd).2.2 unit (by simp) n ?_ hnu.symm
      exact mem_flatMap.mpr ⟨t, ht, hn⟩
    have hsquared : ∀ n, n ≠ unit ->
        ({ s with squared := s.squared.set unit true } : FoldState).unitValue A v n =
          s.unitValue A v n := by
      intro n hn
      simp only [FoldState.unitValue, List.getD, getElem?_set]
      rw [if_neg (Ne.symm hn)]
      rfl
    simp only [FpInstr.exec, FoldState.view, hstack, map_cons]
    rw [FpSlots.layer_mapTop, Option.some.injEq]
    congr 2
    · have hfresh' : s.squared[unit] = false := by simpa [hlt] using hfresh
      simp [FoldTree.eval, FoldState.unitValue, hfresh', hlt]
    · refine map_congr_left fun t ht => ?_
      exact (FoldTree.eval_congr _ t fun n hn => hsquared n (hne t ht n hn)).symm

theorem consumes_addPop (hs : s.Linear) {top nxt : FoldTree Nat}
    (hstack : s.stack = top :: nxt :: rest) :
    Consumes .addPop s { s with stack := .node nxt top :: rest } where
  linear := by
    refine hs.of_perm ?_ rfl
    simp only [FoldState.leaves, hstack, flatMap_cons, <- append_assoc]
    exact perm_append_comm.append_right _
  count := rfl
  exec A operand v below hroom := by
    rw [hstack] at hroom
    refine ⟨hroom.pop, ?_⟩
    simp only [FpInstr.exec, FoldState.view, hstack, map_cons]
    rw [FpSlots.layer_addPop (by simpa using hroom)]
    rfl

theorem decode_exchange : ∀ m : Byte, 200 <= m.toNat -> m.toNat <= 207 ->
    ∃ k : Fin 8, k.val = m.toNat - 200 ∧ FpInstr.decode 217 m = some (.exchange k) ∧
      modeOf m = 3#2 := by decide

/-- Every consumed instruction is one the unit knows, on registers. -/
theorem consumeStep_consumes (hs : s.Linear) (h : consumeStep op modrm context s = .ok (some t)) :
    IsEscape op ∧ ∃ i, FpInstr.decode op modrm = some i ∧ modeOf modrm = 3#2 ∧ Consumes i s t := by
  unfold consumeStep at h
  split at h
  · next hfxch =>
      obtain ⟨rfl, hlo, hhi⟩ := hfxch
      simp only [bind_eq_ok, require_eq_ok, pure_eq_ok, Option.some.injEq] at h
      obtain ⟨_, hk, rfl⟩ := h
      obtain ⟨k, hval, hdecode, hmode⟩ := decode_exchange modrm hlo hhi
      rw [<- hval] at hk ⊢
      exact ⟨by decide, _, hdecode, hmode, consumes_exchange hs hk⟩
  · split at h
    · next hsquare =>
        obtain ⟨hop, rfl⟩ := hsquare
        split at h
        · next unit rest hstack =>
            simp only [bind_eq_ok, require_eq_ok, pure_eq_ok, Option.some.injEq] at h
            obtain ⟨_, hfresh, rfl⟩ := h
            refine ⟨?_, .square, ?_, by decide, consumes_square hs hstack hfresh⟩
            · rcases hop with rfl | rfl <;> decide
            · rcases hop with rfl | rfl <;> decide
        · cases h
    · split at h
      · next hfaddp =>
          obtain ⟨rfl, rfl⟩ := hfaddp
          split at h
          · next top nxt rest hstack =>
              simp only [bind_eq_ok, pure_eq_ok, Option.some.injEq] at h
              obtain ⟨_, -, rfl⟩ := h
              exact ⟨by decide, .addPop, by decide, by decide, consumes_addPop hs hstack⟩
          · cases h
      · cases h

/-! ## The region as the machine runs it -/

def registerRaw (op modrm : Byte) : Raw := ⟨[], .one op, some modrm, none, [], []⟩

theorem escape_ne_two : ∀ b : Byte, IsEscape b -> b ≠ 0x0F#8 := by decide

theorem registerRaw_wellFormed (hop : IsEscape op) (hmode : modeOf modrm = 3#2) :
    (registerRaw op modrm).WellFormed lengthMap where
  prefixes_prefix := by simp [registerRaw]
  prefixes_nodup := by simp [registerRaw]
  prefixes_length := by simp [registerRaw]
  opcode_wf := escape_ne_two op hop
  opcode_first := isPrefix_escape op hop
  shape := by
    refine ⟨tokensShape [.M], ?_, ?_, rfl⟩
    · simp [registerRaw, lengthMap, opcodeTokens, oneByteTable_escape op hop]
    · refine ⟨?_, ?_⟩
      · simp [registerRaw, hasSib, hmode]
      · simp [registerRaw, dispSize, hmode]
  length_le := by simp [Raw.length, Raw.encode, registerRaw, Opcode.bytes]

theorem registerRaw_isFp (hop : IsEscape op) (hmode : modeOf modrm = 3#2)
    (hi : FpInstr.decode op modrm = some i) : (registerRaw op modrm).fpInstr = some i := by
  obtain ⟨m, hparts⟩ := escapeParts (registerRaw_wellFormed hop hmode) hop rfl
  have hm : modrm = m := by simpa [registerRaw] using hparts.modrm
  subst hm
  exact (hparts.isFp_register hop hmode hi).instr

theorem escape_touches (hopcode : raw.opcode = .one b) (hb : IsEscape b) :
    raw.touchesUnit = true := by
  have hb' : 0xD8 <= b.toNat ∧ b.toNat < 0xE0 := hb
  simp [Raw.touchesUnit, hopcode, hb']

def lineWorld (S : Surround W α) (P : Program) : List (Nat × Raw) -> W -> Option W
  | [], w => some w
  | p :: is, w =>
    if p.2.touchesUnit then lineWorld S P is w
    else (S.other p.2 (P.fixups p.1 p.2) w).bind (lineWorld S P is)

def PlainEscapes (is : List (Nat × Raw)) : Prop :=
  ∀ p ∈ is, p.2.touchesUnit = true -> ∃ b, p.2.encode.head? = some b ∧ IsEscape b

/-- A region of plain escapes takes the symbolic stack from `s` to `t`. -/
def Folds (is : List (Nat × Raw)) (s t : FoldState) : Prop :=
  PlainEscapes is -> ∀ {W α : Type} (A : FpArith α) (S : Surround W α) (P : Program) (w : W),
    lineRun A S P is (w, none) = (lineWorld S P is w).map (fun w => (w, none)) ∧
    ∀ (v : Nat -> α) (below : Nat -> Option α), FpSlots.Room s.stack.length below ->
      lineRun A S P is (w, some (s.view A v below)) =
        (lineWorld S P is w).map fun w => (w, some (t.view A v below))

theorem Folds.refl (s : FoldState) : Folds [] s s :=
  fun _ _ _ _ _ _ _ => ⟨rfl, fun _ _ _ => rfl⟩

/-- Without an escape byte an instruction is passed over. -/
theorem Folds.skip (hhead : ∀ b, raw.encode.head? = some b -> ¬ IsEscape b) (h : Folds is s t) :
    Folds ((pc, raw) :: is) s t := by
  intro hplain W α A S P w
  have htouch : raw.touchesUnit = false := by
    by_contra htouch
    obtain ⟨b, hb, hescape⟩ := hplain (pc, raw) (by simp) (by simpa using htouch)
    exact hhead b hb hescape
  have hrest : PlainEscapes is := fun p hp => hplain p (by simp [hp])
  simp only [lineRun, lineStep, lineWorld, htouch]
  cases S.other raw (P.fixups pc raw) w with
  | none => exact ⟨rfl, fun _ _ _ => rfl⟩
  | some w' => exact h hrest A S P w'

theorem Folds.consume {s' : FoldState} (hop : IsEscape op) (hmode : modeOf modrm = 3#2)
    (hi : FpInstr.decode op modrm = some i) (hconsumes : Consumes i s s') (h : Folds is s' t) :
    Folds ((pc, registerRaw op modrm) :: is) s t := by
  intro hplain W α A S P w
  have hrest : PlainEscapes is := fun p hp => hplain p (by simp [hp])
  have htouch : (registerRaw op modrm).touchesUnit = true := escape_touches rfl hop
  obtain ⟨hfault, hview⟩ := h hrest A S P w
  simp only [lineRun, lineStep, lineWorld, htouch, registerRaw_isFp hop hmode hi, Option.bind_some]
  refine ⟨hfault, fun v below hroom => ?_⟩
  obtain ⟨hroom', hexec⟩ := hconsumes.exec A
    (S.operand (registerRaw op modrm) (P.fixups pc (registerRaw op modrm)) w) v below hroom
  rw [hexec]
  exact hview v below hroom'

/-- The walk found the instructions that stand in the body. -/
def Walked (body : List Byte) (items : List RelationalItem) : Prop :=
  ∀ item ∈ items, ∃ raw : Raw, raw.WellFormed lengthMap ∧ raw.length = item.length ∧
    ∃ r, body.drop item.offset = raw.encode ++ r

theorem straightItem_eq_ok {item : RelationalItem} (h : straightItem items scan context = .ok item)
    : item ∈ items ∧ item.offset = scan := by
  unfold straightItem at h
  split at h
  · next found hfind =>
      simp only [bind_eq_ok, pure_eq_ok] at h
      obtain ⟨_, -, rfl⟩ := h
      exact ⟨mem_of_find?_eq_some hfind, by simpa using find?_some hfind⟩
  · cases h

theorem consumeFrom_folds (hwalk : Walked body items) (hs : s.Linear)
    (h : consumeFrom body items context fuel scan s = .ok (t, stop)) :
    ∃ is, Lists lengthMap body scan is stop ∧ Folds is s t ∧ t.Linear ∧
      t.squared.length = s.squared.length := by
  induction fuel generalizing scan s with
  | zero => cases h
  | succ fuel ih =>
    simp only [consumeFrom, bind_eq_ok, require_eq_ok] at h
    obtain ⟨_, hin, h⟩ := h
    split at h
    · next hskip =>
        obtain ⟨item, hitem, h⟩ := bind_eq_ok.mp h
        obtain ⟨hmem, rfl⟩ := straightItem_eq_ok hitem
        obtain ⟨raw, hwf, hlen, r, hr⟩ := hwalk item hmem
        rw [<- hlen] at h
        obtain ⟨is, hlists, hfolds, ht⟩ := ih hs h
        refine ⟨(item.offset, raw) :: is, ⟨rfl, hwf, ⟨r, hr⟩, hlists⟩, hfolds.skip ?_, ht⟩
        intro b hb hescape
        have hhead : (body.drop item.offset).head? = some b := by
          rw [hr, head?_append, hb]
          rfl
        have hop : body.getD item.offset 0 = b := by
          rw [head?_drop] at hhead
          simp [hhead]
        exact hskip.1 (hop ▸ hescape)
    · obtain ⟨next, hnext, h⟩ := bind_eq_ok.mp h
      cases next with
      | none =>
        cases h
        exact ⟨[], rfl, .refl _, hs, rfl⟩
      | some s' =>
        obtain ⟨hop, i, hi, hmode, hconsumes⟩ := consumeStep_consumes hs hnext
        have hdrop : body.drop scan =
            (registerRaw (body.getD scan 0) (body.getD (scan + 1) 0)).encode ++
              body.drop (scan + 2) := by
          simp [registerRaw, Raw.encode, Opcode.bytes, show scan < body.length by omega,
            show scan + 1 < body.length by omega]
        have hcons : ∀ {is : List (Nat × Raw)} {stop : Nat},
            Lists lengthMap body (scan + 2) is stop -> Lists lengthMap body scan
              ((scan, registerRaw (body.getD scan 0) (body.getD (scan + 1) 0)) :: is) stop :=
          fun hlists => ⟨rfl, registerRaw_wellFormed hop hmode, ⟨_, hdrop⟩, hlists⟩
        simp only at h
        split at h
        · cases h
          have hlast : Lists lengthMap body (scan + 2) [] (scan + 2) := rfl
          exact ⟨_, hcons hlast, (Folds.refl _).consume hop hmode hi hconsumes,
            hconsumes.linear, hconsumes.count⟩
        · obtain ⟨is, hlists, hfolds, ht⟩ := ih hconsumes.linear h
          exact ⟨_, hcons hlists, hfolds.consume hop hmode hi hconsumes, ht.1,
            ht.2.trans hconsumes.count⟩

/-! ## Units as the machine runs them -/

/-- The two instructions of a unit. -/
structure UnitRaw where
  fld : Raw
  second : Raw
  adds : Bool

namespace UnitRaw

variable (u : UnitRaw)

def length : Nat := u.fld.length + u.second.length

def bytes : List Byte := u.fld.encode ++ u.second.encode

@[simp] theorem bytes_length : u.bytes.length = u.length := by
  simp [bytes, length, Raw.length]

def secondInstr : FpInstr := if u.adds then .addSingle else .subSingle

/-- With a memory operand, as the length tables read it. -/
structure Reads (raw : Raw) (i : FpInstr) : Prop where
  wellFormed : raw.WellFormed lengthMap
  touches : raw.touchesUnit = true
  instr : raw.fpInstr = some i
  imm : raw.imm = []

structure Good (u : UnitRaw) : Prop where
  fld : Reads u.fld .loadSingle
  second : Reads u.second u.secondInstr

def at' (offset : Nat) : List (Nat × Raw) :=
  [(offset, u.fld), (offset + u.fld.length, u.second)]

def value (A : FpArith α) (S : Surround W α) (P : Program) (w : W) (u : UnitRaw)
    (offset : Nat) : α :=
  let first := A.single (S.operand u.fld (P.fixups offset u.fld) w)
  let other := A.single (S.operand u.second (P.fixups (offset + u.fld.length) u.second) w)
  if u.adds then A.add first other else A.sub first other

theorem lineRun_at (A : FpArith α) (S : Surround W α) (P : Program) {u : UnitRaw} (hu : u.Good)
    (offset : Nat) (w : W) (x : FpStack α) :
    lineRun A S P (u.at' offset) (w, x) = some (w,
      x.bind (FpSlots.push (u.value A S P w offset))) := by
  simp only [at', lineRun, lineStep, hu.fld.touches, hu.second.touches, hu.fld.instr,
    hu.second.instr, if_true, Option.bind_some]
  cases x with
  | none => rfl
  | some x =>
    simp only [secondInstr, value]
    cases u.adds with
    | true => exact congrArg (fun y => some (w, y)) (push_mapTop _ _ x)
    | false => exact congrArg (fun y => some (w, y)) (push_mapTop _ _ x)

end UnitRaw

def layUnits : Nat -> List UnitRaw -> List SquaredUnit
  | _, [] => []
  | offset, u :: us => ⟨offset, u.length, u.fld.length⟩ :: layUnits (offset + u.length) us

def unitsLength (us : List UnitRaw) : Nat := (us.map UnitRaw.length).sum

def unitsBytes (us : List UnitRaw) : List Byte := us.flatMap UnitRaw.bytes

@[simp] theorem unitsBytes_length (us : List UnitRaw) :
    (unitsBytes us).length = unitsLength us := by
  simp [unitsBytes, unitsLength]

theorem x87M32Length_eq_ok (h : x87M32Length body offset context = .ok n) :
    ∃ sib : Option Byte, sib.isSome = hasSib (body.getD (offset + 1) 0) ∧
      (∀ b, sib = some b -> body[offset + 2]? = some b) ∧
      n = 2 + sib.toList.length + dispSize (body.getD (offset + 1) 0) sib := by
  simp only [x87M32Length, bind_eq_ok, require_eq_ok, pure_eq_ok] at h
  obtain ⟨_, hmode, ⟨extra, rm⟩, hbase, rfl⟩ := h
  generalize body.getD (offset + 1) 0 = m at hmode hbase ⊢
  have hmodes : ∀ k : BitVec 2, k ≠ 3#2 -> k ≠ 1#2 -> k ≠ 2#2 -> k = 0#2 := by decide
  unfold x87M32Base at hbase
  split at hbase
  · next hrm =>
      split at hbase
      · next b hb =>
          cases hbase
          refine ⟨some b, by simp [hasSib, hmode, hrm], by rintro _ ⟨⟩; exact hb, ?_⟩
          have h54 : ¬ (4#3 = 5#3) := by decide
          by_cases h1 : modeOf m = 1#2
          · simp [dispSize, h1]
          · by_cases h2 : modeOf m = 2#2
            · simp [dispSize, h2]
            · have h0 := hmodes _ hmode h1 h2
              simp [dispSize, h0, hrm]
      · cases hbase
  · next hrm =>
      cases hbase
      refine ⟨none, by simp [hasSib, hrm], by rintro _ ⟨⟩, ?_⟩
      by_cases h1 : modeOf m = 1#2
      · simp [dispSize, h1]
      · by_cases h2 : modeOf m = 2#2
        · simp [dispSize, h2]
        · have h0 := hmodes _ hmode h1 h2
          simp [dispSize, h0]

theorem escapeMemory (hb : IsEscape b) (hop : body.getD offset 0 = b)
    (hlen : x87M32Length body offset context = .ok n) (hin : offset + n <= body.length) :
    ∃ raw, raw.WellFormed lengthMap ∧ raw.length = n ∧
      EscapeParts raw b (body.getD (offset + 1) 0) ∧
      body.drop offset = raw.encode ++ body.drop (offset + n) := by
  obtain ⟨sib, hsib, hsibAt, rfl⟩ := x87M32Length_eq_ok hlen
  have hdisp : (slice body (offset + 2 + sib.toList.length)
      (dispSize (body.getD (offset + 1) 0) sib)).length =
        dispSize (body.getD (offset + 1) 0) sib := by
    rw [slice_length]
    omega
  let raw : Raw := ⟨[], .one b, some (body.getD (offset + 1) 0), sib,
    slice body (offset + 2 + sib.toList.length) (dispSize (body.getD (offset + 1) 0) sib), []⟩
  have hlength : raw.length = 2 + sib.toList.length + dispSize (body.getD (offset + 1) 0) sib := by
    simp only [raw, Raw.length, Raw.encode, Opcode.bytes, length_append, hdisp]
    simp
  have hsize : dispSize (body.getD (offset + 1) 0) sib <= 4 := by
    unfold dispSize
    repeat' split
    all_goals omega
  have hsibLen : sib.toList.length <= 1 := by cases sib <;> simp
  have hwf : raw.WellFormed lengthMap :=
    { prefixes_prefix := by simp [raw]
      prefixes_nodup := by simp [raw]
      prefixes_length := by simp [raw]
      opcode_wf := escape_ne_two b hb
      opcode_first := isPrefix_escape b hb
      shape := ⟨tokensShape [.M], by simp [raw, lengthMap, opcodeTokens, oneByteTable_escape b hb],
        ⟨hsib, hdisp⟩, rfl⟩
      length_le := by omega }
  have hdrop : body.drop offset = raw.encode ++ body.drop (offset + raw.length) := by
    rw [hlength]
    have hsplit : body.drop (offset + 2) = sib.toList ++ body.drop
      (offset + 2 + sib.toList.length) := by
      cases sib with
      | none => rfl
      | some c =>
        have hc := hsibAt c rfl
        obtain ⟨hlt, heq⟩ := List.getElem?_eq_some_iff.mp hc
        rw [drop_eq_getElem_cons hlt, heq]
        rfl
    have htail : body.drop (offset + 2 + sib.toList.length) =
        slice body (offset + 2 + sib.toList.length) (dispSize (body.getD (offset + 1) 0) sib) ++
          body.drop (offset +
            (2 + sib.toList.length + dispSize (body.getD (offset + 1) 0) sib)) := by
      rw [slice, show offset + (2 + sib.toList.length + dispSize (body.getD (offset + 1) 0) sib) =
        offset + 2 + sib.toList.length + dispSize (body.getD (offset + 1) 0) sib by omega,
        <- drop_drop (i := dispSize (body.getD (offset + 1) 0) sib), take_append_drop]
    have h0 : offset < body.length := by omega
    have h1 : offset + 1 < body.length := by omega
    have hb0 : body[offset] = b := by simpa [h0] using hop
    have hb1 : body.getD (offset + 1) 0 = body[offset + 1] := by simp [h1]
    rw [drop_eq_getElem_cons h0, drop_eq_getElem_cons h1, hsplit, htail, hb0]
    simp only [raw, Raw.encode, Opcode.bytes, hb1]
    simp
  refine ⟨raw, hwf, hlength, ?_, hlength ▸ hdrop⟩
  obtain ⟨m, hparts⟩ := escapeParts hwf hb rfl
  have hm : body.getD (offset + 1) 0 = m := by simpa [raw] using hparts.modrm
  rw [hm]
  exact hparts

theorem reads_memory {m : Byte} (hwf : raw.WellFormed lengthMap) (hb : IsEscape b)
    (hparts : EscapeParts raw b m) (hm : modeOf m ≠ 3#2)
    (hi : FpInstr.decode b ((regOf m).setWidth 8 <<< 3) = some i) : UnitRaw.Reads raw i where
  wellFormed := hwf
  touches := escape_touches hparts.opcode hb
  instr := (hparts.isFp_memory hb hm hi).instr
  imm := hparts.imm

/-- The window holds whole units from an offset on. -/
structure Holds (body : List Byte) (offset : Nat) (us : List UnitRaw) (stop : Nat) : Prop where
  good : ∀ u ∈ us, u.Good
  source : body.drop offset = unitsBytes us ++ body.drop stop
  stop_eq : offset + unitsLength us = stop

theorem squaredUnitsFrom_holds {cursor last : Nat} (hin : stop <= body.length) (hlast : last = stop)
    (h : squaredUnitsFrom body stop context fuel cursor = .ok (units, last)) :
    cursor <= stop ∧ ∃ us, Holds body cursor us stop ∧ units = layUnits cursor us := by
  induction fuel generalizing cursor units with
  | zero =>
    cases h
    subst hlast
    exact ⟨le_rfl, [], ⟨by simp, by simp [unitsBytes], rfl⟩, rfl⟩
  | succ fuel ih =>
    unfold squaredUnitsFrom at h
    split at h
    · simp only [bind_eq_ok, require_eq_ok, Prod.exists] at h
      obtain ⟨_, ⟨hfit, hfld, hfldReg, hfldMode⟩, fldLength, hfldLen, _,
        ⟨hsubFit, hsub, hsubReg, hsubMode⟩, subLength, hsubLen, rest, last', hrest, heq⟩ := h
      cases heq
      obtain ⟨hle, us, hholds, rfl⟩ := ih hrest
      obtain ⟨fld, hfldWf, rfl, hfldParts, hfldDrop⟩ :=
        escapeMemory (b := 217) (by decide) hfld hfldLen (by omega)
      obtain ⟨sub, hsubWf, rfl, hsubParts, hsubDrop⟩ :=
        escapeMemory (b := 216) (by decide) hsub hsubLen (by omega)
      let u : UnitRaw := ⟨fld, sub, decide (regOf (body.getD (cursor + fld.length + 1) 0) = 0#3)⟩
      have hgood : u.Good := by
        refine ⟨reads_memory hfldWf (by decide) hfldParts hfldMode (by rw [hfldReg]; decide),
          reads_memory hsubWf (by decide) hsubParts hsubMode ?_⟩
        rcases hsubReg with hreg | hreg
        · simp only [u, UnitRaw.secondInstr, hreg]
          decide
        · simp only [u, UnitRaw.secondInstr, hreg]
          decide
      refine ⟨by omega, u :: us, ⟨?_, ?_, ?_⟩, ?_⟩
      · intro v hv
        rcases mem_cons.mp hv with rfl | hv
        · exact hgood
        · exact hholds.good v hv
      · rw [hfldDrop, hsubDrop, hholds.source]
        simp [unitsBytes, UnitRaw.bytes, u]
      · have := hholds.stop_eq
        simp only [unitsLength, map_cons, sum_cons, UnitRaw.length, u] at this ⊢
        omega
      · simp [layUnits, UnitRaw.length, u, Nat.add_assoc]
    · cases h
      subst hlast
      exact ⟨le_rfl, [], ⟨by simp, by simp [unitsBytes], rfl⟩, rfl⟩

theorem squaredUnits_holds {start : Nat} (hin : stop <= body.length)
    (h : squaredUnits body start stop context = .ok units) :
    ∃ us, Holds body start us stop ∧ units = layUnits start us := by
  simp only [squaredUnits, bind_eq_ok, require_eq_ok, pure_eq_ok, Prod.exists] at h
  obtain ⟨units', last, hunits, _, ⟨hlast, -⟩, rfl⟩ := h
  exact (squaredUnitsFrom_holds hin hlast hunits).2

end Reprobit.Floating

import Reprobit.Machine.Bounded

/-!
# Trees of a commutative operation

Binary trees up to exchanging the two children of nodes.  Sorting the prefix
codes of the children at every node gives one code for each class of trees.
-/

namespace Reprobit.Machine

open List Option

variable {α β γ : Type}

inductive FoldTree (β : Type)
  | leaf (b : β)
  | node (left right : FoldTree β)
  deriving DecidableEq, Repr

namespace FoldTree

def map (f : β -> γ) : FoldTree β -> FoldTree γ
  | leaf b => leaf (f b)
  | node l r => node (l.map f) (r.map f)

def eval (op : α -> α -> α) (value : β -> α) : FoldTree β -> α
  | leaf b => value b
  | node l r => op (l.eval op value) (r.eval op value)

def leaves : FoldTree β -> List β
  | leaf b => [b]
  | node l r => l.leaves ++ r.leaves

theorem eval_map (op : α -> α -> α) (value : γ -> α) (f : β -> γ) (t : FoldTree β) :
    (t.map f).eval op value = t.eval op (value ∘ f) := by
  induction t with
  | leaf b => rfl
  | node l r ihl ihr => simp [map, eval, ihl, ihr]

theorem map_eq_self {f : β -> β} (t : FoldTree β) (h : ∀ b ∈ t.leaves, f b = b) : t.map f = t := by
  induction t with
  | leaf b => rw [map, h b (by simp [leaves])]
  | node l r ihl ihr =>
    rw [map, ihl fun b hb => h b (by simp [leaves, hb]), ihr fun b hb => h b (by simp [leaves, hb])]

theorem eval_congr (op : α -> α -> α) {v w : β -> α} (t : FoldTree β)
    (h : ∀ b ∈ t.leaves, v b = w b) : t.eval op v = t.eval op w := by
  induction t with
  | leaf b => exact h b (by simp [leaves])
  | node l r ihl ihr =>
    rw [eval, eval, ihl fun b hb => h b (by simp [leaves, hb]),
      ihr fun b hb => h b (by simp [leaves, hb])]

/-- Equal up to exchanging the two children of nodes. -/
inductive SwapEq : FoldTree β -> FoldTree β -> Prop
  | leaf (b : β) : SwapEq (.leaf b) (.leaf b)
  | keep {l l' r r' : FoldTree β} : SwapEq l l' -> SwapEq r r' -> SwapEq (.node l r) (.node l' r')
  | swap {l l' r r' : FoldTree β} : SwapEq l l' -> SwapEq r r' -> SwapEq (.node l r) (.node r' l')

namespace SwapEq

variable {t u : FoldTree β}

theorem symm (h : SwapEq t u) : SwapEq u t := by
  induction h with
  | leaf b => exact .leaf b
  | keep _ _ ihl ihr => exact .keep ihl ihr
  | swap _ _ ihl ihr => exact .swap ihr ihl

theorem trans {v : FoldTree β} (h : SwapEq t u) (h' : SwapEq u v) : SwapEq t v := by
  induction h generalizing v with
  | leaf b => exact h'
  | keep _ _ ihl ihr =>
    cases h' with
    | keep hl hr => exact .keep (ihl hl) (ihr hr)
    | swap hl hr => exact .swap (ihl hl) (ihr hr)
  | swap _ _ ihl ihr =>
    cases h' with
    | keep hr hl => exact .swap (ihl hl) (ihr hr)
    | swap hr hl => exact .keep (ihl hl) (ihr hr)

/-- A commutative operation does not see the exchange. -/
theorem eval_eq {op : α -> α -> α} (hop : ∀ a b, op a b = op b a)
    (value : β -> α) (h : SwapEq t u) :
    t.eval op value = u.eval op value := by
  induction h with
  | leaf b => rfl
  | keep _ _ ihl ihr => rw [eval, eval, ihl, ihr]
  | swap _ _ ihl ihr => rw [eval, eval, ihl, ihr, hop]

end SwapEq

end FoldTree

/-! ## Prefix codes -/

inductive CodeItem
  | leafMark | nodeMark
  | label (n : Nat)
  deriving DecidableEq, Repr

namespace CodeItem

def before : CodeItem -> CodeItem -> Option Bool
  | leafMark, nodeMark => some true
  | nodeMark, leafMark => some false
  | label m, label n => some (decide (m < n))
  | _, _ => none

/-- The lexicographic comparison of two sequences. -/
def tupleLe : List CodeItem -> List CodeItem -> Option Bool
  | [], _ => some true
  | _ :: _, [] => some false
  | x :: xs, y :: ys => if x = y then tupleLe xs ys else before x y

theorem before_swap {x y : CodeItem} {b : Bool} (hne : x ≠ y) (h : before x y = some b) :
    before y x = some !b := by
  cases x with
  | label m =>
    cases y with
    | label n =>
      simp only [before, some.injEq] at h ⊢
      have hmn : m ≠ n := fun h => hne (by rw [h])
      rw [<- h, <- decide_not, decide_eq_decide]
      omega
    | _ => cases h
  | leafMark =>
    cases y with
    | nodeMark =>
      cases h
      rfl
    | _ => cases h
  | nodeMark =>
    cases y with
    | leafMark =>
      cases h
      rfl
    | _ => cases h

theorem tupleLe_antisymm {xs ys : List CodeItem} (h : tupleLe xs ys = some true)
    (h' : tupleLe ys xs = some true) : xs = ys := by
  induction xs generalizing ys with
  | nil =>
    cases ys with
    | nil => rfl
    | cons y ys => simp [tupleLe] at h'
  | cons x xs ih =>
    cases ys with
    | nil => simp [tupleLe] at h
    | cons y ys =>
      by_cases hxy : x = y
      · subst hxy
        simp only [tupleLe] at h h'
        rw [ih h h']
      · simp only [tupleLe, if_neg hxy, if_neg (Ne.symm hxy)] at h h'
        rw [before_swap hxy h] at h'
        cases h'

theorem tupleLe_total {xs ys : List CodeItem} (h : tupleLe xs ys = some false) :
    tupleLe ys xs = some true := by
  induction xs generalizing ys with
  | nil => cases h
  | cons x xs ih =>
    cases ys with
    | nil => rfl
    | cons y ys =>
      by_cases hxy : x = y
      · subst hxy
        simp only [tupleLe] at h ⊢
        exact ih h
      · simp only [tupleLe, if_neg hxy, if_neg (Ne.symm hxy)] at h ⊢
        exact before_swap hxy h

end CodeItem

namespace FoldTree

open CodeItem

def code : FoldTree Nat -> List CodeItem
  | leaf n => [.leafMark, .label n]
  | node l r => .nodeMark :: (l.code ++ r.code)

variable {t u : FoldTree Nat}

theorem code_append_inj {r s : List CodeItem} (h : t.code ++ r = u.code ++ s) : t = u ∧ r = s := by
  induction t generalizing u r s with
  | leaf n =>
    cases u with
    | leaf m => simpa [code] using h
    | node l' r' => simp [code] at h
  | node l x ihl ihx =>
    cases u with
    | leaf m => simp [code] at h
    | node l' x' =>
      simp only [code, cons_append, append_assoc, List.cons.injEq, true_and] at h
      obtain ⟨rfl, hrest⟩ := ihl h
      obtain ⟨rfl, hend⟩ := ihx hrest
      exact ⟨rfl, hend⟩

theorem code_injective (h : t.code = u.code) : t = u := by
  refine (code_append_inj (r := []) (s := []) ?_).1
  rw [h]

theorem tupleLe_code (hne : t ≠ u) : ∃ b, ∀ r s, tupleLe (t.code ++ r) (u.code ++ s) = some b := by
  induction t generalizing u with
  | leaf n =>
    cases u with
    | leaf m =>
      have hnm : n ≠ m := fun h => hne (by rw [h])
      exact ⟨decide (n < m), fun r s => by simp [code, tupleLe, before, hnm]⟩
    | node l' x' => exact ⟨true, fun r s => by simp [code, tupleLe, before]⟩
  | node l x ihl ihx =>
    cases u with
    | leaf m => exact ⟨false, fun r s => by simp [code, tupleLe, before]⟩
    | node l' x' =>
      by_cases hl : l = l'
      · subst hl
        obtain ⟨b, hb⟩ := ihx (u := x') fun h => hne (by rw [h])
        refine ⟨b, fun r s => ?_⟩
        have hskip : ∀ (p a c : List CodeItem), tupleLe (p ++ a) (p ++ c) = tupleLe a c := by
          intro p a c
          induction p with
          | nil => rfl
          | cons q p ih => simpa [tupleLe] using ih
        simp [code, tupleLe, hskip, hb]
      · obtain ⟨b, hb⟩ := ihl hl
        refine ⟨b, fun r s => ?_⟩
        simp [code, tupleLe, hb]

theorem tupleLe_code_isSome (t u : FoldTree Nat) : (tupleLe t.code u.code).isSome := by
  by_cases h : t = u
  · subst h
    have hrefl : ∀ p : List CodeItem, tupleLe p p = some true := by
      intro p
      induction p with
      | nil => rfl
      | cons q p ih => simpa [tupleLe] using ih
    rw [hrefl]
    rfl
  · obtain ⟨b, hb⟩ := tupleLe_code h
    have := hb [] []
    simp only [append_nil] at this
    rw [this]
    rfl

/-- Children sorted by code; `none` is a failed comparison. -/
def sortedCode : FoldTree Nat -> Option (List CodeItem)
  | leaf n => some [.leafMark, .label n]
  | node l r => do
    let left <- l.sortedCode
    let right <- r.sortedCode
    let sorted <- tupleLe left right
    some (.nodeMark :: if sorted then left ++ right else right ++ left)

theorem sortedCode_eq_code (t : FoldTree Nat) : ∃ u, SwapEq t u ∧ t.sortedCode = some u.code := by
  induction t with
  | leaf n => exact ⟨leaf n, .leaf n, rfl⟩
  | node l r ihl ihr =>
    obtain ⟨l', hl, hcl⟩ := ihl
    obtain ⟨r', hr, hcr⟩ := ihr
    obtain ⟨b, hb⟩ := isSome_iff_exists.mp (tupleLe_code_isSome l' r')
    cases b with
    | true => exact ⟨node l' r', .keep hl hr, by simp [sortedCode, hcl, hcr, hb, code]⟩
    | false => exact ⟨node r' l', .swap hl hr, by simp [sortedCode, hcl, hcr, hb, code]⟩

theorem sortedCode_congr (h : SwapEq t u) : t.sortedCode = u.sortedCode := by
  induction h with
  | leaf n => rfl
  | keep _ _ ihl ihr => simp only [sortedCode, ihl, ihr]
  | @swap l l' r r' _ _ ihl ihr =>
    obtain ⟨a, -, ha⟩ := sortedCode_eq_code l'
    obtain ⟨c, -, hc⟩ := sortedCode_eq_code r'
    obtain ⟨b, hb⟩ := isSome_iff_exists.mp (tupleLe_code_isSome a c)
    obtain ⟨b', hb'⟩ := isSome_iff_exists.mp (tupleLe_code_isSome c a)
    simp only [sortedCode, ihl, ihr, ha, hc, bind_eq_bind, bind_some, hb, hb']
    cases b with
    | true =>
      cases b' with
      | true => rw [tupleLe_antisymm hb hb']
      | false => rfl
    | false =>
      rw [tupleLe_total hb, some.injEq] at hb'
      subst hb'
      rfl

/-- They agree for trees equal up to exchanging children. -/
theorem sortedCode_eq_iff : t.sortedCode = u.sortedCode ↔ SwapEq t u := by
  constructor
  · intro h
    obtain ⟨t', ht, hct⟩ := sortedCode_eq_code t
    obtain ⟨u', hu, hcu⟩ := sortedCode_eq_code u
    rw [hct, hcu, some.injEq] at h
    rw [code_injective h] at ht
    exact ht.trans hu.symm
  · exact sortedCode_congr

end FoldTree

end Reprobit.Machine

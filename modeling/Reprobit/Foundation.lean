import Reprobit.Machine.State
import Reprobit.Machine.Except

/-!
# Refusals

Every algorithm of the repository is fail-closed: it returns a value or refuses
with a message.  `require` is the only way a check refuses.
-/

namespace Reprobit

open Machine List

abbrev Refusing := Except String

def require (condition : Prop) [Decidable condition] (message : String) : Refusing Unit :=
  if condition then .ok () else .error message

variable {c : Prop} {m : String} {u : Unit}

@[simp] theorem require_eq_ok [Decidable c] : require c m = .ok u ↔ c := by
  unfold require
  split <;> simp_all

variable {α : Type} {b : α}

theorem require_bind_eq_ok [Decidable c] {f : Unit -> Refusing α} :
    (require c m >>= f) = .ok b ↔ c ∧ f () = .ok b := by
  rw [bind_eq_ok]
  constructor
  · rintro ⟨u, h, hf⟩
    exact ⟨require_eq_ok.mp h, hf⟩
  · rintro ⟨h, hf⟩
    exact ⟨(), require_eq_ok.mpr h, hf⟩

theorem after_require [Decidable c] {f : Unit -> Refusing α} (h : (require c m >>= f) = .ok b) :
    f () = .ok b :=
  (require_bind_eq_ok.mp h).2

@[simp] theorem require_map_eq_ok [Decidable c] {f : Unit -> α} :
    f <$> require c m = .ok b ↔ c ∧ f () = b := by
  unfold require
  split <;> simp_all

/-- A check made for each element of a list, in order. -/
def requireEach {α : Type} (xs : List α) (p : α -> Prop) [DecidablePred p]
    (message : α -> String) : Refusing Unit :=
  match xs with
  | [] => .ok ()
  | x :: xs => do
    require (p x) (message x)
    requireEach xs p message

@[simp] theorem requireEach_eq_ok {xs : List α} {p : α -> Prop} [DecidablePred p]
    {message : α -> String} : requireEach xs p message = .ok u ↔ ∀ x ∈ xs, p x := by
  induction xs with
  | nil => simp [requireEach]
  | cons x xs ih => simp [requireEach, require_bind_eq_ok, ih]

/-- A checking procedure run on each element of a list, in order. -/
def checkEach {α : Type} (check : α -> Refusing Unit) : List α -> Refusing Unit
  | [] => .ok ()
  | x :: xs => do
    check x
    checkEach check xs

@[simp] theorem checkEach_eq_ok {check : α -> Refusing Unit} {xs : List α} :
    checkEach check xs = .ok u ↔ ∀ x ∈ xs, check x = .ok () := by
  induction xs with
  | nil => simp [checkEach]
  | cons x xs ih =>
    have hunit : (∃ v, check x = .ok v) ↔ check x = .ok () := ⟨fun ⟨⟨⟩, h⟩ => h, fun h => ⟨_, h⟩⟩
    simp [checkEach, bind_eq_ok, ih, hunit]

/-- A computation made for each element of a list, in order. -/
def runEach {α β : Type} (f : α -> Refusing β) : List α -> Refusing (List β)
  | [] => .ok []
  | x :: xs => do
    let y <- f x
    let ys <- runEach f xs
    pure (y :: ys)

variable {α β : Type} {ys : List β} {f : α -> Refusing β} {R : α -> β -> Prop} {x : α}

theorem runEach_eq_ok {xs : List α} :
    runEach f xs = .ok ys ↔ List.Forall₂ (fun x y => f x = .ok y) xs ys := by
  induction xs generalizing ys with
  | nil => simp [runEach]
  | cons x xs ih =>
    simp only [runEach, bind_eq_ok, pure_eq_ok, ih]
    constructor
    · rintro ⟨y, hy, ys, hys, rfl⟩
      exact .cons hy hys
    · rintro (_ | ⟨hy, hys⟩)
      exact ⟨_, hy, _, hys, rfl⟩

theorem forall₂_mem {xs : List α} (h : List.Forall₂ R xs ys) (hx : x ∈ xs) : ∃ y ∈ ys, R x y := by
  induction h with
  | nil => simp at hx
  | cons hxy _ ih =>
    rcases mem_cons.mp hx with rfl | hx
    · exact ⟨_, by simp, hxy⟩
    · obtain ⟨y, hy, hf⟩ := ih hx
      exact ⟨y, by simp [hy], hf⟩

theorem forall₂_pairwise {P : α -> α -> Prop} {Q : β -> β -> Prop} {xs : List α}
    (h : List.Forall₂ R xs ys) (hpair : xs.Pairwise P)
    (hstep : ∀ ⦃x y x' y'⦄, R x y -> R x' y' -> P x x' -> Q y y') : ys.Pairwise Q := by
  induction h with
  | nil => exact .nil
  | cons hxy hrest ih =>
    rw [pairwise_cons] at hpair
    refine pairwise_cons.mpr ⟨fun y' hy' => ?_, ih hpair.2⟩
    obtain ⟨x', hx', hr⟩ := forall₂_mem hrest.flip hy'
    exact hstep hxy hr (hpair.1 x' hx')

theorem runEach_mem {xs : List α} (h : runEach f xs = .ok ys) (hx : x ∈ xs) :
    ∃ y ∈ ys, f x = .ok y :=
  forall₂_mem (runEach_eq_ok.mp h) hx

theorem runEach_mem_result {xs : List α} (h : runEach f xs = .ok ys) {y : β} (hy : y ∈ ys) :
    ∃ x ∈ xs, f x = .ok y :=
  forall₂_mem (runEach_eq_ok.mp h).flip hy

/-- A computation for each element with its index, in order. -/
def enumerateFrom {α β : Type} (f : Nat -> α -> Refusing β) : List α -> Nat -> Refusing (List β)
  | [], _ => .ok []
  | x :: xs, index => do
    let y <- f index x
    let ys <- enumerateFrom f xs (index + 1)
    pure (y :: ys)

theorem enumerateFrom_eq_ok {f : Nat -> α -> Refusing β} {xs : List α} {index : Nat} :
    enumerateFrom f xs index = .ok ys ↔ ys.length = xs.length ∧
      ∀ k x, xs[k]? = some x -> ∃ y, ys[k]? = some y ∧ f (index + k) x = .ok y := by
  induction xs generalizing index ys with
  | nil => simp [enumerateFrom]
  | cons x xs ih =>
    simp only [enumerateFrom, bind_eq_ok, pure_eq_ok, ih]
    constructor
    · rintro ⟨y, hy, ys, ⟨hlen, hall⟩, rfl⟩
      refine ⟨by simp [hlen], fun k z hk => ?_⟩
      cases k with
      | zero =>
        cases hk
        exact ⟨y, by simp, hy⟩
      | succ k =>
        obtain ⟨w, hw, hf⟩ := hall k z (by simpa using hk)
        exact ⟨w, by simpa using hw, by rw [<- hf, Nat.add_right_comm, Nat.add_assoc]⟩
    · rintro ⟨hlen, hall⟩
      cases ys with
      | nil => simp at hlen
      | cons y ys =>
        obtain ⟨w, hw, hf⟩ := hall 0 x rfl
        cases hw
        refine ⟨y, hf, ys, ⟨by simpa using hlen, fun k z hk => ?_⟩, rfl⟩
        obtain ⟨w, hw, hf⟩ := hall (k + 1) z (by simpa using hk)
        exact ⟨w, by simpa using hw, by rw [<- hf, Nat.add_right_comm, Nat.add_assoc]⟩

/-- At least two lower-case hexadecimal digits. -/
def hex02 (n : Nat) : String :=
  let digits := Nat.toDigits 16 n
  String.ofList (List.replicate (2 - digits.length) '0' ++ digits)

/-- A list of numbers as it appears in a message. -/
def showInts (xs : List Int) : String := "[" ++ ", ".intercalate (xs.map toString) ++ "]"

def showNats (xs : List Nat) : String := "[" ++ ", ".intercalate (xs.map toString) ++ "]"

/-- A character inside a quoted text. -/
def reprChar (quote c : Char) : List Char :=
  if c = quote ∨ c = '\\' then ['\\', c]
  else if c = '\n' then ['\\', 'n']
  else if c = '\r' then ['\\', 'r']
  else if c = '\t' then ['\\', 't']
  else if c.toNat < 32 ∨ c.toNat = 127 then ['\\', 'x'] ++ (hex02 c.toNat).toList
  else [c]

/-- The `repr` of an ASCII text, in the quotes Python takes. -/
def reprText (text : String) : String :=
  let quote := if '\'' ∈ text.toList ∧ '"' ∉ text.toList then '"' else '\''
  String.ofList (quote :: text.toList.flatMap (reprChar quote) ++ [quote])

def showNames (xs : List String) : String :=
  "[" ++ ", ".intercalate (xs.map fun x => "'" ++ x ++ "'") ++ "]"

/-- Width and target symbol of one relocation record. -/
structure RelocationRow where
  width : Nat
  target : String
  deriving DecidableEq, Repr

/-- Relocation records keyed by body offset. -/
structure RelocationMap where
  rows : List (Nat × RelocationRow)
  nodup : (rows.map Prod.fst).Nodup

namespace RelocationMap

def empty : RelocationMap := ⟨[], by simp⟩

def get (m : RelocationMap) (offset : Nat) : Option RelocationRow := m.rows.lookup offset

/-- Does a relocation record overlap the `size` bytes at `offset`. -/
def touches (m : RelocationMap) (offset size : Nat) : Bool :=
  m.rows.any fun (at', row) => at' < offset + size && offset < at' + row.width

theorem touches_of_get {m : RelocationMap} {at' offset size : Nat} {row : RelocationRow}
    (h : m.get at' = some row) (h1 : at' < offset + size) (h2 : offset < at' + row.width) :
    m.touches offset size = true := by
  have hmem : (at', row) ∈ m.rows := by
    obtain ⟨l₁, l₂, heq, -⟩ := lookup_eq_some_iff.mp h
    rw [heq]
    simp
  exact any_eq_true.mpr ⟨_, hmem, by simp [h1, h2]⟩

end RelocationMap

end Reprobit

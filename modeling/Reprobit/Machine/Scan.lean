import Reprobit.Machine.Except

/-!
# Fallible scans

A reader that walks a table by index, each record saying where the next one
begins, and a traversal of a list that keeps some of the results.  Both stop at
the first failure.
-/

namespace Reprobit.Machine

open List

variable {ε α β : Type} {e : ε}

section Scan

variable (read : Nat -> Except ε α) (next : Nat -> α -> Nat) (bound : Nat)

def scan : Nat -> Nat -> Except ε (List α)
  | 0, _ => .ok []
  | fuel + 1, index =>
    if index < bound then do
      let a <- read index
      let rest <- scan fuel (next index a)
      pure (a :: rest)
    else .ok []

/-- The indices a scan comes to. -/
inductive Reached (start : Nat) : Nat -> Prop where
  | start : Reached start start
  | next {index : Nat} {a : α} : Reached start index -> index < bound -> read index = .ok a ->
      Reached start (next index a)

variable {read next bound} {start index fuel : Nat} {a : α}

theorem Reached.head (hlt : start < bound) (ha : read start = .ok a)
    (h : Reached read next bound (next start a) index) : Reached read next bound start index := by
  induction h with
  | start => exact .next .start hlt ha
  | next _ hj hb ih => exact .next ih hj hb

theorem Reached.cases_head (h : Reached read next bound start index) :
    index = start ∨ ∃ a, start < bound ∧ read start = .ok a ∧
      Reached read next bound (next start a) index := by
  induction h with
  | start => exact .inl rfl
  | @next j b hr hj hb ih =>
    rcases ih with rfl | ⟨a, hlt, ha, hrest⟩
    · exact .inr ⟨b, hj, hb, .start⟩
    · exact .inr ⟨a, hlt, ha, .next hrest hj hb⟩

variable {xs : List α}

theorem scan_eq_ok : scan read next bound (fuel + 1) start = .ok xs ↔
    (start < bound ∧ ∃ a, read start = .ok a ∧ ∃ rest,
      scan read next bound fuel (next start a) = .ok rest ∧ a :: rest = xs) ∨
    (¬start < bound ∧ [] = xs) := by
  rw [scan]
  split <;> simp_all only [bind_eq_ok, pure_eq_ok, Except.ok.injEq, true_and, false_and, or_false,
    false_or, not_true, not_false_iff]

theorem scan_mem (h : scan read next bound fuel start = .ok xs) (ha : a ∈ xs) :
    ∃ index < bound, Reached read next bound start index ∧ read index = .ok a := by
  induction fuel generalizing start xs with
  | zero =>
    cases h
    cases ha
  | succ fuel ih =>
    obtain ⟨hlt, b, hread, rest, hrest, rfl⟩ | ⟨-, rfl⟩ := scan_eq_ok.mp h
    · rcases mem_cons.mp ha with rfl | ha
      · exact ⟨start, hlt, .start, hread⟩
      · obtain ⟨index, hi, hr, hok⟩ := ih hrest ha
        exact ⟨index, hi, hr.head hlt hread, hok⟩
    · cases ha

theorem scan_congr {read' : Nat -> Except ε α} (h : ∀ index < bound, read index = read' index)
    (fuel start : Nat) : scan read next bound fuel start = scan read' next bound fuel start := by
  induction fuel generalizing start with
  | zero => rfl
  | succ fuel ih =>
    unfold scan
    split
    · next hlt => simp only [h start hlt, ih]
    · rfl

theorem scan_error (h : scan read next bound fuel start = .error e) :
    ∃ index < bound, Reached read next bound start index ∧ read index = .error e := by
  induction fuel generalizing start with
  | zero => cases h
  | succ fuel ih =>
    unfold scan at h
    split at h
    · next hlt =>
        rcases bind_eq_error.mp h with hread | ⟨b, hread, h⟩
        · exact ⟨start, hlt, .start, hread⟩
        · rcases bind_eq_error.mp h with hrest | ⟨rest, -, h⟩
          · obtain ⟨index, hi, hr, herr⟩ := ih hrest
            exact ⟨index, hi, hr.head hlt hread, herr⟩
          · cases h
    · cases h

theorem scan_eq_error (hnext : ∀ i a, i < next i a) (hfuel : bound <= start + fuel)
    (hr : Reached read next bound start index) (hlt : index < bound) (he : read index = .error e) :
    scan read next bound fuel start = .error e := by
  induction fuel generalizing start with
  | zero =>
    rcases hr.cases_head with rfl | ⟨a, hs, -, -⟩ <;> omega
  | succ fuel ih =>
    unfold scan
    rcases hr.cases_head with rfl | ⟨a, hs, ha, hrest⟩
    · simp [hlt, he, bind, Except.bind]
    · have := hnext start a
      simp [hs, ha, ih (by omega) hrest, bind, Except.bind]

theorem scan_read (hnext : ∀ i a, i < next i a) (hfuel : bound <= start + fuel)
    (h : scan read next bound fuel start = .ok xs) (hr : Reached read next bound start index)
    (hlt : index < bound) : ∃ a ∈ xs, read index = .ok a := by
  induction fuel generalizing start xs with
  | zero => rcases hr.cases_head with rfl | ⟨a, hs, -, -⟩ <;> omega
  | succ fuel ih =>
    obtain ⟨-, b, hread, rest, hrest, rfl⟩ | ⟨hover, -⟩ := scan_eq_ok.mp h
    · rcases hr.cases_head with rfl | ⟨a, -, ha, hr'⟩
      · exact ⟨b, by simp, hread⟩
      · cases hread.symm.trans ha
        have := hnext start b
        obtain ⟨c, hc, hok⟩ := ih (by omega) hrest hr'
        exact ⟨c, by simp [hc], hok⟩
    · rcases hr.cases_head with rfl | ⟨a, hs, -, -⟩ <;> contradiction

theorem reached_succ_iff : Reached read (fun i _ => i + 1) bound 0 index ↔
      index <= bound ∧ ∀ j < index, ∃ a, read j = .ok a := by
  constructor
  · intro h
    induction h with
    | start => exact ⟨Nat.zero_le _, fun j hj => absurd hj (Nat.not_lt_zero j)⟩
    | @next i a _ hi ha ih =>
      refine ⟨hi, fun j hj => ?_⟩
      rcases Nat.lt_succ_iff_lt_or_eq.mp hj with hj | rfl
      · exact ih.2 j hj
      · exact ⟨a, ha⟩
  · rintro ⟨hle, hall⟩
    induction index with
    | zero => exact .start
    | succ i ih =>
      obtain ⟨a, ha⟩ := hall i (Nat.lt_succ_self i)
      exact Reached.next (ih (by omega) fun j hj => hall j (by omega)) hle ha

theorem scan_succ_length (h : scan read (fun i _ => i + 1) bound fuel start = .ok xs)
    : xs.length = min fuel (bound - start) := by
  induction fuel generalizing start xs with
  | zero =>
    cases h
    simp
  | succ fuel ih =>
    obtain ⟨hlt, a, -, rest, hrest, rfl⟩ | ⟨hover, rfl⟩ := scan_eq_ok.mp h
    · have hlen := ih hrest
      rw [length_cons]
      omega
    · rw [length_nil]
      omega

theorem scan_succ_read (h : scan read (fun i _ => i + 1) bound bound 0 = .ok xs)
    (hlt : index < bound) : ∃ a ∈ xs, read index = .ok a := by
  induction index using Nat.strongRecOn with
  | ind index ih =>
    have hbelow : ∀ j < index, ∃ a, read j = .ok a := fun j hj => by
      obtain ⟨a, -, ha⟩ := ih j hj (by omega)
      exact ⟨a, ha⟩
    exact scan_read (fun i _ => Nat.lt_succ_self i) (by omega) h
      (reached_succ_iff.mpr ⟨by omega, hbelow⟩) hlt

end Scan

/-- The results a fallible function gives on a list, in order. -/
def collect (f : α -> Except ε (Option β)) : List α -> Except ε (List β)
  | [] => .ok []
  | x :: xs => do
    let y <- f x
    let ys <- collect f xs
    pure (y.toList ++ ys)

variable {f : α -> Except ε (Option β)} {xs : List α} {ys : List β}

theorem collect_cons {x : α} : collect f (x :: xs) = .ok ys ↔
    ∃ y, f x = .ok y ∧ ∃ rest, collect f xs = .ok rest ∧ y.toList ++ rest = ys := by
  simp only [collect, bind_eq_ok, pure_eq_ok]

theorem collect_mem (h : collect f xs = .ok ys) {y : β} :
    y ∈ ys ↔ ∃ x ∈ xs, f x = .ok (some y) := by
  induction xs generalizing ys with
  | nil =>
    cases h
    simp
  | cons x xs ih =>
    obtain ⟨o, hx, rest, hxs, rfl⟩ := collect_cons.mp h
    rw [mem_append, ih hxs, Option.mem_toList]
    simp [hx]

theorem collect_isOk : (∃ ys, collect f xs = .ok ys) ↔ ∀ x ∈ xs, ∃ o, f x = .ok o := by
  induction xs with
  | nil => simp [collect]
  | cons x xs ih =>
    rw [forall_mem_cons, <- ih]
    constructor
    · rintro ⟨ys, h⟩
      obtain ⟨o, hx, rest, hxs, -⟩ := collect_cons.mp h
      exact ⟨⟨o, hx⟩, rest, hxs⟩
    · rintro ⟨⟨o, hx⟩, rest, hxs⟩
      exact ⟨_, collect_cons.mpr ⟨o, hx, rest, hxs, rfl⟩⟩

/-- A traversal that keeps nothing gave nothing on any element. -/
theorem collect_eq_nil (h : collect f xs = .ok []) : ∀ x ∈ xs, f x = .ok none := by
  intro x hx
  obtain ⟨o, ho⟩ := collect_isOk.mp ⟨[], h⟩ x hx
  cases o with
  | none => exact ho
  | some y => exact absurd ((collect_mem h).mpr ⟨x, hx, ho⟩) (not_mem_nil)

theorem collect_error (h : collect f xs = .error e) : ∃ x ∈ xs, f x = .error e := by
  induction xs with
  | nil => cases h
  | cons x xs ih =>
    rcases bind_eq_error.mp h with hx | ⟨o, -, h⟩
    · exact ⟨x, by simp, hx⟩
    · rcases bind_eq_error.mp h with hxs | ⟨rest, -, h⟩
      · obtain ⟨z, hz, hf⟩ := ih hxs
        exact ⟨z, by simp [hz], hf⟩
      · cases h

end Reprobit.Machine

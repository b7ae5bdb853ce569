import Reprobit.Machine.Bounded

/-!
# Lexing by ordered choice

A lexer that stands at an offset of a text, takes the match there as a lexeme or,
where nothing matches, moves on by one, and what it means for the lexer to stand
at an offset.
-/

namespace Reprobit.Machine

open List

variable {α : Type}

/-- A piece of a text with the offset it begins at. -/
structure Lexeme (α : Type) where
  start : Nat
  text : List α
  deriving DecidableEq, Repr

theorem fuel_congr {β : Type} {f : Nat -> List α -> β} (hnil : ∀ n, f n [] = f 0 [])
    (hcons : ∀ n m c rest,
      (∀ k, 0 < k -> f n ((c :: rest).drop k) = f m ((c :: rest).drop k)) ->
      f (n + 1) (c :: rest) = f (m + 1) (c :: rest))
    {n m : Nat} {t : List α} (h : t.length <= n) (h' : t.length <= m) : f n t = f m t := by
  induction n generalizing m t with
  | zero =>
    obtain rfl := length_eq_zero_iff.mp (Nat.le_zero.mp h)
    exact (hnil m).symm
  | succ n ih =>
    cases t with
    | nil => rw [hnil, hnil m]
    | cons c rest =>
      cases m with
      | zero => simp at h'
      | succ m =>
        refine hcons n m c rest fun k hk => ih ?_ ?_ <;>
          simp only [length_drop] at * <;> omega

section Munch

variable (munch : List α -> Nat)

/-- How far the lexer moves: the length of the match, or one. -/
def advance (t : List α) : Nat := max 1 (munch t)

def lexFuel : Nat -> Nat -> List α -> List (Lexeme α)
  | 0, _, _ => []
  | _ + 1, _, [] => []
  | fuel + 1, pos, c :: rest =>
    if munch (c :: rest) = 0 then lexFuel fuel (pos + 1) rest
    else ⟨pos, (c :: rest).take (munch (c :: rest))⟩ ::
      lexFuel fuel (pos + munch (c :: rest)) ((c :: rest).drop (munch (c :: rest)))

/-- The lexemes of a text whose first character is at `pos`. -/
def lexFrom (pos : Nat) (t : List α) : List (Lexeme α) := lexFuel munch t.length pos t

/-- The offsets the lexer stands at. -/
inductive Stands (text : List α) : Nat -> Prop where
  | start : Stands text 0
  | step {p : Nat} : Stands text p -> p < text.length ->
    Stands text (p + advance munch (text.drop p))

variable {munch} {pos fuel o : Nat} {t text : List α} {lexeme : Lexeme α}
  {before after : List (Lexeme α)}

theorem lexFuel_eq {fuel' : Nat} (h : t.length <= fuel) (h' : t.length <= fuel') :
    lexFuel munch fuel pos t = lexFuel munch fuel' pos t := by
  refine congrFun (fuel_congr (f := fun fuel t pos => lexFuel munch fuel pos t) (fun n => ?_)
    (fun n m c rest ih => ?_) h h') pos
  · cases n <;> rfl
  · funext pos
    unfold lexFuel
    split
    · exact congrFun (ih 1 Nat.one_pos) _
    · exact congrArg _ (congrFun (ih _ (by omega)) _)

@[simp] theorem lexFrom_nil (pos : Nat) : lexFrom munch pos [] = [] := rfl

theorem lexFrom_skip {c : α} {rest : List α} (h : munch (c :: rest) = 0) :
    lexFrom munch pos (c :: rest) = lexFrom munch (pos + 1) rest := by
  simp [lexFrom, lexFuel, h]

theorem lexFrom_take (ht : t ≠ []) (h : munch t ≠ 0) : lexFrom munch pos t =
      ⟨pos, t.take (munch t)⟩ :: lexFrom munch (pos + munch t) (t.drop (munch t)) := by
  cases t with
  | nil => exact absurd rfl ht
  | cons c rest =>
    unfold lexFrom
    rw [length_cons, lexFuel, if_neg h]
    congr 1
    refine lexFuel_eq ?_ (Nat.le_refl _)
    simp only [length_drop, length_cons]
    omega

theorem lexFrom_advance (ht : t ≠ []) :
    lexFrom munch pos t = (if munch t = 0 then [] else [⟨pos, t.take (munch t)⟩]) ++
      lexFrom munch (pos + advance munch t) (t.drop (advance munch t)) := by
  unfold advance
  by_cases h : munch t = 0
  · cases t with
    | nil => exact absurd rfl ht
    | cons c rest => simp [h, lexFrom_skip h]
  · rw [lexFrom_take ht h, if_neg h, Nat.max_eq_right (by omega)]
    rfl

theorem lexFuel_start (h : lexeme ∈ lexFuel munch fuel pos t) : pos <= lexeme.start := by
  induction fuel generalizing pos t with
  | zero => simp [lexFuel] at h
  | succ fuel ih =>
    cases t with
    | nil => simp [lexFuel] at h
    | cons c rest =>
      unfold lexFuel at h
      split at h
      · have := ih h
        omega
      · rcases mem_cons.mp h with rfl | h
        · exact Nat.le_refl _
        · have := ih h
          omega

theorem lexFrom_start (h : lexeme ∈ lexFrom munch pos t) : pos <= lexeme.start := lexFuel_start h

/-- The rest of the text gives the rest of the lexemes. -/
theorem Stands.split (h : Stands munch text o) :
    ∃ before, lexFrom munch 0 text = before ++ lexFrom munch o (text.drop o) := by
  induction h with
  | start => exact ⟨[], by simp⟩
  | @step p _ hlt ih =>
    obtain ⟨before, hb⟩ := ih
    have hne : text.drop p ≠ [] := by
      simp only [ne_eq, drop_eq_nil_iff]
      omega
    rw [lexFrom_advance hne, drop_drop] at hb
    exact ⟨before ++ (if munch (text.drop p) = 0 then [] else
      [⟨p, (text.drop p).take (munch (text.drop p))⟩]), by rw [hb, append_assoc]⟩

theorem Stands.of_split_from (n : Nat) {p : Nat} (hn : text.length - p <= n)
    (hp : Stands munch text p) (h : lexFrom munch p (text.drop p) = before ++ lexeme :: after) :
    Stands munch text lexeme.start ∧
      lexeme :: after = lexFrom munch lexeme.start (text.drop lexeme.start) ∧
      p <= lexeme.start ∧ lexeme.start < text.length := by
  induction n generalizing p before with
  | zero =>
    rw [drop_eq_nil_iff.mpr (by omega)] at h
    simp at h
  | succ n ih =>
    by_cases hlt : p < text.length
    · have hne : text.drop p ≠ [] := by
        simp only [ne_eq, drop_eq_nil_iff]
        omega
      have hpos : 1 <= advance munch (text.drop p) := Nat.le_max_left _ _
      rw [lexFrom_advance hne, drop_drop] at h
      have hstep := hp.step hlt
      by_cases hz : munch (text.drop p) = 0
      · rw [if_pos hz, nil_append] at h
        obtain ⟨h1, h2, h3, h4⟩ := ih (by omega) hstep h
        exact ⟨h1, h2, by omega, h4⟩
      · rw [if_neg hz, singleton_append] at h
        cases before with
        | nil =>
          cases h
          refine ⟨hp, ?_, Nat.le_refl _, hlt⟩
          rw [lexFrom_advance hne, if_neg hz, drop_drop, singleton_append]
        | cons b before =>
          simp only [cons_append, List.cons.injEq] at h
          obtain ⟨h1, h2, h3, h4⟩ := ih (by omega) hstep h.2
          exact ⟨h1, h2, by omega, h4⟩
    · rw [drop_eq_nil_iff.mpr (by omega)] at h
      simp at h

theorem stands_of_split (h : lexFrom munch 0 text = before ++ lexeme :: after) :
    Stands munch text lexeme.start ∧
      lexeme :: after = lexFrom munch lexeme.start (text.drop lexeme.start) := by
  obtain ⟨h1, h2, -, -⟩ := Stands.of_split_from text.length (by omega) .start h
  exact ⟨h1, h2⟩

variable (keep : Lexeme α -> Bool)

theorem Stands.split_filter (h : Stands munch text o) :
    ∃ before, (lexFrom munch 0 text).filter keep =
      before ++ (lexFrom munch o (text.drop o)).filter keep := by
  obtain ⟨before, hb⟩ := h.split
  exact ⟨before.filter keep, by rw [hb, filter_append]⟩

theorem stands_of_split_filter (h : (lexFrom munch 0 text).filter keep = before ++ lexeme :: after)
    : Stands munch text lexeme.start ∧
      lexeme :: after = (lexFrom munch lexeme.start (text.drop lexeme.start)).filter keep := by
  obtain ⟨l₁, l₂, hl, -, h₂⟩ := filter_eq_append_iff.mp h
  obtain ⟨m₁, m₂, rfl, -, hkeep, hm⟩ := filter_eq_cons_iff.mp h₂
  rw [<- append_assoc] at hl
  obtain ⟨hs, heq⟩ := stands_of_split hl
  exact ⟨hs, by rw [<- heq, filter_cons_of_pos hkeep, hm]⟩

end Munch

end Reprobit.Machine

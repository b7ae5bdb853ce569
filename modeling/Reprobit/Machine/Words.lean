import Reprobit.Machine.Bounded
import Mathlib.Data.List.Infix
import Mathlib.Data.List.DropRight

/-!
# Lines and words

A list is cut at the elements that satisfy a predicate, into lines or, where empty
parts do not count, into words.
-/

namespace Reprobit.Machine

open List

variable {α : Type} {p q : α -> Bool}

/-- Every part keeps what is in front of its first new cut. -/
theorem splitOnP_refine (hpq : ∀ c, p c = true -> q c = true) (t : List α) :
    ∃ line lines line' lines', t.splitOnP p = line :: lines ∧ t.splitOnP q = line' :: lines' ∧
      line' = line.takeWhile (!q ·) ∧ ∀ l ∈ lines, l.takeWhile (!q ·) ∈ lines' := by
  induction t with
  | nil => exact ⟨[], [], [], [], rfl, rfl, rfl, by simp⟩
  | cons c t ih =>
    obtain ⟨line, lines, line', lines', hp, hq, hline, hlines⟩ := ih
    rw [splitOnP_cons_eq_if_modifyHead, splitOnP_cons_eq_if_modifyHead, hp, hq]
    by_cases hpc : p c = true
    · refine ⟨[], line :: lines, [], line' :: lines', by simp [hpc], by simp [hpq c hpc], rfl, ?_⟩
      intro l hl
      rcases mem_cons.mp hl with rfl | hl
      · simp [hline]
      · exact mem_cons_of_mem _ (hlines l hl)
    · by_cases hqc : q c = true
      · refine ⟨c :: line, lines, [], line' :: lines', by simp [hpc], by simp [hqc],
          by simp [hqc], fun l hl => mem_cons_of_mem _ (hlines l hl)⟩
      · exact ⟨c :: line, lines, c :: line', lines', by simp [hpc], by simp [hqc],
          by simp [hqc, hline], hlines⟩

variable {t lead w tail : List α}

theorem takeWhile_mem_splitOnP (hpq : ∀ c, p c = true -> q c = true) {l : List α}
    (hl : l ∈ t.splitOnP p) : l.takeWhile (!q ·) ∈ t.splitOnP q := by
  obtain ⟨line, lines, line', lines', hp, hq, hline, hlines⟩ := splitOnP_refine hpq t
  rw [hp] at hl
  rw [hq]
  rcases mem_cons.mp hl with rfl | hl
  · simp [hline]
  · exact mem_cons_of_mem _ (hlines l hl)

theorem splitOnP_congr (h : ∀ c ∈ t, p c = q c) : t.splitOnP p = t.splitOnP q := by
  induction t with
  | nil => rfl
  | cons c t ih =>
    rw [splitOnP_cons_eq_if_modifyHead, splitOnP_cons_eq_if_modifyHead, h c (by simp),
      ih fun x hx => h x (by simp [hx])]

/-! ## Words -/

def words (p : α -> Bool) (t : List α) : List (List α) := (t.splitOnP p).filter (!·.isEmpty)

@[simp] theorem words_nil : words p [] = [] := rfl

theorem words_cons_of_sep {c : α} (hc : p c = true) : words p (c :: t) = words p t := by
  simp [words, splitOnP_cons_eq_if_modifyHead, hc]

theorem words_append_of_sep (h : ∀ c ∈ lead, p c = true) : words p (lead ++ t) = words p t := by
  induction lead with
  | nil => rfl
  | cons c lead ih =>
    rw [cons_append, words_cons_of_sep (h c (by simp)), ih fun x hx => h x (by simp [hx])]

/-- A list that is empty or begins with a separator. -/
def StartsApart (p : α -> Bool) (t : List α) : Prop := ∀ c ∈ t.head?, p c = true

theorem words_append (hne : w ≠ []) (hw : ∀ c ∈ w, p c = false) (ht : StartsApart p t) :
    words p (w ++ t) = w :: words p t := by
  have hsplit : (w ++ t).splitOnP p = (t.splitOnP p).modifyHead (w ++ ·) := by
    clear hne
    induction w with
    | nil =>
      obtain ⟨l, ls, hl⟩ := exists_cons_of_ne_nil (splitOnP_ne_nil p t)
      simp [hl]
    | cons c w ih =>
      rw [cons_append, splitOnP_cons_eq_if_modifyHead, if_neg (by simp [hw c (by simp)]),
        ih fun x hx => hw x (by simp [hx]), modifyHead_modifyHead]
      rfl
  rw [words, words, hsplit]
  cases t with
  | nil => simp [hne]
  | cons c t =>
    have hc : p c = true := ht c (by simp)
    simp [splitOnP_cons_eq_if_modifyHead, hc, hne]

/-- The first word, and what stands around it. -/
structure FirstWord (p : α -> Bool) (t lead w tail : List α) : Prop where
  eq : t = lead ++ (w ++ tail)
  lead : ∀ c ∈ lead, p c = true
  ne : w ≠ []
  word : ∀ c ∈ w, p c = false
  apart : StartsApart p tail

theorem FirstWord.words_eq (h : FirstWord p t lead w tail) : words p t = w :: words p tail := by
  rw [h.eq, words_append_of_sep h.lead, words_append h.ne h.word h.apart]

theorem takeWhile_append_apart (hw : ∀ c ∈ w, p c = false) (htail : StartsApart p tail) :
    (w ++ tail).takeWhile (!p ·) = w := by
  rw [takeWhile_append_of_pos (by simpa using hw)]
  cases tail with
  | nil => simp
  | cons c tail => simp [htail c (by simp)]

theorem FirstWord.unique {lead' w' tail' : List α} (h : FirstWord p t lead w tail)
    (h' : FirstWord p t lead' w' tail') : lead = lead' ∧ w = w' ∧ tail = tail' := by
  have hbody : ∀ {lead w tail}, FirstWord p t lead w tail ->
      t.takeWhile p = lead ∧ t.dropWhile p = w ++ tail := by
    intro lead w tail h
    obtain ⟨c, w, rfl⟩ := exists_cons_of_ne_nil h.ne
    have hc : p c = false := h.word c (by simp)
    rw [h.eq, takeWhile_append_of_pos h.lead, dropWhile_append_of_pos h.lead]
    simp [hc]
  obtain ⟨rfl, hdrop⟩ := hbody h
  obtain ⟨rfl, hdrop'⟩ := hbody h'
  have heq : w ++ tail = w' ++ tail' := hdrop.symm.trans hdrop'
  have hw : w = w' := by
    rw [<- takeWhile_append_apart h.word h.apart, heq, takeWhile_append_apart h'.word h'.apart]
  subst hw
  exact ⟨rfl, rfl, append_cancel_left heq⟩

theorem FirstWord.congr (h : FirstWord p t lead w tail) (hpq : ∀ c ∈ t, p c = q c) :
    FirstWord q t lead w tail := by
  have hmem : ∀ c, c ∈ lead ∨ c ∈ w ∨ c ∈ tail -> c ∈ t := by
    intro c hc
    rw [h.eq]
    simpa using hc
  refine ⟨h.eq, fun c hc => ?_, h.ne, fun c hc => ?_, fun c hc => ?_⟩
  · rw [<- hpq c (hmem c (.inl hc))]
    exact h.lead c hc
  · rw [<- hpq c (hmem c (.inr (.inl hc)))]
    exact h.word c hc
  · rw [<- hpq c (hmem c (.inr (.inr (mem_of_mem_head? hc))))]
    exact h.apart c hc

theorem words_eq_cons {rest : List (List α)} (h : words p t = w :: rest) :
    ∃ lead tail, FirstWord p t lead w tail ∧ words p tail = rest := by
  have hlead : ∀ c ∈ t.takeWhile p, p c = true := fun c hc => mem_takeWhile_imp hc
  cases hbody : t.dropWhile p with
  | nil =>
    rw [<- takeWhile_append_dropWhile (p := p) (l := t), words_append_of_sep hlead, hbody] at h
    simp at h
  | cons c body =>
    have hc : p c = false := by
      have hhead := head_dropWhile_not p (l := t) (by simp [hbody])
      simpa [hbody] using hhead
    have hword : ∀ x ∈ (c :: body).takeWhile (!p ·), p x = false := fun x hx => by
      simpa using mem_takeWhile_imp hx
    have htail : StartsApart p ((c :: body).dropWhile (!p ·)) := by
      intro x hx
      have hne : (c :: body).dropWhile (!p ·) ≠ [] := by
        intro hnil
        simp [hnil] at hx
      have hhead := head_dropWhile_not (!p ·) hne
      rw [head?_eq_some_head hne, Option.mem_some_iff] at hx
      rw [<- hx]
      simpa using hhead
    have hfirst : FirstWord p t (t.takeWhile p) ((c :: body).takeWhile (!p ·))
        ((c :: body).dropWhile (!p ·)) := by
      refine ⟨?_, hlead, by simp [hc], hword, htail⟩
      rw [takeWhile_append_dropWhile, <- hbody, takeWhile_append_dropWhile]
    have hwords := hfirst.words_eq
    rw [h, List.cons.injEq] at hwords
    obtain ⟨rfl, rfl⟩ := hwords
    exact ⟨_, _, hfirst, rfl⟩

theorem words_eq_nil_iff : words p t = [] ↔ ∀ c ∈ t, p c = true := by
  constructor
  · intro h c hc
    induction t with
    | nil => simp at hc
    | cons x t ih =>
      by_cases hx : p x = true
      · rw [words_cons_of_sep hx] at h
        rcases mem_cons.mp hc with rfl | hc
        · exact hx
        · exact ih h hc
      · obtain ⟨l, ls, hl⟩ := exists_cons_of_ne_nil (splitOnP_ne_nil p t)
        simp [words, splitOnP_cons_eq_if_modifyHead, hx, hl] at h
  · intro h
    simpa using words_append_of_sep (t := []) h

theorem words_append_sep (h : ∀ c ∈ tail, p c = true) : words p (t ++ tail) = words p t := by
  generalize hlength : t.length = n
  induction n using Nat.strong_induction_on generalizing t with
  | _ n ih =>
    cases hwords : words p t with
    | nil =>
      rw [words_append_of_sep (words_eq_nil_iff.mp hwords), words_eq_nil_iff.mpr h]
    | cons w rest =>
      obtain ⟨lead, back, ⟨rfl, hlead, hne, hw, hback⟩, hrest⟩ := words_eq_cons hwords
      have hapart : StartsApart p (back ++ tail) := by
        cases back with
        | nil =>
          intro c hc
          exact h c (mem_of_mem_head? hc)
        | cons c back => exact hback
      have hshort : back.length < n := by
        have := length_pos_iff.mpr hne
        simp only [length_append] at hlength
        omega
      rw [append_assoc, append_assoc, words_append_of_sep hlead,
        words_append hne hw hapart, ih back.length hshort rfl, hrest]

theorem words_congr (h : ∀ c ∈ t, p c = q c) : words p t = words q t := by
  rw [words, words, splitOnP_congr h]

/-- Without the separators at both ends. -/
def strip (p : α -> Bool) (t : List α) : List α := (t.dropWhile p).rdropWhile p

theorem words_strip (t : List α) : words p (strip p t) = words p t := by
  have happend : strip p t ++ (t.dropWhile p).rtakeWhile p = t.dropWhile p := by
    rw [strip, List.rdropWhile, List.rtakeWhile, <- reverse_append,
      takeWhile_append_dropWhile, reverse_reverse]
  have hback : words p (t.dropWhile p) = words p (strip p t) := by
    have hsep : words p (strip p t ++ (t.dropWhile p).rtakeWhile p) = words p (strip p t) :=
      words_append_sep fun c hc => mem_rtakeWhile_imp hc
    rw [<- hsep, happend]
  rw [<- hback]
  conv_rhs => rw [<- takeWhile_append_dropWhile (p := p) (l := t)]
  exact (words_append_of_sep fun c hc => mem_takeWhile_imp hc).symm

theorem strip_eq_nil_iff : strip p t = [] ↔ words p t = [] := by
  rw [<- words_strip]
  constructor
  · intro h
    simp [h]
  · intro h
    by_contra hne
    have hlast := rdropWhile_last_not p (t.dropWhile p) hne
    exact hlast (words_eq_nil_iff.mp h _ (getLast_mem hne))

theorem FirstWord.strip (h : FirstWord p t lead w tail) :
    ∃ inner trail, FirstWord p (Machine.strip p t) [] w inner ∧ tail = inner ++ trail ∧
      (∀ c ∈ trail, p c = true) ∧ ∀ c rest, inner = c :: rest -> words p rest ≠ [] := by
  obtain ⟨x, w', rfl⟩ := exists_cons_of_ne_nil h.ne
  have hx : p x = false := h.word x (by simp)
  have hbody : t.dropWhile p = (x :: w') ++ tail := by
    rw [h.eq, dropWhile_append_of_pos h.lead]
    simp [hx]
  have hback : (x :: w').reverse.dropWhile p = (x :: w').reverse := by
    have hne : (x :: w').reverse ≠ [] := by simp
    obtain ⟨y, ys, hy⟩ := exists_cons_of_ne_nil hne
    have hmem : y ∈ x :: w' := mem_reverse.mp (hy ▸ mem_cons_self)
    rw [hy, dropWhile_cons_of_neg (by simp [h.word y hmem])]
  have hstrip : Machine.strip p t = (x :: w') ++ tail.rdropWhile p := by
    rw [Machine.strip, hbody, List.rdropWhile, reverse_append, dropWhile_append, hback,
      List.rdropWhile]
    split
    · rename_i hempty
      rw [isEmpty_iff.mp hempty]
      simp
    · simp
  have hsplit : tail = tail.rdropWhile p ++ tail.rtakeWhile p := by
    rw [List.rdropWhile, List.rtakeWhile, <- reverse_append, takeWhile_append_dropWhile,
      reverse_reverse]
  have hapart : StartsApart p (tail.rdropWhile p) := by
    intro c hc
    refine h.apart c ?_
    rw [hsplit, head?_append, Option.mem_def.mp hc]
    rfl
  refine ⟨tail.rdropWhile p, tail.rtakeWhile p, ⟨by simp [hstrip], by simp, by simp, h.word,
    hapart⟩,
    hsplit, fun c hc => mem_rtakeWhile_imp hc, fun c rest hinner hno => ?_⟩
  have hne : tail.rdropWhile p ≠ [] := by simp [hinner]
  have hlast := rdropWhile_last_not p tail hne
  have hall : ∀ y ∈ tail.rdropWhile p, p y = true := by
    rw [hinner]
    intro y hy
    rcases mem_cons.mp hy with rfl | hy
    · exact hapart y (by simp [hinner])
    · exact words_eq_nil_iff.mp hno y hy
  exact hlast (hall _ (getLast_mem hne))

end Reprobit.Machine

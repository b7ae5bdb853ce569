import Reprobit.Census.Lines
import Mathlib.Data.List.TakeWhile

/-!
# What the lexer reads

How the lexer moves over blanks, comments, words and the other tokens, and what
the characters of a token can be.
-/

namespace Reprobit.Census

open Machine List

variable {c : Char}

theorem lineComment_eq_none (h : c ≠ '/') (rest : List Char) : lineComment (c :: rest) = none := by
  unfold lineComment
  split
  · simp_all
  · rfl

theorem blockComment_eq_none (h : c ≠ '/') (rest : List Char) :
    blockComment (c :: rest) = none := by
  unfold blockComment
  split
  · simp_all
  · rfl

theorem literal_eq_none {quote : Char} (h : c ≠ quote) (rest : List Char) :
    literal quote (c :: rest) = none := by
  rw [literal, if_neg h]

theorem hexNumber_eq_none (h : c ≠ '0') (rest : List Char) : hexNumber (c :: rest) = none := by
  unfold hexNumber
  split
  · simp_all
  · rfl

theorem number_eq_none (h : isDecimal c = false) (rest : List Char) :
    number (c :: rest) = none := by
  simp [number, spanLength, h]

variable {t : List Char} {d : Char}

theorem operator_eq_none (h : ∀ op ∈ operators, ¬ op <+: t) : operator t = none := by
  rw [operator, find?_eq_none.mpr fun op hop => by simpa using h op hop]
  rfl

theorem operators_head : ∀ op ∈ operators, ∀ c ∈ op.head?,
    isSpace c = false ∧ isNameStart c = false ∧ isDecimal c = false ∧ c ≠ '"' ∧ c ≠ '\'' := by
  decide

theorem not_prefix_of_head {op rest : List Char} (hop : op ∈ operators)
    (h : isSpace c = true ∨ isNameStart c = true ∨ c = '"' ∨ c = '\'') : ¬ op <+: c :: rest := by
  intro hp
  cases op with
  | nil => revert hop; decide
  | cons d op =>
    obtain ⟨rfl, -⟩ := cons_prefix_cons.mp hp
    obtain ⟨h1, h2, -, h3, h4⟩ := operators_head _ hop d rfl
    rcases h with h | h | h | h
    · rw [h1] at h
      cases h
    · rw [h2] at h
      cases h
    · exact h3 h
    · exact h4 h

theorem ne_of_class {p : Char -> Bool} (h : p c = true) (hd : p d = false) : c ≠ d := by
  rintro rfl
  rw [h] at hd
  cases hd

theorem isNameStart_of_isSpace (h : isSpace c = true) : isNameStart c = false := by
  simp only [isSpace, isNameStart, isAsciiLetter, Bool.or_eq_true, Bool.and_eq_true,
    decide_eq_true_eq] at h ⊢
  rw [Bool.or_eq_false_iff]
  constructor
  · simp only [Bool.or_eq_false_iff, Bool.and_eq_false_iff, decide_eq_false_iff_not]
    omega
  · rw [decide_eq_false_iff_not]
    rintro rfl
    revert h
    decide

theorem isDecimal_of_isSpace (h : isSpace c = true) : isDecimal c = false := by
  simp only [isSpace, isDecimal, Bool.or_eq_true, Bool.and_eq_true, decide_eq_true_eq,
    Bool.and_eq_false_iff, decide_eq_false_iff_not] at h ⊢
  omega

/-- No alternative of the lexer begins with white space. -/
theorem munch_space (h : isSpace c = true) (rest : List Char) : munch (c :: rest) = 0 := by
  have hw : word (c :: rest) = none := by simp [word, isNameStart_of_isSpace h]
  simp [munch, lineComment_eq_none (ne_of_class h (by decide)) rest,
    blockComment_eq_none (ne_of_class h (by decide)) rest,
    literal_eq_none (ne_of_class h (show isSpace '"' = false by decide)) rest,
    literal_eq_none (ne_of_class h (show isSpace '\'' = false by decide)) rest, hw,
    hexNumber_eq_none (ne_of_class h (by decide)) rest,
    number_eq_none (isDecimal_of_isSpace h) rest,
    operator_eq_none fun op hop => not_prefix_of_head hop (.inl h), single, h]

variable {rest : List Char}

theorem munch_hash (h : rest.head? ≠ some '#') : munch ('#' :: rest) = 1 := by
  have hop : operator ('#' :: rest) = none := by
    refine operator_eq_none fun op hop hp => ?_
    have honly : ∀ op ∈ operators, op.head? = some '#' -> op = ['#', '#'] := by decide
    have hne : op ≠ [] := by
      rintro rfl
      revert hop
      decide
    obtain ⟨d, op', rfl⟩ := exists_cons_of_ne_nil hne
    obtain ⟨rfl, hp'⟩ := cons_prefix_cons.mp hp
    have heq := honly _ hop rfl
    simp only [List.cons.injEq, true_and] at heq
    rw [heq] at hp'
    obtain ⟨more, rfl⟩ := hp'
    exact h rfl
  have hw : word ('#' :: rest) = none := by simp [word, show isNameStart '#' = false by decide]
  have hs : single ('#' :: rest) = some 1 := by simp [single, show isSpace '#' = false by decide]
  simp [munch, lineComment_eq_none (show '#' ≠ '/' by decide) rest,
    blockComment_eq_none (show '#' ≠ '/' by decide) rest,
    literal_eq_none (show '#' ≠ '"' by decide) rest,
    literal_eq_none (show '#' ≠ '\'' by decide) rest, hw,
    hexNumber_eq_none (show '#' ≠ '0' by decide) rest,
    number_eq_none (show isDecimal '#' = false by decide) rest, hop, hs]

theorem munch_name (h : isNameStart c = true) (rest : List Char) :
    munch (c :: rest) = 1 + spanLength isWord rest := by
  simp [munch, lineComment_eq_none (ne_of_class h (by decide)) rest,
    blockComment_eq_none (ne_of_class h (by decide)) rest,
    literal_eq_none (ne_of_class h (show isNameStart '"' = false by decide)) rest,
    literal_eq_none (ne_of_class h (show isNameStart '\'' = false by decide)) rest, word, h]

variable {n : Nat}

theorem lineComment_eq_some (h : lineComment t = some n) :
    ∃ rest, t = '/' :: '/' :: rest ∧ n = 2 + spanLength (· ≠ '\n') rest := by
  unfold lineComment at h
  split at h
  · next rest =>
      cases h
      exact ⟨rest, rfl, rfl⟩
  · cases h

theorem blockComment_eq_some (h : blockComment t = some n) :
    ∃ rest k, t = '/' :: '*' :: rest ∧ blockEnd rest = some k ∧ n = k + 2 := by
  unfold blockComment at h
  split at h
  · next rest =>
      obtain ⟨k, hk, rfl⟩ := Option.map_eq_some_iff.mp h
      exact ⟨rest, k, rfl, hk, rfl⟩
  · cases h

theorem munch_block (h : blockEnd rest = some n) : munch ('/' :: '*' :: rest) = n + 2 := by
  simp [munch, lineComment, blockComment, h]

/-! ## Comments and words -/

theorem blockEnd_append {body : List Char} (h : blockEnd body = some n)
    (rest : List Char) : blockEnd (body ++ rest) = some n := by
  induction body generalizing n with
  | nil => cases h
  | cons c body ih =>
    rw [cons_append, blockEnd]
    rw [blockEnd] at h
    split at h
    · next hc =>
        have hhead : (body ++ rest).head? = some '/' := by
          cases body with
          | nil => simp at hc
          | cons d body => simpa using hc.2
        rw [if_pos ⟨hc.1, hhead⟩]
        exact h
    · next hc =>
        obtain ⟨m, hm, hmn⟩ := Option.map_eq_some_iff.mp h
        have hbody : body ≠ [] := by
          rintro rfl
          cases hm
        rw [if_neg, ih hm, Option.map_some, hmn]
        rintro ⟨h1, h2⟩
        obtain ⟨d, body', rfl⟩ := exists_cons_of_ne_nil hbody
        exact hc ⟨h1, by simpa using h2⟩

variable {gap : List Char}

theorem IsGap.head_ne (h : IsGap gap) (hc : c ∈ gap.head?) :
    isBlank c = true ∨ c = '/' := by
  cases h with
  | nil => cases hc
  | blank hb _ =>
    simp only [head?_cons, Option.mem_def, Option.some.injEq] at hc
    exact .inl (hc ▸ hb)
  | comment _ _ =>
    simp only [head?_cons, Option.mem_def, Option.some.injEq] at hc
    exact .inr hc.symm

theorem isSpace_of_isBlank (h : isBlank c = true) : isSpace c = true := by
  simp only [isBlank, Bool.and_eq_true] at h
  exact h.1

variable {p : Nat}

theorem tokensFrom_space (h : isSpace c = true) (rest : List Char) :
    tokensFrom p (c :: rest) = tokensFrom (p + 1) rest := by
  rw [tokensFrom, lexFrom_skip (munch_space h rest), tokensFrom]

theorem tokensFrom_take (ht : t ≠ []) (h : munch t ≠ 0) :
    tokensFrom p t = (if significant ⟨p, t.take (munch t)⟩ then [⟨p, t.take (munch t)⟩] else []) ++
      tokensFrom (p + munch t) (t.drop (munch t)) := by
  rw [tokensFrom, lexFrom_take ht h, filter_cons]
  split
  · rfl
  · rfl

theorem tokensFrom_gap (h : IsGap gap) (p : Nat) (rest : List Char) :
    tokensFrom p (gap ++ rest) = tokensFrom (p + gap.length) rest := by
  induction h generalizing p with
  | nil => simp
  | @blank c gap hc _ ih =>
    rw [cons_append, tokensFrom_space (isSpace_of_isBlank hc), ih, length_cons]
    congr 1
    omega
  | @comment body gap hbody _ ih =>
    have hmunch : munch ('/' :: '*' :: (body ++ gap ++ rest)) = body.length + 2 := by
      rw [append_assoc]
      exact munch_block (blockEnd_append hbody _)
    have hsig : significant ⟨p, ('/' :: '*' :: (body ++ gap ++ rest)).take (body.length + 2)⟩ =
        false := by
      simp [significant]
    rw [cons_append, cons_append, tokensFrom_take (by simp) (by omega), hmunch, hsig]
    have hdrop : ('/' :: '*' :: (body ++ gap ++ rest)).drop (body.length + 2) = gap ++ rest := by
      rw [drop_succ_cons, drop_succ_cons, append_assoc, drop_left]
    rw [hdrop]
    simp only [Bool.false_eq_true, if_false, nil_append]
    rw [ih]
    congr 1
    simp only [length_cons, length_append]
    omega

theorem spanLength_append {p : Char -> Bool} {w tail : List Char} (hw : w.all p = true)
    (htail : ∀ c ∈ tail.head?, p c = false) : spanLength p (w ++ tail) = w.length := by
  unfold spanLength
  rw [takeWhile_append_of_pos (by simpa using hw)]
  cases tail with
  | nil => simp
  | cons c tail => simp [htail c rfl]

theorem isWord_of_isNameChar (h : isNameChar c = true) : isWord c = true := by
  simp [isWord, h]

theorem tokensFrom_name {name tail : List Char} (hname : isName name = true)
    (htail : WordEnds tail) :
    tokensFrom p (name ++ tail) = ⟨p, name⟩ :: tokensFrom (p + name.length) tail := by
  cases name with
  | nil => cases hname
  | cons c name =>
    simp only [isName, Bool.and_eq_true] at hname
    have hall : name.all isWord = true := by
      rw [all_eq_true] at hname ⊢
      exact fun d hd => isWord_of_isNameChar (hname.2 d hd)
    have hmunch : munch (c :: name ++ tail) = (c :: name).length := by
      rw [cons_append, munch_name hname.1, spanLength_append hall htail, length_cons]
      omega
    have hsig : significant ⟨p, c :: name⟩ = true := by
      have hc : c ≠ '/' := ne_of_class hname.1 (by decide)
      simp [significant, hc]
    rw [tokensFrom_take (by simp) (by rw [hmunch]; simp), hmunch, take_left, drop_left,
      hsig]
    rfl

theorem tokensFrom_hash (h : rest.head? ≠ some '#') :
    tokensFrom p ('#' :: rest) = ⟨p, ['#']⟩ :: tokensFrom (p + 1) rest := by
  have hmunch := munch_hash h
  rw [tokensFrom_take (by simp) (by omega), hmunch]
  rfl

theorem isWord_of_isSpace (h : isSpace c = true) : isWord c = false := by
  have hname : isNameChar c = false := by
    rw [isNameChar, isNameStart_of_isSpace h, isDecimal_of_isSpace h]
    rfl
  simp only [isSpace, Bool.or_eq_true, Bool.and_eq_true, decide_eq_true_eq] at h
  simp only [isWord, hname, Bool.false_or, Bool.or_eq_false_iff, contains_eq_mem,
    decide_eq_false_iff_not, mem_cons, not_mem_nil, or_false, Bool.and_eq_false_iff]
  omega

theorem WordEnds.nameEnds (h : WordEnds t) : NameEnds t := by
  intro c hc
  have hw := h c hc
  cases hn : isNameChar c with
  | false => rfl
  | true =>
    rw [isWord_of_isNameChar hn] at hw
    cases hw

theorem IsGap.wordEnds (h : IsGap gap) (hne : gap ≠ []) (rest : List Char) :
    WordEnds (gap ++ rest) := by
  intro c hc
  obtain ⟨d, gap', rfl⟩ := exists_cons_of_ne_nil hne
  cases hc
  rcases h.head_ne rfl with hb | rfl
  · exact isWord_of_isSpace (isSpace_of_isBlank hb)
  · decide

theorem wordEnds_of_tokensFrom {name tail : List Char} (hname : isName name = true)
    {token : Token} {rest : List Token} (h : tokensFrom p (name ++ tail) = token :: rest)
    (htext : token.text = name) : WordEnds tail := by
  cases name with
  | nil => cases hname
  | cons c name =>
    simp only [isName, Bool.and_eq_true] at hname
    have hmunch : munch (c :: name ++ tail) = 1 + spanLength isWord (name ++ tail) :=
      munch_name hname.1 _
    have hsig : significant ⟨p, (c :: name ++ tail).take (1 + spanLength isWord (name ++ tail))⟩ =
        true := by
      have hc : c ≠ '/' := ne_of_class hname.1 (by decide)
      rw [Nat.add_comm]
      simp [significant, hc]
    rw [tokensFrom_take (by simp) (by omega), hmunch, hsig, if_pos rfl, singleton_append,
      List.cons.injEq] at h
    intro d hd
    cases hword : isWord d with
    | false => rfl
    | true =>
      -- the word runs over the whole name and its continuation
      have hlen := congrArg (fun t : Token => t.text.length) h.1
      obtain ⟨tail', rfl⟩ : ∃ tail', tail = d :: tail' := by
        cases tail with
        | nil => cases hd
        | cons e tail' =>
          simp only [head?_cons, Option.mem_def, Option.some.injEq] at hd
          exact ⟨tail', by rw [hd]⟩
      have hspan : name.length + 1 <= spanLength isWord (name ++ d :: tail') := by
        unfold spanLength
        have hall : ∀ e ∈ name, isWord e = true := fun e he =>
          isWord_of_isNameChar (all_eq_true.mp hname.2 e he)
        rw [takeWhile_append_of_pos hall, length_append, takeWhile_cons,
          if_pos hword]
        simp
      rw [htext] at hlen
      simp only [length_take, length_append, length_cons] at hlen
      omega

theorem IsGap.head_append {w rest : List Char} (h : IsGap gap) (hw : isName w = true) :
    (gap ++ (w ++ rest)).head? ≠ some '#' := by
  cases gap with
  | nil =>
    cases w with
    | nil => cases hw
    | cons c w =>
      simp only [isName, Bool.and_eq_true] at hw
      simp only [nil_append, cons_append, head?_cons, ne_eq, Option.some.injEq]
      exact ne_of_class hw.1 (by decide)
  | cons c gap =>
    simp only [cons_append, head?_cons, ne_eq, Option.some.injEq]
    rcases h.head_ne rfl with hb | rfl
    · exact ne_of_class hb (by decide)
    · decide

/-- The tokens of a text that begins with `#`, a gap and a word. -/
theorem tokensFrom_hash_gap {w rest : List Char} (h : IsGap gap) (hw : isName w = true) (p : Nat) :
    tokensFrom p ('#' :: (gap ++ (w ++ rest))) =
      ⟨p, ['#']⟩ :: tokensFrom (p + 1 + gap.length) (w ++ rest) := by
  rw [tokensFrom_hash (h.head_append hw), tokensFrom_gap h]

/-! ## The characters of a token -/

/-- A character that begins neither a comment nor a literal nor a line. -/
def Plain (c : Char) : Prop := c ≠ '/' ∧ c ≠ '"' ∧ c ≠ '\'' ∧ c ≠ '\n'

instance (c : Char) : Decidable (Plain c) := inferInstanceAs (Decidable (_ ∧ _))

theorem plain_of_class {p : Char -> Bool} (h : p c = true)
    (hp : p '/' = false ∧ p '"' = false ∧ p '\'' = false ∧ p '\n' = false) : Plain c :=
  ⟨ne_of_class h hp.1, ne_of_class h hp.2.1, ne_of_class h hp.2.2.1, ne_of_class h hp.2.2.2⟩

theorem take_spanLength (p : Char -> Bool) (t : List Char) :
    t.take (spanLength p t) = t.takeWhile p :=
  (prefix_iff_eq_take.mp ( takeWhile_prefix p)).symm

theorem mem_take_spanLength {p : Char -> Bool} (h : c ∈ t.take (spanLength p t)) : p c = true := by
  rw [take_spanLength] at h
  exact mem_takeWhile_imp h

/-- Behind a span comes a character without the property, or nothing. -/
theorem drop_spanLength (p : Char -> Bool) (t : List Char) :
    ∀ c ∈ (t.drop (spanLength p t)).head?, p c = false := by
  induction t with
  | nil => simp
  | cons d t ih =>
    unfold spanLength at ih ⊢
    rw [takeWhile_cons]
    cases hd : p d with
    | true => simpa using ih
    | false => simpa using hd

def isNumberChar (c : Char) : Bool :=
  isDecimal c || isAsciiLetter c || c = '.' || c = '+' || c = '-'

theorem mem_take_fraction (h : c ∈ t.take (fraction t)) : isNumberChar c = true := by
  unfold fraction at h
  split at h
  · rw [Nat.add_comm, take_succ_cons, mem_cons] at h
    rcases h with rfl | h
    · decide
    · simp [isNumberChar, mem_take_spanLength h]
  · simp at h

theorem mem_take_sign (h : c ∈ t.take (sign t)) : isNumberChar c = true := by
  unfold sign at h
  split at h
  · split at h
    · next hs =>
        simp only [take_succ_cons, take_zero, mem_singleton] at h
        rcases hs with hs | hs
        · rw [h, hs]
          decide
        · rw [h, hs]
          decide
    · simp at h
  · simp at h

theorem mem_take_exponent (h : c ∈ t.take (exponent t)) : isNumberChar c = true := by
  unfold exponent at h
  split at h
  · next d rest =>
      split at h
      · next he =>
          rw [Nat.add_assoc, Nat.add_comm 1, take_succ_cons, mem_cons, take_add,
            mem_append] at h
          rcases h with rfl | h | h
          · rcases he.1 with rfl | rfl
            · decide
            · decide
          · exact mem_take_sign h
          · simp [isNumberChar, mem_take_spanLength h]
      · simp at h
  · simp at h

theorem mem_take_number (hn : number t = some n) (h : c ∈ t.take n) : isNumberChar c = true := by
  simp only [number] at hn
  split at hn
  · cases hn
  · simp only [Option.some.injEq] at hn
    rw [<- hn, take_add, take_add, take_add, mem_append, mem_append,
      mem_append] at h
    rcases h with ((h | h) | h) | h
    · simp [isNumberChar, mem_take_spanLength h]
    · exact mem_take_fraction h
    · exact mem_take_exponent h
    · simp [isNumberChar, mem_take_spanLength h]

theorem operators_tail : ∀ op ∈ operators, ∀ c ∈ op.tail, Plain c := by decide

theorem mem_take_operator (hn : operator (c :: rest) = some n) (h : d ∈ rest.take (n - 1)) :
    Plain d := by
  obtain ⟨op, hop, rfl⟩ := Option.map_eq_some_iff.mp hn
  have hmem := mem_of_find?_eq_some hop
  have hprefix : op <+: c :: rest := by simpa using find?_some hop
  cases op with
  | nil => simp at h
  | cons e op =>
    obtain ⟨-, hp⟩ := cons_prefix_cons.mp hprefix
    rw [length_cons, Nat.add_sub_cancel, <- prefix_iff_eq_take.mp hp] at h
    exact operators_tail _ hmem d h

theorem mem_take_hexNumber (hn : hexNumber (c :: rest) = some n) (h : d ∈ rest.take (n - 1)) :
    Plain d := by
  unfold hexNumber at hn
  split at hn
  · next x more heq =>
      cases heq
      split at hn
      · next hx =>
          cases hn
          rw [show 2 + spanLength isHexDigit more - 1 = spanLength isHexDigit more + 1 by omega,
            take_succ_cons, mem_cons] at h
          rcases h with rfl | h
          · rcases hx.1 with rfl | rfl
            · decide
            · decide
          · exact plain_of_class (mem_take_spanLength h) (by decide)
      · cases hn
  · cases hn

/-- Over white space, a comment, a literal, or a plain token. -/
inductive Move (c : Char) (rest : List Char) : Prop where
  | space (hc : isSpace c = true) (hm : munch (c :: rest) = 0)
  | line (n : Nat) (hn : lineComment (c :: rest) = some n) (hm : munch (c :: rest) = n)
  | block (n : Nat) (hl : lineComment (c :: rest) = none) (hn : blockComment (c :: rest) = some n)
      (hm : munch (c :: rest) = n)
  | literal (n : Nat) (hl : lineComment (c :: rest) = none)
      (hb : blockComment (c :: rest) = none) (hc : c = '"' ∨ c = '\'')
      (hn : quoteEnd c rest = some n) (hm : munch (c :: rest) = n + 1)
  | token (n : Nat) (hl : lineComment (c :: rest) = none) (hb : blockComment (c :: rest) = none)
      (hq : c = '"' ∨ c = '\'' -> quoteEnd c rest = none) (hc : isSpace c = false)
      (hm : munch (c :: rest) = n + 1) (hp : ∀ d ∈ rest.take n, Plain d)
      (hslash : c = '/' -> ∀ d ∈ (rest.take n).head?, d ≠ '*')

theorem move_cases (c : Char) (rest : List Char) : Move c rest := by
  cases hspace : isSpace c with
  | true => exact .space hspace (munch_space hspace rest)
  | false =>
  cases hl : lineComment (c :: rest) with
  | some n => exact .line n hl (by simp [munch, hl])
  | none =>
  cases hb : blockComment (c :: rest) with
  | some n => exact .block n hl hb (by simp [munch, hl, hb])
  | none =>
  cases hd : literal '"' (c :: rest) with
  | some n =>
    simp only [literal] at hd
    split at hd
    · next hc =>
        obtain ⟨m, hm, rfl⟩ := Option.map_eq_some_iff.mp hd
        subst hc
        exact .literal m hl hb (.inl rfl) hm (by simp [munch, hl, hb, literal, hm])
    · cases hd
  | none =>
  cases hs : literal '\'' (c :: rest) with
  | some n =>
    have hs' := hs
    simp only [literal] at hs
    split at hs
    · next hc =>
        obtain ⟨m, hm, rfl⟩ := Option.map_eq_some_iff.mp hs
        subst hc
        exact .literal m hl hb (.inr rfl) hm (by simp [munch, hl, hb, hd, hs'])
    · cases hs
  | none =>
  have hq : c = '"' ∨ c = '\'' -> quoteEnd c rest = none := by
    rintro (rfl | rfl)
    · simpa [literal] using hd
    · simpa [literal] using hs
  have hm : munch (c :: rest) = ((word (c :: rest)).or <| (hexNumber (c :: rest)).or <|
      (number (c :: rest)).or <| (operator (c :: rest)).or <| single (c :: rest)).getD 0 := by
    simp [munch, hl, hb, hd, hs]
  cases hw : word (c :: rest) with
  | some n =>
    simp only [word] at hw
    split at hw
    · next hc =>
        refine .token (spanLength isWord rest) hl hb hq hspace ?_ (fun d hd => ?_)
          fun hslash => absurd hslash (ne_of_class hc (by decide))
        · rw [munch_name hc, Nat.add_comm]
        · exact plain_of_class (mem_take_spanLength hd) (by decide)
    · cases hw
  | none =>
  rw [hw, Option.none_or] at hm
  cases hx : hexNumber (c :: rest) with
  | some n =>
    rw [hx, Option.some_or, Option.getD_some] at hm
    have hpos : 0 < n := by
      unfold hexNumber at hx
      split at hx
      · split at hx
        · simp only [Option.some.injEq] at hx
          omega
        · cases hx
      · cases hx
    refine .token (n - 1) hl hb hq hspace (by omega) (fun d hd => mem_take_hexNumber hx hd)
      fun hslash => ?_
    rw [hexNumber_eq_none (by rw [hslash]; decide)] at hx
    cases hx
  | none =>
  rw [hx, Option.none_or] at hm
  cases hn : number (c :: rest) with
  | some n =>
    rw [hn, Option.some_or, Option.getD_some] at hm
    have hpos : 0 < n := by
      simp only [number] at hn
      split at hn
      · cases hn
      · simp only [Option.some.injEq] at hn
        omega
    refine .token (n - 1) hl hb hq hspace (by omega) (fun d hd => ?_) fun hslash => ?_
    · have hmem : d ∈ (c :: rest).take n := by
        rw [show n = (n - 1) + 1 by omega, take_succ_cons]
        exact mem_cons_of_mem c hd
      exact plain_of_class (mem_take_number hn hmem) (by decide)
    · rw [number_eq_none (by rw [hslash]; decide)] at hn
      cases hn
  | none =>
  rw [hn, Option.none_or] at hm
  cases ho : operator (c :: rest) with
  | some n =>
    rw [ho, Option.some_or, Option.getD_some] at hm
    have hpos : 0 < n := by
      obtain ⟨op, hop, rfl⟩ := Option.map_eq_some_iff.mp ho
      have hall : ∀ op ∈ operators, 0 < op.length := by decide
      exact hall op (mem_of_find?_eq_some hop)
    refine .token (n - 1) hl hb hq hspace (by omega) (fun d hd => mem_take_operator ho hd)
      fun hslash d hd hstar => ?_
    subst hslash hstar
    obtain ⟨op, hop, rfl⟩ := Option.map_eq_some_iff.mp ho
    have hprefix : op <+: '/' :: rest := by simpa using find?_some hop
    have hslashes : ∀ op ∈ operators, op.head? = some '/' -> op.tail = ['='] := by decide
    cases op with
    | nil => simp at hpos
    | cons e op =>
      obtain ⟨rfl, hp⟩ := cons_prefix_cons.mp hprefix
      have htail := hslashes _ (mem_of_find?_eq_some hop) rfl
      rw [length_cons, Nat.add_sub_cancel, <- prefix_iff_eq_take.mp hp] at hd
      simp only [tail_cons] at htail
      rw [htail] at hd
      simp at hd
  | none =>
  rw [ho, Option.none_or] at hm
  refine .token 0 hl hb hq hspace ?_ (by simp) (by simp)
  simp [hm, single, hspace]

end Reprobit.Census

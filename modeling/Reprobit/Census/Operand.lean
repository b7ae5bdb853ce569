import Reprobit.Census.Lexer

/-!
# The operand of an include line

The census reads the operand off the tokens, the line names it by its characters.
Both say the same exactly when the tokens belong to the line and stand unbroken.
-/

namespace Reprobit.Census

open Machine List Option

variable {t : List Char} {n : Nat}

theorem pieceAt_comment
    (h : (lineComment t).or (blockComment t) = some n) : pieceAt t = .comment n := by
  rw [pieceAt, h]

variable {c : Char} {rest : List Char} {p fuel k fuel' : Nat}

theorem pieceAt_literal (hl : lineComment (c :: rest) = none) (hb : blockComment (c :: rest) = none)
    (hc : c = '"' ∨ c = '\'') (hn : quoteEnd c rest = some n) (hline : '\n' ∉ rest.take n) :
    pieceAt (c :: rest) = .literal (n + 1) := by
  simp [pieceAt, hl, hb, closedLiteral, hc, hn, hline]

theorem pieceAt_char (hl : lineComment (c :: rest) = none) (hb : blockComment (c :: rest) = none)
    (hq : c = '"' ∨ c = '\'' -> quoteEnd c rest = none) : pieceAt (c :: rest) = .char := by
  by_cases hc : c = '"' ∨ c = '\''
  · simp [pieceAt, hl, hb, closedLiteral, hq hc]
  · simp [pieceAt, hl, hb, closedLiteral, hc]

theorem pieceAt_plain (h : Plain c) (rest : List Char) : pieceAt (c :: rest) = .char :=
  pieceAt_char (lineComment_eq_none h.1 rest) (blockComment_eq_none h.1 rest)
    fun hc => by rcases hc with hc | hc <;> simp_all [Plain]

theorem pieceAt_space (h : isSpace c = true) (rest : List Char) : pieceAt (c :: rest) = .char :=
  pieceAt_char (lineComment_eq_none (ne_of_class h (by decide)) rest)
    (blockComment_eq_none (ne_of_class h (by decide)) rest) fun hc => by
      rcases hc with hc | hc
      · exact absurd hc (ne_of_class h (by decide))
      · exact absurd hc (ne_of_class h (by decide))

theorem pieceAt_length_pos (t : List Char) (n : Nat)
    (h : pieceAt t = .comment n ∨ pieceAt t = .literal n) : 0 < n := by
  unfold pieceAt at h
  split at h
  · next m hm =>
      rcases h with h | h
      · cases h
        cases hl : lineComment t with
        | some k =>
          rw [hl, some_or, some.injEq] at hm
          obtain ⟨_, -, hk⟩ := lineComment_eq_some hl
          omega
        | none =>
          rw [hl, none_or] at hm
          obtain ⟨_, k, -, -, hk⟩ := blockComment_eq_some hm
          omega
      · cases h
  · split at h
    · next m hm =>
        rcases h with h | h
        · cases h
        · cases h
          unfold closedLiteral at hm
          split at hm
          · cases hm
          · split at hm
            · obtain ⟨k, -, hk⟩ := bind_eq_some_iff.mp hm
              split at hk
              · cases hk
              · simp only [some.injEq] at hk
                omega
            · cases hm
    · rcases h with h | h <;> cases h

theorem lineText_fuel (h : t.length <= fuel) (h' : t.length <= fuel') :
    lineText fuel t = lineText fuel' t := by
  refine fuel_congr (fun n => by cases n <;> rfl) (fun n m c rest ih => ?_) h h'
  unfold lineText
  split
  · rfl
  · split
    · next k hp => rw [ih k (pieceAt_length_pos _ k (.inl hp))]
    · next k hp => rw [ih k (pieceAt_length_pos _ k (.inr hp))]
    · exact congrArg _ (ih 1 Nat.one_pos)

theorem operandFrom_fuel (h : t.length <= fuel) (h' : t.length <= fuel') :
    operandFrom fuel t = operandFrom fuel' t := by
  refine fuel_congr (fun n => by cases n <;> rfl) (fun n m c rest ih => ?_) h h'
  unfold operandFrom
  split
  · rfl
  · split
    · next k hp => exact ih k (pieceAt_length_pos _ k (.inl hp))
    · rfl
    · split
      · exact ih 1 Nat.one_pos
      · rfl

def restOfLine (t : List Char) : List Char := lineText t.length t

theorem restOfLine_char (hc : c ≠ '\n')
    (h : pieceAt (c :: rest) = .char) : restOfLine (c :: rest) = c :: restOfLine rest := by
  simp [restOfLine, lineText, hc, h]

theorem lineText_drop (hn : 0 < n) :
    lineText rest.length ((c :: rest).drop n) = restOfLine ((c :: rest).drop n) :=
  lineText_fuel (by simp only [length_drop, length_cons]; omega) (Nat.le_refl _)

theorem restOfLine_comment (hc : c ≠ '\n') (h : pieceAt (c :: rest) = .comment n) :
    restOfLine (c :: rest) = ' ' :: restOfLine ((c :: rest).drop n) := by
  rw [restOfLine, length_cons, lineText, if_neg hc, h]
  simp only [lineText_drop (pieceAt_length_pos _ n (.inl h))]

theorem restOfLine_literal (hc : c ≠ '\n') (h : pieceAt (c :: rest) = .literal n) :
    restOfLine (c :: rest) = (c :: rest).take n ++ restOfLine ((c :: rest).drop n) := by
  rw [restOfLine, length_cons, lineText, if_neg hc, h]
  simp only [lineText_drop (pieceAt_length_pos _ n (.inr h))]

theorem restOfLine_plain (h : ∀ d ∈ rest.take k, Plain d) :
    restOfLine rest = rest.take k ++ restOfLine (rest.drop k) := by
  induction k generalizing rest with
  | zero => simp
  | succ k ih =>
    cases rest with
    | nil => simp
    | cons d rest =>
      rw [take_succ_cons] at h ⊢
      have hd := h d mem_cons_self
      rw [restOfLine_char hd.2.2.2 (pieceAt_plain hd rest), drop_succ_cons, cons_append,
        <- ih fun e he => h e (mem_cons_of_mem d he)]

theorem tokensFrom_start {token : Token} (h : token ∈ tokensFrom p t) :
    p <= token.start := lexFrom_start (mem_filter.mp h).1

/-- The line has a `>` behind some tokens. -/
def AngleRead (p : Nat) (t : List Char) (pieces : List Token) (close : Token) : Prop :=
  ∃ before more, restOfLine t = before ++ '>' :: more ∧
    (pieces.flatMap Lexeme.text).length <= before.length ∧
    (before = pieces.flatMap Lexeme.text ↔ Unbroken p (pieces ++ [close])) ∧
    ('>' ∈ before -> ∃ piece ∈ pieces, '>' ∈ piece.text)

variable {close : Token} {pieces : List Token} {s : List Char} {m : Nat}

theorem AngleRead.gap {rest : List Token} (h : AngleRead (p + m) (t.drop m) pieces close)
    (hm : 0 < m) {b : Char} (hb : b ≠ '>') (htext : restOfLine t = b :: restOfLine (t.drop m))
    (htokens : tokensFrom (p + m) (t.drop m) = pieces ++ close :: rest) :
    AngleRead p t pieces close := by
  obtain ⟨before, more, h1, h2, -, h4⟩ := h
  refine ⟨b :: before, more, by rw [htext, h1, cons_append], by rw [length_cons]; omega,
    ⟨fun heq => ?_, fun hun => ?_⟩, fun hgt => ?_⟩
  · rw [<- heq, length_cons] at h2
    omega
  · -- the first token begins behind the gap
    obtain ⟨token, tokens, hcons⟩ : ∃ token tokens, pieces ++ [close] = token :: tokens :=
      exists_cons_of_ne_nil (by simp)
    rw [hcons] at hun
    have hmem : token ∈ tokensFrom (p + m) (t.drop m) := by
      rw [htokens, append_cons, hcons]
      simp
    have hstart := tokensFrom_start hmem
    have hp := hun.1
    omega
  · rcases mem_cons.mp hgt with heq | hgt
    · exact absurd heq.symm hb
    · exact h4 hgt

theorem AngleRead.token (h : AngleRead (p + m) (t.drop m) pieces close)
    (hlen : (t.take m).length = m) (htext : restOfLine t = t.take m ++ restOfLine (t.drop m)) :
    AngleRead p t (⟨p, t.take m⟩ :: pieces) close := by
  obtain ⟨before, more, h1, h2, h3, h4⟩ := h
  refine ⟨t.take m ++ before, more, by rw [htext, h1, append_assoc], ?_, ?_, fun hgt => ?_⟩
  · simp only [flatMap_cons, length_append]
    omega
  · simp [h3, Unbroken, hlen]
  · rcases mem_append.mp hgt with hgt | hgt
    · exact ⟨_, mem_cons_self, hgt⟩
    · obtain ⟨piece, hpiece, hmem⟩ := h4 hgt
      exact ⟨piece, mem_cons_of_mem _ hpiece, hmem⟩

/-- A token is the `>`, or the reading goes on behind it. -/
theorem AngleRead.of_token {rest : List Token} (hne : t ≠ []) (hm : munch t = m) (hpos : m ≠ 0)
    (hsig : significant ⟨p, t.take m⟩ = true)
    (htext : restOfLine t = t.take m ++ restOfLine (t.drop m))
    (htokens : tokensFrom p t = pieces ++ close :: rest) (hclose : close.text = ['>'])
    (hrest : ∀ pieces', tokensFrom (p + m) (t.drop m) = pieces' ++ close :: rest ->
      AngleRead (p + m) (t.drop m) pieces' close) : AngleRead p t pieces close := by
  rw [tokensFrom_take hne (by omega), hm, if_pos hsig, singleton_append] at htokens
  cases pieces with
  | nil =>
    simp only [nil_append, List.cons.injEq] at htokens
    have hgt : t.take m = ['>'] := by rw [<- hclose, <- htokens.1]
    refine ⟨[], restOfLine (t.drop m), by rw [htext, hgt]; rfl, by simp, ?_, by simp⟩
    simp [Unbroken, <- htokens.1]
  | cons piece pieces =>
    simp only [cons_append, List.cons.injEq] at htokens
    obtain ⟨rfl, htokens⟩ := htokens
    have hlen : (t.take m).length = m := by
      rw [length_take, Nat.min_eq_left]
      by_contra hlt
      rw [drop_eq_nil_iff.mpr (by omega)] at htokens
      simp [tokensFrom] at htokens
    exact (hrest pieces htokens).token hlen htext

theorem lineComment_drop (h : lineComment t = some n) : ∀ c ∈ (t.drop n).head?, c = '\n' := by
  obtain ⟨rest, rfl, rfl⟩ := lineComment_eq_some h
  intro c hc
  rw [Nat.add_comm, drop_succ_cons, drop_succ_cons] at hc
  simpa using drop_spanLength _ rest c hc

theorem significant_comment (h : lineComment t = some n ∨ blockComment t = some n) :
    significant ⟨p, t.take n⟩ = false := by
  rcases h with h | h
  · obtain ⟨_, rfl, rfl⟩ := lineComment_eq_some h
    simp [significant, Nat.add_comm 2]
  · obtain ⟨_, _, rfl, -, rfl⟩ := blockComment_eq_some h
    simp [significant]

theorem significant_token (hp : ∀ d ∈ rest.take n, Plain d)
    (hslash : c = '/' -> ∀ d ∈ (rest.take n).head?, d ≠ '*') :
    significant ⟨p, (c :: rest).take (n + 1)⟩ = true := by
  rw [take_succ_cons]
  cases htake : rest.take n with
  | nil => simp [significant]
  | cons d more =>
    have hd := (hp d (by rw [htake]; simp)).1
    have hstar : c = '/' -> d ≠ '*' := fun hc => hslash hc d (by rw [htake]; rfl)
    simp only [significant, take_succ_cons, take_zero, ne_eq, List.cons.injEq, and_true,
      Bool.and_eq_true, decide_eq_true_eq]
    exact ⟨fun h => hd h.2, fun h => hstar h.1 h.2⟩

/-- A `>` among the tokens of a line closes an operand. -/
theorem angleRead (n : Nat) {rest : List Token} (hn : t.length <= n) (hline : '\n' ∉ t.take k)
    (htokens : tokensFrom p t = pieces ++ close :: rest) (hclose : close.text = ['>'])
    (hin : close.start < p + k) : AngleRead p t pieces close := by
  induction n generalizing t p k pieces with
  | zero =>
    have ht : t = [] := length_eq_zero_iff.mp (by omega)
    subst ht
    simp [tokensFrom] at htokens
  | succ n ih =>
    cases t with
    | nil => simp [tokensFrom] at htokens
    | cons c t =>
      have hk : 0 < k := by
        have := tokensFrom_start (show close ∈ tokensFrom p (c :: t) by rw [htokens]; simp)
        omega
      have hc : c ≠ '\n' := by
        rintro rfl
        rw [show k = k - 1 + 1 by omega, take_succ_cons] at hline
        exact hline mem_cons_self
      simp only [length_cons] at hn
      -- behind a move the `>` is still to come, and still on the line
      have hnext : ∀ {m : Nat} {pieces' : List Token}, 0 < m ->
          tokensFrom (p + m) ((c :: t).drop m) = pieces' ++ close :: rest ->
          m < k ∧ AngleRead (p + m) ((c :: t).drop m) pieces' close := by
        intro m pieces' hm heq
        have hstart := tokensFrom_start (show close ∈ tokensFrom (p + m) ((c :: t).drop m) by
          rw [heq]; simp)
        refine ⟨by omega, ih (by simp only [length_drop, length_cons]; omega)
          (fun hnl => hline ?_) heq (show close.start < p + m + (k - m) by omega)⟩
        rw [show k = m + (k - m) by omega, take_add]
        exact mem_append_right _ hnl
      cases move_cases c t with
      | space hs hm =>
        rw [tokensFrom_space hs] at htokens
        exact (hnext Nat.one_pos htokens).2.gap Nat.one_pos (ne_of_class hs (by decide))
          (restOfLine_char hc (pieceAt_space hs t)) htokens
      | line m hl hm =>
        -- nothing of the line is left behind the comment
        have hpos := pieceAt_length_pos _ m (.inl (pieceAt_comment (by rw [hl]; rfl)))
        rw [tokensFrom_take (by simp) (by omega), hm, significant_comment (.inl hl)] at htokens
        obtain ⟨hlt, -⟩ := hnext hpos htokens
        cases hdrop : (c :: t).drop m with
        | nil =>
          rw [hdrop] at htokens
          simp [tokensFrom] at htokens
        | cons d more =>
          have hd := lineComment_drop hl d (by rw [hdrop]; rfl)
          refine absurd ?_ hline
          rw [show k = m + (k - m - 1 + 1) by omega, take_add, hdrop, take_succ_cons, hd]
          simp
      | block m hl hb hm =>
        have hpiece : pieceAt (c :: t) = .comment m :=
          pieceAt_comment (by rw [hl, hb]; rfl)
        have hpos := pieceAt_length_pos _ m (.inl hpiece)
        rw [tokensFrom_take (by simp) (by omega), hm, significant_comment (.inr hb)] at htokens
        exact (hnext hpos htokens).2.gap hpos (by decide) (restOfLine_comment hc hpiece) htokens
      | literal m hl hb hq hend hm =>
        have hsig : significant ⟨p, (c :: t).take (m + 1)⟩ = true := by
          have hslash : c ≠ '/' := by rcases hq with rfl | rfl <;> decide
          simp [significant, hslash]
        have hmove := tokensFrom_take (p := p) (t := c :: t) (by simp) (by omega)
        rw [hm, if_pos hsig, singleton_append, htokens] at hmove
        -- the `>` comes behind the literal, so this is closed on the line
        have hpieces : pieces ≠ [] := by
          rintro rfl
          simp only [nil_append, List.cons.injEq] at hmove
          rw [hmove.1, take_succ_cons, List.cons.injEq] at hclose
          rcases hq with rfl | rfl
          · exact absurd hclose.1 (by decide)
          · exact absurd hclose.1 (by decide)
        obtain ⟨piece, pieces, rfl⟩ := exists_cons_of_ne_nil hpieces
        simp only [cons_append, List.cons.injEq] at hmove
        obtain ⟨hlt, -⟩ := hnext (Nat.succ_pos m) hmove.2.symm
        have hclosed : '\n' ∉ t.take m := fun hnl => hline (by
          rw [show k = (m + 1) + (k - m - 1) by omega, take_add, take_succ_cons]
          exact mem_append_left _ (mem_cons_of_mem c hnl))
        exact AngleRead.of_token (by simp) hm (by omega) hsig
          (restOfLine_literal hc (pieceAt_literal hl hb hq hend hclosed)) htokens hclose
          fun pieces' heq => (hnext (Nat.succ_pos m) heq).2
      | token m hl hb hq hs hm hp hslash =>
        refine AngleRead.of_token (by simp) hm (by omega) (significant_token hp hslash) ?_
          htokens hclose fun pieces' heq => (hnext (Nat.succ_pos m) heq).2
        rw [restOfLine_char hc (pieceAt_char hl hb hq), restOfLine_plain hp,
          take_succ_cons, drop_succ_cons, cons_append]

theorem blockEnd_take (h : blockEnd rest = some k) :
    k <= rest.length ∧ blockEnd (rest.take k) = some k := by
  induction rest generalizing k with
  | nil => cases h
  | cons c rest ih =>
    rw [blockEnd] at h
    split at h
    · next hc =>
        cases h
        cases rest with
        | nil => simp at hc
        | cons d rest =>
          simp only [head?_cons] at hc
          simp [blockEnd, hc]
    · next hc =>
        obtain ⟨m, hm, rfl⟩ := map_eq_some_iff.mp h
        obtain ⟨hle, htake⟩ := ih hm
        refine ⟨by simpa using hle, ?_⟩
        rw [take_succ_cons, blockEnd, htake, if_neg, map_some]
        rintro ⟨h1, h2⟩
        refine hc ⟨h1, ?_⟩
        cases rest with
        | nil => simp at h2
        | cons d rest =>
          cases m with
          | zero => simp at h2
          | succ m => simpa using h2

theorem pieceAt_eq_literal (h : pieceAt (c :: rest) = .literal n) :
    ∃ k, quoteEnd c rest = some k ∧ '\n' ∉ rest.take k ∧ n = k + 1 := by
  unfold pieceAt at h
  split at h
  · cases h
  · split at h
    · next m hm =>
        cases h
        unfold closedLiteral at hm
        simp only at hm
        split at hm
        · obtain ⟨k, hk, hline⟩ := bind_eq_some_iff.mp hm
          split at hline
          · cases hline
          · next hnl => exact ⟨k, hk, hnl, (some.inj hline).symm⟩
        · cases hm
    · cases h

theorem lineOperand_gap {gap : List Char} (h : IsGap gap) (rest : List Char) :
    lineOperand (gap ++ rest) = lineOperand rest := by
  induction h with
  | nil => rfl
  | @blank c gap hc _ ih =>
    have hnl : c ≠ '\n' := ne_of_class hc (by decide)
    rw [<- ih]
    simp [lineOperand, operandFrom, hnl, pieceAt_space (isSpace_of_isBlank hc), hc]
  | @comment body gap hbody _ ih =>
    have hpiece : pieceAt ('/' :: '*' :: (body ++ (gap ++ rest))) = .comment (body.length + 2) :=
      pieceAt_comment (by simp [lineComment, blockComment, blockEnd_append hbody])
    rw [<- ih, cons_append, cons_append, append_assoc, lineOperand,
      length_cons, operandFrom, if_neg (by decide), hpiece]
    simp only [drop_succ_cons, drop_left]
    exact operandFrom_fuel (by simp only [length_cons, length_append]; omega)
      (Nat.le_refl _)

/-- A line names an operand by a literal or by `<…>`, behind a gap. -/
theorem operandFrom_eq_some (h : operandFrom fuel t = some s) :
    ∃ gap rest, IsGap gap ∧ t = gap ++ rest ∧
      ((∃ body n, rest = '"' :: body ∧ quoteEnd '"' body = some n ∧ '\n' ∉ body.take n ∧
        s = (rest.take (n + 1)).tail.dropLast) ∨
      ∃ body, rest = '<' :: body ∧ angleName (restOfLine body) = some s) := by
  induction fuel generalizing t with
  | zero => cases h
  | succ fuel ih =>
    cases t with
    | nil => cases h
    | cons c t =>
      rw [operandFrom] at h
      split at h
      · cases h
      · split at h
        · next n hpiece =>
            cases hl : lineComment (c :: t) with
            | some m =>
              have hm := pieceAt_comment (t := c :: t) (by rw [hl]; rfl)
              rw [hm, Piece.comment.injEq] at hpiece
              subst hpiece
              -- the line ends behind a line comment
              cases hdrop : (c :: t).drop m with
              | nil => rw [hdrop] at h; cases fuel <;> cases h
              | cons d more =>
                have hd := lineComment_drop hl d (by rw [hdrop]; rfl)
                rw [hdrop, hd] at h
                cases fuel with
                | zero => cases h
                | succ fuel => simp [operandFrom] at h
            | none =>
              cases hb : blockComment (c :: t) with
              | none =>
                simp only [pieceAt, hl, hb, none_or] at hpiece
                split at hpiece <;> cases hpiece
              | some m =>
                have hm := pieceAt_comment (t := c :: t) (by rw [hl, hb]; rfl)
                rw [hm, Piece.comment.injEq] at hpiece
                subst hpiece
                obtain ⟨body, k, heq, hk, rfl⟩ := blockComment_eq_some hb
                obtain ⟨hle, htake⟩ := blockEnd_take hk
                rw [heq] at h ⊢
                rw [drop_succ_cons, drop_succ_cons] at h
                obtain ⟨gap, rest, hgap, hsplit, hrest⟩ := ih h
                refine ⟨'/' :: '*' :: (body.take k ++ gap), rest, .comment ?_ hgap, ?_, hrest⟩
                · rw [htake, length_take, Nat.min_eq_left hle]
                · rw [cons_append, cons_append, append_assoc, <- hsplit, take_append_drop]
        · next n hpiece =>
            split at h
            · next hc =>
                subst hc
                obtain ⟨k, hk, hline, rfl⟩ := pieceAt_eq_literal hpiece
                exact ⟨[], _, .nil, rfl, .inl ⟨t, k, rfl, hk, hline, (some.inj h).symm⟩⟩
            · cases h
        · split at h
          · next hc =>
              obtain ⟨gap, rest, hgap, rfl, hrest⟩ := ih h
              exact ⟨c :: gap, rest, .blank hc hgap, rfl, hrest⟩
          · split at h
            · next hc =>
                subst hc
                exact ⟨[], _, .nil, rfl, .inr ⟨t, rfl, h⟩⟩
            · cases h

variable {body : List Char} {stop : Nat}

theorem lineOperand_quote (hn : quoteEnd '"' body = some n)
    (hline : '\n' ∉ body.take n) :
    lineOperand ('"' :: body) = some (('"' :: body).take (n + 1)).tail.dropLast := by
  have hpiece := pieceAt_literal (lineComment_eq_none (by decide) body)
    (blockComment_eq_none (by decide) body) (.inl rfl) hn hline
  simp [lineOperand, operandFrom, hpiece]

theorem anglePieces_eq_some {tokens : List Token} (h : anglePieces stop tokens = some pieces) :
    ∃ close rest, tokens = pieces ++ close :: rest ∧ close.text = ['>'] ∧ close.start < stop ∧
      ∀ piece ∈ pieces, piece.text ≠ ['>'] ∧ piece.start < stop := by
  induction tokens generalizing pieces with
  | nil => cases h
  | cons token tokens ih =>
    rw [anglePieces] at h
    split at h
    · cases h
    · next hlt =>
        split at h
        · next hgt =>
            cases h
            exact ⟨token, tokens, rfl, hgt, by omega, by simp⟩
        · next hgt =>
            obtain ⟨pieces', hp, rfl⟩ := map_eq_some_iff.mp h
            obtain ⟨close, rest, rfl, h1, h2, h3⟩ := ih hp
            exact ⟨close, rest, rfl, h1, h2, forall_mem_cons.mpr ⟨⟨hgt, by omega⟩, h3⟩⟩

variable {after : List Token} {text : List Char}

theorem readOperand_eq_some {token : Token} (h : readOperand text token after = some s) :
    (2 <= token.text.length ∧ token.text.head? = some '"' ∧ token.text.getLast? = some '"' ∧
      s = token.text.tail.dropLast) ∨
    (token.text = ['<'] ∧ ∃ pieces close rest, after = pieces ++ close :: rest ∧
      close.text = ['>'] ∧ close.start < lineEnd text token.start ∧
      (∀ piece ∈ pieces, piece.text ≠ ['>']) ∧ s = pieces.flatMap Lexeme.text) := by
  unfold readOperand at h
  split at h
  · cases h
  · split at h
    · next hq => exact .inl ⟨hq.1, hq.2.1, hq.2.2, (some.inj h).symm⟩
    · split at h
      · next hlt =>
          split at h
          · next piece pieces hp =>
              obtain ⟨close, rest, h1, h2, h3, h4⟩ := anglePieces_eq_some hp
              exact .inr ⟨hlt, _, close, rest, h1, h2, h3, fun p hp => (h4 p hp).1,
                (some.inj h).symm⟩
          · cases h
      · cases h

theorem anglePieces_append {rest : List Token} (hclose : close.text = ['>'])
    (hstop : close.start < stop)
    (hpieces : ∀ piece ∈ pieces, piece.text ≠ ['>'] ∧ piece.start < stop) :
    anglePieces stop (pieces ++ close :: rest) = some pieces := by
  induction pieces with
  | nil => rw [nil_append, anglePieces, if_neg (by omega), if_pos hclose]
  | cons piece pieces ih =>
    obtain ⟨⟨htext, hstart⟩, hmore⟩ := forall_mem_cons.mp hpieces
    rw [cons_append, anglePieces, if_neg (by omega), if_neg htext, ih hmore]
    rfl

theorem readOperand_isSome_iff {token : Token} :
    (readOperand text token after).isSome ↔ SpellsOperand text token after := by
  unfold readOperand SpellsOperand
  by_cases hend : lineEnd text token.start <= token.start
  · rw [if_pos hend]
    exact ⟨fun h => by simp at h, fun h => absurd h.1 (by omega)⟩
  · rw [if_neg hend, and_iff_right (Nat.lt_of_not_le hend)]
    by_cases hquote : 2 <= token.text.length ∧ token.text.head? = some '"' ∧
        token.text.getLast? = some '"'
    · rw [if_pos hquote]
      exact ⟨fun _ => .inl hquote, fun _ => rfl⟩
    · rw [if_neg hquote, or_iff_right hquote]
      by_cases hlt : token.text = ['<']
      · rw [if_pos hlt, and_iff_right hlt]
        constructor
        · intro h
          split at h
          · next piece pieces hp =>
              obtain ⟨close, rest, hsplit, hclose, hstop, hpieces⟩ := anglePieces_eq_some hp
              exact ⟨piece :: pieces, close, rest, hsplit, by simp, hclose, hstop, hpieces⟩
          · cases h
        · rintro ⟨pieces, close, rest, rfl, hne, hclose, hstop, hpieces⟩
          rw [anglePieces_append hclose hstop hpieces]
          cases pieces with
          | nil => exact absurd rfl hne
          | cons piece pieces => rfl
      · rw [if_neg hlt]
        exact ⟨fun h => by simp at h, fun h => absurd h.1 hlt⟩

variable {q : Nat} {tail : List Char}

theorem tokensFrom_head {token : Token}
    (h : tokensFrom q t = token :: after) (hq : token.start = q) :
    t ≠ [] ∧ munch t ≠ 0 ∧ token.text = t.take (munch t) ∧
      after = tokensFrom (q + munch t) (t.drop (munch t)) := by
  cases t with
  | nil => simp [tokensFrom] at h
  | cons c t =>
    refine ⟨by simp, ?_⟩
    by_cases hz : munch (c :: t) = 0
    · rw [tokensFrom, lexFrom_skip hz] at h
      have hstart := tokensFrom_start (show token ∈ tokensFrom (q + 1) t by
        rw [tokensFrom, h]; simp)
      omega
    · refine ⟨hz, ?_⟩
      rw [tokensFrom_take (by simp) hz] at h
      split at h
      · simp only [singleton_append, List.cons.injEq] at h
        exact ⟨by rw [<- h.1], h.2.symm⟩
      · have hstart := tokensFrom_start (show token ∈ _ by
          rw [nil_append] at h; rw [h]; simp)
        omega

theorem significant_head (hc : c ≠ '/') (ht : t.head? = some c) : significant ⟨p, t⟩ = true := by
  cases t with
  | nil => cases ht
  | cons d t =>
    simp only [head?_cons, some.injEq] at ht
    simp [significant, ht, hc]

theorem tokensFrom_start_eq {token : Token} (hs : isSpace c = false) (hc : c ≠ '/')
    (h : tokensFrom q (c :: t) = token :: after) : token.start = q := by
  have hz : munch (c :: t) ≠ 0 := by
    cases move_cases c t with
    | space h1 _ =>
      rw [hs] at h1
      cases h1
    | line n h1 _ =>
      rw [lineComment_eq_none hc] at h1
      cases h1
    | block n _ h1 _ =>
      rw [blockComment_eq_none hc] at h1
      cases h1
    | literal n _ _ _ _ hm => omega
    | token n _ _ _ _ hm _ _ => omega
  have hsig : significant ⟨q, (c :: t).take (munch (c :: t))⟩ = true := by
    refine significant_head hc ?_
    rw [show munch (c :: t) = munch (c :: t) - 1 + 1 by omega, take_succ_cons]
    rfl
  rw [tokensFrom_take (by simp) hz, if_pos hsig, singleton_append, List.cons.injEq] at h
  rw [<- h.1]

/-- A literal the census reads is one the lexer found. -/
theorem quoteEnd_of_token
    (hlen : 2 <= (('"' :: body).take (munch ('"' :: body))).length)
    (hlast : (('"' :: body).take (munch ('"' :: body))).getLast? = some '"') :
    ∃ n, quoteEnd '"' body = some n ∧ munch ('"' :: body) = n + 1 := by
  cases move_cases '"' body with
  | space h _ => exact absurd h (by decide)
  | line n h _ =>
    cases h
  | block n _ h _ =>
    cases h
  | literal n _ _ _ hn hm => exact ⟨n, hn, hm⟩
  | token n _ _ _ _ hm hp _ =>
    -- the quote at the end would be a plain character
    rw [hm, take_succ_cons] at hlen hlast
    have hne : body.take n ≠ [] := by
      intro hnil
      rw [hnil] at hlen
      simp at hlen
    rw [getLast?_cons, getLast?_eq_some_getLast hne, getD_some,
      some.injEq] at hlast
    exact absurd hlast (hp _ (getLast_mem hne)).2.1

theorem lineEnd_angle (h : text.drop q = '<' :: body) :
    lineEnd text q = q + 1 + spanLength (· ≠ '\n') body := by
  rw [lineEnd, h, spanLength, takeWhile_cons, if_pos (by decide), length_cons, spanLength]
  omega

theorem not_mem_take_spanLength (t : List Char) : '\n' ∉ t.take (spanLength (· ≠ '\n') t) := by
  intro h
  have := mem_take_spanLength h
  simp at this

/-- The tokens stand unbroken and hide no `>`. -/
theorem angleName_eq_iff {rest : List Token} (hdrop : text.drop q = '<' :: body)
    (htokens : tokensFrom (q + 1) body = pieces ++ close :: rest) (hclose : close.text = ['>'])
    (hin : close.start < lineEnd text q) :
    angleName (restOfLine body) = some (pieces.flatMap Lexeme.text) ↔
      Unbroken (q + 1) (pieces ++ [close]) ∧ ∀ piece ∈ pieces, '>' ∉ piece.text := by
  obtain ⟨before, more, h1, -, h3, h4⟩ := angleRead body.length (Nat.le_refl _)
    (not_mem_take_spanLength body) htokens hclose (by rw [<- lineEnd_angle hdrop]; exact hin)
  have hname : angleName (restOfLine body) =
      some ((before ++ '>' :: more).takeWhile (· ≠ '>')) := by
    rw [angleName, h1, if_pos (by simp)]
  have htake : '>' ∉ before -> (before ++ '>' :: more).takeWhile (· ≠ '>') = before := by
    intro hno
    rw [takeWhile_append_of_pos fun c hc => by
      simpa using fun heq : c = '>' => hno (heq ▸ hc)]
    simp
  rw [hname, some.injEq]
  constructor
  · intro heq
    have hno : ∀ piece ∈ pieces, '>' ∉ piece.text := by
      intro piece hp hgt
      have hmem : '>' ∈ pieces.flatMap Lexeme.text := mem_flatMap.mpr ⟨piece, hp, hgt⟩
      rw [<- heq] at hmem
      simpa using mem_takeWhile_imp hmem
    have hbefore : '>' ∉ before := fun hgt => by
      obtain ⟨piece, hp, hgt'⟩ := h4 hgt
      exact hno piece hp hgt'
    rw [htake hbefore] at heq
    exact ⟨h3.mp heq, hno⟩
  · rintro ⟨hun, hno⟩
    have hbefore : '>' ∉ before := fun hgt => by
      obtain ⟨piece, hp, hgt'⟩ := h4 hgt
      exact hno piece hp hgt'
    rw [htake hbefore, h3.mpr hun]

/-- The first `>` splits the tokens in one way only. -/
theorem close_unique {pieces' rest rest' : List Token} {close close' : Token}
    (h : pieces ++ close :: rest = pieces' ++ close' :: rest') (hc : close.text = ['>'])
    (hc' : close'.text = ['>']) (hp : ∀ piece ∈ pieces, piece.text ≠ ['>'])
    (hp' : ∀ piece ∈ pieces', piece.text ≠ ['>']) : pieces = pieces' ∧ close = close' := by
  induction pieces generalizing pieces' with
  | nil =>
    cases pieces' with
    | nil => exact ⟨rfl, (List.cons.inj h).1⟩
    | cons piece pieces' =>
      exact absurd ((List.cons.inj h).1 ▸ hc) (hp' piece mem_cons_self)
  | cons piece pieces ih =>
    cases pieces' with
    | nil => exact absurd ((List.cons.inj h).1 ▸ hc') (hp piece mem_cons_self)
    | cons piece' pieces' =>
      obtain ⟨rfl, htail⟩ := List.cons.inj h
      obtain ⟨rfl, rfl⟩ := ih htail (fun q hq => hp q (mem_cons_of_mem _ hq))
        fun q hq => hp' q (mem_cons_of_mem _ hq)
      exact ⟨rfl, rfl⟩

theorem tokensFrom_behind_angle {token : Token} (h : tokensFrom q ('<' :: body) = token :: after)
    (hq : token.start = q) (htext : token.text = ['<']) : after = tokensFrom (q + 1) body := by
  obtain ⟨-, hz, htake, hafter⟩ := tokensFrom_head h hq
  rw [htext] at htake
  cases body with
  | nil =>
    have hdrop : (['<'] : List Char).drop (munch ['<']) = [] :=
      drop_eq_nil_iff.mpr (by simp only [length_singleton]; omega)
    rw [hafter, hdrop]
    rfl
  | cons d body =>
    have hone : munch ('<' :: d :: body) = 1 := by
      have hlen := congrArg List.length htake
      simp only [length_nil, length_take, length_cons] at hlen
      omega
    rw [hafter, hone]
    rfl

/-- Behind a `<` the line names the text of the tokens. -/
theorem operandInLine_angle {gap : List Char} {token : Token} {rest : List Token} (hgap : IsGap gap)
    (htail : tail = gap ++ text.drop token.start) (hdrop : text.drop token.start = '<' :: body)
    (hafter : after = tokensFrom (token.start + 1) body) (htext : token.text = ['<'])
    (hsplit : after = pieces ++ close :: rest) (hclose : close.text = ['>'])
    (hin : close.start < lineEnd text token.start) (hno : ∀ piece ∈ pieces, piece.text ≠ ['>']) :
    angleName (restOfLine body) = some (pieces.flatMap Lexeme.text) ↔
      OperandInLine text tail token after := by
  rw [angleName_eq_iff hdrop (hafter ▸ hsplit) hclose hin]
  constructor
  · intro h
    refine ⟨⟨gap, hgap, htail⟩, by rw [htext]; decide, fun _ pieces' close' rest' heq hc' hp' => ?_⟩
    obtain ⟨rfl, rfl⟩ := close_unique (hsplit.symm.trans heq) hclose hc' hno hp'
    exact h
  · intro h
    exact h.unbroken htext pieces close rest hsplit hclose hno

theorem readOperand_eq_iff (hp : p <= text.length) (htail : text.drop p = tail) {token : Token}
    (htokens : tokensFrom p tail = token :: after) (hs : readOperand text token after = some s) :
    lineOperand tail = some s ↔ OperandInLine text tail token after := by
  constructor
  · intro hline
    obtain ⟨gap, rest, hgap, rfl, hrest⟩ := operandFrom_eq_some hline
    rw [tokensFrom_gap hgap] at htokens
    have hdrop : text.drop (p + gap.length) = rest := by
      rw [<- drop_drop, htail, drop_left]
    rcases hrest with ⟨body, n, rfl, hn, hnl, -⟩ | ⟨body, rfl, hname⟩
    · have hstart := tokensFrom_start_eq (by decide) (by decide) htokens
      obtain ⟨-, -, htext, -⟩ := tokensFrom_head htokens hstart
      have hmunch : munch ('"' :: body) = n + 1 := by
        simp [munch, lineComment_eq_none (show '"' ≠ '/' by decide) body,
          blockComment_eq_none (show '"' ≠ '/' by decide) body, literal, hn]
      rw [hmunch, take_succ_cons] at htext
      refine ⟨⟨gap, hgap, by rw [hstart, hdrop]⟩, ?_, fun hlt => ?_⟩
      · rw [htext, mem_cons, not_or]
        exact ⟨by decide, hnl⟩
      · rw [htext, List.cons.injEq] at hlt
        exact absurd hlt.1 (by decide)
    · have hstart := tokensFrom_start_eq (by decide) (by decide) htokens
      obtain ⟨-, hz, htext, -⟩ := tokensFrom_head htokens hstart
      rcases readOperand_eq_some hs with ⟨-, hhead, -, -⟩ | ⟨hlt, pieces, close, more, hsplit,
        hclose,
        hin, hno, rfl⟩
      · rw [htext, show munch ('<' :: body) = munch ('<' :: body) - 1 + 1 by omega,
          take_succ_cons, head?_cons, some.injEq] at hhead
        exact absurd hhead (by decide)
      · have hafter := tokensFrom_behind_angle htokens hstart hlt
        rw [<- hstart] at hdrop hafter
        exact (operandInLine_angle hgap (by rw [hdrop]) hdrop hafter hlt hsplit hclose hin
          hno).mp hname
  · intro hin
    obtain ⟨gap, hgap, hsplit⟩ := hin.onLine
    have hgapTokens := tokensFrom_gap hgap p (text.drop token.start)
    rw [<- hsplit, htokens] at hgapTokens
    have hne : text.drop token.start ≠ [] := by
      intro hnil
      rw [hnil] at hgapTokens
      simp [tokensFrom] at hgapTokens
    have hstart : token.start = p + gap.length := by
      have hlen := congrArg List.length hsplit
      rw [<- htail, length_append, length_drop, length_drop] at hlen
      simp only [ne_eq, drop_eq_nil_iff] at hne
      omega
    obtain ⟨-, hz, htext, hafter⟩ := tokensFrom_head hgapTokens.symm hstart
    obtain ⟨c, body, hcons⟩ := exists_cons_of_ne_nil hne
    rw [hsplit, lineOperand_gap hgap, hcons]
    rw [hcons] at htext hz
    rcases readOperand_eq_some hs with ⟨hlen, hhead, hlast, rfl⟩ | ⟨hlt, pieces, close, more,
      hpieces, hclose, hend, hno, rfl⟩
    · have hc : c = '"' := by
        rw [htext, show munch (c :: body) = munch (c :: body) - 1 + 1 by omega,
          take_succ_cons, head?_cons, some.injEq] at hhead
        exact hhead
      subst hc
      rw [htext] at hlen hlast
      obtain ⟨n, hn, hm⟩ := quoteEnd_of_token hlen hlast
      have hclosed := hin.closed
      rw [htext, hm, take_succ_cons, mem_cons, not_or] at hclosed
      rw [lineOperand_quote hn hclosed.2, htext, hm]
    · have hc : c = '<' := by
        rw [hlt, show munch (c :: body) = munch (c :: body) - 1 + 1 by omega,
          take_succ_cons, List.cons.injEq] at htext
        exact htext.1.symm
      subst hc
      rw [hcons] at hgapTokens
      have hafter := tokensFrom_behind_angle hgapTokens.symm hstart hlt
      rw [<- hstart] at hafter
      exact (operandInLine_angle hgap hsplit hcons hafter hlt hpieces hclose hend hno).mpr hin

end Reprobit.Census

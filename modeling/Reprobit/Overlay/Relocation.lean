import Reprobit.Census.Complete

/-!
# The comments of a relocated range

Before a range moves, its comments are blanked in place, all of them or all but the
annotations.  The lexer reads the same tokens at the same offsets afterwards: its scanners
stop at a blank where they stopped at the slash of the comment, and a literal or a
comment that was not closed is not closed by blanks.
-/

namespace Reprobit.Overlay

open Machine Census List

/-- Tokens with the offsets they begin and end at, by `SOURCE_OVERLAY_TOKEN_RE`. -/
def tokens (data : List Byte) : List (List Char × Nat × Nat) :=
  (iterSourceOverlayTokens (decodeLatin1 data)).map fun token =>
    (token.text, token.start, token.start + token.text.length)

def annotationWords : List (List Char) :=
  ["FUNCTION".toList, "GLOBAL".toList, "VTABLE".toList, "STRING".toList, "LIBRARY".toList,
    "SYNTHETIC".toList, "TODO".toList, "OFFSET".toList, "SIZE".toList]

/-- `_ANNOTATION_COMMENT_RE`; `\b` asks for the end or a character that is not `\w`. -/
def isAnnotation (token : List Char) : Bool :=
  let rest := (token.drop 2).dropWhile isSpace
  ['/', '/'].isPrefixOf token && annotationWords.any fun w =>
    w.isPrefixOf rest && (rest.drop w.length).head?.all (!isWord ·)

def blankByte (b : Byte) : Byte := if b = 10 ∨ b = 13 then b else 32

def blankRange (start stop : Nat) (result : List Byte) : List Byte :=
  result.take start ++ ((result.take stop).drop start).map blankByte ++ result.drop stop

/-- What the loop does for one match. -/
def stripToken (preserveAnnotations : Bool) (result : List Byte) (token : Census.Token) :
    List Byte :=
  if significant token then result
  else if preserveAnnotations && ['/', '/'].isPrefixOf token.text && isAnnotation token.text then
    result
  else blankRange token.start (token.start + token.text.length) result

def stripRelocationComments (data : List Byte) (preserveAnnotations : Bool) : List Byte :=
  (lexFrom munch 0 (decodeLatin1 data)).foldl (stripToken preserveAnnotations) data

/-! ## Literals and comments that do not end -/

/-- Some are blanks now; a backslash only before white space. -/
inductive Blanked : List Char -> List Char -> Prop where
  | nil : Blanked [] []
  | keep (c : Char) {t t' : List Char} : Blanked t t' -> Blanked (c :: t) (c :: t')
  | blank {c : Char} {t t' : List Char} (hc : c ≠ '\n' ∧ c ≠ '\r')
      (hescape : c = '\\' -> ∀ d ∈ t'.head?, isSpace d = true) :
      Blanked t t' -> Blanked (c :: t) (' ' :: t')

variable {t t' r w : List Char} {c quote : Char} {p n : Nat}

theorem Blanked.length_eq (h : Blanked t t') : t'.length = t.length := by
  induction h <;> simp_all

theorem Blanked.break_iff (h : Blanked t t') (hc : c = '\n' ∨ c = '\r') (i : Nat) :
    t'[i]? = some c ↔ t[i]? = some c := by
  induction h generalizing i with
  | nil => rfl
  | keep d _ ih =>
    cases i with
    | zero => rfl
    | succ i => exact ih i
  | @blank d _ _ hd _ _ ih =>
    cases i with
    | zero => rcases hc with rfl | rfl <;> simp [hd]
    | succ i => exact ih i

theorem Blanked.blockEnd_none (h : Blanked t t') (hnone : blockEnd t = none) :
    blockEnd t' = none := by
  induction h with
  | nil => rfl
  | @keep c t t' h ih =>
    rw [blockEnd] at hnone ⊢
    split at hnone
    · cases hnone
    · next hc =>
        rw [if_neg, ih (Option.map_eq_none_iff.mp hnone), Option.map_none]
        rintro ⟨hstar, hslash⟩
        refine hc ⟨hstar, ?_⟩
        cases h <;> simp_all
  | blank _ _ _ ih =>
    rw [blockEnd] at hnone ⊢
    split at hnone
    · cases hnone
    · rw [if_neg (by simp), ih (Option.map_eq_none_iff.mp hnone), Option.map_none]

theorem quoteEnd_cons (hc : c ≠ '\\') (hq : c ≠ quote) (t : List Char) :
    quoteEnd quote (c :: t) = (quoteEnd quote t).map (· + 1) := by
  rw [quoteEnd.eq_def]
  split <;> simp_all

theorem ne_backslash (hend : c = '\\' -> t = [] -> False)
    (hpair : ∀ d rest, c = '\\' -> t = d :: rest -> False) : c ≠ '\\' := by
  intro hc
  cases t with
  | nil => exact hend hc rfl
  | cons d rest => exact hpair d rest hc rfl

/-- Escapes fall on the same places in both texts. -/
theorem Blanked.quoteEnd_none (hquote : isSpace quote = false) (h : Blanked t t')
    (hnone : quoteEnd quote t = none) : quoteEnd quote t' = none := by
  have hspace : ∀ {d r}, isSpace d = true -> quoteEnd quote r = none ->
      quoteEnd quote (d :: r) = none := by
    intro d r hd hr
    rw [quoteEnd_cons (ne_of_class hd (by decide)) (ne_of_class hd hquote), hr, Option.map_none]
  fun_induction quoteEnd quote t generalizing t' with
  | case1 =>
    cases h
    rfl
  | case2 =>
    cases h with
    | keep _ h =>
      cases h
      rfl
    | blank _ _ h =>
      cases h
      exact hspace rfl rfl
  | case3 x rest ih =>
    have ih := fun {t'} h => @ih t' h (Option.map_eq_none_iff.mp hnone)
    cases h with
    | keep _ h =>
      cases h with
      | keep _ h => simp [quoteEnd, ih h]
      | blank _ _ h => simp [quoteEnd, ih h]
    | blank _ hescape h =>
      cases h with
      | keep _ h => exact hspace rfl (hspace (hescape rfl x rfl) (ih h))
      | blank _ _ h => exact hspace rfl (hspace rfl (ih h))
  | case4 => cases hnone
  | case5 c rest hend hpair hq ih =>
    have ih := fun {t'} h => @ih t' h (Option.map_eq_none_iff.mp hnone)
    cases h with
    | keep _ h => rw [quoteEnd_cons (ne_backslash hend hpair) hq, ih h, Option.map_none]
    | blank _ _ h => exact hspace rfl (ih h)

/-! ## The scanners -/

/-- Blanked from the slash of a comment on. -/
inductive Stripped : List Char -> List Char -> Prop where
  | nil : Stripped [] []
  | keep (c : Char) {t t' : List Char} : Stripped t t' -> Stripped (c :: t) (c :: t')
  | slash {t t' : List Char} : Blanked t t' -> Stripped ('/' :: t) (' ' :: t')

theorem Stripped.blanked (h : Stripped t t') : Blanked t t' := by
  induction h with
  | nil => exact .nil
  | keep c _ ih => exact .keep c ih
  | slash h => exact .blank (by decide) (fun hc => absurd hc (by decide)) h

theorem Stripped.append (w : List Char) (h : Stripped t t') : Stripped (w ++ t) (w ++ t') := by
  induction w with
  | nil => exact h
  | cons c w ih => exact .keep c ih

/-- A scanner that stops at related places in both texts. -/
def Stops (scan : List Char -> Nat) : Prop :=
  ∀ t t', Stripped t t' -> scan t' = scan t ∧ Stripped (t.drop (scan t)) (t'.drop (scan t))

theorem Stops.then {scan next : List Char -> Nat} (h : Stops scan) (hnext : Stops next) :
    Stops fun t => scan t + next (t.drop (scan t)) := by
  intro t t' ht
  obtain ⟨heq, hdrop⟩ := h t t' ht
  obtain ⟨heq', hdrop'⟩ := hnext _ _ hdrop
  rw [drop_drop, drop_drop] at hdrop'
  exact ⟨by simp only [heq, heq'], hdrop'⟩

theorem stops_span {p : Char -> Bool} (hslash : p '/' = false) (hblank : p ' ' = false) :
    Stops (spanLength p) := by
  intro t t' h
  induction h with
  | nil => exact ⟨rfl, .nil⟩
  | keep c h ih =>
    cases hc : p c with
    | true => simpa [spanLength, hc] using ih
    | false => simpa [spanLength, hc] using h.keep c
  | slash h => simpa [spanLength, hslash, hblank] using Stripped.slash h

theorem stops_fraction : Stops fraction := by
  intro t t' h
  have hspan : Stops (spanLength isDecimal) := stops_span (by decide) (by decide)
  cases h with
  | nil => exact ⟨rfl, .nil⟩
  | keep c h =>
    by_cases hc : c = '.'
    · subst hc
      simpa [fraction, Nat.add_comm 1] using hspan _ _ h
    · simpa [fraction, hc] using h.keep c
  | slash h => simpa [fraction] using Stripped.slash h

theorem stops_sign : Stops sign := by
  intro t t' h
  cases h with
  | nil => exact ⟨rfl, .nil⟩
  | keep c h =>
    by_cases hc : c = '+' ∨ c = '-'
    · simpa [sign, hc] using h
    · simpa [sign, hc] using h.keep c
  | slash h => simpa [sign] using Stripped.slash h

theorem stops_exponent : Stops exponent := by
  intro t t' h
  cases h with
  | nil => exact ⟨rfl, .nil⟩
  | @keep c rest rest' h =>
    obtain ⟨hsign, hrest⟩ := stops_sign _ _ h
    obtain ⟨hspan, hbehind⟩ := stops_span (p := isDecimal) (by decide) (by decide) _ _ hrest
    simp only [exponent, hsign, hspan]
    refine ⟨trivial, ?_⟩
    split
    · rw [Nat.add_assoc, Nat.add_comm 1, drop_succ_cons, drop_succ_cons, <- drop_drop,
        <- drop_drop]
      exact hbehind
    · exact h.keep c
  | slash h => simpa [exponent] using Stripped.slash h

theorem number_stripped (h : Stripped t t') : number t' = number t := by
  have hdigits : Stops (spanLength isDecimal) := stops_span (by decide) (by decide)
  have hletters : Stops (spanLength isAsciiLetter) := stops_span (by decide) (by decide)
  have hall := (((hdigits.then stops_fraction).then stops_exponent).then hletters t t' h).1
  simp only at hall
  simp only [number, hall]
  rw [(hdigits t t' h).1]

theorem word_stripped (h : Stripped t t') : word t' = word t := by
  cases h with
  | nil => rfl
  | keep c h => simp only [word, (stops_span (p := isWord) (by decide) (by decide) _ _ h).1]
  | slash _ => rfl

theorem hexNumber_stripped (h : Stripped t t') : hexNumber t' = hexNumber t := by
  cases h with
  | nil => rfl
  | keep c h =>
    by_cases hc : c = '0'
    · subst hc
      cases h with
      | nil => rfl
      | keep d h =>
        simp only [hexNumber, (stops_span (p := isHexDigit) (by decide) (by decide) _ _ h).1]
      | slash _ => rfl
    · rw [hexNumber_eq_none hc, hexNumber_eq_none hc]
  | slash _ => rfl

theorem Stripped.starts_iff (h : Stripped t t') (hslash : '/' ∉ w) (hblank : ' ' ∉ w) :
    w <+: t' ↔ w <+: t := by
  induction h generalizing w with
  | nil => rfl
  | keep c _ ih =>
    cases w with
    | nil => simp
    | cons d w =>
      simp only [mem_cons, not_or] at hslash hblank
      rw [cons_prefix_cons, cons_prefix_cons, ih hslash.2 hblank.2]
  | slash _ =>
    cases w with
    | nil => simp
    | cons d w =>
      simp only [mem_cons, not_or] at hslash hblank
      simp [cons_prefix_cons, Ne.symm hslash.1, Ne.symm hblank.1]

theorem operator_stripped (h : Stripped t t') : operator (c :: t') = operator (c :: t) := by
  have hclear : ∀ op ∈ operators, '/' ∉ op.tail ∧ ' ' ∉ op.tail := by decide
  rw [operator, operator, <- head?_filter, <- head?_filter, filter_congr fun op hop => ?_]
  cases op with
  | nil => rfl
  | cons d op =>
    obtain ⟨hslash, hblank⟩ := hclear _ hop
    rw [Bool.eq_iff_iff, isPrefixOf_iff_prefix, isPrefixOf_iff_prefix, cons_prefix_cons,
      cons_prefix_cons, h.starts_iff (w := op) hslash hblank]

/-! ## Tokens that stay -/

theorem munch_line (rest : List Char) :
    munch ('/' :: '/' :: rest) = 2 + spanLength (· ≠ '\n') rest := by
  simp [munch, lineComment]

theorem munch_literal (hc : c = '"' ∨ c = '\'') (h : quoteEnd c t = some n) :
    munch (c :: t) = n + 1 := by
  rcases hc with rfl | rfl <;> simp [munch, lineComment, blockComment, literal, h]

theorem quoteEnd_take_append (h : quoteEnd quote t = some n) (r : List Char) :
    quoteEnd quote (t.take n ++ r) = some n := by
  fun_induction quoteEnd quote t generalizing n with
  | case1 => cases h
  | case2 => cases h
  | case3 x rest ih =>
    obtain ⟨m, hm, rfl⟩ := Option.map_eq_some_iff.mp h
    simp [quoteEnd, ih hm]
  | case4 rest hend hpair =>
    cases h
    have hc := ne_backslash hend hpair
    rw [take_succ_cons, cons_append, quoteEnd.eq_def]
    split <;> simp_all
  | case5 c rest hend hpair hq ih =>
    obtain ⟨m, hm, rfl⟩ := Option.map_eq_some_iff.mp h
    rw [take_succ_cons, cons_append, quoteEnd_cons (ne_backslash hend hpair) hq, ih hm]
    rfl

theorem Blanked.head_break (h : Blanked t t') (ht : ∀ c ∈ t.head?, c = '\n') :
    ∀ c ∈ t'.head?, c = '\n' := by
  cases h with
  | nil => simp
  | keep c _ => simpa using ht
  | blank hc _ _ => exact absurd (ht _ rfl) hc.1

theorem munch_stripped (h : Stripped t t') (hl : lineComment (c :: t) = none)
    (hb : blockComment (c :: t) = none) (hq : c = '"' ∨ c = '\'' -> quoteEnd c t = none) :
    munch (c :: t') = munch (c :: t) := by
  have hkeep := h.keep c
  have hl' : lineComment (c :: t') = none := by
    refine Option.eq_none_iff_forall_ne_some.mpr fun n hn => ?_
    obtain ⟨rest, heq, -⟩ := lineComment_eq_some hn
    cases heq
    cases h
    cases hl
  have hb' : blockComment (c :: t') = none := by
    refine Option.eq_none_iff_forall_ne_some.mpr fun n hn => ?_
    obtain ⟨rest, k, heq, hk, -⟩ := blockComment_eq_some hn
    cases heq
    cases h with
    | keep _ h =>
      rw [h.blanked.blockEnd_none (Option.map_eq_none_iff.mp hb)] at hk
      cases hk
  have hliteral : ∀ q, q = '"' ∨ q = '\'' ->
      literal q (c :: t') = none ∧ literal q (c :: t) = none := by
    intro q hq'
    by_cases hc : c = q
    · subst hc
      have hspace : isSpace c = false := by rcases hq' with rfl | rfl <;> rfl
      have hnone := hq hq'
      simp [literal, hnone, h.blanked.quoteEnd_none hspace hnone]
    · exact ⟨literal_eq_none hc _, literal_eq_none hc _⟩
  obtain ⟨hd', hd⟩ := hliteral '"' (.inl rfl)
  obtain ⟨hs', hs⟩ := hliteral '\'' (.inr rfl)
  rw [munch, munch, hl, hl', hb, hb', hd, hd', hs, hs', word_stripped hkeep,
    hexNumber_stripped hkeep, number_stripped hkeep, operator_stripped h]
  rfl

/-- What is behind a token does not count. -/
theorem munch_keep (h : Stripped ((c :: t).drop (advance munch (c :: t))) r) :
    munch ((c :: t).take (advance munch (c :: t)) ++ r) = munch (c :: t) := by
  unfold advance at h ⊢
  cases move_cases c t with
  | space hc hm =>
    rw [hm]
    exact munch_space hc r
  | line n hn hm =>
    have hpos : 1 <= n := by
      obtain ⟨_, -, rfl⟩ := lineComment_eq_some hn
      omega
    rw [hm, Nat.max_eq_right hpos] at h ⊢
    have hbreak := h.blanked.head_break (lineComment_drop hn)
    obtain ⟨rest, heq, rfl⟩ := lineComment_eq_some hn
    cases heq
    rw [Nat.add_comm 2, take_succ_cons, take_succ_cons, cons_append, cons_append, munch_line,
      spanLength_append (all_eq_true.mpr fun d hd => mem_take_spanLength hd)
        (by simpa using hbreak), take_spanLength, Nat.add_comm]
    rfl
  | block n hl hn hm =>
    obtain ⟨rest, k, heq, hk, rfl⟩ := blockComment_eq_some hn
    cases heq
    rw [hm, Nat.max_eq_right (by omega), take_succ_cons, take_succ_cons]
    exact munch_block (blockEnd_append (blockEnd_take hk).2 r)
  | literal n hl hb hc hn hm =>
    rw [hm, Nat.max_eq_right (by omega), take_succ_cons]
    exact munch_literal hc (quoteEnd_take_append hn r)
  | token n hl hb hq hc hm hp hslash =>
    rw [hm, Nat.max_eq_right (by omega), drop_succ_cons] at h
    rw [hm, Nat.max_eq_right (by omega), take_succ_cons, <- hm]
    have happend := h.append (t.take n)
    rw [take_append_drop] at happend
    exact munch_stripped happend hl hb hq

/-- Stripped from an offset on, with the same tokens. -/
structure Same (p : Nat) (t t' : List Char) : Prop where
  stripped : Stripped t t'
  tokens : tokensFrom p t' = tokensFrom p t

theorem Same.keep (h : Same (p + advance munch t) (t.drop (advance munch t)) r) (ht : t ≠ []) :
    Same p t (t.take (advance munch t) ++ r) := by
  have hstripped := h.stripped.append (t.take (advance munch t))
  rw [take_append_drop] at hstripped
  refine ⟨hstripped, ?_⟩
  obtain ⟨c, rest, rfl⟩ := exists_cons_of_ne_nil ht
  have hmunch := munch_keep h.stripped
  generalize hk : advance munch (c :: rest) = k at h hmunch ⊢
  have hle : munch (c :: rest) <= k := hk ▸ Nat.le_max_right _ _
  have hadvance : advance munch ((c :: rest).take k ++ r) = k := by
    rw [advance, hmunch, <- hk, advance]
  by_cases hlen : k <= (c :: rest).length
  · have htake : ((c :: rest).take k).length = k := by rw [length_take, Nat.min_eq_left hlen]
    have htokens := h.tokens
    unfold tokensFrom at htokens ⊢
    rw [lexFrom_advance ht, lexFrom_advance, hk, hadvance, hmunch, drop_left' htake,
      take_append_of_le_length (by omega), take_take, Nat.min_eq_left hle, filter_append,
      filter_append, htokens]
    intro hnil
    rw [append_eq_nil_iff] at hnil
    simp [hnil.1] at htake
    unfold advance at hk
    omega
  · have hnil := h.stripped
    rw [drop_eq_nil_of_le (by omega)] at hnil
    cases hnil
    rw [append_nil, take_of_length_le (by omega)]

/-! ## Comments that go -/

def blankChar (c : Char) : Char := if c = '\n' ∨ c = '\r' then c else ' '

theorem isSpace_blankChar (c : Char) : isSpace (blankChar c) = true := by
  unfold blankChar
  split
  · next hc => rcases hc with rfl | rfl <;> rfl
  · rfl

theorem Blanked.comment (h : Blanked t r)
    (hlast : '\\' ∈ w.getLast? -> ∀ d ∈ t.head?, d = '\n') :
    Blanked (w ++ t) (w.map blankChar ++ r) := by
  induction w with
  | nil => exact h
  | cons c w ih =>
    have hblanked := ih fun hw => hlast (by simp_all [getLast?_cons])
    rw [cons_append, map_cons, cons_append]
    by_cases hc : c = '\n' ∨ c = '\r'
    · rw [blankChar, if_pos hc]
      exact hblanked.keep c
    · rw [blankChar, if_neg hc]
      refine .blank (not_or.mp hc) (fun hescape d hd => ?_) hblanked
      cases w with
      | nil =>
        rw [h.head_break (hlast (by simp [hescape])) d hd]
        rfl
      | cons e w =>
        cases hd
        exact isSpace_blankChar e

theorem tokensFrom_spaces (hw : ∀ c ∈ w, isSpace c = true) (p : Nat) (r : List Char) :
    tokensFrom p (w ++ r) = tokensFrom (p + w.length) r := by
  induction w generalizing p with
  | nil => rfl
  | cons c w ih =>
    obtain ⟨hc, hw⟩ := forall_mem_cons.mp hw
    rw [cons_append, tokensFrom_space hc, ih hw, length_cons, Nat.add_assoc, Nat.add_comm 1]

/-- It begins with a slash; a backslash ends it at a line break only. -/
theorem comment_split (h : significant ⟨p, t.take (munch t)⟩ = false) :
    ∃ w rest, t = '/' :: (w ++ rest) ∧ munch t = w.length + 1 ∧
      ('\\' ∈ w.getLast? -> ∀ d ∈ rest.head?, d = '\n') := by
  cases t with
  | nil => simp [significant] at h
  | cons c t =>
    cases move_cases c t with
    | space _ hm =>
      rw [hm] at h
      simp [significant] at h
    | line n hn hm =>
      obtain ⟨rest, heq, rfl⟩ := lineComment_eq_some hn
      cases heq
      refine ⟨'/' :: rest.take (spanLength (· ≠ '\n') rest),
        rest.drop (spanLength (· ≠ '\n') rest), ?_, ?_, fun _ d hd => ?_⟩
      · rw [cons_append, take_append_drop]
      · rw [hm, length_cons, take_spanLength, spanLength]
        omega
      · simpa using drop_spanLength _ rest d hd
    | block n _ hn hm =>
      obtain ⟨rest, k, heq, hk, rfl⟩ := blockComment_eq_some hn
      cases heq
      obtain ⟨hle, hend⟩ := blockEnd_take hk
      have hlen : (rest.take k).length = k := by rw [length_take, Nat.min_eq_left hle]
      refine ⟨'*' :: rest.take k, rest.drop k, ?_, ?_, fun hlast => ?_⟩
      · rw [cons_append, take_append_drop]
      · rw [hm, length_cons, hlen]
      · rw [getLast?_cons, blockEnd_getLast (by rw [hlen, hend])] at hlast
        simp at hlast
    | literal n _ _ hc _ hm =>
      rw [hm, significant_head (c := c) (by rcases hc with rfl | rfl <;> decide) rfl] at h
      cases h
    | token n _ _ _ _ hm hp hslash =>
      rw [hm, significant_token hp hslash] at h
      cases h

theorem Same.blank (h : Same (p + advance munch t) (t.drop (advance munch t)) r)
    (hsig : significant ⟨p, t.take (munch t)⟩ = false) :
    Same p t ((t.take (advance munch t)).map blankChar ++ r) := by
  obtain ⟨w, rest, ht, hm, hlast⟩ := comment_split hsig
  have htake : t.take (munch t) = '/' :: w := by rw [hm, ht, take_succ_cons, take_left]
  have hdrop : t.drop (munch t) = rest := by rw [hm, ht, drop_succ_cons, drop_left]
  rw [advance, Nat.max_eq_right (by omega)] at h ⊢
  rw [hdrop] at h
  constructor
  · rw [htake, ht]
    exact .slash (h.stripped.blanked.comment hlast)
  · have hskip : tokensFrom p t = tokensFrom (p + munch t) rest := by
      rw [tokensFrom_take (by simp [ht]) (by omega), hsig, hdrop]
      rfl
    rw [tokensFrom_spaces, length_map, htake, length_cons, <- hm, h.tokens, hskip]
    exact forall_mem_map.mpr fun c _ => isSpace_blankChar c

/-! ## The loop over the tokens -/

theorem latin1_break (b : Byte) :
    (latin1 b = '\n' ↔ b = 10) ∧ (latin1 b = '\r' ↔ b = 13) := by
  decide +revert

theorem decodeLatin1_take (data : List Byte) (k : Nat) :
    decodeLatin1 (data.take k) = (decodeLatin1 data).take k := map_take

theorem decodeLatin1_blank (data : List Byte) :
    decodeLatin1 (data.map blankByte) = (decodeLatin1 data).map blankChar := by
  simp only [decodeLatin1, map_map]
  refine map_congr_left fun b _ => ?_
  simp only [Function.comp_apply, blankByte, blankChar, latin1_break]
  split <;> rfl

/-- The bytes of a match stay, or it is a comment and they are blanked. -/
theorem stripToken_append (preserve : Bool) (before piece rest : List Byte) {text : List Char}
    (hlen : text.length = piece.length) : ∃ piece',
    stripToken preserve (before ++ (piece ++ rest)) ⟨before.length, text⟩ =
      before ++ (piece' ++ rest) ∧
    (piece' = piece ∨
      significant ⟨before.length, text⟩ = false ∧ piece' = piece.map blankByte) := by
  unfold stripToken
  split
  · exact ⟨piece, rfl, .inl rfl⟩
  · next hsig =>
      split
      · exact ⟨piece, rfl, .inl rfl⟩
      · refine ⟨_, ?_, .inr ⟨by simpa using hsig, rfl⟩⟩
        rw [hlen, blankRange, take_left, <- append_assoc, <- length_append, take_left, drop_left,
          drop_left, append_assoc]

theorem strip_run (preserve : Bool) (data before : List Byte) (p : Nat)
    (hp : data ≠ [] -> before.length = p) :
    ∃ out, (lexFrom munch p (decodeLatin1 data)).foldl (stripToken preserve) (before ++ data) =
      before ++ out ∧ Same p (decodeLatin1 data) (decodeLatin1 out) := by
  induction hn : data.length using Nat.strong_induction_on generalizing data before p with
  | _ n ih =>
  by_cases hdata : data = []
  · subst hdata
    exact ⟨[], rfl, .nil, rfl⟩
  obtain rfl := hp hdata
  have ht : decodeLatin1 data ≠ [] := by simpa [decodeLatin1] using hdata
  generalize hk : advance munch (decodeLatin1 data) = k
  have hdrop : (decodeLatin1 data).drop k = decodeLatin1 (data.drop k) := map_drop.symm
  obtain ⟨piece, hstep, hpiece⟩ : ∃ piece,
      (if munch (decodeLatin1 data) = 0 then [] else [⟨before.length, (decodeLatin1 data).take
        (munch (decodeLatin1 data))⟩]).foldl (stripToken preserve) (before ++ data) =
        before ++ (piece ++ data.drop k) ∧
      (piece = data.take k ∨ significant ⟨before.length, (decodeLatin1 data).take
        (munch (decodeLatin1 data))⟩ = false ∧ piece = (data.take k).map blankByte) := by
    split
    · exact ⟨data.take k, by rw [take_append_drop]; rfl, .inl rfl⟩
    · next hm =>
        have hmunch : munch (decodeLatin1 data) = k := by
          rw [<- hk, advance, Nat.max_eq_right (by omega)]
        have happend := stripToken_append preserve before (data.take k) (data.drop k)
          (show ((decodeLatin1 data).take k).length = _ by simp [decodeLatin1])
        rw [take_append_drop] at happend
        rw [hmunch]
        exact happend
  have hlen : piece.length = (data.take k).length := by
    rcases hpiece with rfl | ⟨-, rfl⟩
    · rfl
    · exact length_map _
  have hpos : 0 < k := hk ▸ Nat.lt_of_lt_of_le Nat.one_pos (Nat.le_max_left _ _)
  obtain ⟨out, hout, hsame⟩ := ih (data.drop k).length
    (by rw [length_drop]; have := length_pos_iff.mpr hdata; omega) (data.drop k) (before ++ piece)
    (before.length + k) (fun hrest => by
      have : k < data.length := by simpa using hrest
      rw [length_append, hlen, length_take, Nat.min_eq_left (by omega)]) rfl
  refine ⟨piece ++ out, ?_, ?_⟩
  · rw [lexFrom_advance ht, hk, hdrop, foldl_append, hstep, <- append_assoc, hout, append_assoc]
  · rw [<- hdrop] at hsame
    subst hk
    rw [show decodeLatin1 (piece ++ out) = decodeLatin1 piece ++ decodeLatin1 out from map_append]
    rcases hpiece with rfl | ⟨hsig, rfl⟩
    · rw [decodeLatin1_take]
      exact hsame.keep ht
    · rw [decodeLatin1_blank, decodeLatin1_take]
      exact hsame.blank hsig

/-- Stripping changes no length, no line break and no token. -/
theorem stripRelocationComments_tokens (data : List Byte) (preserveAnnotations : Bool) :
    (stripRelocationComments data preserveAnnotations).length = data.length ∧
      (∀ i : Nat, ((stripRelocationComments data preserveAnnotations)[i]? = some 10 ↔
          data[i]? = some 10) ∧
        ((stripRelocationComments data preserveAnnotations)[i]? = some 13 ↔
          data[i]? = some 13)) ∧
      tokens (stripRelocationComments data preserveAnnotations) = tokens data := by
  obtain ⟨out, hout, hstripped, htokens⟩ :=
    strip_run preserveAnnotations data [] 0 fun _ => rfl
  have hstrip : stripRelocationComments data preserveAnnotations = out := hout
  have hbreak : ∀ (d : List Byte) (i : Nat),
      (d[i]? = some 10 ↔ (decodeLatin1 d)[i]? = some '\n') ∧
        (d[i]? = some 13 ↔ (decodeLatin1 d)[i]? = some '\r') := by
    intro d i
    simp [decodeLatin1, latin1_break]
  rw [hstrip]
  refine ⟨?_, fun i => ⟨?_, ?_⟩, congrArg (map _) htokens⟩
  · simpa [decodeLatin1] using hstripped.blanked.length_eq
  · rw [(hbreak out i).1, (hbreak data i).1]
    exact hstripped.blanked.break_iff (.inl rfl) i
  · rw [(hbreak out i).2, (hbreak data i).2]
    exact hstripped.blanked.break_iff (.inr rfl) i

end Reprobit.Overlay

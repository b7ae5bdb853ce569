import Reprobit.Census.Operand

/-!
# The census is complete where the lexer stands at the directives

A directive line contributes to its census exactly when the lexer stands at its
`#` and what follows is read as the line has it.
-/

namespace Reprobit.Census

open Machine List

theorem directiveOf_text (directive : Directive) : directiveOf directive.text = some directive := by
  cases directive <;> decide

variable {text name tail : List Char} {directive : Directive} {previous : Option Token}
  {pending : Option (Nat × Directive)} {o : Nat} {tokens : List Token} {payload : List Byte}
  {token : Token}

theorem directiveOf_eq_some (h : directiveOf text = some directive) : text = directive.text := by
  unfold directiveOf at h
  split at h
  · next h1 => rw [h1, <- Option.some.inj h]
  · split at h
    · next h2 => rw [h2, <- Option.some.inj h]
    · cases h

theorem mem_mutationScan {before after : List Token} {hash keyword name : Token}
    (hhash : hash.text = ['#']) (hkeyword : directiveOf keyword.text = some directive)
    (hname : isName name.text = true) (previous : Option Token) (pending : Option (Nat × Directive))
    : (hash.start, directive, name.text) ∈
      mutationScan previous pending (before ++ hash :: keyword :: name :: after) := by
  induction before generalizing previous pending with
  | cons token before ih => exact mem_append_right _ (ih _ _)
  | nil =>
    have hplain : keyword.text ≠ ['#'] := by
      intro hk
      rw [hk] at hkeyword
      revert hkeyword
      decide +revert
    -- the `#` may complete a window of its own; the two tokens behind it do not care
    simp [mutationScan, mutationStep, Option.filter, hhash, hkeyword, hplain, hname]

theorem mutationStep_fst (h : (mutationStep previous pending token).1 = some (o, directive, name)) :
    pending = some (o, directive) ∧ token.text = name := by
  unfold mutationStep at h
  split at h
  · cases h
  · split at h
    · simp only at h
      split at h
      · cases h
        exact ⟨rfl, rfl⟩
      · cases h
    · cases h

theorem mutationStep_snd (h : (mutationStep previous pending token).2 = some (o, directive)) :
    ∃ hash, previous = some hash ∧ hash.text = ['#'] ∧ hash.start = o ∧
      token.text = directive.text := by
  unfold mutationStep at h
  split at h
  · next hash d hfilter hdirective =>
      obtain ⟨hprev, hhash⟩ := Option.filter_eq_some_iff.mp hfilter
      simp only [Option.some.injEq, Prod.mk.injEq] at h
      exact ⟨hash, hprev, by simpa using hhash, h.1, h.2 ▸ directiveOf_eq_some hdirective⟩
  · split at h
    · cases h
    · cases h

theorem of_mem_mutationScan (h : (o, directive, name) ∈ mutationScan previous pending tokens) :
    (∃ before hash keyword token after,
      previous.toList ++ tokens = before ++ hash :: keyword :: token :: after ∧
      hash.text = ['#'] ∧ hash.start = o ∧ keyword.text = directive.text ∧ token.text = name) ∨
    (pending = some (o, directive) ∧ ∃ token after, tokens = token :: after ∧
      token.text = name) := by
  induction tokens generalizing previous pending with
  | nil => simp [mutationScan] at h
  | cons token tokens ih =>
    rcases mem_append.mp h with hfst | hrest
    · obtain ⟨hp, hname⟩ := mutationStep_fst (Option.mem_toList.mp hfst)
      exact .inr ⟨hp, token, tokens, rfl, hname⟩
    · refine .inl ?_
      rcases ih hrest with ⟨before, hash, keyword, t, after, heq, hrest⟩ | ⟨hp, t, after, heq, ht⟩
      · refine ⟨previous.toList ++ before, hash, keyword, t, after, ?_, hrest⟩
        rw [append_assoc, <- heq]
        rfl
      · obtain ⟨hash, hprev, hhash, hstart, hkeyword⟩ := mutationStep_snd hp
        refine ⟨[], hash, token, t, after, ?_, hhash, hstart, hkeyword, ht⟩
        rw [hprev, heq]
        rfl

theorem directiveCandidate_append {w post : List Char} (hw : w = Directive.define.text ∨
    w = Directive.undef.text) (hpost : NameEnds post) (pre : List Char) (previous : Option Char)
    (hpre : ∀ c ∈ pre.getLast?.or previous, isNameChar c = false) :
    directiveCandidate previous (pre ++ (w ++ post)) = true := by
  induction pre generalizing previous with
  | nil =>
    have hat : wordAt w (w ++ post) = true := by
      have hp : w.isPrefixOf (w ++ post) = true := by simp
      rw [wordAt, hp, drop_left]
      cases post with
      | nil => rfl
      | cons c post => simp [hpost c rfl]
    have hprev : previous.all (!isNameChar ·) = true := by
      cases previous with
      | none => rfl
      | some c => simp [hpre c rfl]
    obtain ⟨c, rest, hcons⟩ : ∃ c rest, w ++ post = c :: rest := by
      rcases hw with rfl | rfl
      · exact ⟨_, _, rfl⟩
      · exact ⟨_, _, rfl⟩
    rw [nil_append, hcons, directiveCandidate, <- hcons, hprev]
    rcases hw with rfl | rfl
    · simp [hat]
    · simp [hat]
  | cons c pre ih =>
    rw [cons_append, directiveCandidate, ih (some c), Bool.or_true]
    intro d hd
    refine hpre d ?_
    rw [getLast?_cons]
    cases hlast : pre.getLast? with
    | none => simpa [hlast] using hd
    | some e => simpa [hlast] using hd

theorem blockEnd_getLast {body : List Char} (h : blockEnd body = some body.length) :
    body.getLast? = some '/' := by
  induction body with
  | nil => cases h
  | cons c body ih =>
    rw [blockEnd] at h
    split at h
    · next hc =>
        simp only [length_cons, Option.some.injEq] at h
        obtain ⟨d, rfl⟩ := length_eq_one_iff.mp (show body.length = 1 by omega)
        simpa using hc.2
    · obtain ⟨n, hn, heq⟩ := Option.map_eq_some_iff.mp h
      simp only [length_cons, Nat.add_right_cancel_iff] at heq
      have hlast := ih (heq ▸ hn)
      rw [getLast?_cons, hlast]
      rfl

theorem IsGap.getLast_ne {gap : List Char} (h : IsGap gap) {c : Char} (hc : c ∈ gap.getLast?) :
    isNameChar c = false := by
  induction h with
  | nil => cases hc
  | @blank b gap hb _ ih =>
    rw [getLast?_cons] at hc
    cases hlast : gap.getLast? with
    | none =>
      rw [hlast] at hc
      simp only [Option.getD_none, Option.mem_def, Option.some.injEq] at hc
      rw [<- hc, isNameChar, isNameStart_of_isSpace (isSpace_of_isBlank hb),
        isDecimal_of_isSpace (isSpace_of_isBlank hb)]
      rfl
    | some d =>
      exact ih (hlast ▸ hc)
  | @comment body gap hbody _ ih =>
    rw [getLast?_cons, getLast?_cons, getLast?_append, blockEnd_getLast hbody] at hc
    cases hlast : gap.getLast? with
    | none =>
      rw [hlast] at hc
      simp only [Option.mem_def, Option.some.injEq] at hc
      rw [<- hc]
      decide
    | some d =>
      exact ih (hlast ▸ hc)

theorem Directive.isName_text (directive : Directive) : isName directive.text = true := by
  cases directive <;> decide

theorem MutationLine.candidate (h : MutationLine text o directive name tail) :
    '#' ∈ text ∧ directiveCandidate none text = true := by
  obtain ⟨gap, gap', hgap, hgap', hne, hdrop⟩ := h.form
  have htext : text = text.take o ++ '#' ::
    (gap ++ (directive.text ++ (gap' ++ (name ++ tail)))) := by
    rw [<- hdrop, take_append_drop]
  constructor
  · rw [htext]
    simp
  · rw [htext, <- cons_append, <- append_assoc]
    refine directiveCandidate_append (by cases directive <;> simp) (hgap'.wordEnds hne _).nameEnds
      _ none fun c hc => ?_
    rw [getLast?_append, getLast?_cons, Option.or_none] at hc
    cases hlast : gap.getLast? with
    | none =>
      rw [hlast] at hc
      simp only [Option.some_or, Option.mem_def, Option.some.injEq] at hc
      rw [<- hc]
      decide
    | some d =>
      exact hgap.getLast_ne (hlast ▸ hc)

/-- The lexer stands at the `#` and takes the name for a word. -/
theorem MutationLine.mem_iff (h : MutationLine (normalisedText payload) o directive name tail) :
    (o, directive, name) ∈ mutationsAt payload ↔
      Stands munch (normalisedText payload) o ∧ WordEnds tail := by
  obtain ⟨gap, gap', hgap, hgap', hne, hdrop⟩ := h.form
  have htokens : tokensFrom o ((normalisedText payload).drop o) =
      ⟨o, ['#']⟩ :: ⟨o + 1 + gap.length, directive.text⟩ ::
        tokensFrom (o + 1 + gap.length + directive.text.length + gap'.length) (name ++ tail) := by
    rw [hdrop, tokensFrom_hash_gap hgap directive.isName_text,
      tokensFrom_name directive.isName_text (hgap'.wordEnds hne _), tokensFrom_gap hgap']
  have hmem : (o, directive, name) ∈ mutationsAt payload ↔ (o, directive, name) ∈
      mutationScan none none (iterSourceOverlayTokens (normalisedText payload)) := by
    have hunfold : mutationsAt payload = if '#' ∈ normalisedText payload ∧
        directiveCandidate none (normalisedText payload) = true then
          mutationScan none none (iterSourceOverlayTokens (normalisedText payload)) else [] := rfl
    rw [hunfold, if_pos h.candidate]
  rw [hmem]
  constructor
  · intro hscan
    rcases of_mem_mutationScan hscan with ⟨before, hash, keyword, token, after, heq, -, hstart, -,
      htext⟩ | ⟨hp, -⟩
    · rw [Option.toList_none, nil_append] at heq
      obtain ⟨hstands, hrest⟩ := stands_of_split_filter significant heq
      rw [hstart] at hstands hrest
      refine ⟨hstands, ?_⟩
      have hrest : hash :: keyword :: token :: after = _ := hrest.trans htokens
      simp only [List.cons.injEq] at hrest
      exact wordEnds_of_tokensFrom h.isName hrest.2.2.symm htext
    · cases hp
  · rintro ⟨hstands, hends⟩
    obtain ⟨before, hsplit⟩ := hstands.split_filter significant
    have hsplit : iterSourceOverlayTokens (normalisedText payload) = before ++ _ :=
      hsplit.trans (congrArg (before ++ ·) htokens)
    rw [hsplit, tokensFrom_name h.isName hends]
    exact mem_mutationScan rfl (directiveOf_text directive) h.isName none none

theorem mem_includeScan_cons {previous : Option Nat} {first : Token}
    {entry : Nat × Option (List Char)} : entry ∈ includeScan text previous (first :: tokens) ↔
      (∃ keyword token after, tokens = keyword :: token :: after ∧ first.text = ['#'] ∧
        keyword.text = "include".toList ∧ previous ≠ some (lineStart text first.start) ∧
        entry = (first.start, readOperand text token after)) ∨
      entry ∈ includeScan text (some (lineStart text first.start)) tokens := by
  by_cases hhash : first.text = ['#'] ∧ previous ≠ some (lineStart text first.start)
  · match tokens with
    | [] => simp [includeScan]
    | [keyword] => simp [includeScan]
    | keyword :: token :: after =>
      rw [includeScan, if_pos hhash]
      by_cases hkeyword : keyword.text = "include".toList
      · rw [if_pos hkeyword, mem_cons]
        refine or_congr_left ⟨fun h => ⟨keyword, token, after, rfl, hhash.1, hkeyword, hhash.2,
          h⟩, ?_⟩
        rintro ⟨_, _, _, heq, -, -, -, h⟩
        cases heq
        exact h
      · rw [if_neg hkeyword, iff_or_self]
        rintro ⟨_, _, _, heq, -, hword, -⟩
        cases heq
        exact absurd hword hkeyword
  · have hskip : includeScan text previous (first :: tokens) =
        includeScan text (some (lineStart text first.start)) tokens := by
      match tokens with
      | [] => simp [includeScan]
      | [keyword] => simp [includeScan]
      | keyword :: token :: after => rw [includeScan, if_neg hhash]
    rw [hskip, iff_or_self]
    rintro ⟨_, _, _, -, htext, -, hline, -⟩
    exact absurd ⟨htext, hline⟩ hhash

/-- `#` begins a line and two tokens follow, the first `include`. -/
theorem mem_includeScan {previous : Option Nat} {operand : Option (List Char)} :
    (o, operand) ∈ includeScan text previous tokens ↔
      ∃ before hash keyword token after, tokens = before ++ hash :: keyword :: token :: after ∧
        hash.text = ['#'] ∧ hash.start = o ∧ keyword.text = "include".toList ∧
        operand = readOperand text token after ∧
        (before.getLast?.map fun t => lineStart text t.start).or previous ≠
          some (lineStart text o) := by
  induction tokens generalizing previous with
  | nil => simp [includeScan]
  | cons first tokens ih =>
    -- the token before `first :: before` ends is the one before `before` ends, or `first`
    have hlast : ∀ before : List Token,
        ((first :: before).getLast?.map fun t => lineStart text t.start).or previous =
          (before.getLast?.map fun t => lineStart text t.start).or
            (some (lineStart text first.start)) := by
      intro before
      rw [getLast?_cons]
      cases before.getLast? <;> rfl
    rw [mem_includeScan_cons, ih]
    constructor
    · rintro (⟨keyword, token, after, rfl, hhash, hkeyword, hline, hentry⟩ |
        ⟨before, hash, keyword, token, after, rfl, hhash, hstart, hkeyword, hop, hline⟩)
      · obtain ⟨rfl, rfl⟩ := Prod.mk.inj hentry
        exact ⟨[], first, keyword, token, after, rfl, hhash, rfl, hkeyword, rfl, hline⟩
      · exact ⟨first :: before, hash, keyword, token, after, rfl, hhash, hstart, hkeyword, hop,
          by rw [hlast]; exact hline⟩
    · rintro ⟨before, hash, keyword, token, after, heq, hhash, rfl, hkeyword, rfl, hline⟩
      cases before with
      | nil =>
        obtain ⟨rfl, rfl⟩ := List.cons.inj heq
        exact .inl ⟨keyword, token, after, rfl, hhash, hkeyword, hline, rfl⟩
      | cons b before =>
        obtain ⟨rfl, rfl⟩ := List.cons.inj heq
        rw [hlast] at hline
        exact .inr ⟨before, hash, keyword, token, after, rfl, hhash, rfl, hkeyword, rfl, hline⟩

theorem isName_include : isName "include".toList = true := by decide

theorem IncludeLine.mem_iff (h : IncludeLine (normalisedText payload) o tail) :
    (∃ operand, (o, operand) ∈ includesAt payload ∧
      (operand = none ∨ operand = lineOperand tail)) ↔ IncludeSeen payload o tail := by
  obtain ⟨gap, hgap, hdrop⟩ := h.form
  have hlength : (normalisedText payload).length = o + 1 + gap.length + 7 + tail.length := by
    have hlen := congrArg List.length hdrop
    simp only [length_drop, length_cons, length_append] at hlen
    have hword : "include".toList.length = 7 := by decide
    omega
  have hpos : (normalisedText payload).length - tail.length = o + 1 + gap.length + 7 := by omega
  have htail : (normalisedText payload).drop ((normalisedText payload).length - tail.length) =
      tail := by
    rw [hpos, show o + 1 + gap.length + 7 = o + (1 + gap.length + 7) by omega, <- drop_drop,
      hdrop, show 1 + gap.length + 7 = (gap ++ "include".toList).length + 1 by
        rw [length_append, show "include".toList.length = 7 by decide]; omega,
      drop_succ_cons, <- append_assoc, drop_left]
  have htokens : tokensFrom o ((normalisedText payload).drop o) =
      ⟨o, ['#']⟩ :: tokensFrom (o + 1 + gap.length) ("include".toList ++ tail) := by
    rw [hdrop, tokensFrom_hash_gap hgap isName_include]
  have hword : WordEnds tail -> tokensFrom (o + 1 + gap.length) ("include".toList ++ tail) =
      ⟨o + 1 + gap.length, "include".toList⟩ ::
        tokensFrom ((normalisedText payload).length - tail.length) tail := by
    intro hends
    rw [tokensFrom_name isName_include hends, hpos]
    rfl
  have hunfold : includesAt payload = if hasMarker (decodeLatin1 payload) ∧
      "include".toList <:+: normalisedText payload then
        includeScan (normalisedText payload) none
          (iterSourceOverlayTokens (normalisedText payload)) else [] := rfl
  have hinfix : "include".toList <:+: normalisedText payload := by
    refine ⟨(normalisedText payload).take o ++ '#' :: gap, tail, ?_⟩
    rw [append_assoc, append_assoc, cons_append, <- hdrop, take_append_drop]
  constructor
  · rintro ⟨operand, hmem, hop⟩
    rw [hunfold] at hmem
    split at hmem
    · next hcond =>
        obtain ⟨before, hash, keyword, token, after, heq, hhash, hstart, hkeyword, rfl, hline⟩ :=
          mem_includeScan.mp hmem
        obtain ⟨hstands, hrest⟩ := stands_of_split_filter significant heq
        rw [hstart] at hstands hrest
        have hall : hash :: keyword :: token :: after = _ := hrest.trans htokens
        have hkw := (List.cons.inj hall).2
        have hends := wordEnds_of_tokensFrom isName_include hkw.symm hkeyword
        rw [hword hends] at hkw
        have hoperand := (List.cons.inj hkw).2.symm
        refine ⟨hcond.1, hstands, hends, fun before' hsplit => ?_, token, after, hoperand, ?_⟩
        · have hsame : before' = before := by
            rw [heq] at hsplit
            refine append_cancel_right (hsplit.symm.trans ?_)
            rw [hrest]
            rfl
          rw [hsame]
          simpa using hline
        · intro hspells
          obtain ⟨s, hs⟩ := Option.isSome_iff_exists.mp (readOperand_isSome_iff.mpr hspells)
          rw [hs] at hop
          exact (readOperand_eq_iff (by omega) htail hoperand hs).mp (by simpa [eq_comm] using hop)
    · cases hmem
  · intro seen
    obtain ⟨token, after, hoperand, hclear⟩ := seen.operand
    obtain ⟨before, hsplit⟩ := seen.stands.split_filter significant
    have hline := seen.first before hsplit
    have hall : iterSourceOverlayTokens (normalisedText payload) =
        before ++ ⟨o, ['#']⟩ :: ⟨o + 1 + gap.length, "include".toList⟩ :: token :: after := by
      refine hsplit.trans ?_
      have hrest := htokens
      rw [hword seen.ends, hoperand] at hrest
      exact congrArg (before ++ ·) hrest
    refine ⟨readOperand (normalisedText payload) token after, ?_, ?_⟩
    · rw [hunfold, if_pos ⟨seen.marker, hinfix⟩]
      exact mem_includeScan.mpr ⟨before, _, _, token, after, hall, rfl, rfl, rfl, rfl,
        by simpa using hline⟩
    · cases hs : readOperand (normalisedText payload) token after with
      | none => exact .inl rfl
      | some s =>
        refine .inr ((readOperand_eq_iff (by omega) htail hoperand hs).mpr (hclear ?_)).symm
        exact readOperand_isSome_iff.mp (by rw [hs]; rfl)

/-- The census of a payload is complete exactly where the lexer stands at every
directive line and reads what the line says. -/
theorem censusComplete_iff (payload : List Byte) :
    CensusComplete payload ↔ CensusCondition payload := by
  constructor
  · intro h
    exact ⟨fun o directive name tail hline => hline.mem_iff.mp
      (h.mutations o directive name tail hline),
      fun o tail hline => hline.mem_iff.mp (h.includes o tail hline)⟩
  · intro h
    exact ⟨fun o directive name tail hline =>
        hline.mem_iff.mpr (h.mutations o directive name tail hline),
      fun o tail hline => hline.mem_iff.mpr (h.includes o tail hline)⟩

/-- Two quotes that their lines do not close, around a definition. -/
def strayQuotePayload : List Byte :=
  "'\n#define A\n'".toList.map fun c => BitVec.ofNat 8 c.toNat

/-- The lexer reads from one quote to the other, and the definition between them is
lost. -/
theorem strayQuotePayload_incomplete : payloadPreprocessorMutations [strayQuotePayload] = [] ∧
    MutationLine (normalisedText strayQuotePayload) 2 .define ['A'] "\n'".toList ∧
    ¬ CensusComplete strayQuotePayload := by
  have hfirst : Stands (fun t => (pieceAt t).length) (normalisedText strayQuotePayload) 1 :=
    .step .start (by decide)
  have hline : MutationLine (normalisedText strayQuotePayload) 2 .define ['A'] "\n'".toList :=
    ⟨.newline hfirst (by decide),
      ⟨[], [' '], .nil, .blank (by decide) .nil, by simp, by decide⟩,
      by decide, by unfold NameEnds; decide⟩
  refine ⟨by decide, hline, fun h => ?_⟩
  have hmem := h.mutations _ _ _ _ hline
  cases hmem

end Reprobit.Census

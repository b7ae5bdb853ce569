import Reprobit.Linkage.ModuleDefinition

/-!
# Keywords of module-definition files

To the linker a keyword is the first word of a line, and words are separated by blanks
and tabs.  The parser ends a keyword at a space only, so a keyword with a tab behind it
is taken for an export entry: this is the only way in which an accepted file has a
statement that the parser does not see.
-/

namespace Reprobit.Linkage.DefFile

open Machine List

def isBlank (c : Char) : Bool := c = ' ' || c = '\t'

def isLineEnd (c : Char) : Bool := c = '\r' || c = '\n'

def defLines (text : List Char) : List (List Char) := text.splitOnP isLineEnd

/-- A line up to a semicolon outside quotes. -/
def uncommentedFrom : Option Char -> List Char -> List Char
  | _, [] => []
  | quote, c :: rest =>
    if isQuote c then
      c :: uncommentedFrom (if quote = none then some c else if quote = some c then none else quote)
        rest
    else if c = ';' ∧ quote = none then []
    else c :: uncommentedFrom quote rest

def uncommented (line : List Char) : List Char := uncommentedFrom none line

def statementWords (line : List Char) : List (List Char) := words isBlank (uncommented line)

def hiddenKeywords : List (List Char) := "stub".toList :: unsupportedSections

def keywords : List (List Char) :=
  hiddenKeywords ++ (moduleNames ++ ["description".toList, "exports".toList])

def HidesNoKeyword (text : List Char) : Prop :=
  ∀ line ∈ defLines text, ∀ w rest, statementWords line = w :: rest -> casefold w ∉ hiddenKeywords

def exportEntriesFrom : Bool -> List (List Char) -> List (List Char)
  | _, [] => []
  | inExports, line :: lines =>
    match statementWords line with
    | [] => exportEntriesFrom inExports lines
    | w :: rest =>
      if casefold w = "exports".toList then
        (rest.head?.map exportSymbol).toList ++ exportEntriesFrom true lines
      else if casefold w ∈ keywords then exportEntriesFrom false lines
      else if inExports then exportSymbol w :: exportEntriesFrom true lines
      else exportEntriesFrom false lines

def exportEntries (text : List Char) : List (List Char) := exportEntriesFrom false (defLines text)

def TabKeyword (names : List (List Char)) (line : List Char) : Prop :=
  ∃ lead w tail, FirstWord isBlank (uncommented line) lead w ('\t' :: tail) ∧
    casefold w ∈ names ∧ words isBlank tail ≠ []

section

variable {label : String} {number : Nat} {quote : Option Char} {line out : List Char}

section

variable (h : beforeComment label number quote line = .ok out)

include h

theorem beforeComment_append
    (more : List Char) : ∃ tail, uncommentedFrom quote (line ++ more) = out ++ tail ∧
      (tail = [] ∨ tail = uncommentedFrom none more) := by
  induction line generalizing quote out with
  | nil =>
    simp only [beforeComment, bind_eq_ok, require_eq_ok, pure_eq_ok] at h
    obtain ⟨_, rfl, rfl⟩ := h
    exact ⟨_, rfl, .inr rfl⟩
  | cons c line ih =>
    rw [beforeComment] at h
    rw [cons_append, uncommentedFrom]
    split at h
    · simp only [bind_eq_ok, pure_eq_ok] at h
      obtain ⟨out', hout', rfl⟩ := h
      obtain ⟨tail, htail, hcases⟩ := ih hout'
      exact ⟨tail, by rw [if_pos ‹_›, htail]; rfl, hcases⟩
    · rw [if_neg ‹_›]
      split at h
      · cases h
        exact ⟨[], by simp [*], .inl rfl⟩
      · simp only [bind_eq_ok, pure_eq_ok] at h
        obtain ⟨_, -, out', hout', rfl⟩ := h
        obtain ⟨tail, htail, hcases⟩ := ih hout'
        exact ⟨tail, by rw [if_neg ‹_›, htail]; rfl, hcases⟩

theorem beforeComment_eq : out = uncommentedFrom quote line := by
  obtain ⟨tail, htail, hcases⟩ := beforeComment_append h []
  have hnil : tail = [] := hcases.elim id id
  rw [append_nil, hnil, append_nil] at htail
  exact htail.symm

theorem beforeComment_printable : ∀ c ∈ out, 32 <= c.toNat ∨ c = '\t' := by
  induction line generalizing quote out with
  | nil =>
    simp only [beforeComment, bind_eq_ok, pure_eq_ok] at h
    obtain ⟨_, -, rfl⟩ := h
    simp
  | cons c line ih =>
    rw [beforeComment] at h
    split at h
    · rename_i hquote
      simp only [bind_eq_ok, pure_eq_ok] at h
      obtain ⟨out', hout', rfl⟩ := h
      intro x hx
      rcases mem_cons.mp hx with rfl | hx
      · simp only [isQuote, Bool.or_eq_true, decide_eq_true_eq] at hquote
        rcases hquote with rfl | rfl <;> decide
      · exact ih hout' x hx
    · split at h
      · cases h
        simp
      · simp only [bind_eq_ok, require_eq_ok, pure_eq_ok] at h
        obtain ⟨_, hprintable, out', hout', rfl⟩ := h
        intro x hx
        rcases mem_cons.mp hx with rfl | hx
        · exact hprintable
        · exact ih hout' x hx

end

theorem isSpace_eq_isBlank {c : Char} (h : 32 <= c.toNat ∨ c = '\t') : isSpace c = isBlank c := by
  rcases h with h | rfl
  · by_cases hc : c = ' '
    · subst hc
      decide
    · have hne : c.toNat ≠ 32 := fun heq => hc (Char.toNat_inj.mp heq)
      have htab : c ≠ '\t' := by
        rintro rfl
        revert h
        decide
      simp only [isSpace, isBlank, hc, htab]
      simp
      omega
  · decide

end

/-! ## Keywords -/

variable {w line tail text : List Char} {c : Char} {names rest : List (List Char)} {label : String}
  {number : Nat}

theorem mem_casefold (hc : c ∈ w) : c.toLower ∈ casefold w :=
  mem_map_of_mem hc

/-- No keyword has a blank, a tab or a control character in it. -/
theorem keyword_char (hw : casefold w ∈ keywords) (hc : c ∈ w) : 97 <= c.toLower.toNat := by
  have hall : ∀ k ∈ keywords, ∀ c ∈ k, 97 <= c.toNat := by decide
  exact hall _ hw _ (mem_casefold hc)

theorem notMem_keywords_of_tab (htab : '\t' ∈ w) : casefold w ∉ keywords := by
  intro hw
  have := keyword_char hw htab
  revert this
  decide

theorem moduleNames_sub (h : w ∈ moduleNames) : w ∈ keywords := by
  simp [keywords, h]

theorem unsupportedSections_sub (h : w ∈ unsupportedSections) : w ∈ hiddenKeywords := by
  simp [hiddenKeywords, h]

theorem hiddenKeywords_sub (h : w ∈ hiddenKeywords) : w ∈ keywords := by
  simp [keywords, h]

theorem keyword_cases (h : FirstWord isSpace line [] w tail)
    (hprintable : ∀ c ∈ line, 32 <= c.toNat ∨ c = '\t') : (line.takeWhile (· ≠ ' ') = w ∧
      words isSpace ((line.dropWhile (· ≠ ' ')).drop 1) = words isSpace tail ∧
      ∀ t, tail ≠ '\t' :: t) ∨
    ∃ t, tail = '\t' :: t ∧ '\t' ∈ line.takeWhile (· ≠ ' ') := by
  have hline : line = w ++ tail := by simpa using h.eq
  have hw : ∀ c ∈ w, (decide (c ≠ ' ')) = true := by
    intro c hc
    have hspace := h.word c hc
    simp only [decide_not, Bool.not_eq_eq_eq_not, Bool.not_true, decide_eq_false_iff_not]
    rintro rfl
    revert hspace
    decide
  rw [hline, takeWhile_append_of_pos hw, dropWhile_append_of_pos hw]
  cases tail with
  | nil => exact .inl (by simp)
  | cons c tail =>
    have hc : isSpace c = true := h.apart c (by simp)
    rw [isSpace_eq_isBlank (hprintable c (by simp [hline]))] at hc
    simp only [isBlank, Bool.or_eq_true, decide_eq_true_eq] at hc
    rcases hc with rfl | rfl
    · refine .inl ⟨by simp, ?_, by simp⟩
      rw [words_cons_of_sep (by decide)]
      simp
    · exact .inr ⟨tail, rfl, by simp⟩

section

variable {label : String} {number : Nat}

theorem checkAttributes_head {sawOrdinal : Bool} {sawFlags : List (List Char)} {u : Unit}
    (h : checkAttributes label number sawOrdinal sawFlags rest = .ok u) :
    ∀ item ∈ rest.head?, IsExportOrdinal item ∨ casefold item ∈ exportFlags := by
  cases rest with
  | nil => simp
  | cons item rest =>
    intro x hx
    cases hx
    rw [checkAttributes] at h
    split at h
    · exact .inl ‹_›
    · simp only [bind_eq_ok, require_eq_ok] at h
      obtain ⟨_, hflag, -⟩ := h
      exact .inr hflag.1

variable {line : List Char}

theorem defExport_spec {symbol : List Char} (h : defExport label number line = .ok symbol) :
    ∃ w rest, words isSpace line = w :: rest ∧ symbol = exportSymbol w ∧
      ∀ item ∈ rest.head?, IsExportOrdinal item ∨ casefold item ∈ exportFlags := by
  unfold defExport at h
  split at h
  · cases h
  · rename_i w rest hwords
    simp only [bind_eq_ok, pure_eq_ok] at h
    obtain ⟨_, -, _, hattributes, rfl⟩ := h
    exact ⟨w, rest, hwords, rfl, checkAttributes_head hattributes⟩

/-- What a line does that the parser reads as the linker does. -/
inductive Reads (s s' : DefState) (w : List Char) (rest : List (List Char)) : Prop
  | leaves (hkeyword : casefold w ∈ keywords) (hnot : casefold w ∉ hiddenKeywords)
      (hother : casefold w ≠ "exports".toList) (hexported : s'.exported = s.exported)
      (hout : s'.inExports = false)
  | enters (hkeyword : casefold w = "exports".toList)
      (hexported : s'.exported = s.exported ++ (rest.head?.map exportSymbol).toList)
      (hin : s'.inExports = true)
  | entry (hother : casefold w ∉ keywords) (hfrom : s.inExports = true)
      (hexported : s'.exported = s.exported ++ [exportSymbol w]) (hin : s'.inExports = true)

/-- A keyword that the parser takes for an export entry. -/
structure Mistakes (s s' : DefState) (w : List Char) (rest : List (List Char)) : Prop where
  keyword : casefold w ∈ keywords
  before : s.inExports = true
  exported : s'.exported = s.exported ++ [exportSymbol w]
  after : s'.inExports = true
  item : ∀ item ∈ rest.head?, IsExportOrdinal item ∨ casefold item ∈ exportFlags

variable {s s' : DefState}

theorem readStatement_entry (h : readStatement label number line s = .ok s')
    (hfirst : FirstWord isSpace line [] w tail)
    (hnot : casefold (line.takeWhile (· ≠ ' ')) ∉ keywords) :
    s.inExports = true ∧ s'.exported = s.exported ++ [exportSymbol w] ∧ s'.inExports = true ∧
      ∀ item ∈ (words isSpace tail).head?, IsExportOrdinal item ∨ casefold item ∈ exportFlags := by
  have hne : ∀ k ∈ keywords, casefold (line.takeWhile (· ≠ ' ')) ≠ k := fun k hk heq =>
    hnot (heq ▸ hk)
  rw [readStatement, if_neg (hne _ (by decide)), if_neg fun hmem => hnot (moduleNames_sub hmem),
    if_neg (hne _ (by decide)), if_neg (hne _ (by decide)),
    if_neg fun hmem => hnot (hiddenKeywords_sub (unsupportedSections_sub hmem))] at h
  split at h
  · cases h
  · rename_i hin
    simp only [bind_eq_ok, pure_eq_ok] at h
    obtain ⟨symbol, hsymbol, rfl⟩ := h
    obtain ⟨w', rest, hwords, rfl, hitem⟩ := defExport_spec hsymbol
    rw [hfirst.words_eq, List.cons.injEq] at hwords
    obtain ⟨rfl, rfl⟩ := hwords
    exact ⟨by simpa using hin, rfl, by simpa using hin, hitem⟩

theorem readStatement_keyword (h : readStatement label number line s = .ok s')
    (hfirst : FirstWord isSpace line [] w tail) (hkeyword : line.takeWhile (· ≠ ' ') = w)
    (htail : words isSpace ((line.dropWhile (· ≠ ' ')).drop 1) = words isSpace tail) :
    Reads s s' w (words isSpace tail) := by
  by_cases hmem : casefold w ∈ keywords
  · simp only [readStatement, hkeyword] at h
    split at h
    · cases h
    · rename_i hstub
      split at h
      · rename_i hmodule
        split at h
        · cases h
          have hdisjoint : ∀ k ∈ moduleNames, k ∉ hiddenKeywords ∧ k ≠ "exports".toList := by decide
          obtain ⟨hhidden, hother⟩ := hdisjoint _ hmodule
          exact .leaves hmem hhidden hother rfl rfl
        · cases h
      · split at h
        · rename_i hdescription
          split at h
          · cases h
            refine .leaves hmem ?_ ?_ rfl rfl <;> rw [hdescription] <;> decide
          · cases h
        · split at h
          · rename_i hexports
            split at h
            · rename_i hempty
              cases h
              rw [strip_eq_nil_iff, htail] at hempty
              exact .enters hexports (by simp [hempty]) rfl
            · simp only [bind_eq_ok, pure_eq_ok] at h
              obtain ⟨symbol, hsymbol, rfl⟩ := h
              obtain ⟨w', rest, hwords, rfl, -⟩ := defExport_spec hsymbol
              rw [words_strip, htail] at hwords
              exact .enters hexports (by simp [hwords]) rfl
          · split at h
            · cases h
            · rename_i hmodule hdescription hexports hsections
              simp only [keywords, hiddenKeywords, mem_append, mem_cons] at hmem
              simp_all
  · obtain ⟨hfrom, hexported, hin, -⟩ := readStatement_entry h hfirst (hkeyword ▸ hmem)
    exact .entry hmem hfrom hexported hin

theorem readLine_cases {raw : List Char}
    (h : readLine label number raw s = .ok s') :
    (statementWords raw = [] ∧ s' = s) ∨ ∃ w rest, statementWords raw = w :: rest ∧
      (¬ TabKeyword keywords raw ∧ Reads s s' w rest ∨
        TabKeyword keywords raw ∧ Mistakes s s' w rest) := by
  simp only [readLine, stripDefComment, bind_eq_ok, pure_eq_ok] at h
  obtain ⟨_, ⟨out, hout, rfl⟩, h⟩ := h
  have hprintable := beforeComment_printable hout
  have hspace : ∀ c ∈ out, isSpace c = isBlank c := fun c hc =>
    isSpace_eq_isBlank (hprintable c hc)
  have hunc : uncommented raw = out := (beforeComment_eq hout).symm
  rw [statementWords, hunc, <- words_congr hspace]
  split at h
  · rename_i hempty
    cases h
    exact .inl ⟨strip_eq_nil_iff.mp hempty, rfl⟩
  · rename_i hline
    right
    obtain ⟨w, rest, hwords⟩ := exists_cons_of_ne_nil fun hnil =>
      hline (strip_eq_nil_iff.mpr hnil)
    obtain ⟨lead, tail, hfirst, hrest⟩ := words_eq_cons hwords
    obtain ⟨inner, trail, hstrip, htail, htrail, hbehind⟩ := hfirst.strip
    have hlinePrintable : ∀ c ∈ strip isSpace out, 32 <= c.toNat ∨ c = '\t' := by
      intro c hc
      exact hprintable c ((dropWhile_suffix _).subset (( rdropWhile_prefix _ _).subset hc))
    have hinner : words isSpace inner = rest := by
      rw [<- hrest, htail, words_append_sep htrail]
    refine ⟨w, rest, hwords, ?_⟩
    have hblank : FirstWord isBlank (uncommented raw) lead w tail := hunc ▸ hfirst.congr hspace
    rcases keyword_cases hstrip hlinePrintable with ⟨hkeyword, hdropped, hnoTab⟩ | ⟨t, rfl, htab⟩
    · left
      refine ⟨?_, hinner ▸ readStatement_keyword h hstrip hkeyword hdropped⟩
      rintro ⟨lead', w', t, htabbed, -, hmore⟩
      obtain ⟨-, -, heq⟩ := hblank.unique htabbed
      cases inner with
      | nil =>
        refine hmore (words_eq_nil_iff.mpr fun c hc => ?_)
        have hmem : c ∈ out := by
          rw [hfirst.eq, heq]
          simp [hc]
        rw [<- hspace c hmem]
        refine htrail c ?_
        rw [nil_append] at htail
        rw [<- htail, heq]
        exact mem_cons_of_mem _ hc
      | cons c inner =>
        rw [htail, cons_append, List.cons.injEq] at heq
        exact hnoTab inner (by rw [heq.1])
    · obtain ⟨hfrom, hexported, hin, hitem⟩ :=
        readStatement_entry h hstrip (notMem_keywords_of_tab htab)
      by_cases hkeyword : casefold w ∈ keywords
      · refine .inr ⟨⟨lead, w, t ++ trail, ?_, hkeyword, fun hnil => ?_⟩,
          hkeyword, hfrom, hexported, hin, hinner ▸ hitem⟩
        · rw [htail] at hblank
          exact hblank
        · refine hbehind '\t' t rfl (words_eq_nil_iff.mpr fun c hc => ?_)
          have hmem : c ∈ out := by
            rw [hfirst.eq, htail]
            simp [hc]
          rw [hspace c hmem]
          exact words_eq_nil_iff.mp hnil c (mem_append_left _ hc)
      · refine .inl ⟨?_, .entry hkeyword hfrom hexported hin⟩
        rintro ⟨lead', w', t', htabbed, hmem, -⟩
        obtain ⟨-, rfl, -⟩ := hblank.unique htabbed
        exact hkeyword hmem

end

/-- Apart from empty lines, `splitlines` cuts a text at its breaks. -/
theorem splitlines_cases (t : List Char) : ∃ line lines, t.splitOnP isLineBreak = line :: lines ∧
      (splitlines t).filter (!·.isEmpty) = (line :: lines).filter (!·.isEmpty) ∧
      ∀ line' lines', splitlines t = line' :: lines' -> line' = line := by
  fun_induction splitlines t with
  | case1 => exact ⟨[], [], rfl, rfl, by simp⟩
  | case2 rest ih =>
    obtain ⟨line, lines, hsplit, hfilter, -⟩ := ih
    refine ⟨[], [] :: line :: lines, ?_, by simp [hfilter], by simp⟩
    simp [splitOnP_cons_eq_if_modifyHead, hsplit, show isLineBreak '\r' = true by decide,
      show isLineBreak '\n' = true by decide]
  | case3 c rest hpair hbreak ih =>
    obtain ⟨line, lines, hsplit, hfilter, -⟩ := ih
    refine ⟨[], line :: lines, ?_, by simp [hfilter], by simp⟩
    simp [splitOnP_cons_eq_if_modifyHead, hsplit, hbreak]
  | case4 c rest hpair hbreak hnil ih =>
    obtain ⟨line, lines, hsplit, hfilter, -⟩ := ih
    obtain ⟨rfl, hlines⟩ : line = [] ∧ ∀ l ∈ lines, l = [] := by simpa [hnil] using hfilter.symm
    refine ⟨[c], lines, ?_, by simpa using hlines, by simp⟩
    simp [splitOnP_cons_eq_if_modifyHead, hsplit, hbreak]
  | case5 c rest hpair hbreak line' lines' hcons ih =>
    obtain ⟨line, lines, hsplit, hfilter, hhead⟩ := ih
    obtain rfl := hhead _ _ hcons
    refine ⟨c :: line', lines, ?_, ?_, by simp⟩
    · simp [splitOnP_cons_eq_if_modifyHead, hsplit, hbreak]
    · cases line' <;> simpa [hcons] using hfilter

theorem splitlines_filter (t : List Char) :
    (splitlines t).filter (!·.isEmpty) = words isLineBreak t := by
  obtain ⟨line, lines, hsplit, hfilter, -⟩ := splitlines_cases t
  rw [words, hsplit, hfilter]

theorem exportEntriesFrom_filter (inExports : Bool) (lines : List (List Char)) :
    exportEntriesFrom inExports (lines.filter (!·.isEmpty)) = exportEntriesFrom inExports
    lines := by
  induction lines generalizing inExports with
  | nil => rfl
  | cons line lines ih =>
    cases line with
    | nil =>
      rw [filter_cons_of_neg (by simp), ih]
      rfl
    | cons c line =>
      rw [filter_cons_of_pos (by simp)]
      simp only [exportEntriesFrom, ih]

section

variable {label : String} {number : Nat} {lines : List (List Char)} {s s' : DefState}

theorem readLines_mem (h : readLines label number lines s = .ok s') (hline : line ∈ lines) :
    ∃ k t t', readLine label k line t = .ok t' := by
  induction lines generalizing number s with
  | nil => simp at hline
  | cons first lines ih =>
    simp only [readLines, bind_eq_ok] at h
    obtain ⟨t, hfirst, hrest⟩ := h
    rcases mem_cons.mp hline with rfl | hline
    · exact ⟨number, s, t, hfirst⟩
    · exact ih hrest hline

theorem exportEntriesFrom_length_le (h : readLines label number lines s = .ok s')
    (inExports : Bool) (hin : inExports = true -> s.inExports = true) :
    ∃ added, s'.exported = s.exported ++ added ∧
      (exportEntriesFrom inExports lines).length <= added.length := by
  induction lines generalizing number s inExports with
  | nil =>
    cases h
    exact ⟨[], by simp, by simp [exportEntriesFrom]⟩
  | cons line lines ih =>
    simp only [readLines, bind_eq_ok] at h
    obtain ⟨t, hline, hrest⟩ := h
    -- the line reports some items, and the rest is as many as the linker reads there
    have hmore {items : List (List Char)} (hexported : t.exported = s.exported ++ items)
        (inExports' : Bool) (hin' : inExports' = true -> t.inExports = true) {k : Nat}
        (hk : k <= items.length + (exportEntriesFrom inExports' lines).length) :
        ∃ added, s'.exported = s.exported ++ added ∧ k <= added.length := by
      obtain ⟨added, hadded, hle⟩ := ih hrest inExports' hin'
      exact ⟨items ++ added, by rw [hadded, hexported, append_assoc],
        by rw [length_append]; omega⟩
    rcases readLine_cases hline with ⟨hempty, rfl⟩ | ⟨w, rest, hwords, ⟨-, hreads⟩ | ⟨-, hmistakes⟩⟩
    · simpa only [exportEntriesFrom, hempty] using ih hrest inExports hin
    · cases hreads with
      | leaves hkeyword _ hother hexported hout =>
        simpa only [exportEntriesFrom, hwords, if_neg hother, if_pos hkeyword, hexported] using
          ih hrest false (by simp)
      | enters hkeyword hexported hinside =>
        refine hmore hexported true (fun _ => hinside) ?_
        simp only [exportEntriesFrom, hwords, if_pos hkeyword, length_append, le_refl]
      | entry hother hfrom hexported hinside =>
        have hne : casefold w ≠ "exports".toList := fun heq => hother (heq ▸ by decide)
        refine hmore hexported inExports (fun _ => hinside) ?_
        simp only [exportEntriesFrom, hwords, if_neg hne, length_singleton]
        split_ifs with hinside
        · rw [hinside, length_cons, Nat.add_comm]
        · simp [Bool.not_eq_true _ ▸ hinside]
    · by_cases hkeyword : casefold w = "exports".toList
      · refine hmore hmistakes.exported true (fun _ => hmistakes.after) ?_
        have hone : (rest.head?.map exportSymbol).toList.length <= 1 := by
          cases rest <;> simp
        simp only [exportEntriesFrom, hwords, if_pos hkeyword, length_append,
          length_singleton]
        omega
      · refine hmore hmistakes.exported false (by simp) ?_
        simp only [exportEntriesFrom, hwords, if_neg hkeyword, if_pos hmistakes.keyword]
        omega

theorem exportSymbol_of_plain {d : List Char} (h : ∀ c ∈ d, c ≠ '=') : exportSymbol d = d := by
  have hkeep : ∀ c ∈ d, decide (c ≠ '=') = true := by simpa using h
  have htake : d.takeWhile (· ≠ '=') = d := takeWhile_eq_self_iff.mpr hkeep
  have hdrop : d.dropWhile (· ≠ '=') = [] := dropWhile_eq_nil_iff.mpr hkeep
  simp only [exportSymbol, exportNames, htake, hdrop]
  rfl

theorem plain_of_keyword (h : casefold w ∈ keywords) : ∀ c ∈ w, c ≠ '=' := by
  rintro c hc rfl
  have := keyword_char h hc
  revert this
  decide

/-- The word behind a mistaken `EXPORTS` is not reported. -/
theorem exportSymbol_item_ne {item : List Char} (hw : casefold w = "exports".toList)
    (hitem : IsExportOrdinal item ∨ casefold item ∈ exportFlags) :
    exportSymbol w ≠ exportSymbol item := by
  have hplain : exportSymbol w = w := exportSymbol_of_plain (plain_of_keyword (hw ▸ by decide))
  rcases hitem with ⟨hat, -, hdigits⟩ | hflag
  · obtain ⟨digits, rfl⟩ : ∃ digits, item = '@' :: digits := by
      cases item with
      | nil => simp at hat
      | cons c digits => exact ⟨digits, by simpa using hat⟩
    have hitem : exportSymbol ('@' :: digits) = '@' :: digits := by
      refine exportSymbol_of_plain fun c hc => ?_
      rcases mem_cons.mp hc with rfl | hc
      · decide
      · rintro rfl
        have := hdigits '=' hc
        revert this
        decide
    rw [hplain, hitem]
    rintro rfl
    have hhead := congrArg List.head? hw
    revert hhead
    simp [casefold]
  · have hsub : ∀ k ∈ exportFlags, ∀ c ∈ k, 97 <= c.toNat := by decide
    have hitem : exportSymbol item = item := by
      refine exportSymbol_of_plain ?_
      rintro c hc rfl
      have := hsub _ hflag _ (mem_casefold hc)
      revert this
      decide
    rw [hplain, hitem]
    rintro rfl
    rw [hw] at hflag
    revert hflag
    decide

theorem exportEntriesFrom_eq_iff (h : readLines label number lines s = .ok s') :
    ∃ added, s'.exported = s.exported ++ added ∧
      (added = exportEntriesFrom s.inExports lines ↔
      ∀ line ∈ lines, ¬ TabKeyword keywords line) := by
  induction lines generalizing number s with
  | nil =>
    cases h
    exact ⟨[], by simp, by simp [exportEntriesFrom]⟩
  | cons line lines ih =>
    simp only [readLines, bind_eq_ok] at h
    obtain ⟨t, hline, hrest⟩ := h
    obtain ⟨added, hadded, hiff⟩ := ih hrest
    have hexports : "exports".toList ∈ keywords := by decide
    rcases readLine_cases hline with
      ⟨hempty, rfl⟩ | ⟨w, rest, hwords, ⟨hnot, hreads⟩ | ⟨htab, hmistakes⟩⟩
    · refine ⟨added, hadded, ?_⟩
      have hnot : ¬ TabKeyword keywords line := by
        rintro ⟨lead, w, tail, hfirst, -⟩
        rw [statementWords, hfirst.words_eq] at hempty
        cases hempty
      rw [forall_mem_cons, and_iff_right hnot, <- hiff]
      simp only [exportEntriesFrom, hempty]
    · rw [forall_mem_cons, and_iff_right hnot, <- hiff]
      cases hreads with
      | leaves hkeyword _ hother hexported hout =>
        refine ⟨added, by rw [hadded, hexported], ?_⟩
        simp only [exportEntriesFrom, hwords, if_neg hother, if_pos hkeyword, hout]
      | enters hkeyword hexported hinside =>
        refine ⟨(rest.head?.map exportSymbol).toList ++ added,
          by rw [hadded, hexported, append_assoc], ?_⟩
        simp only [exportEntriesFrom, hwords, if_pos hkeyword, hinside]
        exact ⟨append_cancel_left, congrArg _⟩
      | entry hother hfrom hexported hinside =>
        have hne : casefold w ≠ "exports".toList := fun heq => hother (heq ▸ hexports)
        refine ⟨[exportSymbol w] ++ added, by rw [hadded, hexported, append_assoc], ?_⟩
        simp only [exportEntriesFrom, hwords, if_neg hne, if_neg hother, hfrom, hinside]
        exact ⟨fun heq => (List.cons.inj heq).2, congrArg _⟩
    · refine ⟨[exportSymbol w] ++ added, by rw [hadded, hmistakes.exported, append_assoc], ?_⟩
      refine iff_of_false (fun heq => ?_) fun hall => hall line mem_cons_self htab
      by_cases hkeyword : casefold w = "exports".toList
      · -- a word stands behind the tab
        obtain ⟨lead, w', tail, hfirst, -, hmore⟩ := htab
        rw [statementWords, hfirst.words_eq, words_cons_of_sep (by decide), List.cons.injEq]
          at hwords
        obtain ⟨rfl, rfl⟩ := hwords
        obtain ⟨item, items, hitems⟩ := exists_cons_of_ne_nil hmore
        have hwords' : statementWords line = w' :: item :: items := by
          rw [statementWords, hfirst.words_eq, words_cons_of_sep (by decide), hitems]
        simp only [exportEntriesFrom, hwords', if_pos hkeyword, head?_cons, Option.map_some,
          Option.toList_some, cons_append, List.cons.injEq] at heq
        exact exportSymbol_item_ne hkeyword (hmistakes.item item (by simp [hitems])) heq.1
      · obtain ⟨added', hadded', hle⟩ := exportEntriesFrom_length_le hrest false (by simp)
        obtain rfl : added' = added := append_cancel_left (hadded'.symm.trans hadded)
        simp only [exportEntriesFrom, hwords, if_neg hkeyword, if_pos hmistakes.keyword] at heq
        rw [<- heq] at hle
        simp only [cons_append, nil_append, length_cons] at hle
        omega

end

/-! ## Accepted files -/

theorem isLineEnd_break (h : isLineEnd c = true) : isLineBreak c = true := by
  simp only [isLineEnd, Bool.or_eq_true, decide_eq_true_eq] at h
  rcases h with rfl | rfl <;> decide

theorem not_blank_of_break (h : isLineBreak c = true) :
    isBlank c = false ∧ c.toLower.toNat < 97 := by
  have hlt : c.toNat < 31 := by
    simp only [isLineBreak, Bool.or_eq_true, Bool.and_eq_true, decide_eq_true_eq] at h
    omega
  have hlower : c.toLower = c := by
    have hnot : ¬ (65 <= c.toNat ∧ c.toNat <= 90) := by omega
    unfold Char.toLower
    rw [dif_neg]
    exact fun hupper => hnot ⟨hupper.1, hupper.2⟩
  rw [hlower]
  refine ⟨?_, by omega⟩
  simp only [isBlank, Bool.or_eq_false_iff, decide_eq_false_iff_not]
  constructor
  · rintro rfl
    revert h
    decide
  · rintro rfl
    revert h
    decide

theorem firstWord_of_append {out more lead : List Char}
    (h : FirstWord isBlank (out ++ more) lead w tail) (hw : casefold w ∈ keywords)
    (hmore : ∀ c ∈ more.head?, isLineBreak c = true) :
    ∃ inner, FirstWord isBlank out lead w inner ∧ tail = inner ++ more := by
  have heq := h.eq
  rw [<- append_assoc, append_eq_append_iff] at heq
  rcases heq with ⟨reach, hreach, rfl⟩ | ⟨inner, rfl, rfl⟩
  · cases reach with
    | nil =>
      refine ⟨[], ⟨by simpa using hreach.symm, h.lead, h.ne, h.word, by simp [StartsApart]⟩,
        by simp⟩
    | cons c reach =>
      obtain ⟨hblank, hlow⟩ := not_blank_of_break (hmore c (by simp))
      have hmem : c ∈ lead ++ w := by simp [hreach]
      rcases mem_append.mp hmem with hc | hc
      · rw [h.lead c hc] at hblank
        cases hblank
      · have := keyword_char hw hc
        omega
  · refine ⟨inner, ⟨by simp, h.lead, h.ne, h.word, fun c hc => h.apart c ?_⟩, rfl⟩
    rw [head?_append, Option.mem_def.mp hc]
    rfl

theorem not_tabKeyword_nil (names : List (List Char)) : ¬ TabKeyword names [] := by
  rintro ⟨lead, w, tail, hfirst, -⟩
  have hempty := hfirst.words_eq
  simp [uncommented, uncommentedFrom] at hempty

theorem forall_tabKeyword_filter (names : List (List Char)) (lines : List (List Char)) :
    (∀ line ∈ lines.filter (!·.isEmpty), ¬ TabKeyword names line) ↔
      ∀ line ∈ lines, ¬ TabKeyword names line := by
  refine ⟨fun h line hline htab => ?_, fun h line hline => h line (mem_filter.mp hline).1⟩
  refine h line (mem_filter.mpr ⟨hline, ?_⟩) htab
  cases line with
  | nil => exact absurd htab (not_tabKeyword_nil names)
  | cons c line => rfl

theorem tabKeyword_words (h : TabKeyword names line) :
    ∃ w rest, statementWords line = w :: rest ∧ casefold w ∈ names := by
  obtain ⟨lead, w, tail, hfirst, hmem, -⟩ := h
  exact ⟨w, _, hfirst.words_eq, hmem⟩

theorem tabKeyword_begins (h : TabKeyword names line) :
    ∃ k ∈ names, (k ++ ['\t']) <+: casefold ((uncommented line).dropWhile isBlank) := by
  obtain ⟨lead, w, tail, hfirst, hmem, -⟩ := h
  obtain ⟨c, w, rfl⟩ := exists_cons_of_ne_nil hfirst.ne
  refine ⟨_, hmem, casefold tail, ?_⟩
  rw [hfirst.eq, dropWhile_append_of_pos hfirst.lead, cons_append,
    dropWhile_cons_of_neg (by simp [hfirst.word c (by simp)])]
  simp [casefold]

theorem readLine_part {s s' : DefState} (h : readLines label number (splitlines text) s = .ok s')
    (hline : line ∈ defLines text) :
    ∃ k t t', readLine label k (line.takeWhile (!isLineBreak ·)) t = .ok t' := by
  have hpart : line.takeWhile (!isLineBreak ·) ∈ text.splitOnP isLineBreak :=
    takeWhile_mem_splitOnP (fun c => isLineEnd_break) hline
  by_cases hempty : line.takeWhile (!isLineBreak ·) = []
  · rw [hempty]
    exact ⟨0, s, s, rfl⟩
  · refine readLines_mem h ?_
    have hmem : line.takeWhile (!isLineBreak ·) ∈ words isLineBreak text :=
      mem_filter.mpr ⟨hpart, by simpa using hempty⟩
    rw [<- splitlines_filter] at hmem
    exact (mem_filter.mp hmem).1

theorem tabKeyword_of_hidden {s s' : DefState}
    (h : readLines label number (splitlines text) s = .ok s') (hline : line ∈ defLines text)
    (hwords : statementWords line = w :: rest) (hw : casefold w ∈ hiddenKeywords) :
    TabKeyword hiddenKeywords line := by
  obtain ⟨k, t, t', hread⟩ := readLine_part h hline
  obtain ⟨lead, tail, hfirst, -⟩ := words_eq_cons hwords
  have hkeyword := hiddenKeywords_sub hw
  -- the comment of the line and of its part
  have hout : ∃ out, beforeComment label k none (line.takeWhile (!isLineBreak ·)) = .ok out := by
    simp only [readLine, stripDefComment, bind_eq_ok] at hread
    obtain ⟨_, ⟨out, hout, -⟩, -⟩ := hread
    exact ⟨out, hout⟩
  obtain ⟨out, hout⟩ := hout
  obtain ⟨more, hunc, hmore⟩ := beforeComment_append hout (line.dropWhile (!isLineBreak ·))
  rw [takeWhile_append_dropWhile] at hunc
  have hbreak : ∀ c ∈ more.head?, isLineBreak c = true := by
    rcases hmore with rfl | rfl
    · simp
    · intro c hc
      cases hrest : line.dropWhile (!isLineBreak ·) with
      | nil => simp [hrest, uncommentedFrom] at hc
      | cons x xs =>
        have hx : isLineBreak x = true := by
          have hhead := head_dropWhile_not (!isLineBreak ·) (l := line) (by simp [hrest])
          simpa [hrest] using hhead
        have hplain : isQuote x = false ∧ x ≠ ';' := by
          constructor
          · simp only [isQuote, Bool.or_eq_false_iff, decide_eq_false_iff_not]
            constructor <;> (rintro rfl; revert hx; decide)
          · rintro rfl
            revert hx
            decide
        simp only [hrest, uncommentedFrom, hplain, Bool.false_eq_true, if_false, false_and,
          head?_cons, Option.mem_some_iff] at hc
        exact hc ▸ hx
  change FirstWord isBlank (uncommentedFrom none line) lead w tail at hfirst
  rw [hunc] at hfirst
  obtain ⟨inner, hpart, rfl⟩ := firstWord_of_append hfirst hkeyword hbreak
  have hpart' : FirstWord isBlank (uncommented (line.takeWhile (!isLineBreak ·))) lead w inner := by
    rw [uncommented, <- beforeComment_eq hout]
    exact hpart
  rcases readLine_cases hread with ⟨hempty, -⟩ | ⟨w', rest', hwords', hcases⟩
  · rw [statementWords, hpart'.words_eq] at hempty
    cases hempty
  · rw [statementWords, hpart'.words_eq, List.cons.injEq] at hwords'
    obtain ⟨rfl, -⟩ := hwords'
    rcases hcases with ⟨-, hreads⟩ | ⟨⟨lead', w', t, htab, -, htail⟩, -⟩
    · exfalso
      cases hreads with
      | leaves _ hnot => exact hnot hw
      | enters hexports =>
        rw [hexports] at hw
        revert hw
        decide
      | entry hother => exact hother hkeyword
    · obtain ⟨rfl, rfl, rfl⟩ := hpart'.unique htab
      refine ⟨lead, w, t ++ more, ?_, hw, fun hnil => htail ?_⟩
      · rw [uncommented, hunc]
        exact hfirst
      · exact words_eq_nil_iff.mpr fun c hc =>
          words_eq_nil_iff.mp hnil c (mem_append_left _ hc)

/-- An accepted file hides a keyword exactly where a tab stands behind it; and in a file
without further line breaks the reported exports are those of the linker exactly if no
keyword at all has a tab behind it. -/
theorem hidesNoKeyword_iff (sha256 : List Byte -> String) (payload : List Byte) (label : String)
    (receipt : ModuleDefinitionReceipt)
    (haccept : parseClassicModuleDefinition sha256 payload label = .ok receipt) :
    (HidesNoKeyword (asciiChars payload) ↔
      ∀ line ∈ defLines (asciiChars payload), ¬ TabKeyword hiddenKeywords line) ∧
    ((∀ c ∈ asciiChars payload, isLineBreak c = true -> isLineEnd c = true) ->
      ((HidesNoKeyword (asciiChars payload) ∧
          receipt.exported = exportEntries (asciiChars payload)) ↔
        ∀ line ∈ defLines (asciiChars payload), ¬ TabKeyword keywords line)) := by
  simp only [parseClassicModuleDefinition, bind_eq_ok, pure_eq_ok]
    at haccept
  obtain ⟨_, -, _, -, _, -, _, -, s, hread, _, -, rfl⟩ := haccept
  have hhides : HidesNoKeyword (asciiChars payload) ↔
      ∀ line ∈ defLines (asciiChars payload), ¬ TabKeyword hiddenKeywords line := by
    constructor
    · intro hno line hline htab
      obtain ⟨w, rest, hwords, hmem⟩ := tabKeyword_words htab
      exact hno line hline w rest hwords hmem
    · intro hno line hline w rest hwords hmem
      exact hno line hline (tabKeyword_of_hidden hread hline hwords hmem)
  refine ⟨hhides, fun hplain => ?_⟩
  have hsame : words isLineBreak (asciiChars payload) = words isLineEnd (asciiChars payload) := by
    refine words_congr fun c hc => ?_
    cases hend : isLineEnd c with
    | true => exact isLineEnd_break hend
    | false =>
      by_contra hbreak
      rw [hplain c hc (by simpa using hbreak)] at hend
      cases hend
  obtain ⟨added, hadded, hiff⟩ := exportEntriesFrom_eq_iff hread
  have hentries : exportEntriesFrom false (splitlines (asciiChars payload)) =
      exportEntries (asciiChars payload) := by
    rw [exportEntries, <- exportEntriesFrom_filter, splitlines_filter, hsame, words,
      exportEntriesFrom_filter, defLines]
  have hlines : (∀ line ∈ splitlines (asciiChars payload), ¬ TabKeyword keywords line) ↔
      ∀ line ∈ defLines (asciiChars payload), ¬ TabKeyword keywords line := by
    rw [<- forall_tabKeyword_filter, splitlines_filter, hsame, words, forall_tabKeyword_filter,
      defLines]
  rw [nil_append] at hadded
  rw [hhides, hadded, <- hentries, hiff, hlines]
  refine and_iff_right_of_imp fun hall line hline htab => hall line hline ?_
  obtain ⟨lead, w, tail, hfirst, hmem, hmore⟩ := htab
  exact ⟨lead, w, tail, hfirst, hiddenKeywords_sub hmem, hmore⟩

/-- `EXPORTS`, and `STUB` and `DATA` with a tab between them. -/
def stubFile : List Byte :=
  ("EXPORTS\nSTUB\tDATA\n".toList).map fun c => BitVec.ofNat 8 c.toNat

/-- The `STUB` statement, which makes the linker read the file `DATA`, is reported as an
export. -/
theorem stubFile_hidesKeyword :
    ∃ receipt, parseClassicModuleDefinition (fun _ => "") stubFile "game.def" = .ok receipt ∧
      receipt.exported = ["STUB".toList] ∧ ¬ HidesNoKeyword (asciiChars stubFile) := by
  have haccept : parseClassicModuleDefinition (fun _ => "") stubFile "game.def" =
      .ok ⟨"game.def", "", 18, none, none, ["STUB".toList]⟩ := by
    decide
  refine ⟨_, haccept, rfl, fun hno => ?_⟩
  exact hno "STUB\tDATA".toList (by decide) "STUB".toList ["DATA".toList]
    (by decide)
    (by decide)

def exportFile : List Byte :=
  ("LIBRARY game\r\nEXPORTS\r\n\t_start=_main @1 ; entry\r\n\t_table DATA\r\n".toList).map fun c =>
    BitVec.ofNat 8 c.toNat

theorem exportFile_reads :
    ∃ receipt, parseClassicModuleDefinition (fun _ => "") exportFile "game.def" = .ok receipt ∧
      HidesNoKeyword (asciiChars exportFile) ∧
      receipt.exported = exportEntries (asciiChars exportFile) ∧
      receipt.exported = ["_main".toList, "_table".toList] := by
  have haccept : parseClassicModuleDefinition (fun _ => "") exportFile "game.def" =
      .ok ⟨"game.def", "", 63, some "game".toList, none, ["_main".toList, "_table".toList]⟩ := by
    decide
  have hplain : ∀ c ∈ asciiChars exportFile, isLineBreak c = true -> isLineEnd c = true := by
    decide
  refine ⟨_, haccept, ?_⟩
  rw [<- and_assoc]
  refine ⟨((hidesNoKeyword_iff _ _ _ _ haccept).2 hplain).mpr fun line hline htab => ?_, rfl⟩
  have hbegins : ∀ line ∈ defLines (asciiChars exportFile), ∀ k ∈ keywords,
      ¬ (k ++ ['\t']) <+: casefold ((uncommented line).dropWhile isBlank) := by
    decide
  obtain ⟨k, hk, hbegin⟩ := tabKeyword_begins htab
  exact hbegins line hline k hk hbegin

end Reprobit.Linkage.DefFile

import Reprobit.Machine.Json.Scanner

/-!
# Printing without white space

The printer of `json.dumps` with the separators `,` and `:` and no escapes beyond the needed
ones.  A printed tree is scanned back, in front of anything that can follow a value, by
every scanner whose hooks undo the printing of leaves.
-/

namespace Reprobit.Machine.Json

open Unicode List Option

def hexDigit (d : Nat) : Nat := if d < 10 then 48 + d else 87 + d

theorem hexValue_hexDigit : ∀ d < 16, hexValue (hexDigit d) = some d := by decide

def escapeCharacter (c : Nat) : Points :=
  if c = 34 then [92, 34]
  else if c = 92 then [92, 92]
  else if c = 10 then [92, 110]
  else if c = 13 then [92, 114]
  else if c = 9 then [92, 116]
  else if c = 12 then [92, 102]
  else if c = 8 then [92, 98]
  else if c < 32 then [92, 117, 48, 48, hexDigit (c / 16), hexDigit (c % 16)]
  else [c]

def printString (value : Points) : Points := 34 :: (value.flatMap escapeCharacter ++ [34])

variable {c fuel : Nat}

theorem readUnicode_control (hc : c < 32) (rest : Points) :
    readUnicode (48 :: 48 :: hexDigit (c / 16) :: hexDigit (c % 16) :: rest) = some (c, rest) := by
  have hhigh : isHigh c = false := by
    simp only [isHigh, Bool.and_eq_false_iff, decide_eq_false_iff_not]
    omega
  have hcode : ((0 * 16 + 0) * 16 + c / 16) * 16 + c % 16 = c := by omega
  have hzero : hexValue 48 = some 0 := rfl
  simp only [readUnicode, readHex4, hzero, hexValue_hexDigit (c / 16) (by omega),
    hexValue_hexDigit (c % 16) (by omega), bind_eq_bind, bind_some, hcode, hhigh,
    Bool.false_eq_true, if_false]

theorem readCharacter_escapeCharacter (c : Nat) (rest : Points) :
    readCharacter (escapeCharacter c ++ rest) = some (some c, rest) := by
  unfold escapeCharacter
  split_ifs with h34 h92 h10 h13 h9 h12 h8 h32
  · subst h34; rfl
  · subst h92; rfl
  · subst h10; rfl
  · subst h13; rfl
  · subst h9; rfl
  · subst h12; rfl
  · subst h8; rfl
  · change (readUnicode (48 :: 48 :: hexDigit (c / 16) :: hexDigit (c % 16) :: rest)).map _ = _
    rw [readUnicode_control h32]
    rfl
  · simp only [cons_append, nil_append, readCharacter]
    rw [if_neg h34, if_neg h92, if_neg h32]

theorem escapeCharacter_ne_nil (c : Nat) : escapeCharacter c ≠ [] := by
  unfold escapeCharacter
  split_ifs <;> simp

theorem scanCharacters_escaped (value rest : Points)
    (hfuel : (value.flatMap escapeCharacter).length < fuel) :
    scanCharacters fuel (value.flatMap escapeCharacter ++ 34 :: rest) = some (value, rest) := by
  induction value generalizing fuel with
  | nil =>
    obtain ⟨fuel, rfl⟩ : ∃ n, fuel = n + 1 := ⟨fuel - 1, by omega⟩
    rfl
  | cons c value ih =>
    rw [flatMap_cons, length_append] at hfuel
    obtain ⟨fuel, rfl⟩ : ∃ n, fuel = n + 1 := ⟨fuel - 1, by omega⟩
    have := length_pos_iff.mpr (escapeCharacter_ne_nil c)
    rw [flatMap_cons, append_assoc, scanCharacters, readCharacter_escapeCharacter]
    dsimp only
    rw [ih (by omega)]
    rfl

theorem scanString_escaped (value rest : Points) :
    scanString (value.flatMap escapeCharacter ++ 34 :: rest) = some (value, rest) := by
  refine scanCharacters_escaped value rest ?_
  rw [length_append, length_cons]
  omega

theorem readStart_printString (value rest : Points) :
    readStart (printString value ++ rest) = some (.leaf (.string value), rest) := by
  rw [printString, cons_append, append_assoc, singleton_append, readStart,
    if_pos rfl, scanString_escaped]
  rfl

/-! ## Numbers -/

def printDigits (digits : List Nat) : Points := digits.map (48 + ·)

def printSign (negative : Bool) : Points := if negative then [45] else []

def printFraction (fraction : List Nat) : Points :=
  if fraction = [] then [] else 46 :: printDigits fraction

def printExponentSign : ExponentSign -> Points
  | .none => []
  | .plus => [43]
  | .minus => [45]

def printExponent : Option (ExponentSign × List Nat) -> Points
  | none => []
  | some (sign, digits) => 101 :: (printExponentSign sign ++ printDigits digits)

def printLiteral (literal : DecimalLiteral) : Points :=
  printSign literal.negative ++ (printDigits literal.integer ++
    (printFraction literal.fraction ++ printExponent literal.exponent))

/-- What can follow a value. -/
def Delimited (rest : Points) : Prop :=
  ∀ c more, rest = c :: more -> c = 44 ∨ c = 93 ∨ c = 125 ∨ c = 10

theorem delimited_cons (h : c = 44 ∨ c = 93 ∨ c = 125 ∨ c = 10) (rest : Points) :
    Delimited (c :: rest) := by
  intro d more heq
  cases heq
  exact h

def NoDigit (rest : Points) : Prop := ∀ c more, rest = c :: more -> isDigit c = false

variable {rest more text : Points} {digits : List Nat} {literal : DecimalLiteral}
  {exponent : Option (ExponentSign × List Nat)}

theorem Delimited.noDigit (h : Delimited rest) : NoDigit rest := by
  intro c more heq
  rcases h c more heq with rfl | rfl | rfl | rfl <;> rfl

theorem isDigit_digit {d : Nat} (h : d < 10) : isDigit (48 + d) = true := by
  simp only [isDigit, Bool.and_eq_true, decide_eq_true_eq]
  omega

theorem spanDigits_printDigits (hdigits : ∀ d ∈ digits, d < 10) (hrest : NoDigit rest) :
    spanDigits (printDigits digits ++ rest) = (digits, rest) := by
  induction digits with
  | nil =>
    cases rest with
    | nil => rfl
    | cons c more =>
      simp [printDigits, spanDigits, hrest c more rfl]
  | cons d digits ih =>
    rw [forall_mem_cons] at hdigits
    have htail := ih hdigits.2
    simp only [printDigits, map_cons, cons_append, spanDigits,
      isDigit_digit hdigits.1, if_true] at htail ⊢
    rw [htail, Nat.add_sub_cancel_left]

theorem scanInteger_printDigits (h : literal.WellFormed) (hrest : NoDigit rest) :
    scanInteger (printDigits literal.integer ++ rest) = some (literal.integer, rest) := by
  have hspan := spanDigits_printDigits h.integer_lt hrest
  have hlt := h.integer_lt
  have hzero := h.no_leading_zero
  have hne := h.integer_ne_nil
  revert hspan hlt hzero hne
  cases literal.integer with
  | nil => exact fun _ _ _ hne => absurd rfl hne
  | cons d digits =>
    intro hspan hlt hzero _
    have hd := hlt d (mem_cons_self ..)
    by_cases h0 : d = 0
    · subst h0
      rw [hzero digits rfl]
      rfl
    · change scanInteger ((48 + d) :: (printDigits digits ++ rest)) = _
      rw [scanInteger, if_neg (by omega), if_pos (isDigit_digit hd)]
      exact congrArg some hspan

theorem scanFraction_printFraction {fraction : List Nat} (h : ∀ d ∈ fraction, d < 10)
    (hrest : NoDigit rest) (hpoint : ∀ c more, rest = c :: more -> c ≠ 46) :
    scanFraction (printFraction fraction ++ rest) = (fraction, rest) := by
  unfold printFraction
  split
  · rename_i hnil
    subst hnil
    cases rest with
    | nil => rfl
    | cons c more =>
      rw [nil_append, scanFraction, if_neg]
      exact fun hpos => hpoint c more rfl hpos.1
  · rename_i hne
    have hspan := spanDigits_printDigits h hrest
    rw [cons_append, scanFraction, hspan, if_pos ⟨rfl, hne⟩]

theorem scanExponentSign_print (sign : ExponentSign) (hne : digits ≠ []) (h : ∀ d ∈ digits, d < 10)
    (rest : Points) : scanExponentSign (printExponentSign sign ++ (printDigits digits ++ rest)) =
      (sign, printDigits digits ++ rest) := by
  cases sign with
  | plus => rfl
  | minus => rfl
  | none =>
    cases digits with
    | nil => exact absurd rfl hne
    | cons d digits =>
      change scanExponentSign ((48 + d) :: (printDigits digits ++ rest)) = _
      rw [scanExponentSign, if_neg (by omega), if_neg (by omega)]
      rfl

theorem scanExponent_printExponent (hne : ∀ e ∈ exponent, e.2 ≠ [])
    (hlt : ∀ e ∈ exponent, ∀ d ∈ e.2, d < 10) (hrest : Delimited rest) :
    scanExponent (printExponent exponent ++ rest) = (exponent, rest) := by
  cases exponent with
  | none =>
    cases rest with
    | nil => rfl
    | cons c more =>
      have hc := hrest c more rfl
      rw [printExponent, nil_append, scanExponent, if_neg]
      omega
  | some e =>
    obtain ⟨sign, digits⟩ := e
    have hdigits := hne _ rfl
    have hspan := spanDigits_printDigits (hlt _ rfl) hrest.noDigit
    have hsign := scanExponentSign_print sign hdigits (hlt _ rfl) rest
    rw [printExponent, cons_append, append_assoc, scanExponent, if_pos (Or.inl rfl),
      hsign]
    dsimp only
    rw [hspan, if_neg hdigits]

theorem printExponent_head (hrest : Delimited rest)
    (h : printExponent exponent ++ rest = c :: more) :
    c = 101 ∨ c = 44 ∨ c = 93 ∨ c = 125 ∨ c = 10 := by
  cases exponent with
  | none => exact .inr (hrest c more h)
  | some e =>
    cases h
    exact .inl rfl

theorem printFraction_head (hrest : Delimited rest)
    (h : printFraction literal.fraction ++ (printExponent literal.exponent ++ rest) = c :: more) :
    c = 46 ∨ c = 101 ∨ c = 44 ∨ c = 93 ∨ c = 125 ∨ c = 10 := by
  unfold printFraction at h
  split at h
  · exact .inr (printExponent_head hrest h)
  · cases h
    exact .inl rfl

theorem printDigits_head (hne : digits ≠ []) (h : ∀ d ∈ digits, d < 10) (rest : Points) :
    ∃ c more, printDigits digits ++ rest = c :: more ∧ isDigit c = true := by
  cases digits with
  | nil => exact absurd rfl hne
  | cons d digits => exact ⟨_, _, rfl, isDigit_digit (h d (mem_cons_self ..))⟩

theorem scanSign_print (htext : text = c :: more) (hc : isDigit c = true)
    (negative : Bool) : scanSign (printSign negative ++ text) = (negative, text) := by
  subst htext
  cases negative with
  | true => rfl
  | false =>
    change scanSign (c :: more) = _
    rw [scanSign, if_neg]
    rintro rfl
    cases hc

theorem scanNumber_printLiteral (h : literal.WellFormed) (hrest : Delimited rest) :
    scanNumber (printLiteral literal ++ rest) = some (literal, rest) := by
  have hexponent := scanExponent_printExponent h.exponent_ne_nil h.exponent_lt hrest
  have hfraction : scanFraction (printFraction literal.fraction ++
      (printExponent literal.exponent ++ rest)) =
        (literal.fraction, printExponent literal.exponent ++ rest) := by
    refine scanFraction_printFraction h.fraction_lt ?_ ?_
    · intro c more heq
      rcases printExponent_head hrest heq with rfl | rfl | rfl | rfl | rfl <;> rfl
    · intro c more heq
      have := printExponent_head hrest heq
      omega
  have hinteger : scanInteger (printDigits literal.integer ++ (printFraction literal.fraction ++
      (printExponent literal.exponent ++ rest))) =
        some (literal.integer, printFraction literal.fraction ++
          (printExponent literal.exponent ++ rest)) := by
    refine scanInteger_printDigits h ?_
    intro c more heq
    rcases printFraction_head hrest heq with rfl | rfl | rfl | rfl | rfl | rfl <;> rfl
  obtain ⟨c, more, hhead, hdigit⟩ := printDigits_head h.integer_ne_nil h.integer_lt
    (printFraction literal.fraction ++ (printExponent literal.exponent ++ rest))
  have hsign := scanSign_print hhead hdigit literal.negative
  simp [scanNumber, printLiteral, hsign, hinteger, hfraction, hexponent]

theorem readStart_number (h : scanNumber text = some (literal, rest)) :
    readStart text = some (.leaf (.number literal), rest) := by
  cases text with
  | nil => cases h
  | cons c more =>
    have hhead : c = 45 ∨ isDigit c = true := by
      by_contra hno
      obtain ⟨hminus, hdigit⟩ := not_or.mp hno
      have hzero : c ≠ 48 := by
        rintro rfl
        exact hdigit rfl
      simp only [scanNumber, scanSign, if_neg hminus, scanInteger, if_neg hzero, if_neg hdigit] at h
      cases h
    have hrange : 45 <= c ∧ c <= 57 := by
      simp only [isDigit, Bool.and_eq_true, decide_eq_true_eq] at hhead
      omega
    have hword : readWord words (c :: more) = none := by
      have hn : (110 == c) = false := beq_eq_false_iff_ne.mpr (by omega)
      have ht : (116 == c) = false := beq_eq_false_iff_ne.mpr (by omega)
      have hf : (102 == c) = false := beq_eq_false_iff_ne.mpr (by omega)
      simp [readWord, words, codes, List.isPrefixOf, hn, ht, hf]
    rw [readStart, if_neg (by omega), if_neg (by omega), if_neg (by omega), hword, h]

variable {L : Type}

mutual

def Tree.print (leaf : L -> Points) : Tree L -> Points
  | .leaf a => leaf a
  | .array [] => [91, 93]
  | .array (t :: items) => 91 :: (t.print leaf ++ printItems leaf items)
  | .object [] => [123, 125]
  | .object ((name, t) :: members) =>
    123 :: (printString name ++ 58 :: (t.print leaf ++ printMembers leaf members))

def printItems (leaf : L -> Points) : List (Tree L) -> Points
  | [] => [93]
  | t :: items => 44 :: (t.print leaf ++ printItems leaf items)

def printMembers (leaf : L -> Points) : List (Points × Tree L) -> Points
  | [] => [125]
  | (name, t) :: members =>
    44 :: (printString name ++ 58 :: (t.print leaf ++ printMembers leaf members))

end

/-- Neither white space nor a closing bracket begins a value. -/
theorem readStart_head {r : Start × Points} (h : readStart text = some r) :
    skipSpace text = text ∧ readClose 93 text = none ∧ readClose 125 text = none := by
  cases text with
  | nil => cases h
  | cons c rest =>
    have hspace : isSpace c = false := by
      rw [Bool.eq_false_iff]
      intro hc
      simp only [isSpace, Bool.or_eq_true, decide_eq_true_eq] at hc
      rcases hc with ((rfl | rfl) | rfl) | rfl <;> cases h
    have hbracket : c ≠ 93 := by
      rintro rfl
      cases h
    have hbrace : c ≠ 125 := by
      rintro rfl
      cases h
    refine ⟨?_, ?_, ?_⟩
    · rw [skipSpace, dropWhile_cons_of_neg (by simp [hspace])]
    · rw [readClose, if_neg hbracket]
    · rw [readClose, if_neg hbrace]

theorem readName_print (name : Points) (h : skipSpace text = text) :
    readName (printString name ++ 58 :: text) = some (name, text) := by
  have hcolon : skipSpace (58 :: text) = 58 :: text := rfl
  rw [printString, cons_append, append_assoc, singleton_append, readName,
    if_pos rfl, scanString_escaped]
  simp [hcolon, readClose, h]

theorem escapeCharacter_printable : ∀ c < 93, (c < 32 ∨ c = 34 ∨ c = 92) ->
    ∀ d ∈ escapeCharacter c, 32 <= d ∧ d < 127 := by decide

theorem escapeCharacter_plain (h : ¬(c < 32 ∨ c = 34 ∨ c = 92)) :
    escapeCharacter c = [c] := by
  unfold escapeCharacter
  repeat rw [if_neg (by omega)]

theorem printDigits_printable (h : ∀ d ∈ digits, d < 10) (hc : c ∈ printDigits digits) :
    32 <= c ∧ c < 127 := by
  obtain ⟨d, hd, rfl⟩ := mem_map.mp hc
  have := h d hd
  omega

theorem printLiteral_ne_nil (h : literal.WellFormed) : printLiteral literal ≠ [] := by
  simp [printLiteral, printDigits, h.integer_ne_nil]

theorem printLiteral_printable (h : literal.WellFormed) (hc : c ∈ printLiteral literal) :
    32 <= c ∧ c < 127 := by
  simp only [printLiteral, mem_append] at hc
  rcases hc with hc | hc | hc | hc
  · unfold printSign at hc
    split at hc <;> simp at hc
    omega
  · exact printDigits_printable h.integer_lt hc
  · unfold printFraction at hc
    split at hc
    · cases hc
    · rcases mem_cons.mp hc with rfl | hc
      · omega
      · exact printDigits_printable h.fraction_lt hc
  · have hdigits := h.exponent_lt
    revert hc hdigits
    cases literal.exponent with
    | none => exact fun hc => absurd hc not_mem_nil
    | some e =>
      obtain ⟨sign, digits⟩ := e
      intro hc hdigits
      rw [printExponent, mem_cons, mem_append] at hc
      rcases hc with rfl | hc | hc
      · omega
      · cases sign <;> simp [printExponentSign] at hc <;> omega
      · exact printDigits_printable (hdigits _ rfl) hc

section Characters

variable {P : Nat -> Prop} (hP : ∀ c, 32 <= c -> c < 127 -> P c)

include hP

theorem forall_escapeCharacter : (∀ d ∈ escapeCharacter c, P d) ↔ (32 <= c -> P c) := by
  by_cases hescaped : c < 32 ∨ c = 34 ∨ c = 92
  · refine iff_of_true (fun d hd => ?_) fun hc => hP c hc (by omega)
    have := escapeCharacter_printable c (by omega) hescaped d hd
    exact hP d this.1 this.2
  · have hc : 32 <= c := by omega
    simp [escapeCharacter_plain hescaped, hc]

theorem forall_printString {value : Points} :
    (∀ d ∈ printString value, P d) ↔ ∀ c ∈ value, 32 <= c -> P c := by
  have hquote : P 34 := hP 34 (by omega) (by omega)
  simp only [printString, forall_mem_cons, forall_mem_append, mem_flatMap,
    forall_exists_index, and_imp, hquote, true_and, not_mem_nil, false_implies,
    implies_true, and_true]
  constructor
  · intro h c hc
    exact (forall_escapeCharacter hP).mp fun d hd => h d c hc hd
  · intro h d c hc hd
    exact (forall_escapeCharacter hP).mpr (h c hc) d hd

mutual

theorem forall_print (leaf : L -> Points) : ∀ t : Tree L, (∀ c ∈ t.print leaf, P c) ↔
    t.Every (fun a => ∀ c ∈ leaf a, P c) fun name => ∀ c ∈ name, 32 <= c -> P c
  | .leaf _ => Iff.rfl
  | .array [] => by
      simp [Tree.print, Tree.Every, EveryItem, hP]
  | .array (t :: items) => by
      have hopen : P 91 := hP 91 (by omega) (by omega)
      simp only [Tree.print, Tree.Every, EveryItem, forall_mem_cons, forall_mem_append,
        hopen, true_and, forall_print leaf t, forall_printItems leaf items]
  | .object [] => by
      simp [Tree.print, Tree.Every, EveryMember, hP]
  | .object ((name, t) :: members) => by
      have hopen : P 123 := hP 123 (by omega) (by omega)
      have hcolon : P 58 := hP 58 (by omega) (by omega)
      simp only [Tree.print, Tree.Every, EveryMember, forall_mem_cons,
        forall_mem_append, hopen, hcolon, true_and, forall_printString hP,
        forall_print leaf t, forall_printMembers leaf members]

theorem forall_printItems (leaf : L -> Points) : ∀ items : List (Tree L),
    (∀ c ∈ printItems leaf items, P c) ↔
      EveryItem (fun a => ∀ c ∈ leaf a, P c) (fun name => ∀ c ∈ name, 32 <= c -> P c) items
  | [] => by simp [printItems, EveryItem, hP]
  | t :: items => by
      have hcomma : P 44 := hP 44 (by omega) (by omega)
      simp only [printItems, EveryItem, forall_mem_cons, forall_mem_append, hcomma,
        true_and, forall_print leaf t, forall_printItems leaf items]

theorem forall_printMembers (leaf : L -> Points) : ∀ members : List (Points × Tree L),
    (∀ c ∈ printMembers leaf members, P c) ↔
      EveryMember (fun a => ∀ c ∈ leaf a, P c) (fun name => ∀ c ∈ name, 32 <= c -> P c) members
  | [] => by simp [printMembers, EveryMember, hP]
  | (name, t) :: members => by
      have hcomma : P 44 := hP 44 (by omega) (by omega)
      have hcolon : P 58 := hP 58 (by omega) (by omega)
      simp only [printMembers, EveryMember, forall_mem_cons, forall_mem_append, hcomma,
        hcolon, true_and, forall_printString hP, forall_print leaf t,
        forall_printMembers leaf members]

end

end Characters

section RoundTrip

variable {ε : Type} {hooks : Hooks ε (Tree L)} {leaf : L -> Points} {p : L -> Prop}

/-- Hooks that undo the printing of some leaves. -/
structure Undoes (hooks : Hooks ε (Tree L)) (leaf : L -> Points) (p : L -> Prop) : Prop where
  leaf_back : ∀ a, p a -> ∀ rest, Delimited rest ->
    ∃ l, readStart (leaf a ++ rest) = some (.leaf l, rest) ∧ hooks.leaf l = .ok (.leaf a)
  array_back : ∀ items, hooks.array items = .array items
  object_back : ∀ members : List (Points × Tree L), (members.map Prod.fst).Nodup ->
    hooks.object members = .ok (.object members)

def Scans (hooks : Hooks ε (Tree L)) (leaf : L -> Points) (t : Tree L) : Prop :=
  ∀ fuel rest, Delimited rest -> 2 * (t.print leaf ++ rest).length + 1 <= fuel ->
    scanValue hooks fuel (t.print leaf ++ rest) = .ok (t, rest)

variable {t : Tree L} {name : Points} {members : List (Points × Tree L)} {items : List (Tree L)}

theorem printItems_delimited (leaf : L -> Points) (items : List (Tree L)) (rest : Points) :
    Delimited (printItems leaf items ++ rest) := by
  cases items with
  | nil => exact delimited_cons (by decide) _
  | cons t items => exact delimited_cons (by decide) _

theorem printMembers_delimited
    (leaf : L -> Points) (members : List (Points × Tree L)) (rest : Points) :
    Delimited (printMembers leaf members ++ rest) := by
  cases members with
  | nil => exact delimited_cons (by decide) _
  | cons m members => exact delimited_cons (by decide) _

variable (h : Undoes hooks leaf p)

include h

theorem print_head (ht : t.Every p fun _ => True) (hrest : Delimited rest) :
    skipSpace (t.print leaf ++ rest) = t.print leaf ++ rest ∧
      readClose 93 (t.print leaf ++ rest) = none ∧
      readClose 125 (t.print leaf ++ rest) = none := by
  have hstart : ∃ r, readStart (t.print leaf ++ rest) = some r := by
    match t, ht with
    | .leaf a, ht =>
      obtain ⟨l, hread, _⟩ := h.leaf_back a ht rest hrest
      exact ⟨_, hread⟩
    | .array [], _ => exact ⟨_, rfl⟩
    | .array (_ :: _), _ => exact ⟨_, rfl⟩
    | .object [], _ => exact ⟨_, rfl⟩
    | .object ((_, _) :: _), _ => exact ⟨_, rfl⟩
  obtain ⟨r, hr⟩ := hstart
  exact readStart_head hr

def ScansItems (hooks : Hooks ε (Tree L)) (leaf : L -> Points) (t : Tree L)
    (items : List (Tree L)) : Prop :=
  ∀ fuel rest, 2 * (t.print leaf ++ (printItems leaf items ++ rest)).length + 2 <= fuel ->
    scanItems hooks fuel (t.print leaf ++ (printItems leaf items ++ rest)) = .ok (t :: items, rest)

section

variable (ht : Scans hooks leaf t) {u : Tree L}

include ht

omit h in
theorem Scans.items_nil : ScansItems hooks leaf t [] := by
  intro fuel rest hfuel
  obtain ⟨fuel, rfl⟩ : ∃ n, fuel = n + 1 := ⟨fuel - 1, by omega⟩
  rw [scanItems, ht fuel _ (printItems_delimited leaf [] rest) (by omega)]
  rfl

theorem Scans.items_cons (hu : u.Every p fun _ => True)
    (hitems : ScansItems hooks leaf u items) : ScansItems hooks leaf t (u :: items) := by
  intro fuel rest hfuel
  obtain ⟨fuel, rfl⟩ : ∃ n, fuel = n + 1 := ⟨fuel - 1, by omega⟩
  have htext : printItems leaf (u :: items) ++ rest =
      44 :: (u.print leaf ++ (printItems leaf items ++ rest)) := by
    rw [printItems, cons_append, append_assoc]
  have hhead := (print_head h hu (printItems_delimited leaf items rest)).1
  have hbound : 2 * (u.print leaf ++ (printItems leaf items ++ rest)).length + 2 <= fuel := by
    rw [htext, length_append, length_cons] at hfuel
    omega
  rw [scanItems, ht fuel _ (printItems_delimited leaf _ rest) (by omega), ok_bind, htext]
  change (scanItems hooks fuel (skipSpace (u.print leaf ++ (printItems leaf items ++ rest))) >>=
    fun r => pure (t :: r.1, r.2)) = _
  rw [hhead, hitems fuel rest hbound]
  rfl

def memberText (leaf : L -> Points) (name : Points) (t : Tree L)
    (members : List (Points × Tree L)) (rest : Points) : Points :=
  printString name ++ 58 :: (t.print leaf ++ (printMembers leaf members ++ rest))

def ScansMembers (hooks : Hooks ε (Tree L)) (leaf : L -> Points) (name : Points) (t : Tree L)
    (members : List (Points × Tree L)) : Prop :=
  ∀ fuel rest, 2 * (memberText leaf name t members rest).length + 2 <= fuel ->
    scanMembers hooks fuel (memberText leaf name t members rest) = .ok ((name, t) :: members, rest)

theorem Scans.member (hevery : t.Every p fun _ => True)
    (hfuel : 2 * (memberText leaf name t members rest).length + 2 <= fuel + 1) :
    readName (memberText leaf name t members rest) =
        some (name, t.print leaf ++ (printMembers leaf members ++ rest)) ∧
      scanValue hooks fuel (t.print leaf ++ (printMembers leaf members ++ rest)) =
        .ok (t, printMembers leaf members ++ rest) := by
  have hdelimited := printMembers_delimited leaf members rest
  refine ⟨readName_print name (print_head h hevery hdelimited).1, ht fuel _ hdelimited ?_⟩
  rw [memberText, length_append, length_cons] at hfuel
  omega

theorem Scans.members_nil
    (hevery : t.Every p fun _ => True) : ScansMembers hooks leaf name t [] := by
  intro fuel rest hfuel
  obtain ⟨fuel, rfl⟩ : ∃ n, fuel = n + 1 := ⟨fuel - 1, by omega⟩
  obtain ⟨hname, hvalue⟩ := ht.member h hevery hfuel
  rw [scanMembers, hname]
  dsimp only
  rw [hvalue]
  rfl

theorem Scans.members_cons {next : Points}
    (hevery : t.Every p fun _ => True) (hmembers : ScansMembers hooks leaf next u members) :
    ScansMembers hooks leaf name t ((next, u) :: members) := by
  intro fuel rest hfuel
  obtain ⟨fuel, rfl⟩ : ∃ n, fuel = n + 1 := ⟨fuel - 1, by omega⟩
  obtain ⟨hname, hvalue⟩ := ht.member h hevery hfuel
  have htext : printMembers leaf ((next, u) :: members) ++ rest =
      44 :: memberText leaf next u members rest := by
    simp [printMembers, memberText]
  have hbound : 2 * (memberText leaf next u members rest).length + 2 <= fuel := by
    rw [memberText, htext, length_append, length_cons, length_append,
      length_cons] at hfuel
    omega
  rw [scanMembers, hname]
  dsimp only
  rw [hvalue, ok_bind, htext]
  change (scanMembers hooks fuel (memberText leaf next u members rest) >>=
    fun r => pure ((name, t) :: r.1, r.2)) = _
  rw [hmembers fuel rest hbound]
  rfl

end

theorem scans_leaf {a : L} (ha : p a) : Scans hooks leaf (.leaf a) := by
  intro fuel rest hrest hfuel
  obtain ⟨fuel, rfl⟩ : ∃ n, fuel = n + 1 := ⟨fuel - 1, by omega⟩
  obtain ⟨l, hread, hback⟩ := h.leaf_back a ha rest hrest
  rw [scanValue, Tree.print, hread]
  dsimp only
  rw [hback]
  rfl

theorem scans_array (ht : t.Every p fun _ => True)
    (hitems : ScansItems hooks leaf t items) : Scans hooks leaf (.array (t :: items)) := by
  intro fuel rest hrest hfuel
  obtain ⟨fuel, rfl⟩ : ∃ n, fuel = n + 1 := ⟨fuel - 1, by omega⟩
  have htext : (Tree.array (t :: items)).print leaf ++ rest =
      91 :: (t.print leaf ++ (printItems leaf items ++ rest)) := by
    rw [Tree.print, cons_append, append_assoc]
  obtain ⟨hspace, hclose, _⟩ := print_head h ht (printItems_delimited leaf items rest)
  rw [htext, length_cons] at hfuel
  have hstart : readStart (91 :: (t.print leaf ++ (printItems leaf items ++ rest))) =
      some (.array, _) := rfl
  rw [htext, scanValue, hstart]
  dsimp only
  rw [hspace, hclose]
  dsimp only
  rw [hitems fuel rest (by omega), ok_bind, h.array_back]
  rfl

theorem scans_object
    (hnames : (((name, t) :: members).map Prod.fst).Nodup)
    (hmembers : ScansMembers hooks leaf name t members) :
    Scans hooks leaf (.object ((name, t) :: members)) := by
  intro fuel rest hrest hfuel
  obtain ⟨fuel, rfl⟩ : ∃ n, fuel = n + 1 := ⟨fuel - 1, by omega⟩
  have htext : (Tree.object ((name, t) :: members)).print leaf ++ rest =
      123 :: memberText leaf name t members rest := by
    simp [Tree.print, memberText]
  rw [htext, length_cons] at hfuel
  have hstart : readStart (123 :: memberText leaf name t members rest) =
      some (.object, memberText leaf name t members rest) := rfl
  have hspace : skipSpace (memberText leaf name t members rest) =
      memberText leaf name t members rest := rfl
  have hclose : readClose 125 (memberText leaf name t members rest) = none := rfl
  rw [htext, scanValue, hstart]
  dsimp only
  rw [hspace, hclose]
  rw [hmembers fuel rest (by omega), ok_bind]
  rw [h.object_back _ hnames]
  rfl

mutual

theorem scanValue_print :
    ∀ {t : Tree L}, (t.Every p fun _ => True) -> t.NoRepeat -> Scans hooks leaf t
  | .leaf _, ht, _ => scans_leaf h ht
  | .array [], _, _ => by
      intro fuel rest hrest hfuel
      obtain ⟨fuel, rfl⟩ : ∃ n, fuel = n + 1 := ⟨fuel - 1, by omega⟩
      change Except.ok (hooks.array [], rest) = _
      rw [h.array_back]
  | .array (_ :: _), ht, hnames =>
    scans_array h ht.1 (scanItems_print (scanValue_print ht.1 hnames.1) ht.2 hnames.2)
  | .object [], _, _ => by
      intro fuel rest hrest hfuel
      obtain ⟨fuel, rfl⟩ : ∃ n, fuel = n + 1 := ⟨fuel - 1, by omega⟩
      change (hooks.object [] >>= fun value => Except.ok (value, rest)) = _
      rw [h.object_back [] nodup_nil]
      rfl
  | .object ((_, _) :: _), ht, hnames =>
    scans_object h hnames.1
      (scanMembers_print (scanValue_print ht.2.1 hnames.2.1) ht.2.1 ht.2.2 hnames.2.2)

theorem scanItems_print :
    ∀ {items : List (Tree L)} {t : Tree L}, Scans hooks leaf t ->
      (EveryItem p (fun _ => True) items) -> NoRepeatItems items -> ScansItems hooks leaf t items
  | [], _, ht, _, _ => ht.items_nil
  | _ :: _, _, ht, hitems, hnames =>
    ht.items_cons h hitems.1
      (scanItems_print (scanValue_print hitems.1 hnames.1) hitems.2 hnames.2)

theorem scanMembers_print :
    ∀ {members : List (Points × Tree L)} {name : Points} {t : Tree L}, Scans hooks leaf t ->
      (t.Every p fun _ => True) -> (EveryMember p (fun _ => True) members) ->
      NoRepeatMembers members -> ScansMembers hooks leaf name t members
  | [], _, _, ht, hevery, _, _ => ht.members_nil h hevery
  | (_, _) :: _, _, _, ht, hevery, hmembers, hnames =>
    ht.members_cons h hevery
      (scanMembers_print (scanValue_print hmembers.2.1 hnames.1) hmembers.2.1
        hmembers.2.2 hnames.2)

end

/-- A printed tree and a new line are scanned back. -/
theorem scan_print (ht : t.Every p fun _ => True) (hnames : t.NoRepeat) :
    scan hooks (t.print leaf ++ [10]) = .ok t := by
  have hend : Delimited [10] := delimited_cons (by decide) _
  have hback := scanValue_print h ht hnames _ [10] hend (le_refl (enough _))
  rw [scan, (print_head h ht hend).1, hback]
  rfl

end RoundTrip

end Reprobit.Machine.Json

import Reprobit.Machine.State
import Reprobit.Machine.Json.Printer

/-!
# Strict and canonical JSON

`strict_loads` is `json.loads` with two hooks: one refuses a repeated member name, the other the
constants that JSON does not have.  `canonical_json` is `json.dumps` with sorted keys after a
walk that refuses infinities, encoded as UTF-8 with a new line.

The hook for constants does not see a literal that rounds to an infinity, and the decoder passes
surrogates that stand alone, which UTF-8 has no octets for.  A document has a canonical form, and
the form says which value it has, just if it has neither.
-/

namespace Reprobit.Json

open Machine Machine.Json Machine.Unicode List

/-- The values of Python that JSON has no brackets for. -/
inductive Atom where
  | null
  | bool (value : Bool)
  | int (value : Int)
  | float (value : Binary64)
  | string (value : Points)
  deriving DecidableEq

abbrev Value := Machine.Json.Tree Atom

abbrev Document := Machine.Json.Tree Leaf

inductive JsonError where
  | duplicateKey (key : Points)
  | nonFiniteNumber (value : List Char)
  | malformed
  | unencodable
  deriving DecidableEq, Repr

/-- A dictionary filled with pairs in order. -/
def fillObject (result : List (Points × Value)) :
    List (Points × Value) -> Except JsonError (List (Points × Value))
  | [] => .ok result
  | (key, value) :: pairs =>
    if key ∈ result.map Prod.fst then .error (.duplicateKey key)
    else fillObject (result ++ [(key, value)]) pairs

def objectFromPairs (pairs : List (Points × Value)) : Except JsonError Value := do
  let result <- fillObject [] pairs
  pure (.object result)

def spelled : Constant -> List Char
  | .nan => ['N', 'a', 'N']
  | .infinity => ['I', 'n', 'f', 'i', 'n', 'i', 't', 'y']
  | .negativeInfinity => ['-', 'I', 'n', 'f', 'i', 'n', 'i', 't', 'y']

def rejectConstant (value : Constant) : Except JsonError Atom :=
  .error (.nonFiniteNumber (spelled value))

/-- `int` of a literal without a point and an exponent. -/
def intValue (literal : DecimalLiteral) : Int :=
  if literal.negative then -(ofDecimalDigits literal.integer : Int)
  else ofDecimalDigits literal.integer

def atomOf : Leaf -> Except JsonError Atom
  | .null => .ok .null
  | .bool value => .ok (.bool value)
  | .number literal =>
    .ok (if literal.IsFloat then .float literal.toBinary64 else .int (intValue literal))
  | .string value => .ok (.string value)
  | .constant value => rejectConstant value

def strictHooks : Hooks JsonError Value where
  malformed := .malformed
  leaf l := do
    let a <- atomOf l
    pure (.leaf a)
  array := .array
  object := objectFromPairs

inductive Encoding where
  | utf32 | utf16 | utf8Sig | utf16be | utf32be | utf16le | utf32le | utf8
  deriving DecidableEq, Repr

/-- `json.detect_encoding`: byte-order marks, then zero octets. -/
def detectEncoding (octets : List Nat) : Encoding :=
  if [0x00, 0x00, 0xFE, 0xFF].isPrefixOf octets ∨ [0xFF, 0xFE, 0x00, 0x00].isPrefixOf octets then
    .utf32
  else if [0xFE, 0xFF].isPrefixOf octets ∨ [0xFF, 0xFE].isPrefixOf octets then .utf16
  else if [0xEF, 0xBB, 0xBF].isPrefixOf octets then .utf8Sig
  else
    match octets with
    | a :: b :: c :: d :: _ =>
      if a = 0 then (if b = 0 then .utf32be else .utf16be)
      else if b = 0 then (if c = 0 ∧ d = 0 then .utf32le else .utf16le)
      else .utf8
    | [a, b] => if a = 0 then .utf16be else if b = 0 then .utf16le else .utf8
    | _ => .utf8

/-- `bytes.decode` with surrogates passed. -/
def decode (octets : List Nat) : Encoding -> Option Points
  | .utf32 => decodeUtf32 ([0x00, 0x00, 0xFE, 0xFF].isPrefixOf octets) (octets.drop 4)
  | .utf16 => decodeUtf16 ([0xFE, 0xFF].isPrefixOf octets) (octets.drop 2)
  | .utf8Sig => decodeUtf8 (octets.drop 3)
  | .utf16be => decodeUtf16 true octets
  | .utf32be => decodeUtf32 true octets
  | .utf16le => decodeUtf16 false octets
  | .utf32le => decodeUtf32 false octets
  | .utf8 => decodeUtf8 octets

def textOf (data : List Byte) : Option Points :=
  decode (data.map BitVec.toNat) (detectEncoding (data.map BitVec.toNat))

def strictLoads (data : List Byte) : Except JsonError Value :=
  match textOf data with
  | none => .error .malformed
  | some text => scan strictHooks text

def infinitySpelled (x : Binary64) : List Char :=
  if x.negative then ['-', 'i', 'n', 'f'] else ['i', 'n', 'f']

def jsonableAtom : Atom -> Except JsonError Atom
  | .float x => if x.isFinite then .ok (.float x) else .error (.nonFiniteNumber (infinitySpelled x))
  | a => .ok a

mutual

/-- `_jsonable` of what `json.loads` returns. -/
def jsonable : Value -> Except JsonError Value
  | .leaf a => do
    let a <- jsonableAtom a
    pure (.leaf a)
  | .array items => do
    let items <- jsonableItems items
    pure (.array items)
  | .object members => do
    let result <- jsonableMembers [] members
    pure (.object result)

def jsonableItems : List Value -> Except JsonError (List Value)
  | [] => .ok []
  | v :: items => do
    let v <- jsonable v
    let items <- jsonableItems items
    pure (v :: items)

def jsonableMembers (result : List (Points × Value)) :
    List (Points × Value) -> Except JsonError (List (Points × Value))
  | [] => .ok result
  | (key, v) :: members =>
    if key ∈ result.map Prod.fst then .error (.duplicateKey key)
    else do
      let v <- jsonable v
      jsonableMembers (result ++ [(key, v)]) members

end

def intLiteral (n : Int) : DecimalLiteral := ⟨decide (n < 0), decimalDigits n.natAbs, [], none⟩

/-- The text of a leaf by `json.dumps`. -/
def atomText : Atom -> Points
  | .null => codes ['n', 'u', 'l', 'l']
  | .bool true => codes ['t', 'r', 'u', 'e']
  | .bool false => codes ['f', 'a', 'l', 's', 'e']
  | .int n => printLiteral (intLiteral n)
  | .float x => printLiteral x.repr
  | .string value => printString value

/-- `json.dumps` with sorted keys and the narrow separators. -/
def dumps (value : Value) : Points := value.sorted.print atomText

def canonicalJson (value : Value) : Except JsonError (List Byte) := do
  let normalized <- jsonable value
  match encodeUtf8 (dumps normalized ++ [10]) with
  | none => .error .unencodable
  | some octets => pure (octets.map (BitVec.ofNat 8))

/-- No infinite float; NaN is no pattern. -/
def FiniteAtom : Atom -> Prop
  | .float x => x.isFinite = true
  | _ => True

def ScalarAtom : Atom -> Prop
  | .string value => ∀ c ∈ value, Scalar c
  | _ => True

def AllFinite (v : Value) : Prop := v.Every FiniteAtom fun _ => True

def AllScalar (v : Value) : Prop := v.Every ScalarAtom fun name => ∀ c ∈ name, Scalar c

theorem fillObject_eq_ok {pairs result filled : List (Points × Value)}
    (hresult : (result.map Prod.fst).Nodup) :
    fillObject result pairs = .ok filled ↔
      filled = result ++ pairs ∧ ((result ++ pairs).map Prod.fst).Nodup := by
  induction pairs generalizing result with
  | nil =>
    rw [append_nil]
    simp [fillObject, hresult, eq_comm]
  | cons pair pairs ih =>
    obtain ⟨key, value⟩ := pair
    have hsplit : result ++ (key, value) :: pairs = result ++ [(key, value)] ++ pairs := by simp
    unfold fillObject
    split
    · rename_i hmem
      refine iff_of_false nofun ?_
      rintro ⟨_, hnodup⟩
      rw [map_append, nodup_append] at hnodup
      exact hnodup.2.2 key hmem key (mem_cons_self ..) rfl
    · rename_i hmem
      rw [hsplit, ih]
      rw [map_append, nodup_append]
      refine ⟨hresult, nodup_singleton _, fun a ha b hb => ?_⟩
      rw [map_cons, map_nil, mem_singleton] at hb
      subst hb
      rintro rfl
      exact hmem ha

variable {v : Value} {c : Nat} {data : List Byte}

theorem objectFromPairs_eq_ok {pairs : List (Points × Value)} :
    objectFromPairs pairs = .ok v ↔ v = .object pairs ∧ (pairs.map Prod.fst).Nodup := by
  have hempty : (([] : List (Points × Value)).map Prod.fst).Nodup := nodup_nil
  simp only [objectFromPairs, bind_eq_ok, pure_eq_ok, fillObject_eq_ok hempty]
  constructor
  · rintro ⟨_, ⟨rfl, hnodup⟩, rfl⟩
    exact ⟨rfl, hnodup⟩
  · rintro ⟨rfl, hnodup⟩
    exact ⟨_, ⟨rfl, hnodup⟩, rfl⟩

theorem strictHooks_leaf_eq_ok {l : Leaf} :
    strictHooks.leaf l = .ok v ↔ ∃ a, atomOf l = .ok a ∧ .leaf a = v := by
  simp only [strictHooks, bind_eq_ok, pure_eq_ok]

mutual

theorem build_spec {p : Atom -> Prop} {q : Points -> Prop} : ∀ {t : Document} {v : Value},
    t.build strictHooks = .ok v -> v.NoRepeat ∧
      (v.Every p q ↔ t.Every (fun l => ∀ a, atomOf l = .ok a -> p a) q)
  | .leaf l, v, h => by
      obtain ⟨a, ha, rfl⟩ := strictHooks_leaf_eq_ok.mp h
      refine ⟨trivial, ?_⟩
      simp [Tree.Every, ha]
  | .array items, v, h => by
      obtain ⟨values, hvalues, h⟩ := bind_eq_ok.mp h
      cases h
      exact buildItems_spec hvalues
  | .object members, v, h => by
      obtain ⟨values, hvalues, h⟩ := bind_eq_ok.mp h
      obtain ⟨rfl, hnodup⟩ := objectFromPairs_eq_ok.mp h
      have hspec := buildMembers_spec (p := p) (q := q) hvalues
      exact ⟨⟨hnodup, hspec.1⟩, hspec.2⟩

theorem buildItems_spec {p : Atom -> Prop} {q : Points -> Prop} :
    ∀ {items : List Document} {values : List Value},
      buildItems strictHooks items = .ok values -> NoRepeatItems values ∧
        (EveryItem p q values ↔ EveryItem (fun l => ∀ a, atomOf l = .ok a -> p a) q items)
  | [], values, h => by
      cases h
      exact ⟨trivial, Iff.rfl⟩
  | t :: items, values, h => by
      obtain ⟨v, hv, h⟩ := bind_eq_ok.mp h
      obtain ⟨rest, hrest, h⟩ := bind_eq_ok.mp h
      cases h
      have hfirst := build_spec (p := p) (q := q) hv
      have hmore := buildItems_spec (p := p) (q := q) hrest
      exact ⟨⟨hfirst.1, hmore.1⟩, and_congr hfirst.2 hmore.2⟩

theorem buildMembers_spec {p : Atom -> Prop} {q : Points -> Prop} :
    ∀ {members : List (Points × Document)} {values : List (Points × Value)},
      buildMembers strictHooks members = .ok values -> NoRepeatMembers values ∧
        (EveryMember p q values ↔ EveryMember (fun l => ∀ a, atomOf l = .ok a -> p a) q members)
  | [], values, h => by
      cases h
      exact ⟨trivial, Iff.rfl⟩
  | (name, t) :: members, values, h => by
      obtain ⟨v, hv, h⟩ := bind_eq_ok.mp h
      obtain ⟨rest, hrest, h⟩ := bind_eq_ok.mp h
      cases h
      have hfirst := build_spec (p := p) (q := q) hv
      have hmore := buildMembers_spec (p := p) (q := q) hrest
      exact ⟨⟨hfirst.1, hmore.1⟩, and_congr Iff.rfl (and_congr hfirst.2 hmore.2)⟩

end

/-! ## What is dumped -/

theorem jsonableAtom_eq_ok {a b : Atom} : jsonableAtom a = .ok b ↔ b = a ∧ FiniteAtom a := by
  cases a with
  | float x =>
    by_cases hx : x.isFinite = true
    · rw [jsonableAtom, if_pos hx]
      simp [FiniteAtom, hx, eq_comm]
    · rw [jsonableAtom, if_neg hx]
      exact iff_of_false nofun fun h => hx h.2
  | _ => simp [jsonableAtom, FiniteAtom, eq_comm]

mutual

/-- Without repeated names and infinite floats a value is normal. -/
theorem jsonable_eq_ok : ∀ {v w : Value}, v.NoRepeat -> (jsonable v = .ok w ↔ w = v ∧ AllFinite v)
  | .leaf a, w, _ => by
      simp only [jsonable, bind_eq_ok, pure_eq_ok, jsonableAtom_eq_ok]
      constructor
      · rintro ⟨_, ⟨rfl, ha⟩, rfl⟩
        exact ⟨rfl, ha⟩
      · rintro ⟨rfl, ha⟩
        exact ⟨a, ⟨rfl, ha⟩, rfl⟩
  | .array items, w, h => by
      simp only [jsonable, bind_eq_ok, pure_eq_ok, jsonableItems_eq_ok h]
      constructor
      · rintro ⟨_, ⟨rfl, ha⟩, rfl⟩
        exact ⟨rfl, ha⟩
      · rintro ⟨rfl, ha⟩
        exact ⟨items, ⟨rfl, ha⟩, rfl⟩
  | .object members, w, h => by
      have hspec : ∀ ws, jsonableMembers [] members = .ok ws ↔
          ws = [] ++ members ∧ EveryMember FiniteAtom (fun _ => True) members :=
        fun ws => jsonableMembers_eq_ok h.1 h.2
      simp only [jsonable, bind_eq_ok, pure_eq_ok, hspec, nil_append]
      constructor
      · rintro ⟨_, ⟨rfl, ha⟩, rfl⟩
        exact ⟨rfl, ha⟩
      · rintro ⟨rfl, ha⟩
        exact ⟨members, ⟨rfl, ha⟩, rfl⟩

theorem jsonableItems_eq_ok : ∀ {items ws : List Value}, NoRepeatItems items ->
    (jsonableItems items = .ok ws ↔ ws = items ∧ EveryItem FiniteAtom (fun _ => True) items)
  | [], ws, _ => by simp [jsonableItems, EveryItem, eq_comm]
  | v :: items, ws, h => by
      simp only [jsonableItems, bind_eq_ok, pure_eq_ok, jsonable_eq_ok h.1,
        jsonableItems_eq_ok h.2]
      constructor
      · rintro ⟨_, ⟨rfl, hv⟩, _, ⟨rfl, hitems⟩, rfl⟩
        exact ⟨rfl, hv, hitems⟩
      · rintro ⟨rfl, hv, hitems⟩
        exact ⟨v, ⟨rfl, hv⟩, items, ⟨rfl, hitems⟩, rfl⟩

theorem jsonableMembers_eq_ok : ∀ {members result ws : List (Points × Value)},
    ((result ++ members).map Prod.fst).Nodup -> NoRepeatMembers members ->
      (jsonableMembers result members = .ok ws ↔
        ws = result ++ members ∧ EveryMember FiniteAtom (fun _ => True) members)
  | [], result, ws, _, _ => by simp [jsonableMembers, EveryMember, eq_comm]
  | (key, v) :: members, result, ws, hnodup, h => by
      have hfresh : key ∉ result.map Prod.fst := by
        rw [map_append, nodup_append] at hnodup
        exact fun hmem => hnodup.2.2 key hmem key (mem_cons_self ..) rfl
      have hsplit : result ++ (key, v) :: members = result ++ [(key, v)] ++ members := by simp
      rw [hsplit] at hnodup ⊢
      rw [jsonableMembers, if_neg hfresh]
      simp only [bind_eq_ok, jsonable_eq_ok h.1]
      constructor
      · rintro ⟨_, ⟨rfl, hv⟩, hrest⟩
        obtain ⟨rfl, hmembers⟩ := (jsonableMembers_eq_ok hnodup h.2).mp hrest
        exact ⟨rfl, trivial, hv, hmembers⟩
      · rintro ⟨rfl, _, hv, hmembers⟩
        exact ⟨v, ⟨rfl, hv⟩, (jsonableMembers_eq_ok hnodup h.2).mpr ⟨rfl, hmembers⟩⟩

end

theorem intLiteral_wellFormed (n : Int) : (intLiteral n).WellFormed where
  integer_ne_nil := decimalDigits_ne_nil _
  integer_lt _ h := decimalDigits_lt h
  no_leading_zero rest h := by
    by_cases hn : n.natAbs = 0
    · have hzero : (intLiteral n).integer = [0] := by simp [intLiteral, hn, decimalDigits]
      rw [hzero] at h
      exact (List.cons.inj h).2.symm
    · exact absurd rfl (decimalDigits_head hn h)
  fraction_lt := by simp [intLiteral]
  exponent_ne_nil := by simp [intLiteral]
  exponent_lt := by simp [intLiteral]

theorem intValue_intLiteral (n : Int) : intValue (intLiteral n) = n := by
  simp only [intValue, intLiteral, ofDecimalDigits_decimalDigits, decide_eq_true_eq]
  split <;> omega

theorem strictHooks_undoes : Undoes strictHooks atomText FiniteAtom where
  leaf_back a ha rest hrest := by
    cases a with
    | null => exact ⟨.null, rfl, rfl⟩
    | bool value =>
      cases value with
      | true => exact ⟨.bool true, rfl, rfl⟩
      | false => exact ⟨.bool false, rfl, rfl⟩
    | int n =>
      refine ⟨_, readStart_number (scanNumber_printLiteral (intLiteral_wellFormed n) hrest), ?_⟩
      have hint : ¬(intLiteral n).IsFloat := by simp [intLiteral, DecimalLiteral.IsFloat]
      rw [strictHooks_leaf_eq_ok, atomOf, if_neg hint, intValue_intLiteral]
      exact ⟨_, rfl, rfl⟩
    | float x =>
      refine ⟨_, readStart_number (scanNumber_printLiteral (Binary64.repr_wellFormed x) hrest), ?_⟩
      rw [strictHooks_leaf_eq_ok, atomOf, if_pos (Binary64.repr_isFloat x), Binary64.repr_back ha]
      exact ⟨_, rfl, rfl⟩
    | string value => exact ⟨_, readStart_printString value rest, rfl⟩
  array_back _ := rfl
  object_back members hnodup := objectFromPairs_eq_ok.mpr ⟨rfl, hnodup⟩

theorem atomText_printable {a : Atom} (ha : ∀ value, a ≠ .string value) (hc : c ∈ atomText a) :
    32 <= c ∧ c < 127 := by
  cases a with
  | null => revert c; decide
  | bool value => cases value <;> (revert c; decide)
  | int n => exact printLiteral_printable (intLiteral_wellFormed n) hc
  | float x => exact printLiteral_printable (Binary64.repr_wellFormed x) hc
  | string value => exact absurd rfl (ha value)

theorem forall_atomText {P : Nat -> Prop} (hP : ∀ c, 32 <= c -> c < 127 -> P c) (a : Atom) :
    (∀ c ∈ atomText a, P c) ↔
      match a with
      | .string value => ∀ c ∈ value, 32 <= c -> P c
      | _ => True := by
  by_cases ha : ∃ value, a = .string value
  · obtain ⟨value, rfl⟩ := ha
    exact forall_printString hP
  · have hplain : ∀ value, a ≠ .string value := fun value h => ha ⟨value, h⟩
    have hall : ∀ c ∈ atomText a, P c := fun c hc =>
      have := atomText_printable hplain hc
      hP c this.1 this.2
    cases a with
    | string value => exact absurd rfl (hplain value)
    | _ => exact iff_of_true hall trivial

theorem scalar_of_lt (h : c < 127) : Scalar c := by
  refine ⟨by omega, ?_⟩
  simp only [isSurrogate, Bool.and_eq_false_iff, decide_eq_false_iff_not]
  omega

theorem dumps_scalar (v : Value) : (∀ c ∈ dumps v, Scalar c) ↔ AllScalar v := by
  have hP : ∀ c, 32 <= c -> c < 127 -> Scalar c := fun c _ hc => scalar_of_lt hc
  have hdrop : ∀ value : Points, (∀ c ∈ value, 32 <= c -> Scalar c) ↔ ∀ c ∈ value, Scalar c := by
    intro value
    refine forall₂_congr fun c _ => ⟨fun h => ?_, fun h _ => h⟩
    by_cases hc : 32 <= c
    · exact h hc
    · exact scalar_of_lt (by omega)
  rw [dumps, forall_print hP, Tree.every_sorted]
  refine Tree.every_congr (fun a => (forall_atomText hP a).trans ?_) hdrop v
  cases a with
  | string value => exact hdrop value
  | _ => exact Iff.rfl

theorem dumps_printable (v : Value) : ∀ c ∈ dumps v, 32 <= c := by
  have hP : ∀ c : Nat, 32 <= c -> c < 127 -> 32 <= c := fun _ h _ => h
  refine (forall_print hP atomText _).mpr (Tree.every_of_forall (fun a => ?_) (fun _ _ _ h => h) _)
  refine (forall_atomText hP a).mpr ?_
  cases a with
  | string value => exact fun _ _ h => h
  | _ => trivial

theorem atomText_ne_nil (a : Atom) : atomText a ≠ [] := by
  cases a with
  | null => nofun
  | bool value => cases value <;> nofun
  | int n => exact printLiteral_ne_nil (intLiteral_wellFormed n)
  | float x => exact printLiteral_ne_nil (Binary64.repr_wellFormed x)
  | string value => nofun

theorem print_head_ascii (v : Value) : ∃ c more, v.print atomText = c :: more ∧ c < 0x80 := by
  match v with
  | .leaf (.string _) => exact ⟨34, _, rfl, by decide⟩
  | .leaf .null | .leaf (.bool _) | .leaf (.int _) | .leaf (.float _) =>
    obtain ⟨c, more, h⟩ := exists_cons_of_ne_nil (atomText_ne_nil _)
    refine ⟨c, more, h, ?_⟩
    have := (atomText_printable (by simp) (h ▸ mem_cons_self ..)).2
    omega
  | .array [] => exact ⟨91, _, rfl, by decide⟩
  | .array (_ :: _) => exact ⟨91, _, rfl, by decide⟩
  | .object [] => exact ⟨123, _, rfl, by decide⟩
  | .object ((_, _) :: _) => exact ⟨123, _, rfl, by decide⟩

theorem detectEncoding_ascii {more : List Nat} (hpos : c ≠ 0) (hc : c < 0x80)
    (hmore : ∀ o ∈ more, o ≠ 0) : detectEncoding (c :: more) = .utf8 := by
  have hne : ∀ mark : Nat, mark = 0 ∨ 0x80 <= mark -> (mark == c) = false := by
    intro mark hmark
    exact beq_eq_false_iff_ne.mpr (by omega)
  unfold detectEncoding
  simp only [List.isPrefixOf, hne 0 (.inl rfl), hne 0xFF (by omega), hne 0xFE (by omega),
    hne 0xEF (by omega), Bool.false_and, Bool.false_eq_true, or_self, if_false]
  split
  · rename_i heq
    cases heq
    rw [forall_mem_cons] at hmore
    rw [if_neg hpos, if_neg hmore.1]
  · rename_i heq
    cases heq
    rw [forall_mem_cons] at hmore
    rw [if_neg hpos, if_neg hmore.1]
  · rfl

theorem canonicalJson_eq_ok (hnames : v.NoRepeat) :
    canonicalJson v = .ok data ↔ AllFinite v ∧ ∃ octets,
      encodeUtf8 (dumps v ++ [10]) = some octets ∧ octets.map (BitVec.ofNat 8) = data := by
  simp only [canonicalJson, bind_eq_ok, jsonable_eq_ok hnames]
  constructor
  · rintro ⟨_, ⟨rfl, hfinite⟩, h⟩
    split at h
    · cases h
    · rename_i octets hoctets
      exact ⟨hfinite, octets, hoctets, pure_eq_ok.mp h⟩
  · rintro ⟨hfinite, octets, hoctets, rfl⟩
    exact ⟨v, ⟨rfl, hfinite⟩, by rw [hoctets]; rfl⟩

theorem exists_canonicalJson (hnames : v.NoRepeat) :
    (∃ data, canonicalJson v = .ok data) ↔ AllFinite v ∧ AllScalar v := by
  have hscalar : (∃ octets, encodeUtf8 (dumps v ++ [10]) = some octets) ↔ AllScalar v := by
    rw [exists_encodeUtf8, forall_mem_append, dumps_scalar]
    exact and_iff_left (by decide)
  rw [<- hscalar]
  simp only [canonicalJson_eq_ok hnames]
  constructor
  · rintro ⟨_, hfinite, octets, hoctets, _⟩
    exact ⟨hfinite, octets, hoctets⟩
  · rintro ⟨hfinite, octets, hoctets⟩
    exact ⟨_, hfinite, octets, hoctets, rfl⟩

theorem textOf_encoded {octets : List Nat} (h : encodeUtf8 (dumps v ++ [10]) = some octets) :
    textOf (octets.map (BitVec.ofNat 8)) = some (dumps v ++ [10]) := by
  have hback : (octets.map (BitVec.ofNat 8)).map BitVec.toNat = octets := by
    rw [map_map]
    refine (map_congr_left fun o ho => ?_).trans (map_id _)
    have := (encodeUtf8_octets h ho).1
    simp only [Function.comp_apply, BitVec.toNat_ofNat, id]
    omega
  have hzero : ∀ o ∈ octets, o ≠ 0 := by
    intro o ho
    refine (encodeUtf8_octets h ho).2 fun c hc => ?_
    rcases mem_append.mp hc with hc | hc
    · have := dumps_printable v c hc
      omega
    · rw [mem_singleton] at hc
      omega
  obtain ⟨c, more, hhead, hc⟩ := print_head_ascii v.sorted
  obtain ⟨tail, rfl⟩ : ∃ tail, octets = c :: tail := by
    rw [dumps, hhead, cons_append] at h
    exact encodeUtf8_ascii hc h
  rw [forall_mem_cons] at hzero
  rw [textOf, hback, detectEncoding_ascii hzero.1 hc hzero.2]
  exact decodeUtf8_encodeUtf8 h

theorem strictLoads_canonicalJson (hnames : v.NoRepeat) (h : canonicalJson v = .ok data) :
    strictLoads data = .ok v.sorted := by
  obtain ⟨hfinite, octets, hoctets, rfl⟩ := (canonicalJson_eq_ok hnames).mp h
  rw [strictLoads, textOf_encoded hoctets]
  exact scan_print strictHooks_undoes ((Tree.every_sorted _ _ v).mpr hfinite) hnames.sorted

/-! ## Canonical evidence -/

def documentOf (data : List Byte) : Option Document :=
  match textOf data with
  | none => none
  | some text => (scan treeHooks text).toOption

def RoundsFinite : Leaf -> Prop
  | .number literal => literal.IsFloat -> literal.toBinary64.isFinite = true
  | _ => True

def ScalarLeaf : Leaf -> Prop
  | .string value => ∀ c ∈ value, Scalar c
  | _ => True

def CleanDocument (data : List Byte) : Prop :=
  ∃ t, documentOf data = some t ∧ (t.Every RoundsFinite fun _ => True) ∧
    t.Every ScalarLeaf fun name => ∀ c ∈ name, Scalar c

theorem exists_documentOf (h : strictLoads data = .ok v) :
    ∃ t, documentOf data = some t ∧ t.build strictHooks = .ok v := by
  unfold strictLoads at h
  unfold documentOf
  split at h
  · cases h
  · obtain ⟨t, htree, hbuild⟩ := exists_tree h
    exact ⟨t, by rw [htree]; rfl, hbuild⟩

theorem strictLoads_noRepeat (h : strictLoads data = .ok v) : v.NoRepeat := by
  obtain ⟨t, _, hbuild⟩ := exists_documentOf h
  exact (build_spec (p := fun _ => True) (q := fun _ => True) hbuild).1

theorem cleanDocument_iff (h : strictLoads data = .ok v) :
    CleanDocument data ↔ AllFinite v ∧ AllScalar v := by
  obtain ⟨t, htree, hbuild⟩ := exists_documentOf h
  have hfinite : AllFinite v ↔ t.Every RoundsFinite fun _ => True := by
    refine (build_spec hbuild).2.trans (Tree.every_congr (fun l => ?_) (fun _ => Iff.rfl) t)
    cases l with
    | number literal =>
      by_cases hfloat : literal.IsFloat <;> simp [atomOf, RoundsFinite, FiniteAtom, hfloat]
    | constant value => exact iff_of_true nofun trivial
    | _ => simp [atomOf, RoundsFinite, FiniteAtom]
  have hscalar : AllScalar v ↔ t.Every ScalarLeaf fun name => ∀ c ∈ name, Scalar c := by
    refine (build_spec hbuild).2.trans (Tree.every_congr (fun l => ?_) (fun _ => Iff.rfl) t)
    cases l with
    | number literal =>
      by_cases hfloat : literal.IsFloat <;> simp [atomOf, ScalarLeaf, ScalarAtom, hfloat]
    | constant value => exact iff_of_true nofun trivial
    | _ => simp [atomOf, ScalarLeaf, ScalarAtom]
  rw [hfinite, hscalar]
  constructor
  · rintro ⟨t', htree', hclean⟩
    rw [htree] at htree'
    cases htree'
    exact hclean
  · intro hclean
    exact ⟨t, htree, hclean⟩

def CanonicalEvidence (v : Value) : Prop :=
  AllFinite v ∧ v.NoRepeat ∧ ∃ form, canonicalJson v = .ok form ∧
    (∃ back, strictLoads form = .ok back ∧ back.same v = true) ∧
    ∀ data other, strictLoads data = .ok other ->
      (canonicalJson other = .ok form ↔ v.same other = true)

theorem canonicalJson_congr {w : Value} (hv : v.NoRepeat) (hw : w.NoRepeat)
    (h : v.sorted = w.sorted) {form : List Byte} (hform : canonicalJson v = .ok form) :
    canonicalJson w = .ok form := by
  rw [canonicalJson_eq_ok hv] at hform
  have hdumps : dumps w = dumps v := by rw [dumps, dumps, h]
  rw [canonicalJson_eq_ok hw, hdumps]
  refine ⟨?_, hform.2⟩
  rw [AllFinite, <- Tree.every_sorted, <- h, Tree.every_sorted]
  exact hform.1

def ascii (text : List Char) : List Byte := text.map fun c => BitVec.ofNat 8 c.toNat

/-- Two members out of order. -/
def pairDocument : List Byte :=
  ascii ['\x7b', '"', 'b', '"', ':', '1', ',', '"', 'a', '"', ':', '[', ']', '\x7d']

def readInfinity : Except JsonError Value -> Bool
  | .ok (.leaf (.float x)) => !x.isFinite
  | _ => false

end Reprobit.Json

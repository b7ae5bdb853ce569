import Reprobit.Machine.Except
import Reprobit.Machine.Binary64
import Reprobit.Machine.Unicode
import Reprobit.Machine.Json.Tree

/-!
# A JSON scanner with hooks

The scanner of `json.loads` over code points: white space, strings with their escapes, numbers by
their three groups, the words, and the constants that the grammar of JSON does not have.  What
a leaf, an array or an object becomes is left to hooks, which may refuse.  Scanned with the
hooks that only build, a text gives its syntax tree; with any others it gives what the
hooks make of that tree.
-/

namespace Reprobit.Machine.Json

open Unicode

def isSpace (c : Nat) : Bool := c = 32 || c = 9 || c = 10 || c = 13

def skipSpace (text : Points) : Points := text.dropWhile isSpace

def hexValue (c : Nat) : Option Nat :=
  if 48 <= c ∧ c <= 57 then some (c - 48)
  else if 97 <= c ∧ c <= 102 then some (c - 87)
  else if 65 <= c ∧ c <= 70 then some (c - 55)
  else none

def readHex4 : Points -> Option (Nat × Points)
  | a :: b :: c :: d :: rest => do
    let a <- hexValue a
    let b <- hexValue b
    let c <- hexValue c
    let d <- hexValue d
    some (((a * 16 + b) * 16 + c) * 16 + d, rest)
  | _ => none

/-- The low surrogate of a pair, if its escape is next. -/
def readLow : Points -> Option (Nat × Points)
  | a :: b :: rest =>
    if a = 92 ∧ b = 117 then do
      let (low, rest) <- readHex4 rest
      if isLow low then some (low, rest) else none
    else none
  | _ => none

/-- Behind `\u`; two surrogates are one code point. -/
def readUnicode (text : Points) : Option (Nat × Points) := do
  let (code, rest) <- readHex4 text
  if isHigh code then
    match readLow rest with
    | some (low, rest) => some (paired code low, rest)
    | none => some (code, rest)
  else some (code, rest)

def simpleEscape (c : Nat) : Option Nat :=
  if c = 34 ∨ c = 92 ∨ c = 47 then some c
  else if c = 98 then some 8
  else if c = 102 then some 12
  else if c = 110 then some 10
  else if c = 114 then some 13
  else if c = 116 then some 9
  else none

/-- One character of a string, or its closing quote. -/
def readCharacter : Points -> Option (Option Nat × Points)
  | [] => none
  | c :: rest =>
    if c = 34 then some (none, rest)
    else if c = 92 then
      match rest with
      | [] => none
      | e :: rest =>
        if e = 117 then (readUnicode rest).map fun r => (some r.1, r.2)
        else (simpleEscape e).map fun code => (some code, rest)
    else if c < 32 then none
    else some (some c, rest)

def scanCharacters : Nat -> Points -> Option (Points × Points)
  | 0, _ => none
  | fuel + 1, text =>
    match readCharacter text with
    | none => none
    | some (none, rest) => some ([], rest)
    | some (some c, rest) => (scanCharacters fuel rest).map fun r => (c :: r.1, r.2)

/-- A string behind its opening quote. -/
def scanString (text : Points) : Option (Points × Points) := scanCharacters text.length text

def isDigit (c : Nat) : Bool := 48 <= c && c <= 57

def spanDigits : Points -> List Nat × Points
  | [] => ([], [])
  | c :: rest =>
    if isDigit c then ((c - 48) :: (spanDigits rest).1, (spanDigits rest).2) else ([], c :: rest)

/-- `-?` -/
def scanSign : Points -> Bool × Points
  | [] => (false, [])
  | c :: rest => if c = 45 then (true, rest) else (false, c :: rest)

/-- `0|[1-9][0-9]*` -/
def scanInteger : Points -> Option (List Nat × Points)
  | [] => none
  | c :: rest =>
    if c = 48 then some ([0], rest)
    else if isDigit c then some (spanDigits (c :: rest))
    else none

/-- `(\.[0-9]+)?` -/
def scanFraction : Points -> List Nat × Points
  | [] => ([], [])
  | c :: rest =>
    if c = 46 ∧ (spanDigits rest).1 ≠ [] then spanDigits rest else ([], c :: rest)

def scanExponentSign : Points -> ExponentSign × Points
  | [] => (.none, [])
  | c :: rest =>
    if c = 43 then (.plus, rest) else if c = 45 then (.minus, rest) else (.none, c :: rest)

/-- `([eE][-+]?[0-9]+)?` -/
def scanExponent : Points -> Option (ExponentSign × List Nat) × Points
  | [] => (none, [])
  | c :: rest =>
    if c = 101 ∨ c = 69 then
      let (sign, digits) := scanExponentSign rest
      if (spanDigits digits).1 = [] then (none, c :: rest)
      else (some (sign, (spanDigits digits).1), (spanDigits digits).2)
    else (none, c :: rest)

def scanNumber (text : Points) : Option (DecimalLiteral × Points) := do
  let (negative, rest) := scanSign text
  let (integer, rest) <- scanInteger rest
  let (fraction, rest) := scanFraction rest
  let (exponent, rest) := scanExponent rest
  some (⟨negative, integer, fraction, exponent⟩, rest)

/-- `NaN`, `Infinity` and `-Infinity`. -/
inductive Constant where
  | nan | infinity | negativeInfinity
  deriving DecidableEq, Repr

inductive Leaf where
  | null
  | bool (value : Bool)
  | number (literal : DecimalLiteral)
  | string (value : Points)
  | constant (value : Constant)
  deriving DecidableEq, Repr

def codes (word : List Char) : Points := word.map Char.toNat

def words : List (Points × Leaf) :=
  [(codes ['n', 'u', 'l', 'l'], .null), (codes ['t', 'r', 'u', 'e'], .bool true),
    (codes ['f', 'a', 'l', 's', 'e'], .bool false)]

def constants : List (Points × Leaf) :=
  [(codes ['N', 'a', 'N'], .constant .nan),
    (codes ['I', 'n', 'f', 'i', 'n', 'i', 't', 'y'], .constant .infinity),
    (codes ['-', 'I', 'n', 'f', 'i', 'n', 'i', 't', 'y'], .constant .negativeInfinity)]

def readWord : List (Points × Leaf) -> Points -> Option (Leaf × Points)
  | [], _ => none
  | (word, l) :: table, text =>
    if word.isPrefixOf text then some (l, text.drop word.length) else readWord table text

inductive Start where
  | leaf (value : Leaf)
  | array
  | object
  deriving DecidableEq, Repr

def readStart : Points -> Option (Start × Points)
  | [] => none
  | c :: rest =>
    if c = 34 then (scanString rest).map fun r => (.leaf (.string r.1), r.2)
    else if c = 123 then some (.object, rest)
    else if c = 91 then some (.array, rest)
    else
      match readWord words (c :: rest) with
      | some (l, rest) => some (.leaf l, rest)
      | none =>
        match scanNumber (c :: rest) with
        | some (literal, rest) => some (.leaf (.number literal), rest)
        | none => (readWord constants (c :: rest)).map fun r => (.leaf r.1, r.2)

/-- What becomes of the parts of a text. -/
structure Hooks (ε α : Type) where
  malformed : ε
  leaf : Leaf -> Except ε α
  array : List α -> α
  object : List (Points × α) -> Except ε α

def readClose (close : Nat) : Points -> Option Points
  | [] => none
  | c :: rest => if c = close then some rest else none

/-- Behind an item: whether a comma promises another one. -/
def readSeparator (close : Nat) : Points -> Option (Bool × Points)
  | [] => none
  | c :: rest =>
    if c = close then some (false, rest) else if c = 44 then some (true, rest) else none

/-- The name of a member, up to its value. -/
def readName : Points -> Option (Points × Points)
  | [] => none
  | c :: rest =>
    if c = 34 then do
      let (name, rest) <- scanString rest
      let rest <- readClose 58 (skipSpace rest)
      some (name, skipSpace rest)
    else none

variable {ε α : Type}

mutual

def scanValue (hooks : Hooks ε α) : Nat -> Points -> Except ε (α × Points)
  | 0, _ => .error hooks.malformed
  | fuel + 1, text =>
    match readStart text with
    | none => .error hooks.malformed
    | some (.leaf l, rest) => do
      let value <- hooks.leaf l
      pure (value, rest)
    | some (.array, rest) =>
      match readClose 93 (skipSpace rest) with
      | some rest => pure (hooks.array [], rest)
      | none => do
        let (items, rest) <- scanItems hooks fuel (skipSpace rest)
        pure (hooks.array items, rest)
    | some (.object, rest) =>
      match readClose 125 (skipSpace rest) with
      | some rest => do
        let value <- hooks.object []
        pure (value, rest)
      | none => do
        let (members, rest) <- scanMembers hooks fuel (skipSpace rest)
        let value <- hooks.object members
        pure (value, rest)

def scanItems (hooks : Hooks ε α) : Nat -> Points -> Except ε (List α × Points)
  | 0, _ => .error hooks.malformed
  | fuel + 1, text => do
    let (item, rest) <- scanValue hooks fuel text
    match readSeparator 93 (skipSpace rest) with
    | none => .error hooks.malformed
    | some (false, rest) => pure ([item], rest)
    | some (true, rest) => do
      let (items, rest) <- scanItems hooks fuel (skipSpace rest)
      pure (item :: items, rest)

def scanMembers (hooks : Hooks ε α) : Nat -> Points -> Except ε (List (Points × α) × Points)
  | 0, _ => .error hooks.malformed
  | fuel + 1, text =>
    match readName text with
    | none => .error hooks.malformed
    | some (name, rest) => do
      let (value, rest) <- scanValue hooks fuel rest
      match readSeparator 125 (skipSpace rest) with
      | none => .error hooks.malformed
      | some (false, rest) => pure ([(name, value)], rest)
      | some (true, rest) => do
        let (members, rest) <- scanMembers hooks fuel (skipSpace rest)
        pure ((name, value) :: members, rest)

end

/-- Enough for any text of that length, see `scanValue_succ`. -/
def enough (text : Points) : Nat := 2 * text.length + 1

def scan (hooks : Hooks ε α) (text : Points) : Except ε α := do
  let (value, rest) <- scanValue hooks (enough (skipSpace text)) (skipSpace text)
  if skipSpace rest = [] then pure value else .error hooks.malformed

def treeHooks : Hooks Unit (Tree Leaf) where
  malformed := ()
  leaf l := .ok (.leaf l)
  array := .array
  object members := .ok (.object members)

mutual

def Tree.build (hooks : Hooks ε α) : Tree Leaf -> Except ε α
  | .leaf l => hooks.leaf l
  | .array items => do
    let values <- buildItems hooks items
    pure (hooks.array values)
  | .object members => do
    let values <- buildMembers hooks members
    hooks.object values

def buildItems (hooks : Hooks ε α) : List (Tree Leaf) -> Except ε (List α)
  | [] => pure []
  | t :: items => do
    let value <- t.build hooks
    let values <- buildItems hooks items
    pure (value :: values)

def buildMembers (hooks : Hooks ε α) : List (Points × Tree Leaf) -> Except ε (List (Points × α))
  | [] => pure []
  | (name, t) :: members => do
    let value <- t.build hooks
    let values <- buildMembers hooks members
    pure ((name, value) :: values)

end

theorem ok_bind {β γ : Type} (b : β) (f : β -> Except ε γ) : (.ok b >>= f) = f b := rfl

theorem scan_tree (hooks : Hooks ε α) (fuel : Nat) :
    (∀ text value rest, scanValue hooks fuel text = .ok (value, rest) ->
      ∃ t : Tree Leaf, scanValue treeHooks fuel text = .ok (t, rest) ∧ t.build hooks = .ok value) ∧
    (∀ text values rest, scanItems hooks fuel text = .ok (values, rest) ->
      ∃ items : List (Tree Leaf), scanItems treeHooks fuel text = .ok (items, rest) ∧
        buildItems hooks items = .ok values) ∧
    (∀ text values rest, scanMembers hooks fuel text = .ok (values, rest) ->
      ∃ members : List (Points × Tree Leaf), scanMembers treeHooks fuel text = .ok (members, rest) ∧
        buildMembers hooks members = .ok values) := by
  induction fuel with
  | zero => exact ⟨nofun, nofun, nofun⟩
  | succ fuel ih =>
    obtain ⟨hvalue, hitems, hmembers⟩ := ih
    refine ⟨fun text value rest h => ?_, fun text values rest h => ?_, fun text values rest h => ?_⟩
    · rw [scanValue] at h ⊢
      split at h
      · cases h
      · obtain ⟨_, hleaf, h⟩ := bind_eq_ok.mp h
        cases h
        exact ⟨.leaf _, rfl, hleaf⟩
      · split at h
        · cases h
          exact ⟨.array [], rfl, rfl⟩
        · obtain ⟨⟨values, behind⟩, hread, h⟩ := bind_eq_ok.mp h
          obtain ⟨items, htree, hbuild⟩ := hitems _ _ _ hread
          cases h
          simp only [htree]
          exact ⟨.array items, rfl, by rw [Tree.build, hbuild]; rfl⟩
      · split at h
        · obtain ⟨_, hobject, h⟩ := bind_eq_ok.mp h
          cases h
          exact ⟨.object [], rfl, hobject⟩
        · obtain ⟨⟨values, behind⟩, hread, h⟩ := bind_eq_ok.mp h
          obtain ⟨_, hobject, h⟩ := bind_eq_ok.mp h
          obtain ⟨members, htree, hbuild⟩ := hmembers _ _ _ hread
          cases h
          simp only [htree]
          exact ⟨.object members, rfl, by rw [Tree.build, hbuild]; exact hobject⟩
    · rw [scanItems] at h ⊢
      obtain ⟨⟨item, more⟩, hread, h⟩ := bind_eq_ok.mp h
      obtain ⟨t, htree, hbuild⟩ := hvalue _ _ _ hread
      rw [htree, ok_bind]
      dsimp only at h ⊢
      split at h
      · cases h
      · cases h
        exact ⟨[t], rfl, by rw [buildItems, hbuild]; rfl⟩
      · obtain ⟨⟨values, last⟩, hmore, h⟩ := bind_eq_ok.mp h
        obtain ⟨items, htrees, hbuilds⟩ := hitems _ _ _ hmore
        cases h
        simp only [htrees]
        exact ⟨t :: items, rfl, by rw [buildItems, hbuild, hbuilds]; rfl⟩
    · rw [scanMembers] at h ⊢
      split at h
      · cases h
      rename_i name named hname
      obtain ⟨⟨item, more⟩, hread, h⟩ := bind_eq_ok.mp h
      obtain ⟨t, htree, hbuild⟩ := hvalue _ _ _ hread
      simp only [htree, ok_bind]
      dsimp only at h
      split at h
      · cases h
      · cases h
        exact ⟨[(name, t)], rfl, by rw [buildMembers, hbuild]; rfl⟩
      · obtain ⟨⟨values, last⟩, hmore, h⟩ := bind_eq_ok.mp h
        obtain ⟨members, htrees, hbuilds⟩ := hmembers _ _ _ hmore
        cases h
        simp only [htrees]
        exact ⟨(name, t) :: members, rfl, by rw [buildMembers, hbuild, hbuilds]; rfl⟩

theorem exists_tree {hooks : Hooks ε α} {text : Points} {value : α}
    (h : scan hooks text = .ok value) :
    ∃ t : Tree Leaf, scan treeHooks text = .ok t ∧ t.build hooks = .ok value := by
  unfold scan at h ⊢
  obtain ⟨⟨value, rest⟩, hread, h⟩ := bind_eq_ok.mp h
  obtain ⟨t, htree, hbuild⟩ := (scan_tree hooks _).1 _ _ _ hread
  rw [htree, ok_bind]
  dsimp only at h ⊢
  split at h
  · rename_i hend
    cases h
    exact ⟨t, by rw [if_pos hend]; rfl, hbuild⟩
  · cases h

end Reprobit.Machine.Json

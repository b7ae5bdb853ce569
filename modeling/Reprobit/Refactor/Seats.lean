import Reprobit.PosixPath
import Reprobit.Foundation
import Reprobit.Census.Source
import Mathlib.Algebra.Order.BigOperators.Group.List

/-!
# Source seats

The readers the refactor proofs share: typed fields of a proof record, range pins, and
the places a proof names in a source (a class body, a member declaration, an include
line, the owner of a function, the built-in type behind a typedef).  A source is a text
of Latin-1 characters, one for each byte.
-/

namespace Reprobit.Refactor

open Machine Census List

def isAscii (t : Text) : Bool := t.all (·.toNat < 128)

variable (value : Text) (context : String)

def identifier : Refusing Text := do
  require (isName value) (context ++ " must be an identifier")
  pure value

def asciiString : Refusing Text := do
  require (isAscii value) (context ++ " must be ASCII text")
  pure value

def tokenText (data : Text) : List Text := (iterSourceOverlayTokens data).map (·.text)

def typeText : Refusing Text := do
  let text <- asciiString value context
  require (text ≠ [] ∧ tokenText text ≠ []) (context ++ " is empty")
  pure text

def typeTokens : Refusing (List Text) := do
  let text <- typeText value context
  pure (tokenText text)

/-- `[0-9a-f]{64}` -/
def isSha (t : Text) : Bool :=
  t.length = 64 && t.all fun c => isDecimal c || (97 <= c.toNat && c.toNat <= 102)

structure RangePin where
  baselineSha256 : Text
  baselineSize : Int
  baselineLineCount : Int
  baselineSignificantTokenSha256 : Text

def pinSchema (value : RangePin) (context : String) : Refusing RangePin := do
  require (isSha value.baselineSha256) (context ++ ".baseline_sha256 differs")
  require (isSha value.baselineSignificantTokenSha256)
    (context ++ ".baseline_significant_token_sha256 differs")
  require (0 <= value.baselineSize) (context ++ ".baseline_size differs")
  require (0 <= value.baselineLineCount) (context ++ ".baseline_line_count differs")
  pure value

section

variable (sha256 : Text -> Text)

def sourceOverlaySignificantSha256 (data : Text) : Text :=
  sha256 (List.intercalate [Char.ofNat 0] (tokenText data))

def requireSourceOverlayRangePin (data : Text) (expected : RangePin) (context : String) :
    Refusing Unit :=
  require (sha256 data = expected.baselineSha256 ∧ (data.length : Int) = expected.baselineSize ∧
      (data.count '\n' : Int) = expected.baselineLineCount ∧
      sourceOverlaySignificantSha256 sha256 data = expected.baselineSignificantTokenSha256)
    (context ++ " differs from its authenticated input-range pins")

def pin (data : Text) (value : RangePin) (context : String) : Refusing Unit := do
  let schema <- pinSchema value context
  requireSourceOverlayRangePin sha256 data schema context

abbrev Sources := List (Text × Text)

def source (cleanSources : Sources) (path digest : Text) (context : String) : Refusing Text := do
  require ((cleanSources.lookup path).isSome) (context ++ ".path is absent")
  require (isSha digest) (context ++ ".source_sha256 differs")
  let data := (cleanSources.lookup path).getD []
  require (sha256 data = digest) (context ++ " source differs from its pin")
  pure data

end

/-- Leftmost; the second argument counts characters to be passed. -/
def occurrences (needle : Text) : Nat -> Nat -> Text -> List Nat
  | _, _, [] => []
  | pos, skip + 1, _ :: rest => occurrences needle (pos + 1) skip rest
  | pos, 0, c :: rest =>
    if needle.isPrefixOf (c :: rest) then
      pos :: occurrences needle (pos + 1) (needle.length - 1) rest
    else occurrences needle (pos + 1) 0 rest

def uniqueBytes (haystack needle : Text) (context : String) : Refusing Nat :=
  match needle, occurrences needle 0 0 haystack with
  | _ :: _, [index] => .ok index
  | _, _ => .error (context ++ " is absent or ambiguous")

def openBrace : Text := ['\x7b']

def closeBrace : Text := ['\x7d']

def semicolon : Text := [';']

def closingFrom : Nat -> Nat -> List Text -> Option Nat
  | _, _, [] => none
  | depth, cursor, token :: rest =>
    if token = openBrace then closingFrom (depth + 1) (cursor + 1) rest
    else if token = closeBrace then
      if depth = 1 then some cursor else closingFrom (depth - 1) (cursor + 1) rest
    else closingFrom depth (cursor + 1) rest

def classCandidate (texts : List Text) (name : Text) (context : String) (index : Nat) :
    Refusing (Option (Nat × Nat × Nat)) :=
  if (texts[index]? = some "class".toList ∨ texts[index]? = some "struct".toList) ∧
      texts[index + 1]? = some name then
    match (texts.drop (index + 2)).findIdx? fun t => t = openBrace ∨ t = semicolon with
    | none => .ok none
    | some skip =>
      let opening := index + 2 + skip
      if texts[opening]? = some openBrace then
        match closingFrom 1 (opening + 1) (texts.drop (opening + 1)) with
        | none => .error (context ++ " is unbalanced")
        | some closing => .ok (some (index, opening, closing))
      else .ok none
  else .ok none

def uniqueClassBody (data name : Text) (context : String) :
    Refusing (List Census.Token × Nat × Nat × Nat) := do
  let tokens := iterSourceOverlayTokens data
  let found <- runEach (classCandidate (tokens.map (·.text)) name context)
    (List.range (tokens.length - 2))
  match found.filterMap id with
  | [candidate] => .ok (tokens, candidate)
  | _ => .error (context ++ " is absent or ambiguous")

def tokenEnd (token : Census.Token) : Nat := token.start + token.text.length

def levelMatches (wanted : List Text) : Nat -> Int -> List Census.Token -> List (Nat × Nat)
  | 0, _, _ => []
  | _ + 1, _, [] => []
  | count + 1, depth, token :: rest =>
    let here :=
      if depth = 1 ∧ ((token :: rest).take wanted.length).map (·.text) = wanted then
        [(token.start, (((token :: rest)[wanted.length - 1]?).map tokenEnd).getD 0)]
      else []
    let depth :=
      if token.text = openBrace then depth + 1
      else if token.text = closeBrace then depth - 1
      else depth
    here ++ levelMatches wanted count depth rest

def classLevelRange (tokens : List Census.Token) (opening closing : Nat) (wanted : List Text)
    (context : String) : Refusing (Nat × Nat) :=
  match levelMatches wanted (closing - (opening + 1)) 1 (tokens.drop (opening + 1)) with
  | [range] => .ok range
  | _ => .error (context ++ " is absent or ambiguous")

/-- The lines through which a range runs, with the last one's break. -/
def line (data : Text) (tokenRange : Nat × Nat) : Text :=
  let lineStart := tokenRange.1 - ((data.take tokenRange.1).reverse.takeWhile (· ≠ '\n')).length
  let lineEnd := tokenRange.2 + ((data.drop tokenRange.2).takeWhile (· ≠ '\n')).length + 1
  (data.take lineEnd).drop lineStart

/-- `bytes.splitlines` with the breaks kept. -/
def splitlinesKeepends : Text -> List Text
  | [] => []
  | '\r' :: '\n' :: rest => ['\r', '\n'] :: splitlinesKeepends rest
  | c :: rest =>
    if c = '\n' ∨ c = '\r' then [c] :: splitlinesKeepends rest
    else
      match splitlinesKeepends rest with
      | [] => [[c]]
      | head :: lines => (c :: head) :: lines

def splitlines (data : Text) : List Text :=
  (splitlinesKeepends data).map fun l => l.takeWhile fun c => c ≠ '\n' ∧ c ≠ '\r'

def quoted (t : Text) : Text := ['"'] ++ t ++ ['"']

def includeEdge (sha256 : Text -> Text) (cleanSources : Sources) (includingData includedPath : Text)
    (rangePin : RangePin) (context : String) : Refusing Unit := do
  let basename := (PurePosixPath.parse includedPath).name
  let candidates := (cleanSources.map Prod.fst).filter fun path =>
    (PurePosixPath.parse path).name = basename
  require (candidates = [includedPath]) (context ++ " included basename is not unique")
  let wanted := [['#'], "include".toList, quoted basename]
  match (splitlinesKeepends includingData).filter fun l => tokenText l = wanted with
  | [single] => pin sha256 single rangePin (context ++ " include line")
  | _ => .error (context ++ " include edge is absent or ambiguous")

variable (cleanSources : Sources)

def includeTarget (current : Text) (tokens : List Text) : Option Text :=
  match tokens with
  | [hash, keyword, operand] =>
    if hash = ['#'] ∧ keyword = "include".toList ∧ 2 <= operand.length ∧
        operand.head? = some '"' ∧ operand.getLast? = some '"' then
      let includeName := operand.tail.dropLast
      let relative :=
        ((PurePosixPath.parse current).parent.joined (.parse includeName)).asPosix
      if (cleanSources.lookup relative).isSome then some relative
      else
        let reached := (cleanSources.map Prod.fst).filter fun path =>
          path = includeName ∨ (['/'] ++ includeName).isSuffixOf path
        match reached with
        | [path] => some path
        | _ => none
    else none
  | _ => none

def includeTargets (current data : Text) : List Text :=
  (splitlines data).filterMap fun l => includeTarget cleanSources current (tokenText l)

/-- The loop over the paths that wait, the last pushed first. -/
def includeLoop (cleanSources : Sources) : Nat -> List Text -> Sources -> Option (Refusing Sources)
  | 0, _, _ => none
  | _ + 1, [], result => some (.ok result)
  | fuel + 1, current :: pending, result =>
    if (result.lookup current).isSome then includeLoop cleanSources fuel pending result
    else
      match cleanSources.lookup current with
      | none =>
        some (.error ("integral-type include source '" ++ String.ofList current ++ "' is absent"))
      | some data =>
        includeLoop cleanSources fuel
          ((includeTargets cleanSources current data).reverse ++ pending)
          (result ++ [(current, data)])

def unreadEdges (cleanSources result : Sources) : Nat :=
  ((cleanSources.filter fun entry => (result.lookup entry.1).isNone).map fun entry =>
    (includeTargets cleanSources entry.1 entry.2).length).sum

def quotedIncludeClosure (startPath : Text) : Refusing Sources :=
  (includeLoop cleanSources (unreadEdges cleanSources [] + 2) [startPath] []).getD (.ok [])

def builtinIntegralTokenForms : List (List Text) :=
  [["char"], ["signed", "char"], ["unsigned", "char"], ["short"], ["short", "int"],
    ["signed", "short"], ["signed", "short", "int"], ["unsigned", "short"],
    ["unsigned", "short", "int"], ["int"], ["signed"], ["signed", "int"], ["unsigned"],
    ["unsigned", "int"], ["long"], ["long", "int"], ["signed", "long"], ["signed", "long", "int"],
    ["unsigned", "long"], ["unsigned", "long", "int"]].map (·.map String.toList)

/-- The tokens between `typedef` and a name, backwards from the name. -/
def typedefBehind (before : List Text) : Option (List Text) :=
  let back := before.reverse.takeWhile fun t => t ≠ semicolon ∧ t ≠ openBrace ∧ t ≠ closeBrace
  if "typedef".toList ∈ back then some (back.takeWhile (· ≠ "typedef".toList)).reverse else none

/-- The typedefs of a name among the tokens of one source. -/
def typedefCandidates (spelling : Text) (texts : List Text) : List (List Text) :=
  (List.range texts.length).filterMap fun index =>
    if texts[index]? = some spelling ∧ texts[index + 1]? = some semicolon then
      typedefBehind (texts.take index)
    else none

def typedefLoop (closure : List (List Text)) (context : String) :
    Nat -> List Text -> List Text -> Option (Refusing (List Text))
  | 0, _, _ => none
  | fuel + 1, seen, current =>
    if current ∈ builtinIntegralTokenForms then some (.ok current)
    else
      match current with
      | [spelling] =>
        if ¬isName spelling then
          some (.error (context ++ " is not a built-in integral type or a simple typedef"))
        else if spelling ∈ seen then some (.error (context ++ " typedef chain is cyclic"))
        else
          match closure.flatMap (typedefCandidates spelling) with
          | [next :: rest] => typedefLoop closure context fuel (spelling :: seen) (next :: rest)
          | _ =>
            some (.error (context ++ " typedef is absent or ambiguous in its include closure"))
      | _ => some (.error (context ++ " is not a built-in integral type or a simple typedef"))

/-- The form its loop ends with is returned for later proofs. -/
def requireIntegralType (startPath typeText : Text) (context : String) : Refusing (List Text) := do
  let initial <- typeTokens typeText context
  let closure <- quotedIncludeClosure cleanSources startPath
  let texts := closure.map fun entry => tokenText entry.2
  (typedefLoop texts context (texts.flatten.length + 1) [] initial).getD (.ok [])

variable {form : List Text}

theorem mem_of_typedefCandidates {spelling : Text} {texts : List Text}
    (h : form ∈ typedefCandidates spelling texts) : spelling ∈ texts := by
  obtain ⟨index, -, hindex⟩ := mem_filterMap.mp h
  split at hindex
  · rename_i hat
    exact mem_of_getElem? hat.1
  · cases hindex

variable {context : String} {closure : List (List Text)} {fuel : Nat}

/-- The names passed are distinct tokens, so that the chain ends. -/
theorem typedefLoop_isSome {seen current : List Text} (hnodup : seen.Nodup)
    (hseen : ∀ t ∈ seen, t ∈ closure.flatten)
    (hfuel : closure.flatten.length < fuel + seen.length) :
    (typedefLoop closure context fuel seen current).isSome := by
  induction fuel generalizing seen current with
  | zero =>
    have hle : seen.length <= closure.flatten.length := (hnodup.subperm hseen).length_le
    omega
  | succ fuel ih =>
    unfold typedefLoop
    split
    · rfl
    split
    · rename_i spelling hform
      split
      · rfl
      split
      · rfl
      rename_i hnew
      split
      · rename_i next rest hcandidates
        have hmem : next :: rest ∈ closure.flatMap (typedefCandidates spelling) := by
          rw [hcandidates]
          exact mem_singleton_self _
        obtain ⟨texts, htexts, hform⟩ := mem_flatMap.mp hmem
        refine ih (nodup_cons.mpr ⟨hnew, hnodup⟩) ?_ (by rw [length_cons]; omega)
        intro t ht
        rcases mem_cons.mp ht with rfl | ht
        · exact mem_flatten.mpr ⟨texts, htexts, mem_of_typedefCandidates hform⟩
        · exact hseen t ht
      · rfl
    · rfl

theorem typedefLoop_builtin {seen current : List Text}
    (h : typedefLoop closure context fuel seen current = some (.ok form)) :
    form ∈ builtinIntegralTokenForms := by
  induction fuel generalizing seen current with
  | zero => cases h
  | succ fuel ih =>
    unfold typedefLoop at h
    split at h
    · rename_i hform
      cases h
      exact hform
    split at h
    · split at h
      · cases h
      split at h
      · cases h
      split at h
      · exact ih h
      · cases h
    · cases h

theorem requireIntegralType_builtin {cleanSources : Sources} {startPath typeText : Text}
    (h : requireIntegralType cleanSources startPath typeText context = .ok form) :
    form ∈ builtinIntegralTokenForms := by
  simp only [requireIntegralType, bind_eq_ok] at h
  obtain ⟨initial, -, closure, -, hloop⟩ := h
  set texts := closure.map fun entry => tokenText entry.2
  have hsome : (typedefLoop texts context (texts.flatten.length + 1) [] initial).isSome :=
    typedefLoop_isSome nodup_nil (by simp) (by rw [length_nil]; omega)
  obtain ⟨result, hresult⟩ := Option.isSome_iff_exists.mp hsome
  rw [hresult, Option.getD_some] at hloop
  rw [hloop] at hresult
  exact typedefLoop_builtin hresult

/-- A name in front of `@@`. -/
def nameBeforeAts (t : Text) : Option Text :=
  let name := t.takeWhile isNameChar
  if isName name ∧ "@@".toList.isPrefixOf (t.dropWhile isNameChar) then some name else none

/-- Of a constructor, a destructor or a plain member. -/
def mangledOwner : Text -> Option Text
  | '?' :: '?' :: '0' :: rest => nameBeforeAts rest
  | '?' :: '?' :: '1' :: rest => nameBeforeAts rest
  | '?' :: rest =>
    match rest.dropWhile isNameChar with
    | '@' :: owner => if isName (rest.takeWhile isNameChar) then nameBeforeAts owner else none
    | _ => none
  | _ => none

def ownerFromMangled (mangled : Text) (context : String) : Refusing Text := do
  let text <- asciiString mangled context
  match mangledOwner text with
  | some owner => .ok owner
  | none => .error (context ++ " is outside the closed member form")

/-- The token before the last `::`; `[-1]` before the first. -/
def sourceOwner (target expected : Text) (context : String) : Refusing Unit := do
  let texts := tokenText target
  match texts.findIdx? (· = openBrace) with
  | none => .error (context ++ " has no body")
  | some opening =>
    let qualifiers := (List.range opening).filter fun index => texts[index]? = some "::".toList
    match qualifiers.getLast? with
    | none => .error (context ++ " owner differs")
    | some 0 => require (texts.getLast? = some expected) (context ++ " owner differs")
    | some (index + 1) => require (texts[index]? = some expected) (context ++ " owner differs")

end Reprobit.Refactor

import Reprobit.Refactor.Seats

/-!
# The fixed-array fill

A donor may fill an array by a loop where the seed calls `memset`.  The proof of the
refactor looks at texts only: both fragments, a fresh index, and the declaration of the
array with its element type and extent.  The generator of the donor's fragment reads the
index type as a closed C++ type spelling.
-/

namespace Reprobit.Refactor

open Machine Census

/-! ## Type spellings of the generator -/

inductive BaseKind where
  | builtin | template | named
  deriving DecidableEq, Repr

inductive Indirection where
  | pointer | reference
  deriving DecidableEq, Repr

inductive CppType where
  | mk (baseKind : BaseKind) (name : List Text) (arguments : List CppType) (baseConst : Bool)
      (indirection : List Indirection) (trailingConst : Bool)

namespace CppType

def baseKind : CppType -> BaseKind
  | mk kind .. => kind

def name : CppType -> List Text
  | mk _ name .. => name

def baseConst : CppType -> Bool
  | mk _ _ _ baseConst .. => baseConst

def indirection : CppType -> List Indirection
  | mk _ _ _ _ indirection _ => indirection

def trailingConst : CppType -> Bool
  | mk _ _ _ _ _ trailingConst => trailingConst

end CppType

def builtins : List Text :=
  ["void", "bool", "char", "short", "int", "long", "signed", "unsigned", "float", "double"].map
    String.toList

/-- The names of `[A-Za-z_][A-Za-z0-9_]*(?:::[A-Za-z_][A-Za-z0-9_]*)*`, and the rest. -/
def typeNameFrom : Nat -> Text -> Option (List Text × Text)
  | 0, _ => none
  | fuel + 1, t =>
    let first := t.takeWhile isNameChar
    let rest := t.dropWhile isNameChar
    if isName first then
      match rest with
      | ':' :: ':' :: more =>
        match typeNameFrom fuel more with
        | some (names, tail) => some (first :: names, tail)
        | none => some ([first], rest)
      | _ => some ([first], rest)
    else none

def typeName (t : Text) : Option (List Text × Text) := typeNameFrom t.length t

/-- Further built-in specifiers, a number of them at most. -/
def specifiersFrom : Nat -> Text -> List Text × Text
  | count + 1, ' ' :: t =>
    match typeName t with
    | some ([follow], rest) =>
      if follow ∈ builtins then
        let more := specifiersFrom count rest
        (follow :: more.1, more.2)
      else ([], ' ' :: t)
    | _ => ([], ' ' :: t)
  | _, t => ([], t)

/-- Pointers, references and `const` behind a type. -/
def indirections : Text -> List Indirection × Bool × Text
  | '*' :: t =>
    let more := indirections t
    (.pointer :: more.1, more.2)
  | '&' :: t =>
    let more := indirections t
    (.reference :: more.1, more.2)
  | ' ' :: 'c' :: 'o' :: 'n' :: 's' :: 't' :: t =>
    let more := indirections t
    (more.1, true, more.2.2)
  | t => ([], false, t)

section

variable (context : String)

/-- The arguments of a template, each read by `parse`. -/
def parseArguments (parse : Text -> Refusing (CppType × Text)) :
    Nat -> Text -> Refusing (List CppType × Text)
  | 0, _ => .error (context ++ " template argument list is unterminated")
  | fuel + 1, t => do
    let (argument, rest) <- parse t
    match rest with
    | ',' :: ' ' :: more => do
      let (arguments, tail) <- parseArguments parse fuel more
      pure (argument :: arguments, tail)
    | '>' :: tail => pure ([argument], tail)
    | _ => .error (context ++ " template argument list is unterminated")

def parseCppTypeAt : Nat -> Text -> Refusing (CppType × Text)
  | 0, _ => .error (context ++ " exceeds the type recursion bound")
  | depth + 1, text => do
    let baseConst := "const ".toList.isPrefixOf text
    let text := if baseConst then text.drop 6 else text
    match typeName text with
    | none => .error (context ++ " is not a closed type spelling")
    | some (names, rest) => do
      let (kind, name, arguments, rest) <-
        match names, rest with
        | [first], _ =>
          if first ∈ builtins then
            let more := specifiersFrom 2 rest
            pure (BaseKind.builtin, first :: more.1, [], more.2)
          else
            match rest with
            | '<' :: t => do
              let (arguments, tail) <- parseArguments context (parseCppTypeAt depth) t.length t
              pure (BaseKind.template, names, arguments, tail)
            | _ => pure (BaseKind.named, names, [], rest)
        | _, '<' :: t => do
          let (arguments, tail) <- parseArguments context (parseCppTypeAt depth) t.length t
          pure (BaseKind.template, names, arguments, tail)
        | _, _ => pure (BaseKind.named, names, [], rest)
      let (indirection, trailingConst, rest) := indirections rest
      require (indirection.length <= 2 ∧ indirection.count .pointer <= 1 ∧
        indirection.count .reference <= 1) (context ++ " has unsupported indirection")
      pure (.mk kind name arguments baseConst indirection trailingConst, rest)

/-- The stars and ampersands, with `const` behind a star. -/
def renderIndirection (trailingConst : Bool) : List Indirection -> Text
  | [] => []
  | .pointer :: rest =>
    (if trailingConst then "* const".toList else ['*']) ++ renderIndirection trailingConst rest
  | .reference :: rest => '&' :: renderIndirection trailingConst rest

mutual

def renderCppType : CppType -> Text
  | .mk kind name arguments baseConst indirection trailingConst =>
    (if baseConst then "const ".toList else []) ++ (match kind with
      | .builtin => List.intercalate [' '] name
      | .named => List.intercalate [':', ':'] name
      | .template =>
        List.intercalate [':', ':'] name ++ ['<'] ++
          List.intercalate [',', ' '] (renderCppTypes arguments) ++ ['>']) ++
      renderIndirection trailingConst indirection ++
      (if trailingConst ∧ .pointer ∉ indirection then " const".toList else [])

def renderCppTypes : List CppType -> List Text
  | [] => []
  | argument :: arguments => renderCppType argument :: renderCppTypes arguments

end

def boundedString (value : Text) (maximum : Nat) : Refusing Text := do
  require (value ≠ [] ∧ value.length <= maximum ∧ Char.ofNat 0 ∉ value)
    (context ++ " must be a non-empty bounded string")
  pure value

def cppType (value : Text) : Refusing CppType := do
  let text <- boundedString context value 1024
  require (isAscii text) (context ++ " must be ASCII")
  let (parsed, rest) <- parseCppTypeAt context 9 text
  require (rest = [] ∧ renderCppType parsed = text)
    (context ++ " is not a canonical closed type spelling")
  pure parsed

def valueCppType (value : Text) : Refusing CppType := do
  let parsed <- cppType context value
  require (parsed.baseConst = false ∧ parsed.indirection = [] ∧ parsed.trailingConst = false)
    (context ++ " must be a canonical non-const value type")
  pure parsed

def sourceIndentation (value : Text) : Refusing Text := do
  let indentation <- boundedString context value 32
  require (isAscii indentation ∧ indentation.all fun c => c = ' ' || c = '\t')
    (context ++ " must contain only ASCII horizontal whitespace")
  pure indentation

end

/-- The record of a fill. -/
structure FillGenerator where
  array : Text
  index : Text
  indexType : Text
  count : Int
  value : Int
  declarationIndent : Text

def decimal (n : Int) : Text := (toString n).toList

/-- `for (T i = 0; i < n; i++) a[i] = -1;` -/
def fillLoopText (indent indexType index : Text) (count : Int) (array : Text) : Text :=
  indent ++ "for (".toList ++ indexType ++ " ".toList ++ index ++ " = 0; ".toList ++ index ++
    " < ".toList ++ decimal count ++ "; ".toList ++ index ++ "++) ".toList ++ array ++
    "[".toList ++ index ++ "] = -1;\n".toList

/-- `memset(a, -1, sizeof(a));` -/
def memsetText (indent array : Text) : Text :=
  indent ++ "memset(".toList ++ array ++ ", -1, sizeof(".toList ++ array ++ "));\n".toList

def cppIdentifier (value : Text) (context : String) : Refusing Text := do
  require (isName value) (context ++ " must be a C/C++ identifier")
  pure value

def renderFixedArrayFill (gen : FillGenerator) (context : String) : Refusing Text := do
  let array <- cppIdentifier gen.array (context ++ ".array")
  let index <- cppIdentifier gen.index (context ++ ".index")
  require (array ≠ index) (context ++ ".index must differ from the array")
  let indexType <- valueCppType (context ++ ".index_type") gen.indexType
  require (1 <= gen.count ∧ gen.count <= 4096) (context ++ ".count must be an integer in [1, 4096]")
  require (gen.value = -1) (context ++ ".value must be exactly -1")
  let indentation <- sourceIndentation (context ++ ".declaration_indent") gen.declarationIndent
  pure (fillLoopText indentation (renderCppType indexType) index gen.count array)

/-- The seed's fragment and the donor's. -/
def fillFragments (gen : FillGenerator) : Refusing (Text × Text) := do
  let array <- identifier gen.array "fixed-array fill array"
  let index <- identifier gen.index "fixed-array fill index"
  let indexType <- typeText gen.indexType "fixed-array fill index type"
  require (gen.value = -1 ∧ 0 < gen.count) "fixed-array fill value/count differs"
  let indent <- asciiString gen.declarationIndent "fixed-array fill indentation"
  pure (memsetText indent array, fillLoopText indent indexType index gen.count array)

structure ArrayDeclaration where
  path : Text
  sourceSha256 : Text
  owner : Text
  array : Text
  elementType : Text
  extent : Int
  directIncludeRangePin : RangePin
  declarationRangePin : RangePin

structure FillInputs where
  cleanSources : Sources
  unitData : Text
  cleanTarget : Text
  donorTarget : Text
  sourceOwnerMangled : Text
  arrayDeclaration : ArrayDeclaration
  gen : FillGenerator

/-- The built-in form of the element type is returned for its meaning. -/
def proveFixedFill (sha256 : Text -> Text) (inputs : FillInputs) : Refusing (List Text) := do
  let gen := inputs.gen
  let declaration := inputs.arrayDeclaration
  let (baseline, output) <- fillFragments gen
  let _ <- uniqueBytes inputs.cleanTarget baseline "fixed-array fill seed form"
  let _ <- uniqueBytes inputs.donorTarget output "fixed-array fill donor form"
  let tokens := tokenText inputs.cleanTarget
  require (gen.index ∉ tokens) "fixed-array fill index is not fresh"
  require ((tokenText baseline).count gen.array = 2 ∧ tokens.count gen.array = 2)
    "fixed-array fill member is shadowed or used outside its statement"
  let elementType <- typeText declaration.elementType "fixed-array element type"
  require (declaration.array = gen.array ∧ declaration.extent = gen.count)
    "fixed-array bound differs from its declaration"
  let owner <- identifier declaration.owner "fixed-array declaration owner"
  let mangledOwner <- ownerFromMangled inputs.sourceOwnerMangled "fixed-array owner"
  require (owner = mangledOwner) "fixed-array declaration owner differs from the target"
  sourceOwner inputs.cleanTarget owner "fixed-array target"
  let header <- source sha256 inputs.cleanSources declaration.path declaration.sourceSha256
    "fixed-array declaration header"
  let form <- requireIntegralType inputs.cleanSources declaration.path elementType
    "fixed-array element type"
  includeEdge sha256 inputs.cleanSources inputs.unitData declaration.path
    declaration.directIncludeRangePin "fixed-array unit-to-header"
  let (headerTokens, _, opening, closing) <- uniqueClassBody header owner "fixed-array owner class"
  let elementTokens <- typeTokens elementType "fixed-array element type"
  let memberRange <- classLevelRange headerTokens opening closing
    (elementTokens ++ [gen.array, ['['], decimal gen.count, [']'], semicolon])
    "fixed-array member declaration"
  pin sha256 (line header memberRange) declaration.declarationRangePin
    "fixed-array member declaration"
  pure form

end Reprobit.Refactor

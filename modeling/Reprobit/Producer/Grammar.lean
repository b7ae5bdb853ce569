import Reprobit.Linkage.Paths
import Reprobit.Machine.Bytes
import Reprobit.Machine.Scan
import Mathlib.Computability.RegularExpressions

/-!
# Producer arguments

The argument lists of the producer tools: which arguments name paths, which graph
references they stand for, and which options each tool is allowed.

Texts are character lists; every comparison of options and references goes through
the case folding of the runtime.
-/

namespace Reprobit.Producer

open Linkage (lower pathName pathSuffix)

abbrev Text := List Char

/-- The folds of characters outside ASCII that lie within ASCII. -/
def foldedForeigners : List Text :=
  ["ss".toList, "s".toList, "k".toList, "ff".toList, "fi".toList, "fl".toList, "ffi".toList,
    "ffl".toList, "st".toList]

/-- Case folding, fixed on ASCII only, and the order of sets. -/
structure Runtime where
  fold : Char -> Text
  setOrder : List Text -> List Text
  ascii : ∀ c : Char, c.toNat < 128 -> fold c = [lower c]
  letters : ∀ c : Char, 128 <= c.toNat -> ∀ d ∈ fold c, d.toNat < 128 -> d.isLower = true
  foreign : ∀ c : Char, 128 <= c.toNat -> (∀ d ∈ fold c, d.toNat < 128) -> fold c ∈ foldedForeigners
  setOrder_perm : ∀ xs, (setOrder xs).Perm xs.dedup

variable (rt : Runtime)

def Runtime.casefold (value : Text) : Text := value.flatMap rt.fold

variable (values : List Text)

/-- Texts in the order of their folds; equal folds keep their order. -/
def Runtime.sorted : List Text :=
  values.insertionSort fun a b => rt.casefold a <= rt.casefold b

/-- Is a list the sorted list of its members. -/
def Runtime.IsSortedSet : Prop :=
  values = rt.sorted (rt.setOrder values)

instance : Decidable (rt.IsSortedSet values) :=
  inferInstanceAs (Decidable (_ = _))

def quoted (value : Text) : String := reprText (String.ofList value)

def hasPart (part value : Text) : Bool := value.tails.any (part.isPrefixOf ·)

/-- The occurrences of a text that does not overlap itself. -/
def countOf (part value : Text) : Nat := (value.tails.filter (part.isPrefixOf ·)).length

/-- What follows the first occurrence of a text. -/
def behindPart (part : Text) : Text -> Option Text
  | [] => none
  | c :: rest =>
    if part.isPrefixOf (c :: rest) then some ((c :: rest).drop part.length)
    else behindPart part rest

def withoutPart (part : Text) : Nat -> Text -> Text
  | _, [] => []
  | skip + 1, _ :: rest => withoutPart part skip rest
  | 0, c :: rest =>
    if part.isPrefixOf (c :: rest) then withoutPart part (part.length - 1) rest
    else c :: withoutPart part 0 rest

/-- Slashes in place of backslashes. -/
def portableText (value : Text) : Text := value.map fun c => if c = '\\' then '/' else c

def suffixOf (value : Text) : Text := pathSuffix (pathName value)

def startsWithAny (starts : List Text) (value : Text) : Bool := starts.any (·.isPrefixOf value)

/-! ## Caseless patterns -/

/-- Four characters outside ASCII count as letters. -/
def reLower (c : Char) : Char :=
  if c.toNat = 0x130 ∨ c.toNat = 0x131 then 'i'
  else if c.toNat = 0x17F then 's'
  else if c.toNat = 0x212A then 'k'
  else lower c

namespace Pattern

open RegularExpression

def word (letters : String) : RegularExpression Char :=
  letters.toList.foldr (fun c rest => char c * rest) 1

def anyOf (letters : String) : RegularExpression Char :=
  letters.toList.foldr (fun c rest => char c + rest) 0

variable (p : RegularExpression Char)

def plus : RegularExpression Char := p * p.star

def opt : RegularExpression Char := 1 + p

def digits : RegularExpression Char := plus (anyOf "0123456789")

/-- A number in base sixteen. -/
def hex : RegularExpression Char := opt (word "0x") * plus (anyOf "0123456789abcdef")

/-- A number with an optional fraction. -/
def decimal : RegularExpression Char := digits * opt (char '.' * digits)

def libraryChar : RegularExpression Char := anyOf "abcdefghijklmnopqrstuvwxyz0123456789_.+@-"

def switch (rest : RegularExpression Char) : RegularExpression Char := anyOf "/-" * rest

def option (name value : RegularExpression Char) : RegularExpression Char :=
  switch (name * (char ':' * value))

/-- Does a pattern, written in lower case, match a whole text. -/
def fullmatch (value : Text) : Bool := p.rmatch (value.map reLower)

end Pattern

open Pattern in
def linkerScalarOptions : List (RegularExpression Char × RegularExpression Char) :=
  let reference := opt (word "no") * (word "ref" + word "icf")
  [ (word "base", hex), (opt (word "file") * word "align", hex),
    (word "heap" + word "stack", digits * opt (.char ',' * digits)),
    (word "ignore", digits * (.char ',' * digits).star),
    (word "incremental", word "yes" + word "no"),
    (word "machine", word "i386"),
    (word "nodefaultlib", plus libraryChar * opt (word ".lib")),
    (word "opt", reference * (.char ',' * reference).star),
    (word "osversion", decimal),
    (word "pdbtype", word "con" + word "sep"),
    (word "subsystem",
      (word "windows" + word "console" + word "native") * opt (.char ',' * decimal)),
    (word "version", decimal),
    (word "warn", digits) ]

open Pattern in
def isResourceDefinition (value : Text) : Bool :=
  let letter := "abcdefghijklmnopqrstuvwxyz_"
  let name := switch (.char 'd' * (anyOf letter * (anyOf (letter ++ "0123456789")).star))
  fullmatch name (value.takeWhile (· ≠ '=')) && '\n' ∉ value.dropWhile (· ≠ '=')

open Pattern in
def isResourceNumber (value : Text) : Bool := fullmatch (switch (anyOf "lc" * hex)) value

open Pattern in
def isMachine (value : Text) : Bool := fullmatch (option (word "machine") (word "i386")) value

open Pattern in
/-- The file name of a library of the toolchain. -/
def isBareLibrary (value : Text) : Bool := fullmatch (plus libraryChar * word ".lib") value

/-- A drive letter with its separator stands somewhere in a text. -/
def hasWindowsAbsolute (value : Text) : Bool :=
  value.tails.any fun
    | a :: ':' :: b :: _ => (reLower a).isLower && (b == '\\' || b == '/')
    | _ => false

def pathlikeSuffixes : List Text :=
  ["c", "cc", "cpp", "cxx", "h", "hh", "hpp", "rc", "def", "obj", "res", "lib", "exe", "dll",
    "pdb", "map"].map (·.toList)

def isPathlike (value : Text) : Bool :=
  pathlikeSuffixes.any fun suffix => ('.' :: suffix).isSuffixOf (value.map reLower)

/-! ## Paths -/

def sourceMarker : Text := "$\x7bSOURCE\x7d".toList
def buildMarker : Text := "$\x7bBUILD\x7d".toList
def toolchainMarker : Text := "$\x7bTOOLCHAIN\x7d".toList

def markers : List Text := [sourceMarker, buildMarker, toolchainMarker]

def pathParts (value : Text) : List Text :=
  (value.splitOn '/').filter fun part => part ≠ [] ∧ part ≠ ['.']

def asPosix (value : Text) : Text :=
  if pathParts value = [] then ['.'] else ['/'].intercalate (pathParts value)

def isCanonicalRelativePath (value : Text) : Bool :=
  value ≠ [] ∧ '\x00' ∉ value ∧ '\\' ∉ value ∧ value.head? ≠ some '/' ∧ asPosix value = value ∧
    ∀ part ∈ pathParts value, part ∉ [[], ['.'], ['.', '.']]

def relative (label : String) (value : Text) : Refusing Text := do
  require (value ≠ [] ∧ '\x00' ∉ value ∧ '\\' ∉ value)
    (label ++ " must be a non-empty portable path")
  require (isCanonicalRelativePath value) (label ++ " must be normalized and relative")
  pure value

def directoryForm (allowDirectoryForm : Bool) (value : Text) : Refusing Text :=
  if allowDirectoryForm ∧ value.getLast? = some '/' then do
    require (value.dropLast ≠ []) "producer directory argument is empty"
    pure value.dropLast
  else .ok value

def markerCount (value : Text) : Nat := (markers.map (countOf · value)).sum

def validateSeatedPath (value : Text) : Refusing Unit := do
  require (markerCount value = 1) "producer path argument must use exactly one logical seat"
  let suffix := ((markers.find? (hasPart · value)).bind (behindPart · value)).getD []
  require (suffix = [] ∨ suffix.head? = some '/') "logical-seat marker must end at a path boundary"
  if suffix = [] then pure ()
  else discard <| relative "logical-seat argument suffix" suffix.tail

def validateBoundPath (allowDirectoryForm : Bool) (value : Text) : Refusing Unit := do
  require (value ≠ [] ∧ '\\' ∉ value ∧ ¬ hasWindowsAbsolute value)
    "producer path argument is not portable"
  let value <- directoryForm allowDirectoryForm value
  if markerCount value ≠ 0 then validateSeatedPath value
  else discard <| relative "producer path argument" value

variable (rt : Runtime)

def separatePathOptions : List Text :=
  ["/i", "-i", "/fi", "-fi", "/fo", "-fo", "/fd", "-fd"].map (·.toList)

def attachedPathOptions : List Text :=
  ["/libpath:", "-libpath:", "/implib:", "-implib:", "/out:", "-out:", "/pdb:", "-pdb:", "/map:",
    "-map:", "/def:", "-def:", "/fi", "-fi", "/fo", "-fo", "/fd", "-fd", "/i", "-i"].map (·.toList)

def validateArgumentPath (value : Text) : Refusing Unit :=
  match attachedPathOptions.find? (·.isPrefixOf (rt.casefold value)) with
  | some start => do
    let payload := value.drop start.length
    require (payload ≠ []) ("producer path option " ++ quoted value ++ " has no path")
    validateBoundPath (start ∈ ["/fd".toList, "-fd".toList]) payload
  | none =>
    if markers.any (hasPart · value) then validateBoundPath false value
    else
      let portable := portableText value
      if isPathlike portable ∨ "//".toList.isPrefixOf portable then validateBoundPath false value
      else require ("..".toList ∉ portable.splitOn '/')
        "producer argument contains parent-directory traversal"

def validateArgumentPaths : Option Text -> List Text -> Refusing Unit
  | none, [] => .ok ()
  | some option, [] => .error ("producer path option " ++ quoted option ++ " has no path")
  | some _, value :: rest => do
    validateBoundPath false value
    validateArgumentPaths none rest
  | none, value :: rest =>
    if rt.casefold value ∈ separatePathOptions then validateArgumentPaths (some value) rest
    else do
      validateArgumentPath rt value
      validateArgumentPaths none rest

def referenceKinds : List Text :=
  ["source", "build", "toolchain", "system-library", "quarantine-archive"].map (·.toList)

def referenceKind (value : Text) : Text := value.takeWhile (· ≠ '/')

def referencePath (value : Text) : Text := (value.dropWhile (· ≠ '/')).tail

def validateReferencePath (kind path : Text) : Refusing Unit :=
  if kind = "system-library".toList then
    require ('/' ∉ path ∧ isBareLibrary path)
      "system-library reference must name one bare .lib file"
  else if kind = "quarantine-archive".toList then do
    let _ <- relative "quarantine archive reference" path
    require (rt.casefold (suffixOf path) = ".lib".toList)
      "quarantine archive reference must name one .lib file"
  else discard <| relative "producer-graph reference" path

def validateGraphReference (output : Bool) (value : Text) : Refusing Text := do
  require ('\x00' ∉ value ∧ '/' ∈ value) "producer-graph reference is malformed"
  let kind := referenceKind value
  require (kind ∈ referenceKinds) ("unknown producer-graph reference kind: " ++ quoted kind)
  require (output -> kind = "build".toList) "producer outputs must remain beneath the build seat"
  validateReferencePath rt kind (referencePath value)
  pure value

def seatKind (marker : Text) : Text :=
  if marker = sourceMarker then "source".toList
  else if marker = buildMarker then "build".toList
  else "toolchain".toList

def seatedReference (output sourceLibraryIsQuarantine : Bool) (marker value : Text) :
    Refusing Text := do
  let suffix := value.drop marker.length
  require (suffix.head? = some '/') "logical-seat file argument lacks a relative suffix"
  let kind := seatKind marker
  let kind :=
    if kind = "source".toList ∧ sourceLibraryIsQuarantine ∧
        rt.casefold (suffixOf suffix) = ".lib".toList then "quarantine-archive".toList
    else kind
  validateGraphReference rt output (kind ++ '/' :: suffix.tail)

def unseatedReference (output bareLibrary : Bool) (value : Text) : Refusing Text :=
  if output then do
    let path <- relative "producer output argument" value
    validateGraphReference rt true ("build/".toList ++ path)
  else if bareLibrary ∧ isBareLibrary value then
    validateGraphReference rt false ("system-library/".toList ++ value)
  else .error "producer input file argument must name a logical seat"

def argumentReference (output bareLibrary sourceLibraryIsQuarantine : Bool) (value : Text) :
    Refusing Text :=
  match markers.find? (·.isPrefixOf value) with
  | some marker => seatedReference rt output sourceLibraryIsQuarantine marker value
  | none => do
    require (¬ markers.any (hasPart · value)) "logical-seat marker must begin a file argument"
    unseatedReference rt output bareLibrary value

/-! ## Edges -/

inductive ProducerRole where
  | compiler
  | resource
  | librarian
  | linker
  deriving DecidableEq

def ProducerRole.value : ProducerRole -> String
  | .compiler => "compiler"
  | .resource => "resource-compiler"
  | .librarian => "librarian"
  | .linker => "linker"

/-- What one argument contributes to the edges of its node. -/
inductive Edge where
  | skip
  /-- the next argument is a directory -/
  | directory
  /-- the next argument is an output -/
  | output
  | input (reference : Text)
  | required (reference : Text)
  | secondary (reference : Text)
  deriving DecidableEq

/-- What the next argument stands for. -/
inductive Expecting where
  | nothing
  | directory
  | output
  deriving DecidableEq

def Edge.next : Edge -> Expecting
  | .directory => .directory
  | .output => .output
  | _ => .nothing

structure Edges where
  inputs : List Text
  requiredOutputs : List Text
  secondaryOutputs : List Text
  deriving DecidableEq

def Edge.addTo (edges : Edges) : Edge -> Edges
  | .input reference => { edges with inputs := reference :: edges.inputs }
  | .required reference => { edges with requiredOutputs := reference :: edges.requiredOutputs }
  | .secondary reference =>
    { edges with secondaryOutputs := reference :: edges.secondaryOutputs }
  | _ => edges

def roleDirectoryOptions : List Text := ["/i", "-i"].map (·.toList)
def separateOutputOptions : List Text := ["/fo", "-fo"].map (·.toList)
def roleDirectoryStarts : List Text := ["/libpath:", "-libpath:"].map (·.toList)
def noDirectoryStarts : List Text := ["/implib:", "-implib:", "/incremental"].map (·.toList)
def roleInputStarts : List Text := ["/def:", "-def:"].map (·.toList)

def roleOutputStarts : List Text :=
  ["/implib:", "-implib:", "/out:", "-out:", "/pdb:", "-pdb:", "/map:", "-map:", "/fo",
    "-fo"].map (·.toList)

def requiredOutputStarts : List Text := ["/out:", "-out:", "/fo", "-fo"].map (·.toList)

def admittedSuffixes : ProducerRole -> List Text
  | .resource => [".rc".toList]
  | .librarian => [".obj".toList]
  | .linker => [".def", ".obj", ".res", ".lib"].map (·.toList)
  | .compiler => []

variable (role : ProducerRole)

def positionalEdge (value : Text) : Refusing Edge :=
  let portable := portableText value
  if ¬ (isPathlike portable ∨ markers.any (hasPart · value)) then .ok .skip
  else do
    let suffix := rt.casefold (suffixOf portable)
    require (suffix ∈ admittedSuffixes role)
      (role.value ++ " has an unsupported positional file argument: " ++ quoted value)
    let library : Bool := role = .linker ∧ suffix = ".lib".toList
    let reference <- argumentReference rt false library library value
    pure (.input (rt.casefold reference))

def argumentEdge (value : Text) : Refusing Edge :=
  let folded := rt.casefold value
  if folded ∈ roleDirectoryOptions then .ok .directory
  else if folded ∈ separateOutputOptions then .ok .output
  else if startsWithAny roleDirectoryStarts folded then .ok .skip
  else if startsWithAny roleDirectoryOptions folded ∧ ¬ startsWithAny noDirectoryStarts folded then
    .ok .skip
  else
    match roleInputStarts.find? (·.isPrefixOf folded) with
    | some start => do
      let reference <- argumentReference rt false false false (value.drop start.length)
      pure (.input (rt.casefold reference))
    | none =>
      match roleOutputStarts.find? (·.isPrefixOf folded) with
      | some start => do
        let destination <- argumentReference rt true false false (value.drop start.length)
        pure (if start ∈ requiredOutputStarts then .required (rt.casefold destination)
          else .secondary (rt.casefold destination))
      | none => positionalEdge rt role value

def roleArgumentEdges (role : ProducerRole) : Expecting -> List Text -> Refusing Edges
  | .nothing, [] => .ok ⟨[], [], []⟩
  | _, [] => .error (role.value ++ " has an incomplete path option")
  | .directory, _ :: rest => roleArgumentEdges role .nothing rest
  | .output, value :: rest => do
    let reference <- argumentReference rt true false false value
    let edges <- roleArgumentEdges role .nothing rest
    pure (Edge.addTo edges (.required (rt.casefold reference)))
  | .nothing, value :: rest => do
    let edge <- argumentEdge rt role value
    let edges <- roleArgumentEdges role edge.next rest
    pure (edge.addTo edges)

/-! ## Option grammar -/

def resourceLiteralOptions : List Text :=
  ["/nologo", "-nologo", "/r", "-r", "/v", "-v", "/x", "-x"].map (·.toList)

def librarianLiteralOptions : List Text :=
  ["/nologo", "-nologo", "/verbose", "-verbose"].map (·.toList)

def linkerLiteralOptions : List Text :=
  ["/debug", "-debug", "/dll", "-dll", "/fixed", "-fixed", "/fixed:no", "-fixed:no", "/force",
    "-force", "/nodefaultlib", "-nodefaultlib", "/noentry", "-noentry", "/nologo", "-nologo",
    "/release", "-release", "/verbose", "-verbose", "/verbose:lib", "-verbose:lib"].map (·.toList)

def linkerPathStarts : List Text :=
  ["/def:", "-def:", "/implib:", "-implib:", "/libpath:", "-libpath:", "/map:", "-map:", "/out:",
    "-out:", "/pdb:", "-pdb:"].map (·.toList)

def linkerSymbolOptionStarts : List Text :=
  ["/entry:", "-entry:", "/export:", "-export:", "/include:", "-include:"].map (·.toList)

def isPositionalFile (suffixes : List Text) (value : Text) : Bool :=
  ¬ startsWithAny ["/".toList, "-".toList] value ∧
    rt.casefold (suffixOf (portableText value)) ∈ suffixes

def admitsResourceArgument (value : Text) : Bool :=
  let folded := rt.casefold value
  folded ∈ resourceLiteralOptions || isResourceDefinition value || isResourceNumber value ||
    (startsWithAny (["/i", "-i", "/fo", "-fo"].map (·.toList)) folded && value.length > 2) ||
    isPositionalFile rt (admittedSuffixes .resource) value

def admitsLibrarianArgument (value : Text) : Bool :=
  let folded := rt.casefold value
  folded ∈ librarianLiteralOptions || startsWithAny (["/out:", "-out:"].map (·.toList)) folded ||
    isMachine value || isPositionalFile rt (admittedSuffixes .librarian) value

def isSymbolOption (value : Text) : Bool :=
  match linkerSymbolOptionStarts.find? (·.isPrefixOf (rt.casefold value)) with
  | none => false
  | some start =>
    let symbol := value.drop start.length
    symbol ≠ [] ∧ ¬ (["/", "\\", "\x00", "$\x7b"].map (·.toList)).any (hasPart · symbol)

def isLinkerScalar (value : Text) : Bool :=
  linkerScalarOptions.any fun (name, scalar) => Pattern.fullmatch (Pattern.option name scalar) value

def admitsLinkerArgument (value : Text) : Bool :=
  let folded := rt.casefold value
  folded ∈ linkerLiteralOptions || startsWithAny linkerPathStarts folded ||
    isLinkerScalar value || isSymbolOption rt value ||
    isPositionalFile rt (admittedSuffixes .linker) value

def unsupported (role : ProducerRole) (value : Text) : String :=
  role.value ++ " has an unsupported or unmodeled argument: " ++ quoted value

def validateResourceGrammar : Bool -> List Text -> Refusing Unit
  | false, [] => .ok ()
  | true, [] => .error (ProducerRole.resource.value ++ " has an incomplete path option")
  | true, _ :: rest => validateResourceGrammar false rest
  | false, value :: rest =>
    if rt.casefold value ∈ ["/i", "-i", "/fo", "-fo"].map (·.toList) then
      validateResourceGrammar true rest
    else do
      require (admitsResourceArgument rt value) (unsupported .resource value)
      validateResourceGrammar false rest

def validateNoncompilerOptionGrammar (arguments : List Text) : Refusing Unit :=
  match role with
  | .compiler => .ok ()
  | .resource => validateResourceGrammar rt false arguments
  | .librarian => requireEach arguments (admitsLibrarianArgument rt ·) (unsupported .librarian)
  | .linker => requireEach arguments (admitsLinkerArgument rt ·) (unsupported .linker)

end Reprobit.Producer

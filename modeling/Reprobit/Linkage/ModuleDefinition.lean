import Reprobit.Foundation
import Reprobit.Machine.Words

/-!
# Module-definition files

The linker reads a module-definition file line by line: a keyword opens a statement,
and the lines behind `EXPORTS` are export entries.  The parser accepts a subset without
statements that read further files.  It cuts lines where `str.splitlines` does, and a
keyword ends at the first space.
-/

namespace Reprobit.Linkage.DefFile

open Machine

def isSpace (c : Char) : Bool :=
  (9 <= c.toNat && c.toNat <= 13) || (28 <= c.toNat && c.toNat <= 32)

/-- The characters at which `splitlines` cuts an ASCII text. -/
def isLineBreak (c : Char) : Bool :=
  (10 <= c.toNat && c.toNat <= 13) || (28 <= c.toNat && c.toNat <= 30)

def isQuote (c : Char) : Bool := c = '\'' || c = '"'

def splitlines : List Char -> List (List Char)
  | [] => []
  | '\r' :: '\n' :: rest => [] :: splitlines rest
  | c :: rest =>
    if isLineBreak c then [] :: splitlines rest
    else
      match splitlines rest with
      | [] => [[c]]
      | line :: lines => (c :: line) :: lines

def casefold (t : List Char) : List Char := t.map Char.toLower

def atLine (label : String) (number : Nat) : String := label ++ " line " ++ toString number

section

variable (label : String) (number : Nat)

def beforeComment (quote : Option Char) : List Char -> Refusing (List Char)
  | [] => do
    require (quote = none) (atLine label number ++ " has an unterminated quoted value")
    pure []
  | c :: rest =>
    if isQuote c then do
      let quote := if quote = none then some c else if quote = some c then none else quote
      let output <- beforeComment quote rest
      pure (c :: output)
    else if c = ';' ∧ quote = none then pure []
    else do
      require (32 <= c.toNat ∨ c = '\t') (atLine label number ++ " contains a control character")
      let output <- beforeComment quote rest
      pure (c :: output)

variable (line : List Char) (t : List Char)

def stripDefComment : Refusing (List Char) := do
  let output <- beforeComment label number none line
  pure (strip isSpace output)

def isSymbolChar (c : Char) : Bool :=
  c.isAlphanum || c = '_' || c = '?' || c = '$' || c = '@' || c = '.'

def IsExportSymbol : Prop := t ≠ [] ∧ ∀ c ∈ t, isSymbolChar c = true

instance : Decidable (IsExportSymbol t) := inferInstanceAs (Decidable (_ ∧ _))

def IsExportOrdinal : Prop :=
  t.head? = some '@' ∧ t.tail ≠ [] ∧ ∀ c ∈ t.tail, c.isDigit = true

instance : Decidable (IsExportOrdinal t) := inferInstanceAs (Decidable (_ ∧ _ ∧ _))

/-- The parts around the first equals sign. -/
def exportNames (declaration : List Char) : List (List Char) :=
  let outer := declaration.takeWhile (· ≠ '=')
  match declaration.dropWhile (· ≠ '=') with
  | [] => [outer]
  | _ :: inner => [outer, inner]

def exportSymbol (declaration : List Char) : List Char :=
  (exportNames declaration).getLast?.getD []

def exportFlags : List (List Char) := ["data".toList, "noname".toList, "private".toList]

def checkAttributes : Bool -> List (List Char) -> List (List Char) -> Refusing Unit
  | _, _, [] => .ok ()
  | sawOrdinal, sawFlags, item :: rest =>
    if IsExportOrdinal item then do
      require (sawOrdinal = false) (atLine label number ++ " repeats an export ordinal")
      checkAttributes true sawFlags rest
    else do
      let folded := casefold item
      require (folded ∈ exportFlags ∧ folded ∉ sawFlags)
        (atLine label number ++ " has an unsupported export attribute")
      checkAttributes sawOrdinal (folded :: sawFlags) rest

def defExport : Refusing (List Char) :=
  match words isSpace line with
  | [] => .error (atLine label number ++ " has an empty export")
  | declaration :: attributes => do
    require (∀ name ∈ exportNames declaration, IsExportSymbol name)
      (atLine label number ++ " has a malformed export declaration")
    checkAttributes label number false [] attributes
    pure (exportSymbol declaration)

/-! ## Statements -/

structure DefState where
  moduleName : Option (List Char)
  description : Option (List Char)
  exported : List (List Char)
  inExports : Bool
  deriving DecidableEq

/-- `base=` and a hexadecimal number. -/
def IsBase : Prop :=
  let folded := casefold t
  let digits := folded.drop 5
  folded.take 5 = "base=".toList ∧ ((digits ≠ [] ∧ ∀ c ∈ digits, c.isDigit ∨ ('a' <= c ∧
    c <= 'f')) ∨
      (digits.take 2 = "0x".toList ∧ digits.drop 2 ≠ [] ∧
        ∀ c ∈ digits.drop 2, c.isDigit ∨ ('a' <= c ∧ c <= 'f')))

instance : Decidable (IsBase t) := by
  unfold IsBase
  infer_instance

/-- The module name of a `LIBRARY` or `NAME` line. -/
def libraryName : Option (Option (List Char)) :=
  match words isSpace line with
  | [_] => some none
  | [_, name] => some (some name)
  | [_, name, base] => if IsBase base then some (some name) else none
  | _ => none

def quotedValue (value : List Char) : Option (List Char) :=
  match value.head?, value.getLast? with
  | some first, some last =>
    if 2 <= value.length ∧ isQuote first ∧ last = first then some value.tail.dropLast else none
  | _, _ => none

def unsupportedSections : List (List Char) :=
  ["code", "data", "heapsize", "imports", "sections", "stacksize", "version"].map (·.toList)

def moduleNames : List (List Char) := ["library".toList, "name".toList]

def readStatement (s : DefState) : Refusing DefState :=
  let keyword := line.takeWhile (· ≠ ' ')
  let tail := (line.dropWhile (· ≠ ' ')).drop 1
  let folded := casefold keyword
  if folded = "stub".toList then .error (atLine label number ++ " declares forbidden STUB input")
  else if folded ∈ moduleNames then
    match libraryName line, s.moduleName with
    | some name, none => .ok { s with moduleName := name, inExports := false }
    | _, _ => .error (atLine label number ++ " has a malformed/repeated module name")
  else if folded = "description".toList then
    match quotedValue (strip isSpace tail), s.description with
    | some value, none => .ok { s with description := some value, inExports := false }
    | _, _ => .error (atLine label number ++ " has a malformed/repeated DESCRIPTION")
  else if folded = "exports".toList then
    if strip isSpace tail = [] then .ok { s with inExports := true }
    else do
      let symbol <- defExport label number (strip isSpace tail)
      pure { s with exported := s.exported ++ [symbol], inExports := true }
  else if folded ∈ unsupportedSections then
    .error (atLine label number ++ " uses unsupported DEF section " ++
      reprText (String.ofList keyword))
  else if s.inExports = false then
    .error (atLine label number ++ " is outside the closed DEF grammar")
  else do
    let symbol <- defExport label number line
    pure { s with exported := s.exported ++ [symbol] }

def readLine (raw : List Char) (s : DefState) : Refusing DefState := do
  let line <- stripDefComment label number raw
  if line = [] then pure s else readStatement label number line s

end

def readLines (label : String) : Nat -> List (List Char) -> DefState -> Refusing DefState
  | _, [], s => .ok s
  | number, raw :: lines, s => do
    let s <- readLine label number raw s
    readLines label (number + 1) lines s

structure ModuleDefinitionReceipt where
  label : String
  digest : String
  size : Nat
  moduleName : Option (List Char)
  description : Option (List Char)
  exported : List (List Char)
  deriving DecidableEq

def asciiChars (payload : List Byte) : List Char := payload.map fun b => Char.ofNat b.toNat

def parseClassicModuleDefinition (sha256 : List Byte -> String) (payload : List Byte)
    (label : String) : Refusing ModuleDefinitionReceipt := do
  require (payload ≠ []) (label ++ " is not immutable DEF bytes")
  require (label ≠ "" ∧ '\x00' ∉ label.toList) "module-definition label is malformed"
  require (∀ b ∈ payload, b.toNat < 128) (label ++ " is not ASCII")
  require (0#8 ∉ payload) (label ++ " contains a NUL byte")
  let s <- readLines label 1 (splitlines (asciiChars payload)) ⟨none, none, [], false⟩
  require ((s.exported.map casefold).dedup.length = s.exported.length)
    (label ++ " repeats an export symbol")
  pure ⟨label, sha256 payload, payload.length, s.moduleName, s.description, s.exported⟩

end Reprobit.Linkage.DefFile

import Reprobit.Machine.Munch
import Reprobit.Machine.State

/-!
# The preprocessor census

The lexer of the source overlays and the two censuses built on it: the names a
text defines or undefines, and the operands of its include lines.  A text is
decoded as Latin-1, one character per byte.
-/

namespace Reprobit.Census

open Machine

def latin1 (b : Byte) : Char := Char.ofNat b.toNat

variable (t : List Char) (c : Char) (payload : List Byte)

def decodeLatin1 : List Char := payload.map latin1

/-- `\s`: the white space of Latin-1. -/
def isSpace : Bool :=
  (9 <= c.toNat && c.toNat <= 13) || (28 <= c.toNat && c.toNat <= 32) || c.toNat = 0x85 ||
    c.toNat = 0xA0

def isAsciiLetter : Bool :=
  (65 <= c.toNat && c.toNat <= 90) || (97 <= c.toNat && c.toNat <= 122)

/-- `\d` -/
def isDecimal : Bool := 48 <= c.toNat && c.toNat <= 57

/-- `[A-Za-z_]` -/
def isNameStart : Bool := isAsciiLetter c || c = '_'

/-- `[A-Za-z0-9_]` -/
def isNameChar : Bool := isNameStart c || isDecimal c

/-- `\w`: the name characters and the letters and numbers of the upper half. -/
def isWord : Bool :=
  isNameChar c || [0xAA, 0xB2, 0xB3, 0xB5, 0xB9, 0xBA, 0xBC, 0xBD, 0xBE].contains c.toNat ||
    (0xC0 <= c.toNat && c.toNat <= 0xFF && c.toNat ≠ 0xD7 && c.toNat ≠ 0xF7)

def isHexDigit : Bool :=
  isDecimal c || (65 <= c.toNat && c.toNat <= 70) || (97 <= c.toNat && c.toNat <= 102)

/-! ## The lexer -/

/-- The number of leading characters with a property. -/
def spanLength (p : Char -> Bool) (t : List Char) : Nat := (t.takeWhile p).length

/-- `//[^\n]*` -/
def lineComment : List Char -> Option Nat
  | '/' :: '/' :: rest => some (2 + spanLength (· ≠ '\n') rest)
  | _ => none

/-- The length through the first `*/`. -/
def blockEnd : List Char -> Option Nat
  | [] => none
  | c :: rest =>
    if c = '*' ∧ rest.head? = some '/' then some 2 else (blockEnd rest).map (· + 1)

/-- `/\*.*?\*/` -/
def blockComment : List Char -> Option Nat
  | '/' :: '*' :: rest => (blockEnd rest).map (· + 2)
  | _ => none

/-- The length through the first quote that no backslash escapes. -/
def quoteEnd (quote : Char) : List Char -> Option Nat
  | [] => none
  | '\\' :: [] => none
  | '\\' :: _ :: rest => (quoteEnd quote rest).map (· + 2)
  | c :: rest => if c = quote then some 1 else (quoteEnd quote rest).map (· + 1)

/-- A quote up to its partner, across lines. -/
def literal (quote : Char) : List Char -> Option Nat
  | [] => none
  | c :: rest => if c = quote then (quoteEnd quote rest).map (· + 1) else none

/-- `[A-Za-z_]\w*` -/
def word : List Char -> Option Nat
  | [] => none
  | c :: rest => if isNameStart c then some (1 + spanLength isWord rest) else none

/-- `0[xX][0-9A-Fa-f]+` -/
def hexNumber : List Char -> Option Nat
  | '0' :: x :: rest =>
    if (x = 'x' ∨ x = 'X') ∧ 0 < spanLength isHexDigit rest then
      some (2 + spanLength isHexDigit rest)
    else none
  | _ => none

/-- `(?:\.\d*)?` -/
def fraction : List Char -> Nat
  | '.' :: rest => 1 + spanLength isDecimal rest
  | _ => 0

/-- `[+-]?` -/
def sign : List Char -> Nat
  | c :: _ => if c = '+' ∨ c = '-' then 1 else 0
  | [] => 0

/-- `(?:[eE][+-]?\d+)?` -/
def exponent : List Char -> Nat
  | c :: rest =>
    if (c = 'e' ∨ c = 'E') ∧ 0 < spanLength isDecimal (rest.drop (sign rest)) then
      1 + sign rest + spanLength isDecimal (rest.drop (sign rest))
    else 0
  | [] => 0

/-- `\d+(?:\.\d*)?(?:[eE][+-]?\d+)?[A-Za-z]*` -/
def number : Option Nat :=
  let digits := spanLength isDecimal t
  if digits = 0 then none
  else
    let behindDigits := digits + fraction (t.drop digits)
    let behindExponent := behindDigits + exponent (t.drop behindDigits)
    some (behindExponent + spanLength isAsciiLetter (t.drop behindExponent))

def operators : List (List Char) :=
  [[':', ':'], ['-', '>', '*'], ['-', '>'], ['.', '*'], ['<', '<', '='], ['>', '>', '='],
    ['=', '='], ['!', '='], ['<', '='], ['>', '='], ['+', '+'], ['-', '-'], ['&', '&'],
    ['|', '|'], ['<', '<'], ['>', '>'], ['+', '='], ['-', '='], ['*', '='], ['/', '='],
    ['%', '='], ['&', '='], ['|', '='], ['^', '='], ['#', '#'], ['.', '.', '.']]

def operator : Option Nat :=
  (operators.find? fun op => op.isPrefixOf t).map List.length

/-- `[^\s]` -/
def single : List Char -> Option Nat
  | [] => none
  | c :: _ => if isSpace c then none else some 1

/-- The length of the match of `SOURCE_OVERLAY_TOKEN_RE`, or zero. -/
def munch : Nat :=
  ((lineComment t).or <| (blockComment t).or <| (literal '"' t).or <| (literal '\'' t).or <|
    (word t).or <| (hexNumber t).or <| (number t).or <| (operator t).or <| single t).getD 0

abbrev Token := Lexeme Char

def significant (token : Token) : Bool :=
  token.text.take 2 ≠ ['/', '/'] && token.text.take 2 ≠ ['/', '*']

/-- The significant tokens of a text whose first character is at `pos`. -/
def tokensFrom (pos : Nat) (t : List Char) : List Token := (lexFrom munch pos t).filter significant

def iterSourceOverlayTokens (text : List Char) : List Token := tokensFrom 0 text

/-- `bytes.replace`; first the number of characters to be dropped. -/
def replaceAll (pattern replacement : List Char) : Nat -> List Char -> List Char
  | _, [] => []
  | skip + 1, _ :: rest => replaceAll pattern replacement skip rest
  | 0, c :: rest =>
    if pattern.isPrefixOf (c :: rest) then
      replacement ++ replaceAll pattern replacement (pattern.length - 1) rest
    else c :: replaceAll pattern replacement 0 rest

/-- Escaped physical newlines go. -/
def spliceLines : List Char -> List Char
  | [] => []
  | '\\' :: '\r' :: '\n' :: rest => spliceLines rest
  | '\\' :: '\n' :: rest => spliceLines rest
  | '\\' :: '\r' :: rest => spliceLines rest
  | c :: rest => c :: spliceLines rest

def translationPhasePreprocessorPayload (text : List Char) : List Char :=
  let normalized := replaceAll "??/".toList ['\\'] 0 (replaceAll "??=".toList ['#'] 0 text)
  let normalized := spliceLines normalized
  let normalized := replaceAll ['\r'] ['\n'] 0 (replaceAll ['\r', '\n'] ['\n'] 0 normalized)
  replaceAll "%:".toList ['#'] 0 normalized

inductive Directive where
  | define | undef
  deriving DecidableEq, Repr

def Directive.text : Directive -> List Char
  | .define => "define".toList
  | .undef => "undef".toList

def directiveOf (text : List Char) : Option Directive :=
  if text = Directive.define.text then some .define
  else if text = Directive.undef.text then some .undef
  else none

def wordAt (w t : List Char) : Bool := w.isPrefixOf t &&
    ((t.drop w.length).head?.all (!isNameChar ·))

/-- `_PREPROCESSOR_DIRECTIVE_CANDIDATE`: the argument is the character before. -/
def directiveCandidate : Option Char -> List Char -> Bool
  | _, [] => false
  | previous, c :: rest =>
    (previous.all (!isNameChar ·) &&
      (wordAt Directive.define.text (c :: rest) || wordAt Directive.undef.text (c :: rest))) ||
      directiveCandidate (some c) rest

/-- `[A-Za-z_][A-Za-z0-9_]*` -/
def isName : List Char -> Bool
  | [] => false
  | c :: rest => isNameStart c && rest.all isNameChar

def mutationStep (previous : Option Token) (pending : Option (Nat × Directive)) (token : Token) :
    Option (Nat × Directive × List Char) × Option (Nat × Directive) :=
  match previous.filter (·.text = ['#']), directiveOf token.text with
  | some hash, some directive => (none, some (hash.start, directive))
  | _, _ =>
    match pending with
    | some (o, directive) =>
      (if isName token.text then some (o, directive, token.text) else none, none)
    | none => (none, none)

/-- The window `# (define|undef) NAME` over the tokens. -/
def mutationScan : Option Token -> Option (Nat × Directive) -> List Token ->
    List (Nat × Directive × List Char)
  | _, _, [] => []
  | previous, pending, token :: tokens =>
    (mutationStep previous pending token).1.toList ++
      mutationScan (some token) (mutationStep previous pending token).2 tokens

/-- The mutations, each with the offset of its `#` when normalised. -/
def mutationsAt : List (Nat × Directive × List Char) :=
  let normalized := translationPhasePreprocessorPayload (decodeLatin1 payload)
  if '#' ∈ normalized ∧ directiveCandidate none normalized = true then
    mutationScan none none (iterSourceOverlayTokens normalized)
  else []

def payloadPreprocessorMutations (payloads : List (List Byte)) : List (Directive × List Char) :=
  (payloads.flatMap mutationsAt).map Prod.snd

/-- The offset behind the last newline before an offset. -/
def lineStart (text : List Char) (start : Nat) : Nat :=
  start - spanLength (· ≠ '\n') (text.take start).reverse

def lineEnd (text : List Char) (start : Nat) : Nat :=
  start + spanLength (· ≠ '\n') (text.drop start)

/-- The tokens up to a `>` that begins before the end of the line. -/
def anglePieces (stop : Nat) : List Token -> Option (List Token)
  | [] => none
  | token :: tokens =>
    if stop <= token.start then none
    else if token.text = ['>'] then some []
    else (anglePieces stop tokens).map (token :: ·)

/-- The operand behind `# include`; `none` is a dynamic include. -/
def readOperand (text : List Char) (operand : Token) (after : List Token) : Option (List Char) :=
  if lineEnd text operand.start <= operand.start then none
  else if 2 <= operand.text.length ∧ operand.text.head? = some '"' ∧
    operand.text.getLast? = some '"' then
    some operand.text.tail.dropLast
  else if operand.text = ['<'] then
    match anglePieces (lineEnd text operand.start) after with
    | some (piece :: pieces) => some ((piece :: pieces).flatMap Lexeme.text)
    | _ => none
  else none

/-- The include lines, each at its `#`; first the previous line. -/
def includeScan (text : List Char) : Option Nat -> List Token -> List (Nat × Option (List Char))
  | _, [] => []
  | previousLineStart, token :: tokens =>
    let rest := includeScan text (some (lineStart text token.start)) tokens
    if token.text = ['#'] ∧ previousLineStart ≠ some (lineStart text token.start) then
      match tokens with
      | keyword :: operand :: after =>
        if keyword.text = "include".toList then
          (token.start, readOperand text operand after) :: rest
        else rest
      | _ => rest
    else rest

/-- The spellings of `#` the prefilter looks for. -/
def hasMarker (text : List Char) : Prop :=
  ['#'] <:+: text ∨ "??=".toList <:+: text ∨ "%:".toList <:+: text

instance (text : List Char) : Decidable (hasMarker text) :=
  inferInstanceAs (Decidable (_ ∨ _ ∨ _))

/-- The include operands, each with the offset of its `#`. -/
def includesAt : List (Nat × Option (List Char)) :=
  let text := decodeLatin1 payload
  let normalized := translationPhasePreprocessorPayload text
  if hasMarker text ∧ "include".toList <:+: normalized then
    includeScan normalized none (iterSourceOverlayTokens normalized)
  else []

def preprocessorIncludeOperands : List (Option (List Char)) :=
  (includesAt payload).map Prod.snd

end Reprobit.Census

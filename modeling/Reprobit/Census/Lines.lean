import Reprobit.Census.Source

/-!
# Logical lines

What a preprocessor takes for a directive: the logical lines of the normalised
text, with every comment as a blank and a quote that is not closed on its line as
an ordinary character.
-/

namespace Reprobit.Census

open Machine

/-- White space within a line. -/
def isBlank (c : Char) : Bool := isSpace c && c ≠ '\n'

inductive Piece where
  | comment (length : Nat)
  | literal (length : Nat)
  | char
  deriving DecidableEq, Repr

def closedLiteral : List Char -> Option Nat
  | [] => none
  | c :: rest =>
    if c = '"' ∨ c = '\'' then
      (quoteEnd c rest).bind fun n => if '\n' ∈ rest.take n then none else some (n + 1)
    else none

def pieceAt (t : List Char) : Piece :=
  match (lineComment t).or (blockComment t) with
  | some n => .comment n
  | none =>
    match closedLiteral t with
    | some n => .literal n
    | none => .char

def Piece.length : Piece -> Nat
  | .comment n => n
  | .literal n => n
  | .char => 1

/-- The offset begins a logical line, but for blanks and comments. -/
inductive LineHead (text : List Char) : Nat -> Prop where
  | start : LineHead text 0
  | newline {p : Nat} : Stands (fun t => (pieceAt t).length) text p ->
      (text.drop p).head? = some '\n' -> LineHead text (p + 1)
  | blank {p : Nat} {c : Char} : LineHead text p -> (text.drop p).head? = some c ->
      isBlank c = true -> LineHead text (p + 1)
  | comment {p n : Nat} : LineHead text p -> pieceAt (text.drop p) = .comment n ->
      LineHead text (p + n)

/-- Blanks and comments between the words of a directive. -/
inductive IsGap : List Char -> Prop where
  | nil : IsGap []
  | blank {c : Char} {gap : List Char} : isBlank c = true -> IsGap gap -> IsGap (c :: gap)
  | comment {body gap : List Char} : blockEnd body = some body.length -> IsGap gap ->
      IsGap ('/' :: '*' :: (body ++ gap))

/-- The text does not go on with a name character. -/
def NameEnds (t : List Char) : Prop := ∀ c ∈ t.head?, isNameChar c = false

/-- `# define NAME` or `# undef NAME`; `tail` is behind the name. -/
structure MutationLine (text : List Char) (o : Nat) (directive : Directive)
    (name tail : List Char) : Prop where
  head : LineHead text o
  form : ∃ gap gap', IsGap gap ∧ IsGap gap' ∧ gap' ≠ [] ∧
    text.drop o = '#' :: (gap ++ (directive.text ++ (gap' ++ (name ++ tail))))
  isName : isName name = true
  ends : NameEnds tail

/-- A logical line that begins with `# include`; `tail` is what follows. -/
structure IncludeLine (text : List Char) (o : Nat) (tail : List Char) : Prop where
  head : LineHead text o
  form : ∃ gap, IsGap gap ∧ text.drop o = '#' :: (gap ++ ("include".toList ++ tail))
  ends : NameEnds tail

def lineText : Nat -> List Char -> List Char
  | 0, _ => []
  | _ + 1, [] => []
  | fuel + 1, c :: rest =>
    if c = '\n' then []
    else
      match pieceAt (c :: rest) with
      | .comment n => ' ' :: lineText fuel ((c :: rest).drop n)
      | .literal n => (c :: rest).take n ++ lineText fuel ((c :: rest).drop n)
      | .char => c :: lineText fuel rest

/-- The header named behind a `<`. -/
def angleName (line : List Char) : Option (List Char) :=
  if '>' ∈ line then some (line.takeWhile (· ≠ '>')) else none

/-- A literal, or what stands between `<` and `>`. -/
def operandFrom : Nat -> List Char -> Option (List Char)
  | 0, _ => none
  | _ + 1, [] => none
  | fuel + 1, c :: rest =>
    if c = '\n' then none
    else
      match pieceAt (c :: rest) with
      | .comment n => operandFrom fuel ((c :: rest).drop n)
      | .literal n => if c = '"' then some ((c :: rest).take n).tail.dropLast else none
      | .char =>
        if isBlank c then operandFrom fuel rest
        else if c = '<' then angleName (lineText rest.length rest) else none

def lineOperand (tail : List Char) : Option (List Char) := operandFrom tail.length tail

def normalisedText (payload : List Byte) : List Char :=
  translationPhasePreprocessorPayload (decodeLatin1 payload)

/-- Every directive line contributes its name, its operand or nothing. -/
structure CensusComplete (payload : List Byte) : Prop where
  mutations : ∀ o directive name tail,
    MutationLine (normalisedText payload) o directive name tail ->
      (o, directive, name) ∈ mutationsAt payload
  includes : ∀ o tail, IncludeLine (normalisedText payload) o tail ->
    ∃ operand, (o, operand) ∈ includesAt payload ∧ (operand = none ∨ operand = lineOperand tail)

/-- The text does not go on with a word character of the lexer. -/
def WordEnds (t : List Char) : Prop := ∀ c ∈ t.head?, isWord c = false

/-- Every token begins where the one before ends. -/
def Unbroken : Nat -> List Token -> Prop
  | _, [] => True
  | p, token :: tokens => token.start = p ∧ Unbroken (p + token.text.length) tokens

/-- A string literal, or `<`, some pieces and `>`, on one line. -/
def SpellsOperand (text : List Char) (token : Token) (after : List Token) : Prop :=
  token.start < lineEnd text token.start ∧
    ((2 <= token.text.length ∧ token.text.head? = some '"' ∧ token.text.getLast? = some '"') ∨
      (token.text = ['<'] ∧ ∃ pieces close rest, after = pieces ++ close :: rest ∧ pieces ≠ [] ∧
        close.text = ['>'] ∧ close.start < lineEnd text token.start ∧
        ∀ piece ∈ pieces, piece.text ≠ ['>'] ∧ piece.start < lineEnd text token.start))

/-- A literal is closed, a `<…>` unbroken up to its first `>`. -/
structure OperandInLine (text tail : List Char) (token : Token) (after : List Token) : Prop where
  onLine : ∃ gap, IsGap gap ∧ tail = gap ++ text.drop token.start
  closed : '\n' ∉ token.text
  unbroken : token.text = ['<'] -> ∀ pieces close rest, after = pieces ++ close :: rest ->
    close.text = ['>'] -> (∀ piece ∈ pieces, piece.text ≠ ['>']) ->
      Unbroken (token.start + 1) (pieces ++ [close]) ∧ ∀ piece ∈ pieces, '>' ∉ piece.text

/-- What the include census needs of an include line. -/
structure IncludeSeen (payload : List Byte) (o : Nat) (tail : List Char) : Prop where
  /-- the prefilter sees a spelling of `#` -/
  marker : hasMarker (decodeLatin1 payload)
  /-- no literal or comment of the lexer runs over the `#` -/
  stands : Stands munch (normalisedText payload) o
  /-- `include` is not followed by a word character of the upper half -/
  ends : WordEnds tail
  /-- the token before the `#` begins on an earlier line -/
  first : ∀ before, iterSourceOverlayTokens (normalisedText payload) =
      before ++ tokensFrom o ((normalisedText payload).drop o) ->
    (before.getLast?.map fun t => lineStart (normalisedText payload) t.start) ≠
      some (lineStart (normalisedText payload) o)
  /-- a token follows, and an operand that is spelled belongs to the line -/
  operand : ∃ token after,
    tokensFrom ((normalisedText payload).length - tail.length) tail = token :: after ∧
      (SpellsOperand (normalisedText payload) token after ->
        OperandInLine (normalisedText payload) tail token after)

structure CensusCondition (payload : List Byte) : Prop where
  mutations : ∀ o directive name tail,
    MutationLine (normalisedText payload) o directive name tail ->
      Stands munch (normalisedText payload) o ∧ WordEnds tail
  includes : ∀ o tail, IncludeLine (normalisedText payload) o tail -> IncludeSeen payload o tail

end Reprobit.Census

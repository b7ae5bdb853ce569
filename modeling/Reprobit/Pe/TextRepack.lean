import Reprobit.Pe.Headers

/-!
# Repacking `.text`

Declared pieces of the text section move down by small shifts.  Branches, absolute
references and base relocations are derived from the candidate, compared with the
declaration, and rewritten at their new places.
-/

namespace Reprobit.Pe

open Machine

def sectionName (s : Pe32Section) : List Byte := s.rawName.takeWhile (· ≠ 0#8)

structure Image where
  headers : Pe32Headers
  imageBase : Nat
  deriving DecidableEq

/-- The geometry the repacker works with. -/
def pe32 (data : List Byte) : Refusing Image := do
  let headers <- parsePe32Headers data 32
  let imageBase <- headers.imageBase
  requireEach headers.sections
    (fun s => sectionName s ≠ [] ∧ ∀ b ∈ sectionName s, 32 <= b.toNat ∧ b.toNat < 127)
    fun _ => "invalid PE section name"
  pure ⟨headers, imageBase⟩

namespace Image

def sectionNamed (image : Image) (name : String) : Refusing Pe32Section :=
  match image.headers.sections.filter fun s =>
      (sectionName s).map (fun b => Char.ofNat b.toNat) = name.toList with
  | [s] => .ok s
  | _ => .error ("PE must contain exactly one " ++ name ++ " section")

def rangeContext (va : Int) (size : Nat) : String :=
  "virtual range 0x" ++ hex08 va ++ "+" ++ toString size

def vaToOffset (image : Image) (va : Int) (size : Nat) : Refusing Nat :=
  image.headers.rvaToOffset (va - image.imageBase) size (rangeContext va size)

end Image

/-! ## Declarations -/

/-- A range of addresses that moves down. -/
structure Piece where
  low : Nat
  high : Nat
  shift : Nat
  deriving DecidableEq

namespace Piece

variable (p : Piece)

def Contains (va : Int) : Prop := p.low <= va ∧ va < p.high

instance (va : Int) : Decidable (p.Contains va) :=
  inferInstanceAs (Decidable (_ ∧ _))

def size : Nat := p.high - p.low

/-- The first address of the destination. -/
def target : Int := (p.low : Int) - p.shift

/-- The first address behind the destination. -/
def targetEnd : Int := (p.high : Int) - p.shift

end Piece

/-- A run of equal bytes. -/
structure FillDeclaration where
  va : Nat
  length : Nat
  fill : Byte
  deriving DecidableEq

structure Rel32Fixup where
  siteVa : Nat
  immOffset : Nat
  old : Int
  new : Int
  deriving DecidableEq

structure AbsoluteFixup where
  siteVa : Nat
  old : Nat
  new : Int
  deriving DecidableEq

structure EntryMove where
  entryFileOffset : Nat
  oldRva : Nat
  newRva : Int
  deriving DecidableEq

/-- A declaration, its addresses read from their hexadecimal texts. -/
structure RepackDeclaration where
  schema : String
  rationale : String
  pieces : List Piece
  expectedPads : List FillDeclaration
  vacatedFill : FillDeclaration
  expectedRel32Fixups : List Rel32Fixup
  expectedAbsoluteFixups : List AbsoluteFixup
  expectedRelocEntryMoves : List EntryMove
  oldTextVirtualSize : Nat
  newTextVirtualSize : Nat
  deriving DecidableEq

/-- An address text has at most eight digits. -/
def hexInt (value : Int) (context : String) : Refusing Unit :=
  require (0 <= value ∧ value < 2 ^ 32) (context ++ " must be a lowercase hexadecimal address")

/-- Not empty, with disjoint sources and disjoint destinations. -/
structure Pieces where
  list : List Piece
  nonempty : ∀ p ∈ list, p.low < p.high
  sources : Stacked (list.map fun p => (p.low, p.high))
  destinations : Stacked (list.map fun p => (p.target, p.targetEnd))

def validatePiece (index : Nat) (piece : Piece) : Refusing Unit := do
  let context := "text-repack piece " ++ toString index
  hexInt piece.low (context ++ ".src_lo")
  hexInt piece.high (context ++ ".src_hi")
  require (1 <= piece.shift) (context ++ ".shift is below its minimum")
  require (piece.shift <= 63) (context ++ ".shift exceeds its maximum")
  require (piece.low < piece.high) (context ++ " is empty")

def validatedPieces (pieces : List Piece) : Refusing Pieces :=
  if hsources : (∀ p ∈ pieces, p.low < p.high) ∧ Stacked (pieces.map fun p => (p.low, p.high)) then
    if hdestinations : Stacked (pieces.map fun p => (p.target, p.targetEnd)) then
      .ok ⟨pieces, hsources.1, hsources.2, hdestinations⟩
    else .error "text-repack destinations overlap"
  else .error "text-repack sources overlap"

def validatedPlan (declaration : RepackDeclaration) : Refusing Pieces := do
  require (declaration.schema = "comdat_tail_thunk_repack_v1") "unsupported text-repack schema"
  require (declaration.rationale ≠ "") "text-repack rationale is required"
  require (1 <= declaration.pieces.length ∧ declaration.pieces.length <= 4)
    "text repack needs 1..4 pieces"
  let _ <- enumerateFrom validatePiece declaration.pieces 0
  validatedPieces declaration.pieces

def pieceShift (pieces : Pieces) (va : Int) : Option Nat :=
  ((pieces.list.filter (·.Contains va)).map (·.shift)).head?

/-- Where an address is after the move. -/
def moved (pieces : Pieces) (va : Int) : Int := va - ((pieceShift pieces va).getD 0 : Nat)

def validateFill (declared : FillDeclaration) (context : String) : Refusing Unit := do
  hexInt declared.va (context ++ ".va")
  require (1 <= declared.length) (context ++ ".length is below its minimum")
  require (declared.length <= 4096) (context ++ ".length exceeds its maximum")

/-! ## Derived fixups -/

def signed32 (n : Nat) : Int := if n < 2 ^ 31 then n else (n : Int) - 2 ^ 32

def branchAt (body : List Byte) (index : Nat) : Option (Nat × Nat) :=
  let opcode := numberAt body index 1
  let second := numberAt body (index + 1) 1
  if opcode = 0xE8 ∨ opcode = 0xE9 then some (5, 1)
  else if index + 6 <= body.length ∧ opcode = 0x0F ∧ 0x80 <= second ∧
    second <= 0x8F then some (6, 2)
  else none

section

variable (pieces : Pieces)

def rel32FixupAt (body : List Byte) (textStart index : Nat) : Option Rel32Fixup :=
  match branchAt body index with
  | none => none
  | some (length, immediate) =>
    let site := textStart + index
    let displacement := signed32 (numberAt body (index + immediate) 4)
    let target := (site + length + displacement) % 2 ^ 32
    let new := moved pieces target - moved pieces site - length
    if (pieceShift pieces site ≠ none ∨ pieceShift pieces target ≠ none) ∧
        textStart <= target ∧ target < textStart + body.length ∧ new ≠ displacement then
      some ⟨site, immediate, displacement, new⟩
    else none

/-- Every byte that leaves room for a branch is tried. -/
def derivedRel32 (body : List Byte) (textStart : Nat) : List Rel32Fixup :=
  (List.range (body.length - 4)).filterMap (rel32FixupAt pieces body textStart)

end

/-- A base relocation: where its entry is, and the address it is for. -/
structure BaseEntry where
  entryAt : Nat
  rva : Nat
  deriving DecidableEq

def blockEntries (data : List Byte) (cursor page block : Nat) : List BaseEntry :=
  (List.range ((block - 8) / 2)).filterMap fun ordinal =>
    let entryAt := cursor + 8 + ordinal * 2
    let entry := numberAt data entryAt 2
    if entry / 2 ^ 12 = 3 then some ⟨entryAt, page + entry % 2 ^ 12⟩ else none

def baseEntries (data : List Byte) (relocEnd : Nat) : Nat -> Nat -> Refusing (List BaseEntry)
  | 0, _ => .ok []
  | fuel + 1, cursor =>
    if relocEnd <= cursor then .ok []
    else do
      require (cursor + 8 <= relocEnd) "truncated base-relocation block"
      let page := numberAt data cursor 4
      let block := numberAt data (cursor + 4) 4
      if block = 0 then pure []
      else do
        require (8 <= block ∧ block % 2 = 0 ∧ cursor + block <= relocEnd)
          "invalid base-relocation block"
        let rest <- baseEntries data relocEnd fuel (cursor + block)
        pure (blockEntries data cursor page block ++ rest)

def relocEnd (reloc : Pe32Section) : Nat := reloc.rawOffset + min reloc.virtualSize reloc.rawSize

def relocationEntries (data : List Byte) (reloc : Pe32Section) : Refusing (List BaseEntry) :=
  baseEntries data (relocEnd reloc) (relocEnd reloc) reloc.rawOffset

/-- What the checks of a candidate derive. -/
structure Derived where
  image : Image
  text : Pe32Section
  reloc : Pe32Section
  pieces : Pieces
  rel32 : List Rel32Fixup
  entries : List BaseEntry
  absolute : List AbsoluteFixup
  moves : List EntryMove

section

variable (candidate : List Byte) (image : Image) (pieces : Pieces)

def entryFixups (entry : BaseEntry) : Refusing (Option AbsoluteFixup × Option EntryMove) := do
  let site := image.imageBase + entry.rva
  let at_ <- image.vaToOffset site 4
  let value := numberAt candidate at_ 4
  let absolute := (pieceShift pieces value).map fun _ =>
    (⟨site, value, moved pieces value⟩ : AbsoluteFixup)
  let newRva := moved pieces site - image.imageBase
  require (pieceShift pieces site ≠ none -> (entry.rva : Int) / 2 ^ 12 = newRva / 2 ^ 12)
    "moved relocation crosses its PE base-relocation page"
  let move := (pieceShift pieces site).map fun _ =>
    (⟨entry.entryAt, entry.rva, newRva⟩ : EntryMove)
  pure (absolute, move)

def validatePad (index : Nat) (pad : FillDeclaration) : Refusing Unit := do
  validateFill pad ("text-repack expected_pads[" ++ toString index ++ "]")
  let at_ <- image.vaToOffset pad.va pad.length
  require (slice candidate at_ pad.length = List.replicate pad.length pad.fill)
    ("text-repack pad " ++ toString index ++ " differs")

def InText (text : Pe32Section) (p : Piece) : Prop :=
  let textStart := image.imageBase + text.virtualAddress
  let textEnd := textStart + text.rawSize
  (textStart <= p.low ∧ p.low < p.high ∧ p.high <= textEnd) ∧
    (textStart : Int) <= p.target ∧ p.target < p.targetEnd ∧ p.targetEnd <= textEnd

instance (text : Pe32Section) (p : Piece) : Decidable (InText image text p) :=
  inferInstanceAs (Decidable (_ ∧ _))

end

def derive (candidate : List Byte) (declaration : RepackDeclaration) : Refusing Derived := do
  let pieces <- validatedPlan declaration
  let image <- pe32 candidate
  let text <- image.sectionNamed ".text"
  let reloc <- image.sectionNamed ".reloc"
  let textStart := image.imageBase + text.virtualAddress
  requireEach pieces.list (InText image text)
    fun _ => "text-repack piece leaves the file-backed .text section"
  let _ <- enumerateFrom (validatePad candidate image) declaration.expectedPads 0
  let rel32 := derivedRel32 pieces (slice candidate text.rawOffset text.rawSize) textStart
  require (rel32 = declaration.expectedRel32Fixups)
    "derived rel32 fixup set differs from its declaration"
  let entries <- relocationEntries candidate reloc
  let fixups <- runEach (entryFixups candidate image pieces) entries
  let absolute := fixups.filterMap (·.1)
  let moves := fixups.filterMap (·.2)
  require (absolute = declaration.expectedAbsoluteFixups)
    "derived absolute fixup set differs from its declaration"
  require (moves = declaration.expectedRelocEntryMoves)
    "derived relocation-entry move set differs from its declaration"
  pure ⟨image, text, reloc, pieces, rel32, entries, absolute, moves⟩

/-! ## Writing -/

section

variable (candidate : List Byte) (d : Derived)

def blockPatch (p : Piece) : Refusing Patch := do
  let source <- d.image.vaToOffset p.low p.size
  let destination <- d.image.vaToOffset p.target p.size
  pure ⟨destination, slice candidate source p.size⟩

def fillPatch (declared : FillDeclaration) : Refusing Patch := do
  validateFill declared "text-repack vacated_fill"
  let at_ <- d.image.vaToOffset declared.va declared.length
  pure ⟨at_, List.replicate declared.length declared.fill⟩

def packDisplacement (value : Int) : Refusing (List Byte) := do
  require (-2 ^ 31 <= value ∧ value < 2 ^ 31)
    "'i' format requires -2147483648 <= number <= 2147483647"
  pure (leBytes 4 (value % 2 ^ 32).toNat)

def rel32Patch (fixup : Rel32Fixup) : Refusing Patch := do
  hexInt fixup.siteVa "rel32 site"
  let at_ <- d.image.vaToOffset (moved d.pieces fixup.siteVa) (fixup.immOffset + 4)
  let bytes <- packDisplacement fixup.new
  pure ⟨at_ + fixup.immOffset, bytes⟩

def absolutePatch (fixup : AbsoluteFixup) : Refusing Patch := do
  hexInt fixup.siteVa "absolute-fixup site"
  let at_ <- d.image.vaToOffset (moved d.pieces fixup.siteVa) 4
  hexInt fixup.new "absolute-fixup value"
  pure ⟨at_, leBytes 4 fixup.new.toNat⟩

def movePatch (output : List Byte) (move : EntryMove) : Patch :=
  let entry := numberAt output move.entryFileOffset 2
  ⟨move.entryFileOffset, leBytes 2 (entry / 2 ^ 12 * 2 ^ 12 + (move.newRva % 2 ^ 12).toNat)⟩

def applyMove (output : List Byte) (move : EntryMove) : List Byte :=
  (movePatch output move).apply output

def virtualSizePatch (declaration : RepackDeclaration) : Refusing Patch := do
  hexInt declaration.oldTextVirtualSize "text_virtual_size.old"
  hexInt declaration.newTextVirtualSize "text_virtual_size.new"
  require (d.text.virtualSize = declaration.oldTextVirtualSize ∧
      0 < declaration.newTextVirtualSize ∧ declaration.newTextVirtualSize <= d.text.rawSize)
    ".text virtual size pin differs"
  pure ⟨d.text.headerOffset + 8, leBytes 4 declaration.newTextVirtualSize⟩

/-- The patches in the order of writing, entry moves apart. -/
structure RepackPatches where
  blocks : List Patch
  fill : Patch
  rel32 : List Patch
  absolute : List Patch
  virtualSize : Patch

def repackPatches (declaration : RepackDeclaration) : Refusing RepackPatches := do
  let blocks <- runEach (blockPatch candidate d) d.pieces.list
  let fill <- fillPatch d declaration.vacatedFill
  let rel32 <- runEach (rel32Patch d) d.rel32
  let absolute <- runEach (absolutePatch d) d.absolute
  let virtualSize <- virtualSizePatch d declaration
  pure ⟨blocks, fill, rel32, absolute, virtualSize⟩

variable (patches : RepackPatches)

/-- The patches written before the entry moves. -/
def RepackPatches.early : List Patch :=
  patches.blocks ++ patches.fill :: patches.rel32 ++ patches.absolute

def written : List Byte :=
  patches.virtualSize.apply (d.moves.foldl applyMove (Patch.applyAll candidate patches.early))

def allowed : List Span :=
  (patches.early.map (·.span)) ++ (d.moves.map fun move => .ofSize move.entryFileOffset 2) ++
    [patches.virtualSize.span]

/-- The offsets at which two files differ. -/
def changedOffsets (result : List Byte) : List Nat :=
  (List.range candidate.length).filter fun o => candidate[o]? ≠ result[o]?

end

def applyTextRepackCandidate (candidate : List Byte) (declaration : RepackDeclaration) :
    Refusing (List Byte) := do
  let d <- derive candidate declaration
  let patches <- repackPatches candidate d declaration
  let result := written candidate d patches
  let changed := changedOffsets candidate result
  require (changed ≠ [] ∧ ∀ o ∈ changed, ∃ span ∈ allowed d patches, o ∈ span)
    "text repack changed bytes outside its derived mutation set"
  let _ <- pe32 result
  pure result

end Reprobit.Pe

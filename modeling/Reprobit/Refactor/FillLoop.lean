import Reprobit.Refactor.FixedFill
import Reprobit.Machine.Bytes
import Mathlib.Tactic.Linarith
import Mathlib.Tactic.IntervalCases

/-!
# What a fill does

The two statements of a fill under the integers of the 32-bit compiler.  `memset` writes
the bytes of the array; the loop assigns its elements one by one and counts in the index
type.  Nothing relates the index type to the count, and a type whose greatest value is
below the count never reaches it.
-/

namespace Reprobit.Refactor

open Machine Census List Option

/-! ## Integral types -/

inductive Width where
  | byte | word | dword
  deriving DecidableEq, Repr

def Width.bytes : Width -> Nat
  | .byte => 1
  | .word => 2
  | .dword => 4

inductive IntType where
  | bool
  | int (width : Width) (signed : Bool)
  deriving DecidableEq, Repr

namespace IntType

def bytes : IntType -> Nat
  | bool => 1
  | int width _ => width.bytes

/-- The greatest value. -/
def max : IntType -> Int
  | bool => 1
  | int width true => 2 ^ (8 * width.bytes - 1) - 1
  | int width false => 2 ^ (8 * width.bytes) - 1

/-- To `bool` by comparison with zero, to the others modulo their size. -/
def convert : IntType -> Int -> Int
  | bool, v => if v = 0 then 0 else 1
  | int width true, v =>
    (v + 2 ^ (8 * width.bytes - 1)) % 2 ^ (8 * width.bytes) - 2 ^ (8 * width.bytes - 1)
  | int width false, v => v % 2 ^ (8 * width.bytes)

def encode (t : IntType) (v : Int) : List Byte := leBytes t.bytes (v % 256 ^ t.bytes).toNat

theorem convert_le_max (t : IntType) (v : Int) : t.convert v <= t.max := by
  match t with
  | bool => simp only [convert, max]; split <;> omega
  | int width true => cases width <;> simp only [convert, max, Width.bytes] <;> omega
  | int width false => cases width <;> simp only [convert, max] <;> omega

/-- Up to the greatest value an increment does not wrap. -/
theorem convert_succ (t : IntType) {v : Int} (h0 : 0 <= v) (h : v < t.max) :
    t.convert (v + 1) = v + 1 := by
  match t with
  | bool => simp only [convert, max] at *; split <;> omega
  | int width true => cases width <;> simp only [convert, max, Width.bytes] at * <;> omega
  | int width false => cases width <;> simp only [convert, max, Width.bytes] at * <;> omega

end IntType

/-- The type that specifiers name, in any order; `char` alone is signed. -/
def specifiedType (specifiers : List Text) : Option IntType :=
  let has := fun s : String => s.toList ∈ specifiers
  if specifiers = ["bool".toList] then some .bool
  else if ¬specifiers.Nodup ∨ specifiers = [] ∨ has "signed" ∧ has "unsigned" then none
  else if has "char" then
    if specifiers.all fun s =>
        s = "char".toList || s = "signed".toList || s = "unsigned".toList then
      some (.int .byte (!decide (has "unsigned")))
    else none
  else if (specifiers.all fun s => s = "short".toList || s = "long".toList || s = "int".toList ||
      s = "signed".toList || s = "unsigned".toList) ∧ ¬(has "short" ∧ has "long") then
    some (.int (if has "short" then .word else .dword) (!decide (has "unsigned")))
  else none

/-- An integer type with a width, not `bool`. -/
def isIntType : Option IntType -> Bool
  | some (.int _ _) => true
  | _ => false

variable {form : List Text}

theorem specifiedType_builtin (h : form ∈ builtinIntegralTokenForms) :
    ∃ width signed, specifiedType form = some (.int width signed) := by
  have hall : builtinIntegralTokenForms.all
    (fun form => isIntType (specifiedType form)) = true := by
    decide
  have hform := all_eq_true.mp hall form h
  unfold isIntType at hform
  split at hform
  · rename_i width signed heq
    exact ⟨width, signed, heq⟩
  · cases hform

def indexIntType (declared : Text -> Option IntType) (spelling : Text) : Option IntType :=
  match valueCppType "index" spelling with
  | .ok parsed =>
    if parsed.baseKind = .builtin then specifiedType parsed.name else declared spelling
  | .error _ => none

abbrev Memory := BitVec 32 -> Byte

def Memory.write (memory : Memory) (address : BitVec 32) (bytes : List Byte) : Memory :=
  fun a => (bytes[(a - address).toNat]?).getD (memory a)

@[simp] theorem Memory.write_nil (memory : Memory) (address : BitVec 32) :
    memory.write address [] = memory := by
  funext a
  simp [Memory.write]

theorem Memory.write_append (memory : Memory) (address : BitVec 32) (xs ys : List Byte)
    (h : xs.length + ys.length <= 2 ^ 32) :
    (memory.write address xs).write (address + BitVec.ofNat 32 xs.length) ys =
      memory.write address (xs ++ ys) := by
  funext a
  simp only [Memory.write]
  by_cases hx : (a - address).toNat < xs.length
  · -- in front of the second run, which does not reach round to here
    have hfar : ys.length <= (a - (address + BitVec.ofNat 32 xs.length)).toNat := by
      have hsub : a - (address + BitVec.ofNat 32 xs.length) =
          (a - address) - BitVec.ofNat 32 xs.length := by bv_omega
      rw [hsub, BitVec.toNat_sub, BitVec.toNat_ofNat]
      omega
    rw [getElem?_eq_none hfar, getElem?_append_left hx]
    rfl
  · have hsub : (a - (address + BitVec.ofNat 32 xs.length)).toNat =
        (a - address).toNat - xs.length := by
      have hsub : a - (address + BitVec.ofNat 32 xs.length) =
          (a - address) - BitVec.ofNat 32 xs.length := by bv_omega
      rw [hsub, BitVec.toNat_sub, BitVec.toNat_ofNat]
      omega
    rw [hsub, getElem?_append_right (by omega), getElem?_eq_none (l := xs) (by omega)]
    rfl

/-- An array in memory. -/
structure ArrayObject where
  base : BitVec 32
  element : IntType
  extent : Nat

namespace ArrayObject

def sizeof (a : ArrayObject) : Nat := a.extent * a.element.bytes

/-- `memset(a, value, sizeof(a))` -/
def memset (a : ArrayObject) (value : Int) (memory : Memory) : Memory :=
  memory.write a.base (List.replicate a.sizeof (BitVec.ofInt 8 value))

/-- `a[index] = value`: the index may be negative. -/
def assign (a : ArrayObject) (index value : Int) (memory : Memory) : Memory :=
  memory.write (a.base + BitVec.ofInt 32 (index * a.element.bytes))
    (a.element.encode (a.element.convert value))

/-- `for (T i = …; i < count; i++) a[i] = value;` -/
def fillFrom (a : ArrayObject) (indexType : IntType) (count value : Int) :
    Nat -> Int -> Memory -> Option Memory
  | 0, _, _ => none
  | fuel + 1, index, memory =>
    if index < count then
      a.fillFrom indexType count value fuel (indexType.convert (index + 1))
        (a.assign index value memory)
    else some memory

end ArrayObject

theorem IntType.encode_neg_one (width : Width) (signed : Bool) :
    (IntType.int width signed).encode ((IntType.int width signed).convert (-1)) =
      List.replicate width.bytes (BitVec.ofInt 8 (-1)) := by
  cases width <;> cases signed <;> decide

section

variable {a : ArrayObject} {t : IntType} {count : Int} {width : Width} {signed : Bool} {done : Nat}

/-- The loop goes on for ever where the count is above the type. -/
theorem ArrayObject.fillFrom_eq_none (h : t.max < count) {value : Int} (fuel : Nat)
    {index : Int} (hindex : index <= t.max) (memory : Memory) :
    a.fillFrom t count value fuel index memory = none := by
  induction fuel generalizing index memory with
  | zero => rfl
  | succ fuel ih =>
    rw [fillFrom, if_pos (by omega)]
    exact ih (t.convert_le_max _) _

theorem ArrayObject.assign_next (helement : a.element = .int width signed)
    (hfits : (done + 1) * a.element.bytes <= 2 ^ 32) (memory : Memory) :
    a.assign done (-1) (memory.write a.base
        (List.replicate (done * a.element.bytes) (BitVec.ofInt 8 (-1)))) =
      memory.write a.base
        (List.replicate ((done + 1) * a.element.bytes) (BitVec.ofInt 8 (-1))) := by
  have hbytes : a.element.encode (a.element.convert (-1)) =
      List.replicate a.element.bytes (BitVec.ofInt 8 (-1)) := by
    rw [helement]
    exact IntType.encode_neg_one width signed
  have haddress : BitVec.ofInt 32 ((done : Int) * (a.element.bytes : Int)) =
      BitVec.ofNat 32 (done * a.element.bytes) := by
    rw [<- Int.natCast_mul, BitVec.ofInt_natCast]
  have happend := memory.write_append a.base
    (List.replicate (done * a.element.bytes) (BitVec.ofInt 8 (-1)))
    (List.replicate a.element.bytes (BitVec.ofInt 8 (-1)))
    (by rw [length_replicate, length_replicate, <- Nat.succ_mul]; exact hfits)
  rw [length_replicate, replicate_append_replicate, <- Nat.succ_mul] at happend
  rw [assign, hbytes, haddress]
  exact happend

/-- The rest is filled in as many passes as are left. -/
theorem ArrayObject.fillFrom_eq_some (helement : a.element = .int width signed)
    (hfits : a.sizeof <= 2 ^ 32) (hcount : (a.extent : Int) <= t.max) (memory : Memory) (left : Nat)
    (hleft : done + left = a.extent) :
    a.fillFrom t a.extent (-1) (left + 1) done (memory.write a.base
        (List.replicate (done * a.element.bytes) (BitVec.ofInt 8 (-1)))) =
      some (a.memset (-1) memory) := by
  induction left generalizing done with
  | zero =>
    rw [fillFrom, if_neg (by omega), memset, sizeof, <- hleft, Nat.add_zero]
  | succ left ih =>
    have hnext : (done + 1) * a.element.bytes <= 2 ^ 32 :=
      le_trans (Nat.mul_le_mul_right _ (by omega)) hfits
    have hsucc : t.convert ((done : Int) + 1) = ((done + 1 : Nat) : Int) := by
      rw [t.convert_succ (by omega) (by omega)]
      rfl
    rw [fillFrom, if_pos (by omega), assign_next helement hnext, hsucc]
    exact ih (by omega)

end

inductive Statement where
  /-- `memset(array, value, sizeof(array));` -/
  | memset (array : Text) (value : Int)
  /-- `for (indexType index = 0; index < count; index++) array[index] = value;` -/
  | fill (indexType index : Text) (count : Int) (array : Text) (value : Int)

def Statement.render (indent : Text) : Statement -> Text
  | .memset array value =>
    indent ++ "memset(".toList ++ array ++ ", ".toList ++ decimal value ++
      ", sizeof(".toList ++ array ++ "));\n".toList
  | .fill indexType index count array value =>
    indent ++ "for (".toList ++ indexType ++ " ".toList ++ index ++ " = 0; ".toList ++ index ++
      " < ".toList ++ decimal count ++ "; ".toList ++ index ++ "++) ".toList ++ array ++
      "[".toList ++ index ++ "] = ".toList ++ decimal value ++ ";\n".toList

/-- What the names of a statement stand for. -/
structure Scope where
  arrays : Text -> Option ArrayObject
  types : Text -> Option IntType

def Statement.exec (scope : Scope) (fuel : Nat) : Statement -> Memory -> Option Memory
  | .memset array value, memory => do
    let a <- scope.arrays array
    some (a.memset value memory)
  | .fill indexType _ count array value, memory => do
    let a <- scope.arrays array
    let t <- indexIntType scope.types indexType
    a.fillFrom t count value fuel 0 memory

namespace FillGenerator

def seedStatement (gen : FillGenerator) : Statement := .memset gen.array gen.value

def donorStatement (gen : FillGenerator) : Statement :=
  .fill gen.indexType gen.index gen.count gen.array gen.value

variable {gen : FillGenerator} {baseline output : Text}

/-- What an accepted record holds, whatever the sources. -/
theorem fields_of_fragments (h : fillFragments gen = .ok (baseline, output)) :
    gen.value = -1 ∧ baseline = memsetText gen.declarationIndent gen.array ∧ output =
        fillLoopText gen.declarationIndent gen.indexType gen.index gen.count gen.array := by
  simp only [fillFragments, identifier, typeText, asciiString, bind_eq_ok, require_eq_ok,
    pure_eq_ok, exists_const] at h
  obtain ⟨array, ⟨-, rfl⟩, index, ⟨-, rfl⟩, type, ⟨_, ⟨-, rfl⟩, -, rfl⟩, ⟨hvalue, -⟩, indent,
    ⟨-, rfl⟩, rfl, rfl⟩ := h
  exact ⟨hvalue, rfl, rfl⟩

theorem fragments_eq_render (h : fillFragments gen = .ok (baseline, output)) :
    baseline = gen.seedStatement.render gen.declarationIndent ∧
      output = gen.donorStatement.render gen.declarationIndent := by
  obtain ⟨hvalue, rfl, rfl⟩ := fields_of_fragments h
  have hone : decimal (-1) = ['-', '1'] := by decide
  constructor
  · simp [seedStatement, Statement.render, memsetText, hvalue, hone]
  · simp [donorStatement, Statement.render, fillLoopText, hvalue, hone]

end FillGenerator

def fillScope (inputs : FillInputs) (element : IntType) (types : Text -> Option IntType)
    (base : BitVec 32) : Scope where
  arrays name :=
    if name = inputs.arrayDeclaration.array then
      some ⟨base, element, inputs.arrayDeclaration.extent.toNat⟩
    else none
  types := types

/-- The loop ends and leaves the memory that `memset` leaves. -/
def FillsLikeMemset (inputs : FillInputs) (element : IntType)
    (types : Text -> Option IntType) : Prop :=
  ∀ (base : BitVec 32) (memory : Memory), ∃ fuel result,
    inputs.gen.donorStatement.exec (fillScope inputs element types base) fuel memory = some result ∧
      inputs.gen.seedStatement.exec (fillScope inputs element types base) fuel memory = some result

theorem proveFixedFill_spec {sha256 : Text -> Text} {inputs : FillInputs}
    (h : proveFixedFill sha256 inputs = .ok form) :
    inputs.gen.value = -1 ∧ inputs.arrayDeclaration.array = inputs.gen.array ∧
      inputs.arrayDeclaration.extent = inputs.gen.count ∧
      form ∈ builtinIntegralTokenForms := by
  simp only [proveFixedFill, bind_eq_ok, require_eq_ok, pure_eq_ok] at h
  obtain ⟨⟨baseline, output⟩, hfragments, _, -, _, -, _, -, _, -, elementType, -, _,
    ⟨harray, hextent⟩, owner, -, mangled, -, _, -, _, -, header, -, form', hform, _, -, body, -,
    elementTokens, -, memberRange, -, _, -, rfl⟩ := h
  exact ⟨(FillGenerator.fields_of_fragments hfragments).1, harray, hextent,
    requireIntegralType_builtin hform⟩

theorem renderFixedArrayFill_spec {context : String} {text : Text}
    (h : renderFixedArrayFill gen context = .ok text) :
    text = gen.donorStatement.render gen.declarationIndent ∧ 1 <= gen.count ∧
      gen.count <= 4096 := by
  simp only [renderFixedArrayFill, cppIdentifier, valueCppType, cppType, boundedString,
    sourceIndentation, bind_eq_ok, require_eq_ok, pure_eq_ok, exists_const] at h
  obtain ⟨array, ⟨-, rfl⟩, index, ⟨-, rfl⟩, -, type, ⟨_, ⟨_, ⟨-, rfl⟩, -, ⟨parsed, rest⟩, -,
    ⟨-, hspelling⟩, rfl⟩, -, rfl⟩, hcount, hvalue, indent, ⟨_, ⟨-, rfl⟩, -, rfl⟩, rfl⟩ := h
  have hone : decimal (-1) = ['-', '1'] := by decide
  refine ⟨?_, hcount⟩
  simp [hspelling, FillGenerator.donorStatement, Statement.render, fillLoopText, hvalue, hone]

theorem IntType.int_bytes_le (width : Width) (signed : Bool) :
    (IntType.int width signed).bytes <= 4 := by
  cases width <;> exact Nat.le_of_ble_eq_true rfl

theorem IntType.max_nonneg (t : IntType) : 0 <= t.max := by
  match t with
  | bool => decide
  | int width signed => cases width <;> cases signed <;> decide

/-- An accepted fill that the generator renders is `memset` exactly when the index type
holds the count. -/
theorem fillsLikeMemset_iff {sha256 : Text -> Text} {inputs : FillInputs} {form : List Text}
    {context : String} {text : Text} {t : IntType} {types : Text -> Option IntType}
    (haccept : proveFixedFill sha256 inputs = .ok form)
    (hrender : renderFixedArrayFill inputs.gen context = .ok text)
    (hindex : indexIntType types inputs.gen.indexType = some t) :
    ∃ element, specifiedType form = some element ∧
      (FillsLikeMemset inputs element types ↔ inputs.gen.count <= t.max) := by
  obtain ⟨hvalue, harray, hextent, hform⟩ := proveFixedFill_spec haccept
  obtain ⟨-, hpos, hle⟩ := renderFixedArrayFill_spec hrender
  obtain ⟨width, signed, hspecified⟩ := specifiedType_builtin hform
  refine ⟨_, hspecified, fun hfills => ?_, fun hmax base memory => ?_⟩
  · by_contra hmax
    obtain ⟨fuel, result, hloop, -⟩ := hfills 0 fun _ => 0
    simp only [FillGenerator.donorStatement, Statement.exec, fillScope, harray, hindex,
      bind_eq_bind, bind_some,
      ArrayObject.fillFrom_eq_none (by omega : t.max < inputs.gen.count) fuel t.max_nonneg]
      at hloop
    cases hloop
  · let a : ArrayObject := ⟨base, .int width signed, inputs.gen.count.toNat⟩
    have hextentNat : (a.extent : Int) = inputs.gen.count := Int.toNat_of_nonneg (by omega)
    have hfits : a.sizeof <= 2 ^ 32 := by
      have hbytes : a.element.bytes <= 4 := IntType.int_bytes_le width signed
      have hsize : a.extent * a.element.bytes <= 4096 * 4 :=
        Nat.mul_le_mul (by omega) hbytes
      exact le_trans hsize (by decide)
    have hfill := a.fillFrom_eq_some (t := t) rfl hfits (by omega) memory a.extent (Nat.zero_add _)
    rw [Nat.zero_mul, replicate_zero, Memory.write_nil, hextentNat] at hfill
    refine ⟨a.extent + 1, a.memset (-1) memory, ?_, ?_⟩
    · simp only [FillGenerator.donorStatement, Statement.exec, fillScope, harray, hindex, hextent,
        hvalue]
      exact hfill
    · simp only [FillGenerator.seedStatement, Statement.exec, fillScope, harray, hextent, hvalue]
      rfl

def zeroDigest (_ : Text) : Text := List.replicate 64 '0'

def zeroPin (data : String) : RangePin where
  baselineSha256 := zeroDigest []
  baselineSize := data.length
  baselineLineCount := data.toList.count '\n'
  baselineSignificantTokenSha256 := zeroDigest []

def tableFill (indexType : String) : FillGenerator where
  array := "m_map".toList
  index := "i".toList
  indexType := indexType.toList
  count := 256
  value := -1
  declarationIndent := ['\t']

/-- The body of `Sky::Clear` around a statement. -/
def clearTarget (statement : Statement) : Text :=
  "void Sky::Clear()\n\x7b\n".toList ++ statement.render ['\t'] ++ "\x7d\n".toList

def tableInputs (indexType : String) : FillInputs where
  cleanSources :=
    [("src/sky.h".toList, "class Sky \x7b\n\tint m_map[256];\n\x7d;\n".toList),
      ("src/sky.cpp".toList, "#include \"sky.h\"\n".toList)]
  unitData := "#include \"sky.h\"\n".toList
  cleanTarget := clearTarget (tableFill indexType).seedStatement
  donorTarget := clearTarget (tableFill indexType).donorStatement
  sourceOwnerMangled := "?Clear@Sky@@QAEXXZ".toList
  arrayDeclaration :=
    { path := "src/sky.h".toList
      sourceSha256 := zeroDigest []
      owner := "Sky".toList
      array := "m_map".toList
      elementType := "int".toList
      extent := 256
      directIncludeRangePin := zeroPin "#include \"sky.h\"\n"
      declarationRangePin := zeroPin "\tint m_map[256];\n" }
  gen := tableFill indexType

/-- With an `int` index the loop over the table is `memset`. -/
theorem intFill_is_memset : ∃ element, specifiedType ["int".toList] = some element ∧
      (FillsLikeMemset (tableInputs "int") element (fun _ => none) ↔
        (256 : Int) <= (IntType.int .dword true).max) := by
  have haccept : proveFixedFill zeroDigest (tableInputs "int") = .ok ["int".toList] := by
    decide
  have hrender : renderFixedArrayFill (tableInputs "int").gen "gen" =
      .ok "\tfor (int i = 0; i < 256; i++) m_map[i] = -1;\n".toList := by decide
  have hindex : indexIntType (fun _ => none) (tableInputs "int").gen.indexType =
      some (.int .dword true) := by decide
  exact fillsLikeMemset_iff haccept hrender hindex

/-- An `unsigned char` never reaches 256: the proof accepts the loop, the generator writes
it, and it never ends. -/
theorem byteFill_not_memset :
    proveFixedFill zeroDigest (tableInputs "unsigned char") = .ok ["int".toList] ∧
      renderFixedArrayFill (tableFill "unsigned char") "gen" =
        .ok "\tfor (unsigned char i = 0; i < 256; i++) m_map[i] = -1;\n".toList ∧
      ¬FillsLikeMemset (tableInputs "unsigned char") (.int .dword true) (fun _ => none) := by
  refine ⟨by decide, by decide, fun hfills => ?_⟩
  obtain ⟨fuel, result, hloop, -⟩ := hfills 0 fun _ => 0
  have hnone : ArrayObject.fillFrom ⟨0, .int .dword true, 256⟩ (.int .byte false) 256 (-1) fuel 0
      (fun _ => 0) = none :=
    ArrayObject.fillFrom_eq_none (by decide) fuel (by decide) _
  have hexec : (tableInputs "unsigned char").gen.donorStatement.exec
      (fillScope (tableInputs "unsigned char") (.int .dword true) (fun _ => none) 0) fuel
      (fun _ => 0) = none := hnone
  rw [hexec] at hloop
  cases hloop

end Reprobit.Refactor

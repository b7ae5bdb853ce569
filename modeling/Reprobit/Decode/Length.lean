import Reprobit.Foundation
import Reprobit.Machine.Isa

/-!
# Instruction lengths

The fail-closed length decoder and its two opcode tables.  A table row is the
list of operand tokens that follow the opcode.
-/

namespace Reprobit

open Machine List Option

inductive Token
  | M | F6 | F7 | Ib | Jb | Iw | Iz | Jz | Ov | Ap
  deriving DecidableEq, Repr

open Token

def oneByteTable (opcode : Nat) : Option (List Token) :=
  if opcode < 64 ∧ opcode % 8 < 4 then some [M]
  else if opcode < 64 ∧ opcode % 8 = 4 then some [Ib]
  else if opcode < 64 ∧ opcode % 8 = 5 then some [Iz]
  else if opcode ∈ [6, 7, 14, 22, 23, 30, 31, 39, 47, 55, 63] then some []
  else if 64 <= opcode ∧ opcode < 98 then some []
  else if opcode = 98 ∨ opcode = 99 then some [M]
  else if opcode = 104 then some [Iz]
  else if opcode = 105 then some [M, Iz]
  else if opcode = 106 then some [Ib]
  else if opcode = 107 then some [M, Ib]
  else if 108 <= opcode ∧ opcode < 112 then some []
  else if 112 <= opcode ∧ opcode < 128 then some [Jb]
  else if opcode = 129 then some [M, Iz]
  else if opcode = 128 ∨ opcode = 130 ∨ opcode = 131 then some [M, Ib]
  else if 132 <= opcode ∧ opcode < 144 then some [M]
  else if 144 <= opcode ∧ opcode < 154 then some []
  else if opcode = 154 then some [Ap]
  else if 155 <= opcode ∧ opcode < 160 then some []
  else if 160 <= opcode ∧ opcode < 164 then some [Ov]
  else if 164 <= opcode ∧ opcode < 168 then some []
  else if opcode = 168 then some [Ib]
  else if opcode = 169 then some [Iz]
  else if 170 <= opcode ∧ opcode < 176 then some []
  else if 176 <= opcode ∧ opcode < 184 then some [Ib]
  else if 184 <= opcode ∧ opcode < 192 then some [Iz]
  else if opcode = 192 ∨ opcode = 193 then some [M, Ib]
  else if opcode = 194 then some [Iw]
  else if opcode = 195 then some []
  else if opcode = 196 ∨ opcode = 197 then some [M]
  else if opcode = 198 then some [M, Ib]
  else if opcode = 199 then some [M, Iz]
  else if opcode = 200 then some [Iw, Ib]
  else if opcode = 201 then some []
  else if opcode = 202 then some [Iw]
  else if opcode = 203 ∨ opcode = 204 then some []
  else if opcode = 205 then some [Ib]
  else if opcode = 206 ∨ opcode = 207 then some []
  else if 208 <= opcode ∧ opcode < 212 then some [M]
  else if opcode = 212 ∨ opcode = 213 then some [Ib]
  else if opcode = 215 then some []
  else if 216 <= opcode ∧ opcode < 224 then some [M]
  else if 224 <= opcode ∧ opcode < 228 then some [Jb]
  else if 228 <= opcode ∧ opcode < 232 then some [Ib]
  else if opcode = 232 ∨ opcode = 233 then some [Jz]
  else if opcode = 234 then some [Ap]
  else if opcode = 235 then some [Jb]
  else if 236 <= opcode ∧ opcode < 240 then some []
  else if opcode = 244 ∨ opcode = 245 then some []
  else if opcode = 246 then some [M, F6]
  else if opcode = 247 then some [M, F7]
  else if 248 <= opcode ∧ opcode < 254 then some []
  else if opcode = 254 ∨ opcode = 255 then some [M]
  else none

def twoByteTable (opcode : Nat) : Option (List Token) :=
  if opcode ∈ [0, 1, 2, 3, 13, 24, 31] then some [M]
  else if opcode ∈ [6, 8, 9, 11, 48, 49, 50, 51, 119, 160, 161, 162, 168, 169, 170] then some []
  else if 16 <= opcode ∧ opcode < 24 then some [M]
  else if 32 <= opcode ∧ opcode < 36 then some [M]
  else if 40 <= opcode ∧ opcode < 48 then some [M]
  else if 64 <= opcode ∧ opcode < 112 then some [M]
  else if 112 <= opcode ∧ opcode < 116 then some [M, Ib]
  else if 116 <= opcode ∧ opcode < 119 then some [M]
  else if opcode = 126 ∨ opcode = 127 then some [M]
  else if 128 <= opcode ∧ opcode < 144 then some [Jz]
  else if 144 <= opcode ∧ opcode < 160 then some [M]
  else if opcode = 164 ∨ opcode = 172 then some [M, Ib]
  else if opcode ∈ [163, 165, 171, 173, 174, 175] then some [M]
  else if 176 <= opcode ∧ opcode < 184 then some [M]
  else if opcode = 185 then some [M]
  else if opcode = 186 then some [M, Ib]
  else if 187 <= opcode ∧ opcode < 194 then some [M]
  else if opcode ∈ [194, 196, 197, 198] then some [M, Ib]
  else if opcode = 195 ∨ opcode = 199 then some [M]
  else if 200 <= opcode ∧ opcode < 208 then some []
  else if 208 <= opcode ∧ opcode < 256 then some [M]
  else none

abbrev ia32Prefixes (b : Byte) : Bool := isPrefix b

def scanLengthPrefixes (encoded : List Byte) (context : String) :
    Nat -> Nat -> List Byte -> Refusing (Nat × List Byte)
  | 0, cursor, seen => .ok (cursor, seen)
  | fuel + 1, cursor, seen =>
    match encoded[cursor]? with
    | none => .ok (cursor, seen)
    | some b =>
      if ia32Prefixes b then do
        require (b ∉ seen) (context ++ ": unsupported repeated instruction prefix")
        scanLengthPrefixes encoded context fuel (cursor + 1) (seen ++ [b])
      else .ok (cursor, seen)

def consumeTokens (encoded : List Byte) (operandSize16 : Bool) (context : String) :
    List Token -> Nat × Byte -> Refusing Nat
  | [], (cursor, _) => .ok cursor
  | M :: rest, (cursor, _) => do
    let some modrm := encoded[cursor]? | .error (context ++ ": instruction lacks ModRM")
    let mode := modeOf modrm
    let rm := rmOf modrm
    let cursor := cursor + 1
    let cursor <-
      if mode ≠ 3#2 ∧ rm = 4#3 then do
        let some sib := encoded[cursor]? | .error (context ++ ": instruction lacks SIB")
        pure (if mode = 0#2 ∧ baseOf sib = 5#3 then cursor + 1 + 4 else cursor + 1)
      else if mode = 0#2 ∧ rm = 5#3 then pure (cursor + 4)
      else pure cursor
    let cursor := if mode = 1#2 then cursor + 1 else if mode = 2#2 then cursor + 4 else cursor
    consumeTokens encoded operandSize16 context rest (cursor, modrm)
  | F6 :: rest, (cursor, modrm) =>
    let cursor := if regOf modrm = 0#3 ∨ regOf modrm = 1#3 then cursor + 1 else cursor
    consumeTokens encoded operandSize16 context rest (cursor, modrm)
  | F7 :: rest, (cursor, modrm) =>
    let cursor :=
      if regOf modrm = 0#3 ∨ regOf modrm = 1#3 then cursor + (if operandSize16 then 2 else 4)
      else cursor
    consumeTokens encoded operandSize16 context rest (cursor, modrm)
  | Ib :: rest, (cursor, modrm) =>
    consumeTokens encoded operandSize16 context rest (cursor + 1, modrm)
  | Jb :: rest, (cursor, modrm) =>
    consumeTokens encoded operandSize16 context rest (cursor + 1, modrm)
  | Iw :: rest, (cursor, modrm) =>
    consumeTokens encoded operandSize16 context rest (cursor + 2, modrm)
  | Iz :: rest, (cursor, modrm) =>
    consumeTokens encoded operandSize16 context rest
      (cursor + (if operandSize16 then 2 else 4), modrm)
  | Jz :: rest, (cursor, modrm) =>
    consumeTokens encoded operandSize16 context rest
      (cursor + (if operandSize16 then 2 else 4), modrm)
  | Ov :: rest, (cursor, modrm) =>
    consumeTokens encoded operandSize16 context rest (cursor + 4, modrm)
  | Ap :: rest, (cursor, modrm) =>
    consumeTokens encoded operandSize16 context rest (cursor + 6, modrm)

/-- Decode the length of one bounded flat 32-bit instruction. -/
def supportedIa32InstructionLength (encoded : List Byte) (context : String) : Refusing Nat := do
  require (encoded ≠ []) (context ++ ": instruction encoding is missing")
  let (cursor, seen) <- scanLengthPrefixes encoded context encoded.length 0 []
  let operandSize16 := seen.contains 0x66
  require (cursor < encoded.length) (context ++ ": unsupported or truncated prefix")
  require (cursor <= 4) (context ++ ": unsupported instruction prefix run")
  let opcode := encoded.getD cursor 0
  let cursor := cursor + 1
  let (operands, cursor) <-
    if opcode = 0x0F#8 then do
      let some opcode := encoded[cursor]? | .error (context ++ ": truncated two-byte opcode")
      let some operands := twoByteTable opcode.toNat |
        .error (context ++ ": unsupported two-byte opcode")
      pure (operands, cursor + 1)
    else do
      let some operands := oneByteTable opcode.toNat |
        .error (context ++ ": unsupported instruction opcode")
      pure (operands, cursor)
  let cursor <- consumeTokens encoded operandSize16 context operands (cursor, 0)
  require (cursor <= encoded.length) (context ++ ": supported instruction is truncated")
  require (cursor <= 15) (context ++ ": instruction exceeds 15 bytes")
  pure cursor

/-! ## Agreement with the instruction format -/

def Token.size (opsize : Bool) (digit : BitVec 3) : Token -> Nat
  | M => 0
  | F6 => if digit = 0#3 ∨ digit = 1#3 then 1 else 0
  | F7 => if digit = 0#3 ∨ digit = 1#3 then (if opsize then 2 else 4) else 0
  | Ib => 1
  | Jb => 1
  | Iw => 2
  | Iz => if opsize then 2 else 4
  | Jz => if opsize then 2 else 4
  | Ov => 4
  | Ap => 6

def tokensShape (tokens : List Token) : Shape where
  modrm := tokens.head? == some M
  immSize opsize digit := (tokens.map (Token.size opsize digit)).sum

def opcodeTokens : Opcode -> Option (List Token)
  | .one b => oneByteTable b.toNat
  | .two b => twoByteTable b.toNat

def lengthMap : OpcodeMap := fun op => (opcodeTokens op).map tokensShape

theorem oneByteTable_tail : ∀ b : Byte,
    (oneByteTable b.toNat).all (fun ts => !ts.tail.contains M) = true := by decide

theorem twoByteTable_tail : ∀ b : Byte,
    (twoByteTable b.toNat).all (fun ts => !ts.tail.contains M) = true := by decide

variable {tokens : List Token} {encoded : List Byte} {opsize : Bool} {context : String}

theorem opcodeTokens_tail {op : Opcode} (h : opcodeTokens op = some tokens) : M ∉ tokens.tail := by
  have hall : (opcodeTokens op).all (fun ts => !ts.tail.contains M) = true := by
    cases op with
    | one b => exact oneByteTable_tail b
    | two b => exact twoByteTable_tail b
  rw [h] at hall
  simpa using hall

theorem scanLengthPrefixes_eq_ok (encoded : List Byte) (context : String) (fuel cursor : Nat)
    (seen : List Byte) (hfuel : (encoded.drop cursor).length <= fuel) (hseen : seen.Nodup)
    (result : Nat × List Byte) :
    scanLengthPrefixes encoded context fuel cursor seen = .ok result ↔
      (seen ++ (encoded.drop cursor).takeWhile isPrefix).Nodup ∧
      result = (cursor + ((encoded.drop cursor).takeWhile isPrefix).length,
        seen ++ (encoded.drop cursor).takeWhile isPrefix) := by
  induction fuel generalizing cursor seen with
  | zero =>
    have hnil : encoded.drop cursor = [] := length_eq_zero_iff.mp (by omega)
    simp [scanLengthPrefixes, hnil, hseen, eq_comm]
  | succ fuel ih =>
    unfold scanLengthPrefixes
    cases hb : encoded[cursor]? with
    | none =>
      have hnil : encoded.drop cursor = [] :=
        drop_eq_nil_iff.mpr (List.getElem?_eq_none_iff.mp hb)
      simp [hnil, hseen, eq_comm]
    | some b =>
      have hcons : encoded.drop cursor = b :: encoded.drop (cursor + 1) := by
        obtain ⟨hlt, rfl⟩ := List.getElem?_eq_some_iff.mp hb
        exact drop_eq_getElem_cons hlt
      by_cases hp : isPrefix b = true
      · simp only [hp, if_true, require_bind_eq_ok]
        rw [hcons] at hfuel ⊢
        have hlen : (encoded.drop (cursor + 1)).length <= fuel := by
          simpa using hfuel
        constructor
        · rintro ⟨hnew, h⟩
          have hseen' : (seen ++ [b]).Nodup := by
            simp [nodup_append, hseen]
            exact fun a ha hab => hnew (hab ▸ ha)
          obtain ⟨hnd, rfl⟩ := (ih (cursor + 1) (seen ++ [b]) hlen hseen').mp h
          simp only [takeWhile_cons_of_pos hp]
          refine ⟨by simpa using hnd, ?_⟩
          simp
          omega
        · rintro ⟨hnd, rfl⟩
          simp only [takeWhile_cons_of_pos hp] at hnd
          have hnd' : ((seen ++ [b]) ++
              (encoded.drop (cursor + 1)).takeWhile isPrefix).Nodup := by simpa using hnd
          have hseen' : (seen ++ [b]).Nodup := (nodup_append.mp hnd').1
          refine ⟨?_, (ih (cursor + 1) (seen ++ [b]) hlen hseen').mpr ⟨hnd', ?_⟩⟩
          · intro hmem
            exact (nodup_append.mp hseen').2.2 b hmem b (by simp) rfl
          · simp [takeWhile_cons_of_pos hp]
            omega
      · simp [hcons, hp, hseen, eq_comm]

theorem consumeTokens_sizes (h : M ∉ tokens) (cursor : Nat) (modrm : Byte) :
    consumeTokens encoded opsize context tokens (cursor, modrm) =
      .ok (cursor + (tokens.map (Token.size opsize (regOf modrm))).sum) := by
  induction tokens generalizing cursor with
  | nil => simp [consumeTokens]
  | cons token tokens ih =>
    simp only [mem_cons, not_or] at h
    cases token with
    | M => exact absurd rfl h.1
    | F6 =>
      simp only [consumeTokens, ih h.2, map_cons, Token.size]
      split
      · simp; omega
      · simp
    | F7 =>
      simp only [consumeTokens, ih h.2, map_cons, Token.size]
      split
      · simp; omega
      · simp
    | _ =>
      simp [consumeTokens, ih h.2, Token.size, Nat.add_assoc]

def sibSize (m : Byte) : Nat := if hasSib m then 1 else 0

theorem consumeTokens_modrm (h : M ∉ tokens) (cursor : Nat) (old : Byte) (n : Nat) :
    consumeTokens encoded opsize context (M :: tokens) (cursor, old) = .ok n ↔
      ∃ m sib, encoded[cursor]? = some m ∧
        sib = (if hasSib m then encoded[cursor + 1]? else none) ∧ sib.isSome = hasSib m ∧
        n = cursor + 1 + sibSize m + dispSize m sib +
          (tokens.map (Token.size opsize (regOf m))).sum := by
  unfold consumeTokens
  cases hm : encoded[cursor]? with
  | none => simp
  | some m =>
    simp only [some.injEq, exists_and_left, exists_eq_left']
    by_cases hs : hasSib m = true
    · obtain ⟨h3, h4⟩ := (hasSib_iff m).mp hs
      cases hsib : encoded[cursor + 1]? with
      | none => simp [hs, h3, h4, bind, Except.bind]
      | some sib =>
        simp only [hs, h4, consumeTokens_sizes h, sibSize, dispSize]
        have h01 : modeOf m = 0#2 ∨ modeOf m = 1#2 ∨ modeOf m = 2#2 := by
          revert h3; generalize modeOf m = x; revert x; decide
        rcases h01 with h0 | h1 | h2
        · by_cases hb : baseOf sib = 5#3
          · simp [h0, hb]; omega
          · simp [h0, hb]; omega
        · simp [h1]; omega
        · simp [h2]; omega
    · have hs' : ¬ (modeOf m ≠ 3#2 ∧ rmOf m = 4#3) := fun h => hs ((hasSib_iff m).mpr h)
      have hsf : hasSib m = false := by simpa using hs
      simp only [hs', hsf, exists_eq_left, sibSize, dispSize]
      have hcases : modeOf m = 3#2 ∨ rmOf m ≠ 4#3 := by tauto
      by_cases h5 : modeOf m = 0#2 ∧ rmOf m = 5#3
      · simp [h5.1, h5.2, consumeTokens_sizes h, eq_comm]
      · simp only [h5, if_false, consumeTokens_sizes h]
        by_cases h1 : modeOf m = 1#2
        · simp [h1]; omega
        by_cases h2 : modeOf m = 2#2
        · simp [h2]; omega
        by_cases h0 : modeOf m = 0#2
        · have h5' : rmOf m ≠ 5#3 := fun h => h5 ⟨h0, h⟩
          have h4 : rmOf m ≠ 4#3 := by
            rcases hcases with h3 | h4
            · rw [h0] at h3; exact absurd h3 (by decide)
            · exact h4
          simp [h0, h5']; omega
        · simp [h0, h1, h2]; omega

theorem sib_length {m : Byte} {sib : Option Byte} (h : sib.isSome = hasSib m) :
    sib.toList.length = sibSize m := by
  unfold sibSize
  rw [<- h]
  cases sib <;> rfl

theorem consumeTokens_parse (context : String) (htail : M ∉ tokens.tail) {cursor : Nat}
    (hcursor : cursor <= encoded.length) (n : Nat) :
    (consumeTokens encoded opsize context tokens (cursor, 0) = .ok n ∧ n <= encoded.length) ↔
      ∃ m sib disp r imm r',
        parseOperand (tokensShape tokens).modrm (encoded.drop cursor) = some (m, sib, disp, r) ∧
        takeBytes ((tokensShape tokens).immSize opsize ((m.map regOf).getD 0)) r = some (imm, r') ∧
        n = cursor + (m.toList ++ sib.toList ++ disp ++ imm).length := by
  by_cases hhead : tokens.head? = some M
  · obtain ⟨rest, rfl⟩ : ∃ rest, tokens = M :: rest := by
      cases tokens with
      | nil => simp at hhead
      | cons t rest => exact ⟨rest, by simpa using hhead⟩
    have hM : M ∉ rest := htail
    rw [consumeTokens_modrm hM]
    simp only [tokensShape, map_cons, sum_cons, Token.size, parseOperand_eq_some, takeBytes_eq_some]
    constructor
    · rintro ⟨⟨m, sib, hm, hsib, hsome, rfl⟩, hn⟩
      have hlt := (List.getElem?_eq_some_iff.mp hm).1
      have hm' : encoded.drop cursor = m :: encoded.drop (cursor + 1) := by
        rw [drop_eq_getElem_cons hlt, (List.getElem?_eq_some_iff.mp hm).2]
      have hs' : encoded.drop (cursor + 1) =
          sib.toList ++ encoded.drop (cursor + 1 + sibSize m) := by
        cases hh : hasSib m with
        | true =>
          rw [hh, if_pos rfl] at hsib
          rw [hh] at hsome
          cases sib with
          | none => simp at hsome
          | some s =>
            obtain ⟨hlt', hs⟩ := List.getElem?_eq_some_iff.mp hsib.symm
            rw [drop_eq_getElem_cons hlt', hs]
            simp [sibSize, hh]
        | false =>
          simp [hsib, sibSize, hh]
      refine ⟨some m, sib, (encoded.drop (cursor + 1 + sibSize m)).take (dispSize m sib),
        encoded.drop (cursor + 1 + sibSize m + dispSize m sib),
        (encoded.drop (cursor + 1 + sibSize m + dispSize m sib)).take
          ((rest.map (Token.size opsize (regOf m))).sum),
        encoded.drop (cursor + 1 + sibSize m + dispSize m sib +
          (rest.map (Token.size opsize (regOf m))).sum), ⟨⟨hsome, ?_⟩, ?_⟩, ⟨?_, ?_⟩, ?_⟩
      · simp only [length_take, length_drop]
        omega
      · rw [hm']
        simp only [toList_some, cons_append, nil_append, append_assoc]
        rw [hs', <- drop_drop (j := cursor + 1 + sibSize m), take_append_drop]
      · simp only [map_some, getD_some, length_take, length_drop]
        omega
      · rw [<- drop_drop (i := (rest.map (Token.size opsize (regOf m))).sum),
          take_append_drop]
      · have hlen := sib_length hsome
        simp only [toList_some, length_append, length_take, length_drop, length_singleton]
        omega
    · rintro ⟨m, sib, disp, r, imm, r', ⟨hwf, hdrop⟩, ⟨himm, rfl⟩, rfl⟩
      cases m with
      | none => exact hwf.elim
      | some m =>
        obtain ⟨hsome, hdisp⟩ := hwf
        have hlen := sib_length hsome
        have hget : ∀ k, encoded[cursor + k]? = (encoded.drop cursor)[k]? :=
          fun k => by rw [getElem?_drop]
        refine ⟨⟨m, sib, ?_, ?_, hsome, ?_⟩, ?_⟩
        · have := hget 0
          rw [Nat.add_zero] at this
          rw [this, hdrop]; simp
        · rw [hget 1, hdrop, <- hsome]
          cases sib <;> simp
        · simp only [map_some, getD_some] at himm
          simp only [toList_some, length_append, length_singleton]
          omega
        · have := congrArg List.length hdrop
          simp only [length_append, length_drop] at this ⊢
          omega
  · have hM : M ∉ tokens := by
      cases tokens with
      | nil => simp
      | cons t rest =>
        simp only [mem_cons, not_or]
        exact ⟨fun h => hhead (by simp [h]), htail⟩
    have hmod : (tokensShape tokens).modrm = false := by simpa [tokensShape] using hhead
    rw [consumeTokens_sizes hM, hmod]
    have hdigit : regOf 0 = 0#3 := by decide
    simp only [Except.ok.injEq, hdigit, takeBytes_eq_some, tokensShape]
    constructor
    · rintro ⟨rfl, hn⟩
      refine ⟨none, none, [], encoded.drop cursor,
        (encoded.drop cursor).take ((tokens.map (Token.size opsize 0#3)).sum),
        (encoded.drop cursor).drop ((tokens.map (Token.size opsize 0#3)).sum), rfl, ⟨?_, ?_⟩, ?_⟩
      · simp only [length_take, length_drop]
        exact Nat.min_eq_left (by omega)
      · exact (take_append_drop _ _).symm
      · simp only [toList_none, nil_append, length_take, length_drop]
        omega
    · rintro ⟨m, sib, disp, r, imm, r', h, ⟨himm, hr⟩, rfl⟩
      cases h
      have := congrArg List.length hr
      simp only [length_append, length_drop] at this
      simp only [map_none, getD_none] at himm
      have hz : (0 : BitVec 3) = 0#3 := rfl
      rw [hz] at himm
      simp only [toList_none, append_nil, nil_append]
      omega

theorem supportedIa32InstructionLength_stages {n : Nat} :
    supportedIa32InstructionLength encoded context = .ok n ↔
      (encoded.takeWhile isPrefix).Nodup ∧ (encoded.takeWhile isPrefix).length <= 4 ∧
      ∃ op rest tokens, parseOpcode (encoded.dropWhile isPrefix) = some (op, rest) ∧
        opcodeTokens op = some tokens ∧
        consumeTokens encoded ((encoded.takeWhile isPrefix).contains 0x66) context tokens
          ((encoded.takeWhile isPrefix).length + op.bytes.length, 0) = .ok n ∧
        n <= encoded.length ∧ n <= 15 := by
  have hsplit := takeWhile_append_dropWhile (p := isPrefix) (l := encoded)
  have hscan := scanLengthPrefixes_eq_ok encoded context encoded.length 0 [] (by simp) (by simp)
  simp only [drop_zero] at hscan
  simp only [supportedIa32InstructionLength, bind_eq_ok, hscan]
  generalize encoded.takeWhile isPrefix = pre at *
  generalize encoded.dropWhile isPrefix = post at *
  subst hsplit
  cases post with
  | nil => simp [parseOpcode]
  | cons b post =>
    by_cases hb : b = 0x0F#8
    · subst hb
      cases post with
      | nil => simp [parseOpcode, bind, Except.bind]
      | cons c post =>
        cases htok : twoByteTable c.toNat with
        | none => simp [parseOpcode, opcodeTokens, htok, bind, Except.bind]
        | some tokens =>
          simp [parseOpcode, opcodeTokens, htok, bind_eq_ok, Opcode.bytes, and_comm]
    · cases htok : oneByteTable b.toNat with
      | none => simp [parseOpcode, opcodeTokens, hb, htok, bind, Except.bind]
      | some tokens =>
        simp [parseOpcode, opcodeTokens, hb, htok, bind_eq_ok, Opcode.bytes, and_comm]

/-- Accepted are the strings that start with a well-formed instruction. -/
theorem supportedIa32InstructionLength_eq_ok {n : Nat} :
    supportedIa32InstructionLength encoded context = .ok n ↔
      ∃ raw r, parse lengthMap encoded = some (raw, r) ∧ raw.length = n := by
  have hsplit := takeWhile_append_dropWhile (p := isPrefix) (l := encoded)
  rw [supportedIa32InstructionLength_stages]
  simp only [parse, bind_eq_bind, bind_eq_some_iff, Prod.exists]
  -- both sides agree on the prefix run and on the opcode; the operand stage is
  -- `consumeTokens_parse` at the cursor behind the opcode
  have hstage : ∀ op rest, parseOpcode (encoded.dropWhile isPrefix) = some (op, rest) ->
      encoded.drop ((encoded.takeWhile isPrefix).length + op.bytes.length) = rest ∧
      (encoded.takeWhile isPrefix).length + op.bytes.length <= encoded.length := by
    intro op rest hop
    obtain ⟨-, hpost⟩ := parseOpcode_eq_some.mp hop
    rw [hpost] at hsplit
    generalize encoded.takeWhile isPrefix = pre at hsplit
    rw [<- hsplit, <- append_assoc, <- length_append, drop_left]
    simp
  constructor
  · rintro ⟨hnd, h4, op, rest, tokens, hop, htok, hcons, hle, h15⟩
    obtain ⟨hrest, hc⟩ := hstage op rest hop
    obtain ⟨m, sib, disp, r, imm, r', hopd, himm, rfl⟩ :=
      (consumeTokens_parse context (opcodeTokens_tail htok) hc n).mp ⟨hcons, hle⟩
    rw [hrest] at hopd
    have hlen : (⟨encoded.takeWhile isPrefix, op, m, sib, disp, imm⟩ : Raw).length =
        (encoded.takeWhile isPrefix).length + op.bytes.length +
          (m.toList ++ sib.toList ++ disp ++ imm).length := by
      simp [Raw.length, Raw.encode, Nat.add_assoc]
    refine ⟨_, r', ⟨op, rest, hop, tokensShape tokens, by simp [lengthMap, htok], m, sib, disp, r,
      hopd, imm, r', himm, if_pos ⟨hnd, h4, by rw [hlen]; exact h15⟩⟩, hlen⟩
  · rintro ⟨raw, r₀, ⟨op, rest, hop, shape, hshape, m, sib, disp, r, hopd, imm, r', himm, hif⟩, rfl⟩
    obtain ⟨tokens, htok, rfl⟩ := map_eq_some_iff.mp hshape
    obtain ⟨hrest, hc⟩ := hstage op rest hop
    split at hif
    · next hg =>
        cases hif
        have := (consumeTokens_parse context (opcodeTokens_tail htok) hc _).mpr
          ⟨m, sib, disp, r, imm, r₀, by rw [hrest]; exact hopd, himm, rfl⟩
        have hlen : (⟨encoded.takeWhile isPrefix, op, m, sib, disp, imm⟩ : Raw).length =
            (encoded.takeWhile isPrefix).length + op.bytes.length +
              (m.toList ++ sib.toList ++ disp ++ imm).length := by
          simp [Raw.length, Raw.encode, Nat.add_assoc]
        refine ⟨hg.1, hg.2.1, op, rest, tokens, hop, htok, ?_, ?_, hg.2.2⟩
        · rw [hlen]; exact this.1
        · rw [hlen]; exact this.2
    · cases hif

/-- Strings that start alike start with the same instruction. -/
theorem parse_unique_of_append {map : OpcodeMap} {raw raw' : Raw} {r r' : List Byte}
    (h : raw.WellFormed map) (h' : raw'.WellFormed map)
    (heq : raw.encode ++ r = raw'.encode ++ r') : raw = raw' := by
  have hp := parse_encode h r
  rw [heq, parse_encode h' r'] at hp
  cases hp
  rfl

/-- Instruction lengths form a prefix code: an accepted length is between one and
fifteen, only the bytes it covers decide it, and no proper part of them is accepted. -/
theorem supportedIa32InstructionLength_code {n : Nat}
    (h : supportedIa32InstructionLength encoded context = .ok n) :
    1 <= n ∧ n <= 15 ∧ n <= encoded.length ∧
      (∀ other context', encoded.take n <+: other ->
        supportedIa32InstructionLength other context' = .ok n) ∧
      ∀ k context' m, k < n ->
        supportedIa32InstructionLength (encoded.take k) context' ≠ .ok m := by
  obtain ⟨raw, r, hparse, rfl⟩ := supportedIa32InstructionLength_eq_ok.mp h
  obtain ⟨hwf, rfl⟩ := parse_eq_some.mp hparse
  refine ⟨raw.length_pos, hwf.length_le, by simp [Raw.length], ?_, ?_⟩
  · intro other context' hother
    rw [Raw.length, take_left] at hother
    obtain ⟨r', rfl⟩ := hother
    exact supportedIa32InstructionLength_eq_ok.mpr ⟨raw, r', parse_encode hwf r', rfl⟩
  · intro k context' m hk hok
    obtain ⟨raw', r', hparse', -⟩ := supportedIa32InstructionLength_eq_ok.mp hok
    obtain ⟨hwf', htake⟩ := parse_eq_some.mp hparse'
    -- the shorter instruction would start the whole string as well
    have hsplit : raw.encode ++ r = raw'.encode ++ (r' ++ (raw.encode ++ r).drop k) := by
      rw [<- append_assoc, <- htake, take_append_drop]
    cases parse_unique_of_append hwf hwf' hsplit
    have hlen := congrArg length htake
    rw [length_take, length_append, length_append] at hlen
    rw [Raw.length] at hk
    omega

/-- `mov eax, [esp+8]` and the byte behind it. -/
theorem load_length_code :
    supportedIa32InstructionLength [0x8B, 0x44, 0x24, 0x08, 0x90] "body" = .ok 4 ∧
      ∀ k context' m, k < 4 ->
        supportedIa32InstructionLength ([0x8B, 0x44, 0x24, 0x08, 0x90].take k) context' ≠ .ok m :=
  have h : supportedIa32InstructionLength [0x8B, 0x44, 0x24, 0x08, 0x90] "body" = .ok 4 := by decide
  ⟨h, (supportedIa32InstructionLength_code h).2.2.2.2⟩

end Reprobit

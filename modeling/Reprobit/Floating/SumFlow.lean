import Reprobit.Floating.SumChain
import Reprobit.Decode.X87

/-!
# What a permuted sum of products computes

A chain pushes products and folds the two topmost slots of the x87 stack.  In
which slot a product ends up is decided by the places of the `faddp`
instructions alone, so permuting the products keeps the stack exactly when it
keeps what is summed in every slot.
-/

namespace Reprobit.Floating

open Machine List

/-- One slot of a chain with its instructions. -/
inductive Piece
  | pair (fld fmul : Raw)
  | faddp
  deriving DecidableEq

namespace Piece

def faddpRaw : Raw := ⟨[], .one 0xDE, some 0xC1, none, [], []⟩

def block : Piece -> List (Raw × FpInstr)
  | pair fld fmul => [(fld, .loadDouble), (fmul, .mulDouble)]
  | faddp => [(faddpRaw, .addPop)]

def bytes (p : Piece) : List Byte := blockBytes p.block

def kind : Piece -> FpSumKind
  | pair _ _ => .pair
  | faddp => .faddp

/-- The instructions are those the machine knows by these names. -/
def Good : Piece -> Prop
  | pair fld fmul => fld.IsFp .loadDouble ∧ fmul.IsFp .mulDouble
  | faddp => True

theorem faddpRaw_isFp : faddpRaw.IsFp .addPop where
  wellFormed := by
    refine ⟨by simp [faddpRaw], by simp [faddpRaw], by simp [faddpRaw], by decide, by decide,
      ⟨⟨true, fun _ _ => 0⟩, rfl, ⟨by decide, by decide⟩, rfl⟩, by decide⟩
  instr := by decide

theorem block_isFp {p : Piece} (h : p.Good) : ∀ q ∈ p.block, q.1.IsFp q.2 := by
  cases p with
  | pair fld fmul =>
    intro q hq
    simp only [block, mem_cons, not_mem_nil, or_false] at hq
    rcases hq with rfl | rfl
    · exact h.1
    · exact h.2
  | faddp => simpa [block] using faddpRaw_isFp

@[simp] theorem bytes_pair (fld fmul : Raw) :
    (pair fld fmul).bytes = fld.encode ++ fmul.encode := by
  simp [bytes, block, blockBytes]

@[simp] theorem bytes_faddp : faddp.bytes = [0xDE, 0xC1] := rfl

end Piece

def piecesBytes (pieces : List Piece) : List Byte := pieces.flatMap Piece.bytes

def layout : Nat -> List Piece -> List FpSumSlot
  | _, [] => []
  | at', p :: ps => ⟨p.kind, at', p.bytes.length⟩ :: layout (at' + p.bytes.length) ps

/-- What an instruction of a chain is for the machine. -/
def FpSumToken.Names (raw : Raw) : FpSumToken -> Prop
  | fld => raw.IsFp .loadDouble
  | fmul => raw.IsFp .mulDouble
  | faddp => raw = Piece.faddpRaw

variable {offset stop start fuel : Nat} {context : String} {slots : List FpSumSlot}
  {internalTargets : List Int} {body : List Byte} {pending : Option (Nat × Nat)}

theorem sumToken_names {length : Nat}
    (hlen : supportedIa32InstructionLength (body.drop offset) context = .ok length)
    {token : FpSumToken} (htoken : fpSumToken (slice body offset length) = some token) :
    ∃ raw r, body.drop offset = raw.encode ++ r ∧ raw.length = length ∧ token.Names raw := by
  obtain ⟨raw, r, hparse, hlength⟩ := supportedIa32InstructionLength_eq_ok.mp hlen
  obtain ⟨hwf, hdrop⟩ := parse_eq_some.mp hparse
  have hslice : slice body offset length = raw.encode := by
    rw [slice, hdrop, <- hlength, Raw.length, take_left]
  rw [hslice] at htoken
  refine ⟨raw, r, hdrop, hlength, ?_⟩
  have hhead : ∀ b : Byte, b ≠ 0 -> raw.encode.getD 0 0 = b -> raw.encode.head? = some b := by
    intro b hb h
    cases he : raw.encode with
    | nil => simp [he] at h; exact absurd h.symm hb
    | cons c cs => simpa [he] using h
  have hsecond {b m : Byte} (hparts : EscapeParts raw b m) : raw.encode.getD 1 0 = m := by
    simp [hparts.encode_eq]
  simp only [fpSumToken] at htoken
  split at htoken
  · next h =>
      cases htoken
      obtain ⟨m, hparts⟩ := escapeParts hwf (by decide) (hhead 221 (by decide) h.1)
      rw [hsecond hparts] at h
      exact hparts.isFp_memory (by decide) h.2.2.1 (by rw [h.2.2.2]; decide)
  · split at htoken
    · next h =>
        cases htoken
        obtain ⟨m, hparts⟩ := escapeParts hwf (by decide) (hhead 220 (by decide) h.1)
        rw [hsecond hparts] at h
        exact hparts.isFp_memory (by decide) h.2.2.1 (by rw [h.2.2.2]; decide)
    · split at htoken
      · next h =>
          cases htoken
          obtain ⟨m, hparts⟩ := escapeParts (b := 0xDE) hwf (by decide) (by rw [h]; rfl)
          have henc := hparts.encode_eq
          rw [h] at henc
          simp only [List.cons.injEq, true_and] at henc
          obtain ⟨hm, hrest⟩ := henc
          have hsib : raw.sib = none := by
            cases hs : raw.sib <;> simp [hs] at hrest ⊢
          have hdisp : raw.disp = [] := by simpa [hsib] using hrest.symm
          cases raw with
          | mk prefixes opcode modrm sib disp imm =>
            obtain ⟨hp, ho, hmod, hi, -⟩ := hparts
            simp only at hp ho hmod hi hsib hdisp
            subst hm
            simp [FpSumToken.Names, Piece.faddpRaw, hp, ho, hmod, hi, hsib, hdisp]
      · cases htoken

/-- Whole pieces, and behind a pending `fld` first its `fmul`. -/
def Parsed (body : List Byte) (stop offset : Nat) (slots : List FpSumSlot) :
    Option (Nat × Nat) -> Prop
  | none => ∃ pieces : List Piece, (∀ p ∈ pieces, p.Good) ∧
      (∃ r, body.drop offset = piecesBytes pieces ++ r) ∧
      offset + (piecesBytes pieces).length = stop ∧ slots = layout offset pieces
  | some (start, length) => ∃ (fmul : Raw) (pieces : List Piece), fmul.IsFp .mulDouble ∧
      (∀ p ∈ pieces, p.Good) ∧
      (∃ r, body.drop offset = fmul.encode ++ piecesBytes pieces ++ r) ∧
      offset + fmul.length + (piecesBytes pieces).length = stop ∧
      slots = ⟨.pair, start, length + fmul.length⟩ :: layout (offset + fmul.length) pieces

theorem fpSumParseFrom_parsed
    (hpending : ∀ start length, pending = some (start, length) -> start + length = offset)
    (h : fpSumParseFrom body stop context fuel offset pending = .ok slots) :
    Parsed body stop offset slots pending := by
  induction fuel generalizing offset pending slots with
  | zero => cases h
  | succ fuel ih =>
    unfold fpSumParseFrom at h
    split at h
    · simp only [bind_eq_ok, pure_eq_ok, Prod.exists] at h
      obtain ⟨length, hlen, _, hle, pending', found, hadv, rest, hrest, rfl⟩ := h
      have hnext : ∀ k, body.drop (offset + k) = (body.drop offset).drop k := by
        intro k
        rw [drop_drop]
      cases htoken : fpSumToken (slice body offset length) with
      | none => simp [fpSumAdvance, htoken] at hadv
      | some token =>
        obtain ⟨raw, r, hdrop, rfl, hnames⟩ := sumToken_names hlen htoken
        have hskip : body.drop (offset + raw.length) = r := by
          rw [hnext, hdrop, Raw.length, drop_left]
        rw [htoken] at hadv
        cases token with
        | fld =>
          cases pending with
          | some _ => cases hadv
          | none =>
            cases hadv
            obtain ⟨fmul, pieces, hfmul, hgood, ⟨r', hr'⟩, hstop, rfl⟩ :=
              ih (by rintro _ _ ⟨⟩; rfl) hrest
            refine ⟨.pair raw fmul :: pieces, ?_, ⟨r', ?_⟩, ?_, ?_⟩
            · intro p hp
              rcases mem_cons.mp hp with rfl | hp
              · exact ⟨hnames, hfmul⟩
              · exact hgood p hp
            · rw [hdrop, <- hskip, hr']
              simp [piecesBytes]
            · simp [piecesBytes, <- Nat.add_assoc] at hstop ⊢
              rw [<- hstop]
              rfl
            · simp [layout, Piece.kind, Raw.length, Nat.add_assoc]
        | fmul =>
          cases pending with
          | none => cases hadv
          | some fld =>
            cases hadv
            obtain ⟨pieces, hgood, ⟨r', hr'⟩, hstop, rfl⟩ := ih (by rintro _ _ ⟨⟩) hrest
            refine ⟨raw, pieces, hnames, hgood, ⟨r', ?_⟩, hstop, rfl⟩
            rw [hdrop, <- hskip, hr', append_assoc]
        | faddp =>
          cases pending with
          | some _ => cases hadv
          | none =>
            cases hadv
            obtain ⟨pieces, hgood, ⟨r', hr'⟩, hstop, rfl⟩ := ih (by rintro _ _ ⟨⟩) hrest
            cases hnames
            refine ⟨.faddp :: pieces, ?_, ⟨r', ?_⟩, ?_, rfl⟩
            · simpa [Piece.Good] using hgood
            · rw [hdrop, <- hskip, hr']
              simp [piecesBytes, Piece.faddpRaw, Raw.encode, Opcode.bytes]
            · rw [<- hstop]
              simp [piecesBytes, Piece.faddpRaw, Raw.length, Raw.encode, Opcode.bytes]
              omega
    · simp only [bind_eq_ok, require_eq_ok, pure_eq_ok] at h
      obtain ⟨_, rfl, _, rfl, rfl⟩ := h
      exact ⟨[], by simp, ⟨_, rfl⟩, by simp [piecesBytes], rfl⟩

theorem fpSumParseChain_pieces
    (h : fpSumParseChain body start stop context = .ok slots) :
    ∃ pieces : List Piece, (∀ p ∈ pieces, p.Good) ∧
      (∃ r, body.drop start = piecesBytes pieces ++ r) ∧
      start + (piecesBytes pieces).length = stop ∧ slots = layout start pieces := by
  simp only [fpSumParseChain, bind_eq_ok, pure_eq_ok] at h
  obtain ⟨_, hparse, _, -, rfl⟩ := h
  exact fpSumParseFrom_parsed (by rintro _ _ ⟨⟩) hparse

section

variable {X α : Type}

/-- The stack program of a chain; a product is pushed under its number. -/
def slotOps : Nat -> List FpSumKind -> List (StackOp Nat)
  | _, [] => []
  | n, .pair :: kinds => .push n :: slotOps (n + 1) kinds
  | n, .faddp :: kinds => .fold :: slotOps n kinds

def products (pieces : List Piece) : List (Raw × Raw) :=
  pieces.filterMap fun
    | .pair fld fmul => some (fld, fmul)
    | .faddp => none

/-- The contents of the two memory operands of a product. -/
def operands (s : State X) (p : Raw × Raw) : Nat × Nat :=
  (p.1.fpOperand ⟨0, 0⟩ s, p.2.fpOperand ⟨0, 0⟩ s)

def FpArith.product (A : FpArith α) (v : Nat × Nat) : α := A.mul (A.double v.1) (A.double v.2)

theorem push_mapTop (v : α) (f : α -> α) (x : FpSlots α) :
    (x.push v).bind (FpSlots.mapTop f) = x.push (f v) := by
  unfold FpSlots.push
  cases x 7 with
  | none =>
    simp only [Option.bind_some, FpSlots.mapTop, if_true, Option.map_some, Option.some.injEq]
    funext i
    by_cases hi : i = 0
    · subst hi
      simp
    · simp [hi]
  | some _ => rfl

theorem fpRun_pieces (A : FpArith α) (s : State X) (value : Nat -> α) (pieces : List Piece)
    (n : Nat) (hvalue : ∀ i p, (products pieces)[i]? = some p ->
      value (n + i) = FpArith.product A (operands s p)) (x : FpSlots α) :
    fpRun A (fpValues s (pieces.flatMap Piece.block)) (some x) =
      StackOp.execAll A.add value (slotOps n (pieces.map Piece.kind)) x := by
  induction pieces generalizing n x with
  | nil => rfl
  | cons piece pieces ih =>
    have hvalues : fpValues s ((piece :: pieces).flatMap Piece.block) =
        fpValues s piece.block ++ fpValues s (pieces.flatMap Piece.block) := by
      simp [fpValues]
    rw [hvalues, fpRun_append]
    cases piece with
    | pair fld fmul =>
      have hfirst : value n = FpArith.product A (operands s (fld, fmul)) := by
        simpa using hvalue 0 (fld, fmul) (by simp [products])
      have hpush : fpRun A (fpValues s (Piece.pair fld fmul).block) (some x) =
          x.push (value n) := by
        rw [hfirst]
        exact push_mapTop _ _ x
      rw [hpush, map_cons, Piece.kind, slotOps, StackOp.execAll, StackOp.exec]
      cases x.push (value n) with
      | none => simp
      | some y =>
        refine ih (n + 1) (fun i p hp => ?_) y
        have := hvalue (i + 1) p (by simpa [products] using hp)
        rwa [Nat.add_assoc, Nat.add_comm 1]
    | faddp =>
      have hfold : fpRun A (fpValues s Piece.faddp.block) (some x) = x.addPop A.add := rfl
      rw [hfold, map_cons, Piece.kind, slotOps, StackOp.execAll, StackOp.exec]
      cases x.addPop A.add with
      | none => simp
      | some y => exact ih n (fun i p hp => hvalue i p (by simpa [products] using hp)) y

end

def permute (all : List (Raw × Raw)) : List Piece -> List Nat -> List Piece
  | [], _ => []
  | .pair _ _ :: pieces, order =>
    let p := all.getD (order.headD 0) (Piece.faddpRaw, Piece.faddpRaw)
    .pair p.1 p.2 :: permute all pieces order.tail
  | .faddp :: pieces, order => .faddp :: permute all pieces order

theorem permute_kinds (all : List (Raw × Raw)) (pieces : List Piece) (order : List Nat) :
    (permute all pieces order).map Piece.kind = pieces.map Piece.kind := by
  induction pieces generalizing order with
  | nil => rfl
  | cons piece pieces ih =>
    cases piece with
    | pair fld fmul => simp [permute, Piece.kind, ih]
    | faddp => simp [permute, ih]

theorem permute_products (all : List (Raw × Raw)) (pieces : List Piece) (order : List Nat)
    (hlen : order.length = (products pieces).length) (hall : ∀ i ∈ order, i < all.length)
    (k : Nat) :
    (products (permute all pieces order))[k]? = (order[k]?).bind (all[·]?) := by
  induction pieces generalizing order k with
  | nil =>
    have : order = [] := length_eq_zero_iff.mp (by simpa [products] using hlen)
    simp [permute, products, this]
  | cons piece pieces ih =>
    cases piece with
    | pair fld fmul =>
      cases order with
      | nil => simp [products] at hlen
      | cons i order =>
        have hi : i < all.length := hall i (by simp)
        cases k with
        | zero => simp [permute, products, hi]
        | succ k =>
          have := ih order (by simpa [products] using hlen) (fun j hj => hall j (by simp [hj])) k
          simpa [permute, products] using this
    | faddp =>
      have := ih order (by simpa [products] using hlen) hall k
      simpa [permute, products] using this

variable {pieces : List Piece} {all : List (Raw × Raw)} {r : List Byte} {order : List Nat}

theorem permute_good (hlen : order.length = (products pieces).length)
    (hall : ∀ i ∈ order, i < all.length) (hgood : ∀ p ∈ all, (Piece.pair p.1 p.2).Good) :
    ∀ p ∈ permute all pieces order, p.Good := by
  induction pieces generalizing order with
  | nil => simp [permute]
  | cons piece pieces ih =>
    cases piece with
    | pair fld fmul =>
      cases order with
      | nil => simp [products] at hlen
      | cons i order =>
        have hi : i < all.length := hall i (by simp)
        have hlen' : order.length = (products pieces).length := by simpa [products] using hlen
        have hrest := ih hlen' (fun j hj => hall j (by simp [hj]))
        intro p hp
        rcases mem_cons.mp hp with rfl | hp
        · simpa [hi] using hgood all[i] (getElem_mem hi)
        · exact hrest p hp
    | faddp =>
      have hlen' : order.length = (products pieces).length := by simpa [products] using hlen
      have hrest := ih hlen' hall
      intro p hp
      rcases mem_cons.mp hp with rfl | hp
      · trivial
      · exact hrest p hp

def productBytes (p : Raw × Raw) : List Byte := p.1.encode ++ p.2.encode

theorem pairSlots_layout (hdrop : body.drop start = piecesBytes pieces ++ r) :
    (pairSlots (layout start pieces)).map (slotBytes body) =
    (products pieces).map productBytes := by
  induction pieces generalizing start with
  | nil => rfl
  | cons piece pieces ih =>
    have hsplit : body.drop start = piece.bytes ++ (piecesBytes pieces ++ r) := by
      simpa [piecesBytes] using hdrop
    have hnext : body.drop (start + piece.bytes.length) = piecesBytes pieces ++ r := by
      rw [<- drop_drop, hsplit, drop_left]
    cases piece with
    | pair fld fmul =>
      simp only [layout, Piece.kind, pairSlots, filter_cons, decide_true, if_true,
        map_cons]
      rw [<- pairSlots, ih hnext]
      simp only [products, filterMap_cons, map_cons]
      rw [slotBytes, slice, hsplit, take_left, Piece.bytes_pair, productBytes]
    | faddp =>
      simp only [layout, Piece.kind, pairSlots, filter_cons]
      rw [if_neg (by simp), <- pairSlots, ih hnext]
      simp [products]

theorem rebuildSlots_layout (hdrop : body.drop start = piecesBytes pieces ++ r)
    (hlen : order.length = (products pieces).length) (hall : ∀ i ∈ order, i < all.length) :
    (rebuildSlots body (all.map productBytes) (layout start pieces) order).flatten =
      piecesBytes (permute all pieces order) := by
  induction pieces generalizing start order with
  | nil => rfl
  | cons piece pieces ih =>
    have hsplit : body.drop start = piece.bytes ++ (piecesBytes pieces ++ r) := by
      simpa [piecesBytes] using hdrop
    have hnext : body.drop (start + piece.bytes.length) = piecesBytes pieces ++ r := by
      rw [<- drop_drop, hsplit, drop_left]
    cases piece with
    | pair fld fmul =>
      cases order with
      | nil => simp [products] at hlen
      | cons i order =>
        have hi : i < all.length := hall i (by simp)
        have hlen' : order.length = (products pieces).length := by simpa [products] using hlen
        have hrest := ih hnext hlen' (fun j hj => hall j (by simp [hj]))
        simp only [layout, Piece.kind, rebuildSlots, if_true, tail_cons, flatten_cons, hrest,
          permute]
        simp [piecesBytes, productBytes, hi]
    | faddp =>
      have hlen' : order.length = (products pieces).length := by simpa [products] using hlen
      have hrest := ih hnext hlen' hall
      have hslot : slotBytes body ⟨.faddp, start, Piece.faddp.bytes.length⟩ =
          Piece.faddp.bytes := by
        rw [slotBytes, slice, hsplit, take_left]
      simp only [layout, Piece.kind, rebuildSlots, reduceCtorEq, if_false, hslot, flatten_cons,
        hrest]
      rfl

/-- What the loop establishes of one chain. -/
structure Rebuilt (body : List Byte) (relocationOffsets : List Nat) (chain : FpChain)
    (pieces : List Piece) (output : List Byte) : Prop where
  good : ∀ p ∈ pieces, p.Good
  source : ∃ r, body.drop chain.chainStart = piecesBytes pieces ++ r
  stop_eq : chain.chainStart + (piecesBytes pieces).length = chain.chainEnd
  parsed : ∃ context, fpSumParseChain body chain.chainStart chain.chainEnd context =
    .ok (layout chain.chainStart pieces)
  order : chain.order.Perm (List.range (products pieces).length)
  unrelocated : ∀ offset ∈ relocationOffsets,
    ¬ (chain.chainStart <= offset ∧ offset < chain.chainEnd)
  image : slice output chain.chainStart (chain.chainEnd - chain.chainStart) =
    piecesBytes (permute (products pieces) pieces chain.order)
  image_length : (piecesBytes (permute (products pieces) pieces chain.order)).length =
    chain.chainEnd - chain.chainStart

variable {relocationOffsets entries : List Nat} {items : List RelationalItem}
  {chains : List FpChain}
  {previousEnd : Nat} (s : State Unit)

theorem reassociateChain_rebuilt {body image image' : List Byte} {chain : FpChain}
    {proof : FpChainProof} (hlen : image.length = body.length)
    (h : reassociateChain body relocationOffsets items entries internalTargets context previousEnd
      image chain = .ok (image', proof)) :
    image'.length = body.length ∧ previousEnd <= chain.chainStart ∧
      chain.chainStart <= chain.chainEnd ∧
      (∀ o < chain.chainStart, image'[o]? = image[o]?) ∧
      ∃ pieces, Rebuilt body relocationOffsets chain pieces image' := by
  simp only [reassociateChain, bind_eq_ok, require_eq_ok] at h
  obtain ⟨_, hbounds, _, hprev, _, hreloc, _, -, slots, hslots, _, horder, _, hpermuted,
    imageSlots, -, _, -, _, -, heq⟩ := h
  cases heq
  obtain ⟨pieces, hgood, ⟨r, hdrop⟩, hstop, rfl⟩ := fpSumParseChain_pieces hslots
  rw [pairSlots_layout hdrop] at horder hpermuted ⊢
  rw [length_map] at horder
  obtain ⟨hperm, hbelow⟩ := perm_range_of_sorted horder
  have hcount : chain.order.length = (products pieces).length := by
    simpa using hperm.length_eq
  rw [rebuildSlots_layout hdrop hcount hbelow] at hpermuted ⊢
  have hfits : chain.chainStart +
      (piecesBytes (permute (products pieces) pieces chain.order)).length <= image.length := by
    omega
  refine ⟨(overwrite_length hfits).trans hlen, hprev, by omega, fun o ho => ?_, pieces, hgood,
    ⟨r, hdrop⟩, hstop, ⟨_, hslots⟩, hperm, hreloc, ?_, hpermuted⟩
  · rw [overwrite_getElem? hfits, if_neg (by rw [Span.mem_ofSize]; omega)]
  · rw [<- hpermuted, slice_overwrite hfits]

theorem reassociateChains_rebuilt {body image output : List Byte} {ordinal : Nat}
    {proofs : List FpChainProof} (hlen : image.length = body.length)
    (h : reassociateChains body relocationOffsets items entries internalTargets context ordinal
      previousEnd image chains = .ok (output, proofs)) :
    output.length = body.length ∧ (∀ o < previousEnd, output[o]? = image[o]?) ∧
      ∀ chain ∈ chains, ∃ pieces, Rebuilt body relocationOffsets chain pieces output := by
  induction chains generalizing ordinal previousEnd image proofs with
  | nil =>
    cases h
    exact ⟨hlen, fun _ _ => rfl, by simp⟩
  | cons chain chains ih =>
    simp only [reassociateChains, bind_eq_ok, Prod.exists] at h
    obtain ⟨image', proof, hchain, output', proofs', hrest, heq⟩ := h
    cases heq
    obtain ⟨hlen', hprev, hle, hsame, pieces, hrebuilt⟩ := reassociateChain_rebuilt hlen hchain
    obtain ⟨hlen'', hkept, hall⟩ := ih hlen' hrest
    refine ⟨hlen'', fun o ho => ?_, fun c hc => ?_⟩
    · rw [hkept o (by omega), hsame o (by omega)]
    · rcases mem_cons.mp hc with rfl | hc
      · refine ⟨pieces, { hrebuilt with image := ?_ }⟩
        rw [<- hrebuilt.image, slice_eq_iff]
        intro o ho
        rw [Span.mem_ofSize] at ho
        exact hkept o (by omega)
      · exact hall c hc

def LinksOnly (relocationOffsets : List Nat) (P : Program) : Prop :=
  ∀ offset r, P.reloc offset = some r -> 0 < r.width ∧ ∀ k < r.width, offset + k ∈ relocationOffsets

theorem LinksOnly.fixAt_eq_zero {P : Program}
    (h : LinksOnly relocationOffsets P) {lo hi : Nat}
    (hclear : ∀ offset ∈ relocationOffsets, ¬ (lo <= offset ∧ offset < hi)) (offset size : Nat)
    (hlo : lo <= offset) (hhi : offset + size <= hi) : P.fixAt offset size = 0 := by
  unfold Program.fixAt
  cases hr : P.reloc offset with
  | none => rfl
  | some r =>
    obtain ⟨hpos, hall⟩ := h offset r hr
    have hne : r.width ≠ size := by
      rintro rfl
      exact hclear _ (hall 0 hpos) (by omega)
    simp [hne]

def runChain {X : Type} (P : Program) (E : Env X) (chain : FpChain) (s : State X) :
    List (Event X) × Outcome X :=
  runWithin P E chain.chainStart chain.chainEnd (chain.chainEnd - chain.chainStart)
    (.running chain.chainStart s)

theorem piecesBytes_eq (pieces : List Piece) :
    piecesBytes pieces = blockBytes (pieces.flatMap Piece.block) := by
  induction pieces with
  | nil => rfl
  | cons p pieces ih =>
    have hcons : piecesBytes (p :: pieces) = p.bytes ++ piecesBytes pieces := rfl
    rw [hcons, ih]
    simp [blockBytes, Piece.bytes]

theorem runChain_pieces {α : Type} {A : FpArith α} {rest : Fpu (FpStack α)}
    {E : Env (FpStack α)} (hE : E.fpu = A.unit rest) {P : Program} {chain : FpChain}
    (hlinks : LinksOnly relocationOffsets P)
    (hclear : ∀ offset ∈ relocationOffsets, ¬ (chain.chainStart <= offset ∧
      offset < chain.chainEnd)) (hgood : ∀ p ∈ pieces, p.Good)
    (hcode : ∃ r, P.code.drop chain.chainStart = piecesBytes pieces ++ r)
    (hstop : chain.chainStart + (piecesBytes pieces).length = chain.chainEnd)
    (s : State (FpStack α)) :
    runChain P E chain s = ([], .running chain.chainEnd
      (s.withFpu (fpRun A (fpValues s (pieces.flatMap Piece.block)) s.fpu))) := by
  rw [piecesBytes_eq] at hcode hstop
  refine runWithin_fp hE (hlinks.fixAt_eq_zero hclear) ?_ le_rfl hcode hstop ?_ s
  · intro q hq
    obtain ⟨p, hp, hq⟩ := mem_flatMap.mp hq
    exact Piece.block_isFp (hgood p hp) q hq
  · have := length_le_blockBytes (pieces.flatMap Piece.block)
    omega

/-! ## What the permutation keeps -/

/-- From `s` and any x87 stack, the chain and its image leave the same stack, under every
associative and commutative addition. -/
def SumKept (body output : List Byte) (relocationOffsets : List Nat) (chain : FpChain)
    (s : State Unit) : Prop :=
  ∀ (α : Type) (A : FpArith α), (∀ a b, A.add a b = A.add b a) ->
    (∀ a b c, A.add (A.add a b) c = A.add a (A.add b c)) ->
    ∀ (rest : Fpu (FpStack α)) (E : Env (FpStack α)) (P : Program) (x : FpStack α),
      E.fpu = A.unit rest -> P.code = body -> LinksOnly relocationOffsets P ->
      ∃ y, runChain P E chain (s.withFpu x) = ([], .running chain.chainEnd (s.withFpu y)) ∧
        runChain { P with code := output } E chain (s.withFpu x) =
          ([], .running chain.chainEnd (s.withFpu y))

def pairContents (s : State Unit) (bytes : List Byte) : Nat × Nat :=
  match parse isaMap bytes with
  | none => (0, 0)
  | some (fld, r) =>
    match parse isaMap r with
    | none => (0, 0)
    | some (fmul, _) => operands s (fld, fmul)

/-- Each slot sums products of the same contents, or the chain faults on every stack. -/
def AddendsKept (body : List Byte) (chain : FpChain) (s : State Unit) : Prop :=
  ∀ context slots, fpSumParseChain body chain.chainStart chain.chainEnd context = .ok slots ->
    StackOp.Fits (slotOps 0 (slots.map FpSumSlot.kind)) ->
    let contents := (pairSlots slots).map fun slot => pairContents s (slotBytes body slot)
    ∀ k : Fin 8, (StackOp.addends (slotOps 0 (slots.map FpSumSlot.kind)) k).map
          (fun i => contents.getD i (0, 0)) =
        (StackOp.addends (slotOps 0 (slots.map FpSumSlot.kind)) k).map
          (fun i => contents.getD (chain.order.getD i 0) (0, 0))

theorem pairContents_productBytes {p : Raw × Raw} (hp : (Piece.pair p.1 p.2).Good) :
    pairContents s (productBytes p) = operands s p := by
  have hsecond : parse isaMap p.2.encode = some (p.2, []) := by
    simpa using parse_encode hp.2.wellFormed []
  simp only [pairContents, productBytes, parse_encode hp.1.wellFormed, hsecond]

theorem layout_kinds (start : Nat) (pieces : List Piece) :
    (layout start pieces).map FpSumSlot.kind = pieces.map Piece.kind := by
  induction pieces generalizing start with
  | nil => rfl
  | cons p pieces ih => simp [layout, ih]

theorem fpSumParseFrom_context
    (h : fpSumParseFrom body stop context fuel offset pending = .ok slots) (other : String) :
    fpSumParseFrom body stop other fuel offset pending = .ok slots := by
  induction fuel generalizing offset pending slots with
  | zero => cases h
  | succ fuel ih =>
    unfold fpSumParseFrom at h ⊢
    split at h
    · next hlt =>
        rw [if_pos hlt]
        simp only [bind_eq_ok, require_eq_ok, Prod.exists] at h ⊢
        obtain ⟨length, hlen, u, hle, pending', found, hadv, rest, hrest, heq⟩ := h
        refine ⟨length, ?_, u, hle, pending', found, ?_, rest, ih hrest, heq⟩
        · exact supportedIa32InstructionLength_eq_ok.mpr
            (supportedIa32InstructionLength_eq_ok.mp hlen)
        · unfold fpSumAdvance at hadv ⊢
          split at hadv <;> first | exact hadv | cases hadv
    · next hge =>
        rw [if_neg hge]
        simpa only [bind_eq_ok, require_eq_ok] using h

theorem fpSumParseChain_context
    (h : fpSumParseChain body start stop context = .ok slots) (other : String) :
    fpSumParseChain body start stop other = .ok slots := by
  simp only [fpSumParseChain, bind_eq_ok, require_eq_ok] at h ⊢
  obtain ⟨slots', hparse, u, hcount, heq⟩ := h
  exact ⟨slots', fpSumParseFrom_context hparse other, u, hcount, heq⟩

def formalArith : FpArith (Multiset (Nat × Nat)) where
  single _ := 0
  double v := {(v, 0)}
  add := (· + ·)
  sub a _ := a
  mul a b := {((a.map Prod.fst).sum, (b.map Prod.fst).sum)}

section

variable {body output : List Byte} {relocationOffsets : List Nat} {chain : FpChain}
  {pieces : List Piece}

namespace Rebuilt

variable (h : Rebuilt body relocationOffsets chain pieces output)

include h

theorem order_length : chain.order.length = (products pieces).length := by
  simpa using h.order.length_eq

theorem order_lt : ∀ i ∈ chain.order, i < (products pieces).length := by
  intro i hi
  simpa using h.order.mem_iff.mp hi

theorem product_good : ∀ p ∈ products pieces, (Piece.pair p.1 p.2).Good := by
  intro p hp
  obtain ⟨piece, hpiece, heq⟩ := mem_filterMap.mp hp
  cases piece with
  | pair fld fmul =>
    cases heq
    exact h.good _ hpiece
  | faddp => cases heq

theorem output_drop : ∃ r, output.drop chain.chainStart =
      piecesBytes (permute (products pieces) pieces chain.order) ++ r := by
  refine ⟨(output.drop chain.chainStart).drop (chain.chainEnd - chain.chainStart), ?_⟩
  rw [<- h.image, slice, take_append_drop]

variable {α : Type} {A : FpArith α} {rest : Fpu (FpStack α)} {E : Env (FpStack α)} {P : Program}

theorem run_body
    (hE : E.fpu = A.unit rest) (hcode : P.code = body) (hlinks : LinksOnly relocationOffsets P)
    (s : State Unit) (x : FpSlots α) :
    runChain P E chain (s.withFpu (some x)) = ([], .running chain.chainEnd (s.withFpu
      (StackOp.execAll A.add
        (fun i => FpArith.product A (((products pieces).map (operands s)).getD i (0, 0)))
        (slotOps 0 (pieces.map Piece.kind)) x))) := by
  rw [runChain_pieces hE hlinks h.unrelocated h.good (hcode ▸ h.source) h.stop_eq]
  rw [fpValues_withFpu, State.withFpu_fpu, State.withFpu_withFpu, fpRun_pieces]
  intro i p hp
  simp [hp]

theorem run_image
    (hE : E.fpu = A.unit rest) (hcode : P.code = output) (hlinks : LinksOnly relocationOffsets P)
    (s : State Unit) (x : FpSlots α) :
    runChain P E chain (s.withFpu (some x)) = ([], .running chain.chainEnd (s.withFpu
      (StackOp.execAll A.add (fun i => FpArith.product A
          (((products pieces).map (operands s)).getD (chain.order.getD i 0) (0, 0)))
        (slotOps 0 (pieces.map Piece.kind)) x))) := by
  rw [runChain_pieces hE hlinks h.unrelocated
    (permute_good h.order_length h.order_lt h.product_good) (hcode ▸ h.output_drop)
    (by rw [h.image_length]; have := h.stop_eq; omega)]
  rw [fpValues_withFpu, State.withFpu_fpu, State.withFpu_withFpu,
    <- permute_kinds (products pieces) pieces chain.order, fpRun_pieces]
  intro i p hp
  rw [permute_products _ _ _ h.order_length h.order_lt, Option.bind_eq_some_iff] at hp
  obtain ⟨j, hj, hp⟩ := hp
  simp [hj, hp]

/-- The runs agree exactly when the stack program does. -/
theorem sumKept_iff_execAll : SumKept body output relocationOffsets chain s ↔
      ∀ (α : Type) (A : FpArith α), (∀ a b, A.add a b = A.add b a) ->
        (∀ a b c, A.add (A.add a b) c = A.add a (A.add b c)) -> ∀ x : FpSlots α,
        StackOp.execAll A.add
            (fun i => FpArith.product A (((products pieces).map (operands s)).getD i (0, 0)))
            (slotOps 0 (pieces.map Piece.kind)) x =
          StackOp.execAll A.add (fun i => FpArith.product A
              (((products pieces).map (operands s)).getD (chain.order.getD i 0) (0, 0)))
            (slotOps 0 (pieces.map Piece.kind)) x := by
  constructor
  · intro hkept α A hcomm hassoc x
    let rest : Fpu (FpStack α) := ⟨fun _ _ _ _ y => ⟨y, none, noFlags⟩, fun _ => 0⟩
    let E : Env (FpStack α) := ⟨A.unit rest, fun _ => ∅, fun _ => none⟩
    let P : Program := ⟨body, 0, fun _ => none, ∅⟩
    have hlinks : LinksOnly relocationOffsets P := by rintro _ _ ⟨⟩
    obtain ⟨y, hbody, himage⟩ := hkept α A hcomm hassoc rest E P (some x) rfl rfl hlinks
    rw [h.run_body (A := A) (E := E) rfl rfl hlinks] at hbody
    rw [h.run_image (A := A) (E := E) rfl rfl (show LinksOnly relocationOffsets
      { P with code := output }
      from hlinks)] at himage
    have heq := congrArg Prod.snd (hbody.trans himage.symm)
    simp only [Outcome.running.injEq, true_and] at heq
    exact congrArg State.fpu heq
  · intro hexec α A hcomm hassoc rest E P x hE hcode hlinks
    have hlinks' : LinksOnly relocationOffsets { P with code := output } := hlinks
    cases x with
    | none =>
      refine ⟨none, ?_, ?_⟩
      · rw [runChain_pieces hE hlinks h.unrelocated h.good (hcode ▸ h.source) h.stop_eq]
        simp
      · rw [runChain_pieces hE hlinks' h.unrelocated
          (permute_good h.order_length h.order_lt h.product_good) h.output_drop
          (by rw [h.image_length]; have := h.stop_eq; omega)]
        simp
    | some x =>
      refine ⟨_, h.run_body hE hcode hlinks s x, ?_⟩
      rw [h.run_image hE rfl hlinks' s x, hexec α A hcomm hassoc x]

theorem contents_eq : (pairSlots (layout chain.chainStart pieces)).map
        (fun slot => pairContents s (slotBytes body slot)) =
      (products pieces).map (operands s) := by
  obtain ⟨r, hdrop⟩ := h.source
  have hbytes := congrArg (List.map (pairContents s)) (pairSlots_layout hdrop)
  rw [map_map, map_map] at hbytes
  rw [<- Function.comp_def, hbytes]
  exact map_congr_left fun p hp => pairContents_productBytes s (h.product_good p hp)

theorem sumKept_iff_addends :
    SumKept body output relocationOffsets chain s ↔ AddendsKept body chain s := by
  rw [h.sumKept_iff_execAll s]
  obtain ⟨context, hparsed⟩ := h.parsed
  constructor
  · intro hexec context' slots hslots hfits contents k
    cases hparsed.symm.trans (fpSumParseChain_context hslots context)
    rw [layout_kinds] at hfits ⊢
    rw [show contents = _ from h.contents_eq s]
    refine StackOp.addends_of_execAll _ hfits (fun x => ?_) k
    have hformal := hexec _ formalArith (fun a b => add_comm a b) (fun a b c => add_assoc a b c) x
    exact hformal
  · intro hkept α A hcomm hassoc x
    let _ : AddCommSemigroup α :=
      { add := A.add, add_assoc := hassoc, add_comm := hcomm }
    by_cases hfits : StackOp.Fits (slotOps 0 (pieces.map Piece.kind))
    · have hadd := hkept context _ hparsed (by rwa [layout_kinds])
      simp only [layout_kinds, h.contents_eq s] at hadd
      refine StackOp.execAll_congr _ (fun k => ?_) x
      have := congrArg (Multiset.map (FpArith.product A)) (hadd k)
      simpa only [Multiset.map_map, Function.comp_def] using this
    · rw [StackOp.execAll_eq_none hfits, StackOp.execAll_eq_none hfits]

end Rebuilt

end

theorem apply_rebuilt {body output : List Byte} {relocations : RelocationMap}
    {codeLength : Option Nat} {externalEntries : List Int} {proved : List FpChainProof}
    {count : Nat}
    (h : applyFpSumReassociation body chains relocationOffsets context relocations codeLength
      externalEntries internalTargets = .ok (output, proved, count)) :
    ∀ chain ∈ chains, ∃ pieces, Rebuilt body relocationOffsets chain pieces output := by
  simp only [applyFpSumReassociation, bind_eq_ok, pure_eq_ok, Prod.exists] at h
  obtain ⟨_, -, _, -, items, successors, entries, -, output', proved', hloop, _, -, _, -,
    imageItems, imageSuccessors, imageEntries, -, _, -, heq⟩ := h
  cases heq
  exact (reassociateChains_rebuilt rfl hloop).2.2

/-- Permuting the products of the declared chains keeps the x87 stack from a
machine state, under every associative and commutative addition, exactly when in
each slot a chain leaves the contents of the operands of the products summed
there stay the same. -/
theorem sumKept_iff {body output : List Byte} {chains : List FpChain}
    {relocationOffsets : List Nat} {context : String} {relocations : RelocationMap}
    {codeLength : Option Nat} {externalEntries internalTargets : List Int}
    {proved : List FpChainProof} {count : Nat}
    (h : applyFpSumReassociation body chains relocationOffsets context relocations codeLength
      externalEntries internalTargets = .ok (output, proved, count)) (s : State Unit) :
    (∀ chain ∈ chains, SumKept body output relocationOffsets chain s) ↔
      ∀ chain ∈ chains, AddendsKept body chain s := by
  have hrebuilt := apply_rebuilt h
  constructor
  · intro hkept chain hchain
    obtain ⟨pieces, hpieces⟩ := hrebuilt chain hchain
    exact (hpieces.sumKept_iff_addends s).mp (hkept chain hchain)
  · intro hkept chain hchain
    obtain ⟨pieces, hpieces⟩ := hrebuilt chain hchain
    exact (hpieces.sumKept_iff_addends s).mpr (hkept chain hchain)

/-- Every byte of memory is the low byte of its address. -/
def addressState : State Unit where
  cell
    | .mem a => BitVec.ofNat 8 a.toNat
    | .reg _ _ => 0
  flag _ := false
  segBase _ := 0
  fpu := ()

/-- `[eax]` and `[eax+8]` times `[ecx]`, one `faddp`. -/
def foldedBody : List Byte :=
  [0x90, 0xDD, 0x00, 0xDC, 0x09, 0xDD, 0x40, 0x08, 0xDC, 0x09, 0xDE, 0xC1, 0xC3]

def foldedImage : List Byte :=
  [0x90, 0xDD, 0x40, 0x08, 0xDC, 0x09, 0xDD, 0x00, 0xDC, 0x09, 0xDE, 0xC1, 0xC3]

def foldedChain : FpChain := ⟨1, 12, [1, 0]⟩

theorem foldedBody_addends : AddendsKept foldedBody foldedChain addressState := by
  intro context slots hslots _
  have hparse : fpSumParseChain foldedBody 1 12 "body" =
      .ok [⟨.pair, 1, 4⟩, ⟨.pair, 5, 5⟩, ⟨.faddp, 10, 2⟩] := by decide
  cases hparse.symm.trans (fpSumParseChain_context hslots "body")
  decide

/-- A chain whose two products meet in one slot may exchange them. -/
theorem foldedBody_sum_kept :
    applyFpSumReassociation foldedBody [foldedChain] [] "body" .empty none [] [] =
      .ok (foldedImage, [⟨1, 12, [1, 0], 2, 1, [2, 3, 4, 5, 6, 7]⟩], 7) ∧
    ∀ chain ∈ [foldedChain], SumKept foldedBody foldedImage [] chain addressState := by
  have happly : applyFpSumReassociation foldedBody [foldedChain] [] "body" .empty none [] [] =
      .ok (foldedImage, [⟨1, 12, [1, 0], 2, 1, [2, 3, 4, 5, 6, 7]⟩], 7) := by decide
  refine ⟨happly, (sumKept_iff happly addressState).mpr fun chain hchain => ?_⟩
  rw [mem_singleton.mp hchain]
  exact foldedBody_addends

/-- `[eax]`, `[eax+8]` and `[eax+16]` times `[ecx]`, one `faddp`. -/
def unfoldedBody : List Byte :=
  [0x90, 0xDD, 0x00, 0xDC, 0x09, 0xDD, 0x40, 0x08, 0xDC, 0x09, 0xDD, 0x40, 0x10, 0xDC, 0x09,
    0xDE, 0xC1, 0xC3]

/-- The first product trades places with the last. -/
def unfoldedChain : FpChain := ⟨1, 17, [2, 1, 0]⟩

def unfoldedImage : List Byte :=
  [0x90, 0xDD, 0x40, 0x10, 0xDC, 0x09, 0xDD, 0x40, 0x08, 0xDC, 0x09, 0xDD, 0x00, 0xDC, 0x09,
    0xDE, 0xC1, 0xC3]

def slotAfter {α : Type} (r : List (Event (FpStack α)) × Outcome (FpStack α)) (k : Fin 8) :
    Option α :=
  match r.2 with
  | .running _ s => s.fpu.bind fun slots => slots k
  | _ => none

def natArith : FpArith Nat := ⟨id, id, (· + ·), (· - ·), (· * ·)⟩

def natEnv : Env (FpStack Nat) :=
  ⟨natArith.unit ⟨fun _ _ _ _ x => ⟨x, none, noFlags⟩, fun _ => 0⟩, fun _ => ∅, fun _ => none⟩

/-- The products are summed in two slots, and the order moves one of them to the
other slot. -/
theorem unfoldedBody_sum_changed :
    (∃ proved count, applyFpSumReassociation unfoldedBody [unfoldedChain] [] "body" .empty none []
      [] = .ok (unfoldedImage, proved, count)) ∧
    ¬ SumKept unfoldedBody unfoldedImage [] unfoldedChain addressState := by
  refine ⟨⟨[⟨1, 17, [2, 1, 0], 3, 1, [2, 3, 4, 5, 6, 7, 8, 9, 10, 11, 12]⟩], 9,
    by decide⟩, fun hkept => ?_⟩
  obtain ⟨y, hbody, himage⟩ := hkept Nat natArith Nat.add_comm Nat.add_assoc _ natEnv
    ⟨unfoldedBody, 0, fun _ => none, ∅⟩ (some fun _ => none) rfl rfl (by rintro _ _ ⟨⟩)
  have hslot := congrArg (fun r => slotAfter r 1) (hbody.trans himage.symm)
  revert hslot
  decide

end Reprobit.Floating

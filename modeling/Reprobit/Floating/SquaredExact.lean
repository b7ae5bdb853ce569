import Reprobit.Floating.SquaredWindow
import Reprobit.Relational.FlagFacts

/-!
# Exactness of the exchange of squared addends

What the loop over the windows establishes, and what the image computes: the
same x87 stack under every commutative addition, unless an instruction the
region passed over works on the stack, another window lies in the region or two
relocation records adjoin.
-/

namespace Reprobit.Floating

open Machine List

variable {W α : Type}

variable {code : List Byte} {entries : List Nat} {start stop : Nat} {us : List UnitRaw}

variable {items : List RelationalItem} {context : String}

variable {body : List Byte} {order : List Nat}

theorem flowWalk_walked {relocations : RelocationMap}
    {codeLength : Option Nat} {externalEntries : List Int}
    {successors : List (List Nat)}
    (h : ia32RelationalFlowWalk body relocations context codeLength externalEntries =
      .ok (items, successors, entries)) : Walked body items := by
  have hwalk := relationalWalk_of_ok h
  intro item hitem
  obtain ⟨⟨offset, raw⟩, hentry, hreports⟩ := forall₂_mem hwalk.reports.flip hitem
  obtain ⟨r, hparse⟩ := parse_of_mem_sweepFrom hentry
  obtain ⟨hwf, hdrop⟩ := parse_eq_some.mp hparse
  refine ⟨raw, hwf, hreports.length_eq.symm, r ++ body.drop (codeLength.getD body.length), ?_⟩
  have hshort := (hwalk.tiled.mem_bounds hitem).2.1
  rw [<- append_assoc, <- hdrop, hreports.offset_eq, <- drop_append_of_le_length (by
    rw [<- hreports.offset_eq]; omega), take_append_drop]

/-- What one round establishes of its window in the body. -/
structure Exchanged (body : List Byte) (relocationOffsets : List Nat)
    (items : List RelationalItem) (chain : SquaredChain) (context : String) (us : List UnitRaw) :
    Prop where
  holds : Holds body chain.chainStart us chain.chainEnd
  window : Window relocationOffsets chain.chainStart us chain.order
  units : squaredUnits body chain.chainStart chain.chainEnd context =
    .ok (layUnits chain.chainStart us)
  exact : ∃ tree scan, foldTree body items chain.chainEnd us.length context = .ok (tree, scan) ∧
    canonical chain.order tree = canonical (List.range us.length) tree

theorem unitBytes_layUnits (h : Holds body start us stop) (j : Nat)
    (hj : j < us.length) :
    unitBytes body ((layUnits start us).getD j ⟨0, 0, 0⟩) = (us.get ⟨j, hj⟩).bytes := by
  obtain ⟨-, hsource, -⟩ := h
  revert hsource
  generalize body.drop stop = tail
  intro hsource
  induction us generalizing start j with
  | nil => simp at hj
  | cons u us ih =>
    have hsplit : body.drop start = u.bytes ++ (unitsBytes us ++ tail) := by
      simpa [unitsBytes] using hsource
    cases j with
    | zero =>
      simp only [layUnits, getD_cons_zero, unitBytes, slice, hsplit]
      rw [<- u.bytes_length, take_left]
      rfl
    | succ j =>
      refine ih j (by simpa using hj) ?_
      rw [<- drop_drop, hsplit, <- u.bytes_length, drop_left]

theorem rebuildUnits_eq (h : Holds body start us stop) (horder : ∀ i ∈ order, i < us.length) :
    rebuildUnits body (layUnits start us) order = unitsBytes (permuteUnits us order) := by
  induction order with
  | nil => rfl
  | cons i order ih =>
    have hi := horder i (by simp)
    rw [permuteUnits_cons hi, unitsBytes, flatMap_cons, <- unitsBytes,
      <- ih fun j hj => horder j (by simp [hj]), <- unitBytes_layUnits h i hi]
    rfl

theorem permuteUnits_good (h : Holds body start us stop) (order : List Nat) :
    ∀ u ∈ permuteUnits us order, u.Good := by
  intro u hu
  obtain ⟨i, -, hi⟩ := mem_filterMap.mp hu
  exact h.good u (mem_of_getElem? hi)

theorem holds_of_slice (hgood : ∀ u ∈ us, u.Good) (hle : start <= stop)
    (hlen : unitsLength us = stop - start) (h : slice code start (stop - start) = unitsBytes us) :
    Holds code start us stop where
  good := hgood
  source := by
    rw [<- h, slice, show stop = start + (stop - start) by omega, <- drop_drop,
      show start + (stop - start) - start = stop - start by omega, take_append_drop]
  stop_eq := by omega

theorem comparable_eq_ok {code : Option (List CodeItem)} {c : List CodeItem}
    (h : comparable code = .ok c) : code = some c := by
  cases code with
  | none => cases h
  | some d =>
    cases h
    rfl

variable {proof : SquaredChainProof} {chain : SquaredChain} {tree : FoldTree Nat}
  {internalTargets : List Int} {previousEnd : Nat}

theorem exchangeChain_exchanged {body image image' : List Byte} {relocationOffsets : List Nat}
    (hlen : image.length = body.length)
    (h : exchangeChain body relocationOffsets items entries internalTargets context previousEnd
      image chain = .ok (image', proof)) :
    image'.length = body.length ∧ previousEnd <= chain.chainStart ∧
      chain.chainStart <= chain.chainEnd ∧
      (∀ o, ¬ (chain.chainStart <= o ∧ o < chain.chainEnd) -> image'[o]? = image[o]?) ∧
      ∃ us, Exchanged body relocationOffsets items chain context us ∧
        Holds image' chain.chainStart (permuteUnits us chain.order) chain.chainEnd ∧
        ∀ p, p ∈ proof.relocationReseat ↔
          p ∈ Window.reseat relocationOffsets chain.chainStart us chain.order := by
  simp only [exchangeChain, requireWholeRuns, bind_eq_ok, require_eq_ok,
    pure_eq_ok, Prod.exists] at h
  obtain ⟨_, hbounds, _, hprev, _, -, runs, ⟨_, -, _, -, hruns⟩, units, hunits, _, hinside, tree,
    scan, htree, _, hsorted, _, -, permuted, hpermuted, identity, hidentity, _, hexact, _,
    hrebuilt, _, -, _, -, heq⟩ := h
  cases heq
  subst hruns hexact
  obtain ⟨us, hholds, rfl⟩ := squaredUnits_holds hbounds.2.2 hunits
  rw [layUnits_length] at hsorted htree hidentity
  have hstop := hholds.stop_eq
  obtain ⟨hperm, hbelow⟩ := perm_range_of_sorted hsorted
  have hwindow : Window relocationOffsets chain.chainStart us chain.order :=
    ⟨hbounds.1, hperm, by rw [hstop]; exact hinside⟩
  rw [rebuildUnits_eq hholds hbelow] at hrebuilt ⊢
  rw [unitsBytes_length] at hrebuilt
  have hfits : chain.chainStart + (unitsBytes (permuteUnits us chain.order)).length <=
      image.length := by
    rw [unitsBytes_length]
    omega
  refine ⟨(overwrite_length hfits).trans hlen, hprev, by omega, fun o ho => ?_, us,
    ⟨hholds, hwindow, hunits, tree, scan, htree, ?_⟩, ?_, fun p => ?_⟩
  · rw [overwrite_getElem? hfits, if_neg]
    rw [Span.mem_ofSize, unitsBytes_length]
    omega
  · rw [comparable_eq_ok hpermuted, comparable_eq_ok hidentity]
  · refine holds_of_slice (permuteUnits_good hholds _) (by omega) hrebuilt ?_
    rw [<- hrebuilt, <- unitsBytes_length, slice_overwrite hfits]
  · simp [sortPairs, Window.reseat, hstop]

/-- What the loop establishes of the image. -/
structure Exchanges (body : List Byte) (relocationOffsets : List Nat)
    (items : List RelationalItem) (context : String) (ordinal : Nat) (chains : List SquaredChain)
    (image : List Byte) (proofs : List SquaredChainProof) : Prop where
  sorted : chains.Pairwise fun a b => a.chainEnd <= b.chainStart
  ordered : ∀ chain ∈ chains, chain.chainStart <= chain.chainEnd
  count : proofs.length = chains.length
  chain : ∀ k chain proof, chains[k]? = some chain -> proofs[k]? = some proof ->
    ∃ us, Exchanged body relocationOffsets items chain
        (context ++ " x87 chain " ++ toString (ordinal + k)) us ∧
      Holds image chain.chainStart (permuteUnits us chain.order) chain.chainEnd ∧
      ∀ p, p ∈ proof.relocationReseat ↔
        p ∈ Window.reseat relocationOffsets chain.chainStart us chain.order

theorem Holds.congr {code' : List Byte} (h : Holds code start us stop)
    (hagree : AgreeOn code code' ⟨start, stop⟩) : Holds code' start us stop := by
  have hstop := h.stop_eq
  refine holds_of_slice h.good (by omega) (by omega) ?_
  have hslice : slice code start (stop - start) = unitsBytes us := by
    rw [slice, h.source, show stop - start = (unitsBytes us).length by rw [unitsBytes_length]; omega,
      take_left]
  rw [<- hslice]
  exact hagree.slice le_rfl (by dsimp only; omega)

theorem exchangeChains_exchanges {body image output : List Byte} {relocationOffsets : List Nat}
    {ordinal : Nat} {chains : List SquaredChain} {proofs : List SquaredChainProof}
    (hlen : image.length = body.length)
    (h : exchangeChains body relocationOffsets items entries internalTargets context ordinal
      previousEnd image chains = .ok (output, proofs)) :
    output.length = body.length ∧ (∀ chain ∈ chains, previousEnd <= chain.chainStart) ∧
      (∀ o, (∀ chain ∈ chains, ¬ (chain.chainStart <= o ∧ o < chain.chainEnd)) ->
        output[o]? = image[o]?) ∧
      Exchanges body relocationOffsets items context ordinal chains output proofs := by
  induction chains generalizing ordinal previousEnd image proofs with
  | nil =>
    cases h
    exact ⟨hlen, by simp, fun _ _ => rfl, .nil, by simp, rfl, by simp⟩
  | cons chain chains ih =>
    simp only [exchangeChains, bind_eq_ok, Prod.exists] at h
    obtain ⟨image', proof, hchain, output', proofs', hrest, heq⟩ := h
    cases heq
    obtain ⟨hlen', hprev, hle, hsame, us, hexchanged, hholds, hreseat⟩ :=
      exchangeChain_exchanged hlen hchain
    obtain ⟨hlen'', hafter, hkept, hall⟩ := ih hlen' hrest
    refine ⟨hlen'', ?_, fun o ho => ?_, ?_⟩
    · intro c hc
      rcases mem_cons.mp hc with rfl | hc
      · exact hprev
      · have := hafter c hc
        omega
    · rw [hkept o fun c hc => ho c (by simp [hc]), hsame o (ho chain (by simp))]
    · refine ⟨pairwise_cons.mpr ⟨fun c hc => hafter c hc, hall.sorted⟩, ?_,
        by simp [hall.count], ?_⟩
      · intro c hc
        rcases mem_cons.mp hc with rfl | hc
        · exact hle
        · exact hall.ordered c hc
      · intro k c p hc hp
        cases k with
        | zero =>
          simp only [getElem?_cons_zero, Option.some.injEq] at hc hp
          subst hc hp
          refine ⟨us, hexchanged, hholds.congr fun o ho => ?_, hreseat⟩
          rw [Span.mem_def] at ho
          refine (hkept o fun d hd => ?_).symm
          have := hafter d hd
          dsimp only at ho
          omega
        | succ k =>
          obtain ⟨vs, hvs⟩ := hall.chain k c p (by simpa using hc) (by simpa using hp)
          refine ⟨vs, ?_⟩
          rwa [show ordinal + (k + 1) = ordinal + 1 + k by omega]

/-! ## Exactness -/

def consumption (body : List Byte) (context : String) (relocations : RelocationMap)
    (codeLength : Option Nat) (externalEntries : List Int) (ordinal : Nat) (chain : SquaredChain) :
    Refusing (FoldTree Nat × Nat) := do
  let (items, _, _) <- ia32RelationalFlowWalk body relocations context codeLength externalEntries
  let units <- squaredUnits body chain.chainStart chain.chainEnd
    (context ++ " x87 chain " ++ toString ordinal)
  foldTree body items chain.chainEnd units.length (context ++ " x87 chain " ++ toString ordinal)

/-- `[start, stop)` leaves the same x87 stack, and the same world around it, in the program
and its image, if the addition is commutative. -/
def StackKept (P : Program) (image : List Byte) (pairs : List (Nat × Nat)) (start stop : Nat) :
    Prop :=
  ∀ (W α : Type) (A : FpArith α), (∀ a b, A.add a b = A.add b a) ->
    ∀ (S : Surround W α) (s : W × FpStack α),
      regionRun lengthMap A S (movedProgram P image pairs) start stop s =
        regionRun lengthMap A S P start stop s

/-- Only escapes touch the stack; no other window or adjoining record. -/
structure Undisturbed (P : Program) (relocationOffsets : List Nat) (chains : List SquaredChain)
    (chain : SquaredChain) (stop : Nat) : Prop where
  plain : ∀ is, Lists lengthMap P.code chain.chainEnd is stop -> PlainEscapes is
  alone : ∀ other ∈ chains, other.chainEnd <= chain.chainEnd ∨ stop <= other.chainStart
  heads : ∀ o r, P.reloc o = some r -> chain.chainStart <= o -> o < chain.chainEnd ->
    o - 1 ∉ relocationOffsets

theorem disjoint_windows {chains : List SquaredChain}
    (hsorted : chains.Pairwise fun a b => a.chainEnd <= b.chainStart) {i j : Nat}
    {a b : SquaredChain} (ha : chains[i]? = some a) (hb : chains[j]? = some b) (hne : i ≠ j) :
    a.chainEnd <= b.chainStart ∨ b.chainEnd <= a.chainStart := by
  obtain ⟨hi, rfl⟩ := List.getElem?_eq_some_iff.mp ha
  obtain ⟨hj, rfl⟩ := List.getElem?_eq_some_iff.mp hb
  rcases Nat.lt_or_gt_of_ne hne with hlt | hgt
  · exact .inl (pairwise_iff_getElem.mp hsorted i j hi hj hlt)
  · exact .inr (pairwise_iff_getElem.mp hsorted j i hj hi hgt)

theorem placeFrom_good (h : ∀ u ∈ us, u.Good) : ∀ p ∈ placeFrom start us, p.2.Good := by
  induction us generalizing start with
  | nil => simp [placeFrom]
  | cons u us ih =>
    intro p hp
    rcases mem_cons.mp hp with rfl | hp
    · exact h u (by simp)
    · exact ih (fun v hv => h v (by simp [hv])) p hp

theorem lineRun_permuted {A : FpArith α} (hcomm : ∀ a b, A.add a b = A.add b a) {count : Nat}
    {is : List (Nat × Raw)} {t : FoldState} (hfolds : Folds is (.initial count) t)
    (hplain : PlainEscapes is) (hstack : t.stack = [tree])
    (hsquared : ∀ n ∈ tree.leaves, t.squared.getD n false = true)
    (hswap : FoldTree.SwapEq (tree.map fun n => order.getD n 0) tree) (S : Surround W α)
    (P : Program) (v : Nat -> α) (w : W) (x : FpStack α) :
    lineRun A S P is (w, FpSlots.pushAll ((List.range count).map fun i => v (order.getD i 0)) x) =
      lineRun A S P is (w, FpSlots.pushAll ((List.range count).map v) x) := by
  cases x with
  | none => simp
  | some x =>
    have hpush := @FpSlots.pushAll_layer α x.all
      ((List.range count).map fun i => v (order.getD i 0)) ((List.range count).map v) [] []
      (by simp) rfl (FpSlots.Room.all x)
    rw [FpSlots.layer_nil_all] at hpush
    rcases hpush with ⟨hnone, hnone'⟩ | ⟨hroom, hsome, hsome'⟩
    · rw [hnone, hnone']
    · simp only [append_nil, length_map, length_range] at hroom hsome hsome'
      have hinitial : (FoldState.initial count).stack.length = count := by
        simp [FoldState.initial]
      obtain ⟨-, hview⟩ := hfolds hplain A S P w
      rw [hsome, hsome', <- FoldState.view_initial A, <- FoldState.view_initial A,
        hview _ _ (hinitial.symm ▸ hroom), hview _ _ (hinitial.symm ▸ hroom),
        view_permuted hcomm hstack hsquared hswap]

section

variable {body image : List Byte} {relocationOffsets : List Nat} {items : List RelationalItem}
  {context : String} {chains : List SquaredChain} {proofs : List SquaredChainProof}

section

variable (h : Exchanges body relocationOffsets items context 0 chains image proofs) {P : Program}
  {k : Nat}

include h

/-- Every move belongs to a window and stays inside it. -/
theorem Exchanges.pair_window {p : Nat × Nat}
    (hp : p ∈ proofs.flatMap SquaredChainProof.relocationReseat) :
    ∃ k chain us, chains[k]? = some chain ∧
      Exchanged body relocationOffsets items chain
        (context ++ " x87 chain " ++ toString (0 + k)) us ∧
      p ∈ Window.reseat relocationOffsets chain.chainStart us chain.order ∧
      (chain.chainStart <= p.1 ∧ p.1 < chain.chainEnd) ∧
      chain.chainStart <= p.2 ∧ p.2 < chain.chainEnd := by
  obtain ⟨proof, hproof, hp⟩ := mem_flatMap.mp hp
  obtain ⟨k, hk⟩ := mem_iff_getElem?.mp hproof
  have hlt : k < chains.length := by
    rw [<- h.count]
    exact (List.getElem?_eq_some_iff.mp hk).1
  obtain ⟨us, hexchanged, -, hreseat⟩ := h.chain k _ proof (getElem?_eq_getElem hlt) hk
  have hmem := (hreseat p).mp hp
  have hbounds := hexchanged.window.reseat_bounds hmem
  rw [hexchanged.holds.stop_eq] at hbounds
  exact ⟨k, _, us, getElem?_eq_getElem hlt, hexchanged, hmem, hbounds⟩

section

variable (hexchanged : Exchanged body relocationOffsets items chain
  (context ++ " x87 chain " ++ toString (0 + k)) us)
  (hreseat : ∀ p, p ∈ proof.relocationReseat ↔
  p ∈ Window.reseat relocationOffsets chain.chainStart us chain.order)
  (hk : chains[k]? = some chain) (hproof : proofs[k]? = some proof)
  (hlinks : LinksOnly relocationOffsets P)

include hexchanged hreseat hk hproof hlinks

theorem Exchanges.moved (hheads : ∀ o r, P.reloc o = some r -> chain.chainStart <= o ->
      o < chain.chainEnd -> o - 1 ∉ relocationOffsets) {p : SquaredUnit × Nat}
    (hp : p ∈ placements (layUnits chain.chainStart us) chain.chainStart chain.order) {o : Nat}
    (ho : o < p.1.length) :
    movedRelocs (proofs.flatMap SquaredChainProof.relocationReseat) P.reloc (p.2 + o) =
      P.reloc (p.1.offset + o) := by
  have hstop := hexchanged.holds.stop_eq
  refine hexchanged.window.moved_eq (fun q hq => ?_) (fun q hq hin => ?_) (fun o r hr => ?_)
    (fun o r hr hlo hhi => hheads o r hr hlo (by omega)) hp ho
  · exact mem_flatMap.mpr ⟨proof, mem_of_getElem? hproof, (hreseat q).mpr hq⟩
  · obtain ⟨proof', hproof', hq'⟩ := mem_flatMap.mp hq
    obtain ⟨j, hj⟩ := mem_iff_getElem?.mp hproof'
    have hlt : j < chains.length := by
      rw [<- h.count]
      exact (List.getElem?_eq_some_iff.mp hj).1
    obtain ⟨vs, hvs, -, hreseat'⟩ := h.chain j _ proof' (getElem?_eq_getElem hlt) hj
    have hbounds := hvs.window.reseat_bounds ((hreseat' q).mp hq')
    rw [hvs.holds.stop_eq] at hbounds
    by_cases hjk : j = k
    · subst hjk
      cases hproof.symm.trans hj
      exact (hreseat q).mp hq'
    · exfalso
      have := disjoint_windows h.sorted (getElem?_eq_getElem hlt) hk hjk
      omega
  · obtain ⟨hpos, hall⟩ := hlinks o r hr
    simpa using hall 0 hpos

theorem stackKept_of_exchanges (hwalk : Walked body items)
    (hagree : ∀ o, (∀ chain ∈ chains, ¬ (chain.chainStart <= o ∧ o < chain.chainEnd)) ->
      image[o]? = body[o]?)
    (himage : Holds image chain.chainStart (permuteUnits us chain.order) chain.chainEnd)
    (htree : foldTree body items chain.chainEnd us.length
      (context ++ " x87 chain " ++ toString (0 + k)) = .ok (tree, stop))
    (hexact : canonical chain.order tree = canonical (List.range us.length) tree)
    (hcode : P.code = body) (hundisturbed : Undisturbed P relocationOffsets chains chain stop) :
    StackKept P image (proofs.flatMap SquaredChainProof.relocationReseat) chain.chainStart
      stop := by
  intro W α A hcomm S s
  obtain ⟨w, x⟩ := s
  obtain ⟨hleaves, is, t, hlists, hfolds, hstack, hsquared⟩ := foldTree_eq_ok hwalk htree
  have hswap := (canonical_eq_iff hleaves chain.order).mp hexact
  have hplain := hundisturbed.plain is (hcode ▸ hlists)
  -- no window lies in the region
  have hfree : ∀ o, chain.chainEnd <= o -> o < stop -> ∀ other ∈ chains,
      ¬ (other.chainStart <= o ∧ o < other.chainEnd) := by
    intro o hlo hhi other hother hin
    rcases hundisturbed.alone other hother with h' | h' <;> omega
  have hregion : Lists lengthMap image chain.chainEnd is stop := by
    refine hlists.congr fun o ho => ?_
    exact (hagree o (hfree o ho.1 ho.2)).symm
  have hwidths : ∀ o r, P.reloc o = some r -> 0 < r.width := fun o r hr => (hlinks o r hr).1
  have hwidths' : ∀ o r, (movedProgram P image
      (proofs.flatMap SquaredChainProof.relocationReseat)).reloc o = some r -> 0 < r.width := by
    intro o r hr
    obtain ⟨o', hr'⟩ := movedRelocs_some hr
    exact hwidths o' r hr'
  have hsame : ∀ p ∈ is, (movedProgram P image
      (proofs.flatMap SquaredChainProof.relocationReseat)).fixups p.1 p.2 = P.fixups p.1 p.2 := by
    intro p hp
    have hbounds := hlists.bounds p hp
    refine fixups_congr hwidths hwidths' fun o ho => movedRelocs_eq_self fun q hq => ?_
    obtain ⟨j, other, vs, hj, -, -, hq1, hq2⟩ := h.pair_window hq
    have := hfree (p.1 + o) (by omega) (by omega) other (mem_of_getElem? hj)
    omega
  have hbody := hexchanged.holds.lists.append hlists
  have hmoved := himage.lists.append hregion
  rw [regionRun_eq (P := P) (hcode ▸ hbody), regionRun_eq hmoved, lineRun_append, lineRun_append,
    lineRun_window A S P (placeFrom_good hexchanged.holds.good),
    lineRun_window A S _ (placeFrom_good himage.good), Option.bind_some, Option.bind_some,
    lineRun_congr A S hsame, hexchanged.window.map_value_eq A S w hwidths hwidths'
      fun p hp o ho => h.moved hexchanged hreseat hk hproof hlinks hundisturbed.heads hp ho,
    map_value_eq]
  exact lineRun_permuted hcomm hfolds hplain hstack hsquared hswap S P _ w x

end

end

end

/-- The body linked without relocations. -/
def unlinked (body : List Byte) : Program := ⟨body, 0, fun _ => none, ∅⟩

/-- The squares of `[eax] - [ecx]` and `[eax+4] - [ecx+4]`, added. -/
def squaresBody : List Byte :=
  [0x90, 0xD9, 0x00, 0xD8, 0x21, 0xD9, 0x40, 0x04, 0xD8, 0x61, 0x04, 0xD8, 0xC8, 0xD9, 0xC9,
    0xD8, 0xC8, 0xDE, 0xC1, 0xC3]

def squaresImage : List Byte :=
  [0x90, 0xD9, 0x40, 0x04, 0xD8, 0x61, 0x04, 0xD9, 0x00, 0xD8, 0x21, 0xD8, 0xC8, 0xD9, 0xC9,
    0xD8, 0xC8, 0xDE, 0xC1, 0xC3]

def squaresChain : SquaredChain := ⟨1, 11, [1, 0], [2, 3, 4, 5, 6, 7, 8, 9, 10], []⟩

def squaresProof : SquaredChainProof :=
  ⟨1, 11, [1, 0], 2, [], [(1, 7), (3, 9), (5, 1), (8, 4)], [2, 3, 4, 5, 6, 7, 8, 9, 10]⟩

theorem squares_undisturbed :
    Undisturbed (unlinked squaresBody) [] [squaresChain] squaresChain 19 where
  plain is hlists := by
    have hlisting : listing lengthMap squaresBody 19 9 11 = some is :=
      hlists.listing_eq (by decide)
    have heval : listing lengthMap squaresBody 19 9 11 =
        some [(11, registerRaw 0xD8 0xC8), (13, registerRaw 0xD9 0xC9),
          (15, registerRaw 0xD8 0xC8), (17, registerRaw 0xDE 0xC1)] := by decide
    cases heval.symm.trans hlisting
    intro p hp _
    simp only [mem_cons, not_mem_nil, or_false] at hp
    rcases hp with rfl | rfl | rfl | rfl <;> exact ⟨_, rfl, by decide⟩
  alone other hother := by
    rw [mem_singleton.mp hother]
    exact .inl le_rfl
  heads o r hr := by cases hr

/-- The same body with `fadd dword ptr ds:[eax]` before the `faddp`. -/
def prefixedBody : List Byte :=
  [0x90, 0xD9, 0x00, 0xD8, 0x21, 0xD9, 0x40, 0x04, 0xD8, 0x61, 0x04, 0xD8, 0xC8, 0xD9, 0xC9,
    0xD8, 0xC8, 0x3E, 0xD8, 0x00, 0xDE, 0xC1, 0xC3]

def prefixedImage : List Byte :=
  [0x90, 0xD9, 0x40, 0x04, 0xD8, 0x61, 0x04, 0xD9, 0x00, 0xD8, 0x21, 0xD8, 0xC8, 0xD9, 0xC9,
    0xD8, 0xC8, 0x3E, 0xD8, 0x00, 0xDE, 0xC1, 0xC3]

/-- A commutative addition that is not associative. -/
def doublingArith : FpArith Nat where
  single n := n
  double n := n
  add a b := 2 * (a + b)
  sub a b := a + 10 * b
  mul a b := a * b

def displacementSurround : Surround Unit Nat where
  operand raw _ _ := leNat raw.disp + 1
  other _ _ w := some w
  unit _ _ w x := some (w, x)

def emptySlots : FpSlots Nat := fun _ => none

def topAfter (r : Option (Unit × FpStack Nat)) : Option Nat :=
  r.bind fun s => s.2.bind fun slots => slots 0

end Reprobit.Floating

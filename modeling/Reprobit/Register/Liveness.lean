import Reprobit.Register.Decode
import Reprobit.Machine.Equations

/-!
# Backward atom liveness

The fixpoint iteration over a supplied control-flow graph, and the graph of the
body itself.
-/

namespace Reprobit

open Machine

abbrev LiveSets := List (Finset Atom)

def unionOver (live : LiveSets) (edges : List Nat) : Finset Atom :=
  edges.foldr (fun edge acc => live.getD edge ∅ ∪ acc) ∅

def livenessValue (item : Instruction) (edges : List Nat) (blinded : Finset Atom)
    (live : LiveSets) : Finset Atom :=
  (unionOver live edges \ item.writeAtoms) ∪ (item.readAtoms \ blinded)

def livenessPass (instructions : List Instruction) (successors : List (List Nat))
    (blind : Nat -> Finset Atom) : List Nat -> LiveSets -> LiveSets × Bool
  | [], live => (live, false)
  | index :: rest, live =>
    match instructions[index]? with
    | none => livenessPass instructions successors blind rest live
    | some item =>
      let value := livenessValue item (successors.getD index []) (blind index) live
      if value = live.getD index ∅ then livenessPass instructions successors blind rest live
      else ((livenessPass instructions successors blind rest (live.set index value)).1, true)

def livenessRounds (instructions : List Instruction) (successors : List (List Nat))
    (context : String) (blind : Nat -> Finset Atom) : Nat -> LiveSets -> Refusing LiveSets
  | 0, _ => .error (context ++ ": liveness did not converge")
  | rounds + 1, live =>
    let pass := livenessPass instructions successors blind
      (List.range instructions.length).reverse live
    if pass.2 then livenessRounds instructions successors context blind rounds pass.1
    else .ok pass.1

variable (instructions : List Instruction) (context : String)

/-- Backward liveness over the supplied graph; `blind` hides some reads. -/
def ia32BackwardLiveness (successors : List (List Nat)) (context : String)
    (blind : Nat -> Finset Atom) : Refusing LiveSets :=
  livenessRounds instructions successors context blind (instructions.length * 20 + 20)
    (instructions.map fun _ => ∅)

def ia32LiveOut (live : LiveSets) (successors : List (List Nat)) (index : Nat) : Finset Atom :=
  unionOver live (successors.getD index [])

/-- Nothing is blinded. -/
def noBlind : Nat -> Finset Atom := fun _ => ∅

def fallEdges (index : Nat) (item : Instruction) : Refusing (List Nat) :=
  if item.flow = .fall ∨ item.flow = .jcc ∨ item.flow = .call then
    if index + 1 < instructions.length then pure [index + 1]
    else do
      require (item.flow ≠ .fall) (context ++ ": body falls off its end")
      pure []
  else pure []

def instructionEdges (index : Nat) (item : Instruction) : Refusing (List Nat) := do
  let fall <- fallEdges instructions context index item
  if item.flow = .jcc ∨ item.flow = .jmp then
    match instructions.findIdx? (fun other => some (other.offset : Int) = item.target) with
    | some target => pure (fall ++ [target])
    | none => .error "KeyError"
  else pure fall

def successorsFrom : List Instruction -> Nat -> Refusing (List (List Nat)) :=
  enumerateFrom (instructionEdges instructions context)

def registerBijectionLiveSets : Refusing (LiveSets × List (List Nat)) := do
  let successors <- successorsFrom instructions context instructions 0
  let live <- ia32BackwardLiveness instructions successors context noBlind
  pure (live, successors)

variable {instructions : List Instruction} {successors : List (List Nat)} {context : String}

theorem successorsFrom_eq_ok {items : List Instruction} {index : Nat}
    (h : successorsFrom instructions context items index = .ok successors) :
    successors.length = items.length ∧ ∀ k item, items[k]? = some item ->
        instructionEdges instructions context (index + k) item = .ok (successors.getD k []) := by
  obtain ⟨hlen, hall⟩ := enumerateFrom_eq_ok.mp h
  refine ⟨hlen, fun k item hk => ?_⟩
  obtain ⟨edges, hedges, hf⟩ := hall k item hk
  rw [hf, List.getD_eq_getElem?_getD, hedges, Option.getD_some]

/-! ## The fixpoint -/

theorem mem_unionOver {live : LiveSets} {atom : Atom} {edges : List Nat} :
    atom ∈ unionOver live edges ↔ ∃ edge ∈ edges, atom ∈ live.getD edge ∅ := by
  induction edges with
  | nil => simp [unionOver]
  | cons edge edges ih =>
    rw [List.exists_mem_cons_iff, <- ih]
    exact Finset.mem_union

def livenessEquations (instructions : List Instruction) (successors : List (List Nat))
    (blind : Nat -> Finset Atom) : Equations Atom where
  size := instructions.length
  value live index :=
    match instructions[index]? with
    | none => ∅
    | some item => livenessValue item (successors.getD index []) (blind index) live
  mono := by
    intro live other h index
    split
    · exact subset_rfl
    · refine Finset.union_subset_union_left (Finset.sdiff_subset_sdiff ?_ subset_rfl)
      intro atom hatom
      obtain ⟨edge, hedge, hmem⟩ := mem_unionOver.mp hatom
      exact mem_unionOver.mpr ⟨edge, hedge, h edge hmem⟩
  behind h := by rw [List.getElem?_eq_none h]

variable {blind : Nat -> Finset Atom}

theorem livenessPass_eq {indices : List Nat} (h : ∀ index ∈ indices, index < instructions.length)
    (live : LiveSets) : livenessPass instructions successors blind indices live =
      (livenessEquations instructions successors blind).pass indices live := by
  induction indices generalizing live with
  | nil => rfl
  | cons index rest ih =>
    obtain ⟨hindex, hrest⟩ := List.forall_mem_cons.mp h
    simp only [livenessPass, Equations.pass, livenessEquations, List.getElem?_eq_getElem hindex,
      ih hrest]

theorem livenessRounds_eq (rounds : Nat) (live : LiveSets) :
    livenessRounds instructions successors context blind rounds live =
      ((livenessEquations instructions successors blind).solve
        (List.range instructions.length).reverse rounds live).elim
        (.error (context ++ ": liveness did not converge")) .ok := by
  induction rounds generalizing live with
  | zero => rfl
  | succ rounds ih =>
    have hpass : ∀ index ∈ (List.range instructions.length).reverse,
        index < instructions.length := by simp
    simp only [livenessRounds, Equations.solve, livenessPass_eq hpass, ih]
    split <;> rfl

/-- The iteration returns whenever the reads come from at most twenty atoms, and its
result is the least solution of the liveness equations. -/
theorem ia32BackwardLiveness_least {atoms : Finset Atom} (hcard : atoms.card <= 20)
    (hread : ∀ item ∈ instructions, item.readAtoms ⊆ atoms) :
    ∃ live, ia32BackwardLiveness instructions successors context blind = .ok live ∧
      (livenessEquations instructions successors blind).Solves live ∧
      ∀ other, (livenessEquations instructions successors blind).Solves other ->
        Within live other := by
  have hclosed : (livenessEquations instructions successors blind).Closed
      (List.replicate instructions.length atoms) := by
    intro index
    simp only [livenessEquations]
    split
    · exact Finset.empty_subset _
    · next item hitem =>
        have hself : (List.replicate instructions.length atoms).getD index ∅ = atoms := by
          simp [(List.getElem?_eq_some_iff.mp hitem).1]
        rw [hself]
        refine Finset.union_subset (Finset.sdiff_subset.trans fun atom hatom => ?_)
          (Finset.sdiff_subset.trans (hread item (List.mem_of_getElem? hitem)))
        obtain ⟨edge, -, hmem⟩ := mem_unionOver.mp hatom
        by_cases hedge : edge < instructions.length <;> simp_all
  have hrounds : instructions.length * atoms.card < instructions.length * 20 + 20 := by
    have := Nat.mul_le_mul_left instructions.length hcard
    omega
  have horder : ∀ index < instructions.length, index ∈ (List.range instructions.length).reverse :=
    by simp
  obtain ⟨live, hlive, hsolves, hleast⟩ := Equations.solve_empty horder hclosed hrounds
  refine ⟨live, ?_, hsolves, hleast⟩
  rw [ia32BackwardLiveness, livenessRounds_eq, List.map_const']
  exact congrArg (Option.elim · _ _) hlive

/-- Two `inc eax` that run in a circle. -/
theorem increments_least :
    let inc : Instruction :=
      { offset := 0, length := 1, opcode := 0x40, fields := [⟨0, 0⟩], reads := {.eax},
        writes := {.eax}, flow := .fall, target := none, frozen := ∅, memory := none,
        encoding := none, indirect := false, readAtoms := ia32AtomsOf .eax,
        writeAtoms := ia32AtomsOf .eax }
    let equations := livenessEquations [inc, inc] [[1], [0]] noBlind
    ∃ live, ia32BackwardLiveness [inc, inc] [[1], [0]] "body" noBlind = .ok live ∧
      equations.Solves live ∧ ∀ other, equations.Solves other -> Within live other :=
  ia32BackwardLiveness_least (by decide : (ia32AtomsOf .eax).card <= 20) (by decide)

end Reprobit

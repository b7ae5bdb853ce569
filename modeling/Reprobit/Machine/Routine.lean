import Reprobit.Machine.Bounded

/-!
# Routines over named variables

A routine is a list of nodes in the order of its text.  A node reads variables, acts on a world,
may assign one variable and may take addresses; what a store through a pointer reaches are the
variables whose address was taken.  Control falls to the next node, jumps to a label, or
finishes.  Reading a variable without a value is wrong.
-/

namespace Reprobit.Machine.Routine

open Function

inductive Next (L V : Type) where
  | fall
  | jump (label : L)
  | finish (value : Option V)

structure Outcome (L N V W : Type) where
  assigned : Option V
  stored : N -> Option V
  world : W
  next : Next L V

structure State (N V W : Type) where
  locals : N -> Option V
  escaped : List N
  world : W

/-- Act on what is read, or copy a variable to another. -/
inductive Deed (L N V W : Type) where
  | act (reads : List (Nat × N)) (assigned : Option N) (taken : List N)
      (run : List V -> W -> Outcome L N V W)
  | copy (source target : N) (convert : V -> V)

structure Node (L N V W : Type) where
  start : Nat
  label : Option L
  deed : Deed L N V W

abbrev Code (L N V W : Type) := List (Node L N V W)

variable {L N V W : Type} [DecidableEq N]

namespace State

/-- A variable set to a value, or to none. -/
def set (s : State N V W) (x : N) (v : Option V) : State N V W :=
  { s with locals := update s.locals x v }

section

variable (s : State N V W)

include s

@[simp] theorem set_world (x : N) (v : Option V) : (s.set x v).world = s.world := rfl

@[simp] theorem set_escaped (x : N) (v : Option V) : (s.set x v).escaped = s.escaped := rfl

@[simp] theorem set_locals_same (x : N) (v : Option V) :
    (s.set x v).locals x = v := update_self ..

theorem set_locals_ne {x y : N} (h : y ≠ x) (v : Option V) :
    (s.set x v).locals y = s.locals y := update_of_ne h ..

@[simp] theorem set_set (x : N) (v w : Option V) : (s.set x v).set x w = s.set x w := by
  simp [set]

theorem set_comm {x y : N} (h : x ≠ y) (v w : Option V) :
    (s.set x v).set y w = (s.set y w).set x v := by
  simp only [set, mk.injEq, and_true]
  exact update_comm h ..

@[simp] theorem set_self (x : N) : s.set x (s.locals x) = s := by
  simp [set]

end

/-- The assigned variable, then what pointers reach. -/
def after (s : State N V W) (assigned : Option N) (taken : List N) (out : Outcome L N V W) :
    State N V W where
  locals x :=
    if assigned = some x then out.assigned
    else if x ∈ s.escaped ++ taken then (out.stored x).or (s.locals x)
    else s.locals x
  escaped := s.escaped ++ taken
  world := out.world

end State

def Outcome.going (world : W) (next : Next L V) : Outcome L N V W :=
  ⟨none, fun _ => none, world, next⟩

omit [DecidableEq N] in
@[simp] theorem Outcome.going_next (world : W) (next : Next L V) :
    (Outcome.going world next : Outcome L N V W).next = next := rfl

@[simp] theorem State.after_going (s : State N V W) (next : Next L V) :
    s.after none [] (.going s.world next) = s := by
  simp [State.after, Outcome.going]

namespace Deed

def step (d : Deed L N V W) (s : State N V W) : Option (State N V W × Next L V) :=
  match d with
  | .act reads assigned taken run =>
    (reads.mapM fun r => s.locals r.2).map fun values =>
      (s.after assigned taken (run values s.world), (run values s.world).next)
  | .copy source target convert =>
    some (s.set target ((s.locals source).map convert), .fall)

end Deed

def Deed.Names : Deed L N V W -> N -> Prop
  | .act reads assigned taken _, x => (∃ r ∈ reads, r.2 = x) ∨ assigned = some x ∨ x ∈ taken
  | .copy source target _, x => source = x ∨ target = x

variable {s t u : State N V W} {v : Option V} {r : Code L N V W} {i : Nat} {n : Node L N V W}
  {w : W}

/-- Setting a variable not named and not escaped is unseen. -/
theorem State.after_set {x : N} {assigned : Option N} {taken : List N} {out : Outcome L N V W}
    (hassigned : assigned ≠ some x) (htaken : x ∉ taken) (hescaped : x ∉ s.escaped) :
    (s.set x v).after assigned taken out = (s.after assigned taken out).set x v := by
  have hx : x ∉ s.escaped ++ taken := by simp [hescaped, htaken]
  simp only [State.after, State.set, State.mk.injEq, and_true]
  funext y
  by_cases hy : y = x
  · subst hy
    simp [hassigned, hx]
  · simp [update_of_ne hy]

/-! ## Runs -/

variable [DecidableEq L]

def target (r : Code L N V W) (l : L) : Nat := r.findIdx fun n => decide (n.label = some l)

/-- One step of a run; a node that finishes or goes wrong takes none. -/
inductive Step (r : Code L N V W) : Nat × State N V W -> Nat × State N V W -> Prop
  | fall {i : Nat} {t u : State N V W} {n : Node L N V W} :
      r[i]? = some n -> n.deed.step t = some (u, .fall) -> Step r (i, t) (i + 1, u)
  | jump {i : Nat} {t u : State N V W} {n : Node L N V W} {l : L} :
      r[i]? = some n -> n.deed.step t = some (u, .jump l) -> Step r (i, t) (target r l, u)

def Reaches (r : Code L N V W) (s : State N V W) (i : Nat) (t : State N V W) : Prop :=
  Relation.ReflTransGen (Step r) (0, s) (i, t)

theorem Reaches.entry : Reaches r s 0 s := .refl

theorem Reaches.fall (h : Reaches r s i t) (hn : r[i]? = some n)
    (hs : n.deed.step t = some (u, .fall)) : Reaches r s (i + 1) u := h.tail (.fall hn hs)

theorem Reaches.jump {l : L} (h : Reaches r s i t) (hn : r[i]? = some n)
    (hs : n.deed.step t = some (u, .jump l)) : Reaches r s (target r l) u := h.tail (.jump hn hs)

/-- What entry and steps keep holds wherever runs come. -/
theorem Reaches.invariant {P : Nat -> State N V W -> Prop} (hentry : P 0 s)
    (hfall : ∀ i t u n, P i t -> r[i]? = some n -> n.deed.step t = some (u, .fall) -> P (i + 1) u)
    (hjump : ∀ i t u n l, P i t -> r[i]? = some n -> n.deed.step t = some (u, .jump l) ->
      P (target r l) u) (h : Reaches r s i t) : P i t := by
  have hall : ∀ a, Relation.ReflTransGen (Step r) (0, s) a -> P a.1 a.2 := by
    intro a ha
    induction ha with
    | refl => exact hentry
    | tail _ hstep ih =>
      cases hstep with
      | fall hn hs => exact hfall _ _ _ _ ih hn hs
      | jump hn hs => exact hjump _ _ _ _ _ ih hn hs
  exact hall (i, t) h

/-- A run returns a value, or none at the end of the text. -/
inductive Finishes (r : Code L N V W) (s : State N V W) : Option V -> W -> Prop
  | finish {i : Nat} {t u : State N V W} {n : Node L N V W} {v : Option V} :
      Reaches r s i t -> r[i]? = some n -> n.deed.step t = some (u, .finish v) ->
        Finishes r s v u.world
  | off {i : Nat} {t : State N V W} : Reaches r s i t -> r[i]? = none -> Finishes r s none t.world

theorem Reaches.finishes (h : Reaches r s i t) (hn : r[i]? = some n)
    (hs : n.deed.step t = some (u, .finish v)) (hw : u.world = w) : Finishes r s v w :=
  hw ▸ .finish h hn hs

/-- A run reads a variable without a value. -/
def GoesWrong (r : Code L N V W) (s : State N V W) : Prop :=
  ∃ i t n, Reaches r s i t ∧ r[i]? = some n ∧ n.deed.step t = none

/-- The worlds that runs pass through. -/
def Visits (r : Code L N V W) (s : State N V W) (w : W) : Prop :=
  ∃ i t, Reaches r s i t ∧ t.world = w

/-- The same values and effects from a state. -/
structure Agrees (r : Code L N V W) {L' : Type} [DecidableEq L'] (r' : Code L' N V W)
    (s : State N V W) : Prop where
  finishes : ∀ v w, Finishes r s v w ↔ Finishes r' s v w
  wrong : GoesWrong r s ↔ GoesWrong r' s
  visits : ∀ w, Visits r s w ↔ Visits r' s w

theorem Step.unique {a b c : Nat × State N V W} (hb : Step r a b) (hc : Step r a c) : b = c := by
  cases hb with
  | fall hn hs =>
    cases hc with
    | fall hn' hs' =>
      cases hn.symm.trans hn'
      cases hs.symm.trans hs'
      rfl
    | jump hn' hs' =>
      cases hn.symm.trans hn'
      cases hs.symm.trans hs'
  | jump hn hs =>
    cases hc with
    | fall hn' hs' =>
      cases hn.symm.trans hn'
      cases hs.symm.trans hs'
    | jump hn' hs' =>
      cases hn.symm.trans hn'
      cases hs.symm.trans hs'
      rfl

theorem Reaches.end_unique {j : Nat} (ht : Reaches r s i t) (hu : Reaches r s j u)
    (hti : ∀ a, ¬Step r (i, t) a) (huj : ∀ a, ¬Step r (j, u) a) : (i, t) = (j, u) := by
  have hunique : Relator.RightUnique (Step r) := fun _ _ _ => Step.unique
  rcases Relation.ReflTransGen.total_of_right_unique hunique ht hu with h | h
  · rcases h.cases_head with h | ⟨a, ha, _⟩
    · exact h
    · exact absurd ha (hti a)
  · rcases h.cases_head with h | ⟨a, ha, _⟩
    · exact h.symm
    · exact absurd ha (huj a)

theorem not_step_of_wrong (hn : r[i]? = some n) (hs : n.deed.step t = none) (a : Nat × State N V W)
    : ¬Step r (i, t) a := by
  intro h
  cases h with
  | fall hn' hs' =>
    cases hn.symm.trans hn'
    cases hs.symm.trans hs'
  | jump hn' hs' =>
    cases hn.symm.trans hn'
    cases hs.symm.trans hs'

theorem not_step_of_finish (hn : r[i]? = some n) (hs : n.deed.step t = some (u, .finish v))
    (a : Nat × State N V W) : ¬Step r (i, t) a := by
  intro h
  cases h with
  | fall hn' hs' =>
    cases hn.symm.trans hn'
    cases hs.symm.trans hs'
  | jump hn' hs' =>
    cases hn.symm.trans hn'
    cases hs.symm.trans hs'

theorem not_step_of_off (hn : r[i]? = none) (a : Nat × State N V W) : ¬Step r (i, t) a := by
  intro h
  cases h with
  | fall hn' _ => cases hn.symm.trans hn'
  | jump hn' _ => cases hn.symm.trans hn'

theorem Reaches.finish_unique {v' : Option V} (ht : Reaches r s i t) (hn : r[i]? = some n)
    (hs : n.deed.step t = some (u, .finish v)) (h : Finishes r s v' w) : v' = v := by
  have hend := not_step_of_finish hn hs
  cases h with
  | finish ht' hn' hs' =>
    cases ht.end_unique ht' hend (not_step_of_finish hn' hs')
    cases hn.symm.trans hn'
    cases hs.symm.trans hs'
    rfl
  | off ht' hn' =>
    cases ht.end_unique ht' hend (not_step_of_off hn')
    cases hn.symm.trans hn'

theorem Finishes.not_goesWrong (h : Finishes r s v w) : ¬GoesWrong r s := by
  rintro ⟨i, t, n, ht, hn, hs⟩
  have hend := not_step_of_wrong hn hs
  cases h with
  | finish ht' hn' hs' =>
    cases ht.end_unique ht' hend (not_step_of_finish hn' hs')
    cases hn.symm.trans hn'
    cases hs.symm.trans hs'
  | off ht' hn' =>
    cases ht.end_unique ht' hend (not_step_of_off hn')
    cases hn.symm.trans hn'

end Reprobit.Machine.Routine

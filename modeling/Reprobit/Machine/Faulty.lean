import Reprobit.Machine.Bounded

/-!
# Programs that fail between steps

A program is a sequence of atomic steps on a state.  Before each step others may act
on the state, and at each step the program may be stopped: it may raise or crash,
before the step has taken effect or after.  A run is given by what happens at each of
its steps; the steps it made are recorded.

Programs are judged by triples with one postcondition for each way a run can end.
-/

namespace Reprobit.Machine

open List

/-- What befalls one step. -/
inductive Fault (ε : Type) where
  | none
  | raiseBefore (e : ε)
  | raiseAfter (e : ε)
  | crashBefore
  | crashAfter
  deriving DecidableEq

/-- What others do before a step, and what befalls it. -/
structure Turn (ω ε : Type) where
  outside : List ω
  fault : Fault ε
  deriving DecidableEq

inductive Ending (ε α : Type) where
  | returned (a : α)
  | raised (e : ε)
  | crashed
  deriving DecidableEq

/-- The end of a run, the turns it did not take, and the steps it made. -/
structure Ran (κ ω ε σ α : Type) where
  outcome : Ending ε α
  state : σ
  rest : List (Turn ω ε)
  trace : List (κ × Turn ω ε)

/-- Run on a state and the turns of its steps. -/
def Faulty (κ ω ε σ α : Type) : Type := σ -> List (Turn ω ε) -> Ran κ ω ε σ α

namespace Faulty

variable {κ ω ε σ α β : Type}

def returns (a : α) : Faulty κ ω ε σ α := fun s turns => ⟨.returned a, s, turns, []⟩

def andThen (m : Faulty κ ω ε σ α) (f : α -> Faulty κ ω ε σ β) : Faulty κ ω ε σ β :=
  fun s turns =>
    match m s turns with
    | ⟨.returned a, s', rest, trace⟩ =>
      let r := f a s' rest
      { r with trace := trace ++ r.trace }
    | ⟨.raised e, s', rest, trace⟩ => ⟨.raised e, s', rest, trace⟩
    | ⟨.crashed, s', rest, trace⟩ => ⟨.crashed, s', rest, trace⟩

instance : Monad (Faulty κ ω ε σ) where
  pure := returns
  bind := andThen

def raise (e : ε) : Faulty κ ω ε σ α := fun s turns => ⟨.raised e, s, turns, []⟩

/-- Run a program; what it raises goes to a handler. -/
def attempt (m : Faulty κ ω ε σ α) (handler : ε -> Faulty κ ω ε σ α) : Faulty κ ω ε σ α :=
  fun s turns =>
    match m s turns with
    | ⟨.raised e, s', rest, trace⟩ =>
      let r := handler e s' rest
      { r with trace := trace ++ r.trace }
    | r => r

/-- Read the state. -/
def look : Faulty κ ω ε σ σ := fun s turns => ⟨.returned s, s, turns, []⟩

/-- Change the state in a way that cannot be interrupted. -/
def change (f : σ -> σ) : Faulty κ ω ε σ Unit := fun s turns => ⟨.returned (), f s, turns, []⟩

def nextTurn (turns : List (Turn ω ε)) : Turn ω ε := turns.headD ⟨[], .none⟩

/-- How a step ends that a fault befalls, from what its effect gives. -/
def land (s : σ) : Fault ε -> Except ε (α × σ) -> Ending ε α × σ
  | .raiseBefore e, _ => (.raised e, s)
  | .crashBefore, _ => (.crashed, s)
  | .crashAfter, .error _ => (.crashed, s)
  | .crashAfter, .ok (_, s') => (.crashed, s')
  | .raiseAfter _, .error e => (.raised e, s)
  | .raiseAfter e, .ok (_, s') => (.raised e, s')
  | .none, .error e => (.raised e, s)
  | .none, .ok (a, s') => (.returned a, s')

def step (act : ω -> σ -> σ) (label : κ) (effect : σ -> Except ε (α × σ)) : Faulty κ ω ε σ α :=
  fun s turns =>
    let turn := nextTurn turns
    let s := turn.outside.foldl (fun s o => act o s) s
    let landed := land s turn.fault (effect s)
    ⟨landed.1, landed.2, turns.tail, [(label, turn)]⟩

/-- A program for each element of a list, in order. -/
def forEach (body : α -> Faulty κ ω ε σ Unit) : List α -> Faulty κ ω ε σ Unit
  | [] => returns ()
  | x :: xs => andThen (body x) fun _ => forEach body xs

/-! ## Triples -/

def Ends (Q : α -> σ -> Prop) (E : ε -> σ -> Prop) (C : σ -> Prop) (r : Ran κ ω ε σ α) : Prop :=
  match r.outcome with
  | .returned a => Q a r.state
  | .raised e => E e r.state
  | .crashed => C r.state

/-- From `P`, every run with allowed turns ends in `Q`, `E` or `C`. -/
def Triple (allowed : κ -> Turn ω ε -> Prop) (P : σ -> Prop) (m : Faulty κ ω ε σ α)
    (Q : α -> σ -> Prop) (E : ε -> σ -> Prop) (C : σ -> Prop) : Prop :=
  ∀ s turns, P s -> (∀ x ∈ (m s turns).trace, allowed x.1 x.2) -> Ends Q E C (m s turns)

/-- A program that leaves one fact, whether it raises or stops. -/
abbrev Leaves (allowed : κ -> Turn ω ε -> Prop) (P : σ -> Prop) (m : Faulty κ ω ε σ α)
    (Q : α -> σ -> Prop) (C : σ -> Prop) : Prop :=
  Triple allowed P m Q (fun _ => C) C

variable {allowed : κ -> Turn ω ε -> Prop} {P P' : σ -> Prop} {Q Q' : α -> σ -> Prop}
  {R : β -> σ -> Prop} {E E' : ε -> σ -> Prop} {C C' : σ -> Prop} {m : Faulty κ ω ε σ α}
  {handler : ε -> Faulty κ ω ε σ α} {effect : σ -> Except ε (α × σ)} {r : Ran κ ω ε σ α}
  {act : ω -> σ -> σ} {a : α} {e : ε} {label : κ}

theorem Ends.mono (h : Ends Q E C r) (hQ : ∀ a s, Q a s -> Q' a s) (hE : ∀ e s, E e s -> E' e s)
    (hC : ∀ s, C s -> C' s) : Ends Q' E' C' r := by
  unfold Ends at *
  split at h
  · exact hQ _ _ h
  · exact hE _ _ h
  · exact hC _ h

theorem Ends.state (h : Ends Q E C r) (hQ : ∀ a s, Q a s -> P s) (hE : ∀ e s, E e s -> P s)
    (hC : ∀ s, C s -> P s) : P r.state := by
  unfold Ends at h
  split at h
  · exact hQ _ _ h
  · exact hE _ _ h
  · exact hC _ h

theorem Triple.conseq (h : Triple allowed P' m Q' E' C') (hP : ∀ s, P s -> P' s)
    (hQ : ∀ a s, Q' a s -> Q a s) (hE : ∀ e s, E' e s -> E e s) (hC : ∀ s, C' s -> C s) :
    Triple allowed P m Q E C :=
  fun s turns hs hallowed => (h s turns (hP s hs) hallowed).mono hQ hE hC

theorem Triple.weaken {W : σ -> Prop} (h : Triple allowed W m Q E C) (hP : ∀ s, P s -> W s) :
    Triple allowed P m Q E C :=
  h.conseq hP (fun _ _ => id) (fun _ _ => id) fun _ => id

theorem Triple.post (h : Triple allowed P m Q' E C) (hQ : ∀ a s, Q' a s -> Q a s) :
    Triple allowed P m Q E C :=
  h.conseq (fun _ => id) hQ (fun _ _ => id) fun _ => id

theorem Triple.pure (h : ∀ s, P s -> Q a s) : Triple allowed P (pure a : Faulty κ ω ε σ α) Q E C :=
  fun s _ hs _ => h s hs

theorem Triple.raise (h : ∀ s, P s -> E e s) :
    Triple allowed P (raise e : Faulty κ ω ε σ α) Q E C :=
  fun s _ hs _ => h s hs

theorem Triple.bind {f : α -> Faulty κ ω ε σ β} (hm : Triple allowed P m Q E C)
    (hf : ∀ a, Triple allowed (Q a) (f a) R E C) : Triple allowed P (m >>= f) R E C := by
  intro s turns hs hallowed
  have hm := hm s turns hs
  change ∀ x ∈ (andThen m f s turns).trace, allowed x.1 x.2 at hallowed
  change Ends R E C (andThen m f s turns)
  unfold andThen at hallowed ⊢
  generalize m s turns = r at hm hallowed ⊢
  obtain ⟨outcome, s', rest, trace⟩ := r
  cases outcome with
  | returned a =>
    have hq : Q a s' := hm fun x hx => hallowed x (mem_append_left _ hx)
    exact hf a s' rest hq fun x hx => hallowed x (mem_append_right _ hx)
  | raised e => exact hm hallowed
  | crashed => exact hm hallowed

theorem Triple.attempt {F : ε -> σ -> Prop} (hm : Triple allowed P m Q F C)
    (hh : ∀ e, Triple allowed (F e) (handler e) Q E C) :
    Triple allowed P (attempt m handler) Q E C := by
  intro s turns hs hallowed
  have hm := hm s turns hs
  unfold Faulty.attempt at hallowed ⊢
  generalize m s turns = r at hm hallowed ⊢
  obtain ⟨outcome, s', rest, trace⟩ := r
  cases outcome with
  | returned a => exact hm hallowed
  | raised e =>
    have he : F e s' := hm fun x hx => hallowed x (mem_append_left _ hx)
    exact hh e s' rest he fun x hx => hallowed x (mem_append_right _ hx)
  | crashed => exact hm hallowed

theorem Triple.change {f : σ -> σ} {Q : Unit -> σ -> Prop} (h : ∀ s, P s -> Q () (f s)) :
    Triple allowed P (change f : Faulty κ ω ε σ Unit) Q E C :=
  fun s _ hs _ => h s hs

/-- A program can be judged from each state on its own. -/
theorem Triple.of_forall (h : ∀ s, P s -> Triple allowed (· = s) m Q E C) :
    Triple allowed P m Q E C :=
  fun s turns hs hallowed => h s hs s turns rfl hallowed

/-- What every state of the precondition satisfies can be assumed. -/
theorem Triple.of_pre {p : Prop} (hp : ∀ s, P s -> p) (h : p -> Triple allowed P m Q E C) :
    Triple allowed P m Q E C :=
  fun s turns hs hallowed => h (hp s hs) s turns hs hallowed

theorem Triple.exists {ι : Sort*} {P : ι -> σ -> Prop} (h : ∀ i, Triple allowed (P i) m Q E C) :
    Triple allowed (fun s => ∃ i, P i s) m Q E C :=
  fun s turns ⟨i, hs⟩ hallowed => h i s turns hs hallowed

theorem land_ends {s : σ} {fault : Fault ε} {result : Except ε (α × σ)}
    {rest : List (Turn ω ε)} {trace : List (κ × Turn ω ε)}
    (hbefore : (∀ e, fault = .raiseBefore e -> E e s) ∧ (fault = .crashBefore -> C s))
    (hafter : ∀ a s', result = .ok (a, s') -> (fault = .none -> Q a s') ∧
      (∀ e, fault = .raiseAfter e -> E e s') ∧ (fault = .crashAfter -> C s'))
    (herror : ∀ e, result = .error e -> E e s ∧ (fault = .crashAfter -> C s)) :
    Ends Q E C ⟨(land s fault result).1, (land s fault result).2, rest, trace⟩ := by
  rcases result with e | ⟨a, s'⟩
  · have herror := herror e rfl
    cases fault <;> simp_all [land, Ends]
  · have hafter := hafter a s' rfl
    cases fault <;> simp_all [land, Ends]

theorem Triple.step (houtside : ∀ turn, allowed label turn -> ∀ s, P s ->
      P (turn.outside.foldl (fun s o => act o s) s))
    (hbefore : ∀ turn s, allowed label turn -> P s ->
      (∀ e, turn.fault = .raiseBefore e -> E e s) ∧ (turn.fault = .crashBefore -> C s))
    (hafter : ∀ turn s a s', allowed label turn -> P s -> effect s = .ok (a, s') ->
      (turn.fault = .none -> Q a s') ∧ (∀ e, turn.fault = .raiseAfter e -> E e s') ∧
        (turn.fault = .crashAfter -> C s'))
    (herror : ∀ turn s e, allowed label turn -> P s -> effect s = .error e ->
      E e s ∧ (turn.fault = .crashAfter -> C s)) :
    Triple allowed P (step act label effect) Q E C := by
  intro s turns hs hallowed
  have hturn : allowed label (nextTurn turns) :=
    hallowed (label, nextTurn turns) mem_cons_self
  have hs' := houtside _ hturn s hs
  exact land_ends (hbefore _ _ hturn hs') (fun a s'' => hafter _ _ a s'' hturn hs')
    fun e => herror _ _ e hturn hs'

theorem Triple.forEach {body : α -> Faulty κ ω ε σ Unit} {xs : List α} (I : List α -> σ -> Prop)
    (hbody : ∀ done x todo, xs = done ++ x :: todo ->
      Triple allowed (I done) (body x) (fun _ => I (done ++ [x])) E C) :
    Triple allowed (I []) (forEach body xs) (fun _ => I xs) E C := by
  have key : ∀ done todo, xs = done ++ todo ->
      Triple allowed (I done) (Faulty.forEach body todo) (fun _ => I xs) E C := by
    intro done todo heq
    induction todo generalizing done with
    | nil =>
      rw [append_nil] at heq
      subst heq
      exact Triple.pure fun s hs => hs
    | cons x rest ih =>
      exact Triple.bind (hbody done x rest heq) fun _ => ih (done ++ [x]) (by simp [heq])
  exact key [] xs rfl

/-- A program leaves a part of the state alone. -/
def Keeps {γ : Type} (f : σ -> γ) (m : Faulty κ ω ε σ α) : Prop :=
  ∀ s turns, f (m s turns).state = f s

variable {γ : Type} {f : σ -> γ}

theorem keeps_iff_leaves : Keeps f m ↔ ∀ v, Leaves (fun _ _ => True) (fun s => f s = v) m
      (fun _ s => f s = v) (fun s => f s = v) := by
  constructor
  · intro h v s turns hs _
    have hkept := (h s turns).trans hs
    unfold Ends
    split <;> exact hkept
  · exact fun h s turns => (h (f s) s turns rfl fun _ _ => trivial).state
      (P := fun s' => f s' = f s) (fun _ _ => id) (fun _ _ => id) fun _ => id

theorem Keeps.pure : Keeps f (pure a : Faulty κ ω ε σ α) := fun _ _ => rfl

theorem Keeps.raise : Keeps f (raise e : Faulty κ ω ε σ α) := fun _ _ => rfl

theorem Keeps.bind {g : α -> Faulty κ ω ε σ β} (hm : Keeps f m) (hg : ∀ a, Keeps f (g a)) :
    Keeps f (m >>= g) :=
  keeps_iff_leaves.mpr fun v =>
    (keeps_iff_leaves.mp hm v).bind fun a => keeps_iff_leaves.mp (hg a) v

theorem Keeps.attempt (hm : Keeps f m) (hh : ∀ e, Keeps f (handler e)) :
    Keeps f (attempt m handler) :=
  keeps_iff_leaves.mpr fun v =>
    (keeps_iff_leaves.mp hm v).attempt fun e => keeps_iff_leaves.mp (hh e) v

theorem Keeps.step (hact : ∀ o s, f (act o s) = f s)
    (heffect : ∀ s a s', effect s = .ok (a, s') -> f s' = f s) :
    Keeps f (step act label effect) := by
  refine keeps_iff_leaves.mpr fun v => Triple.step (fun turn _ s hs => ?_) ?_ ?_ ?_
  · induction turn.outside generalizing s with
    | nil => exact hs
    | cons o rest ih => exact ih _ ((hact o s).trans hs)
  · exact fun turn s _ hs => ⟨fun _ _ => hs, fun _ => hs⟩
  · intro turn s a s' _ hs heq
    have hkept := (heffect s a s' heq).trans hs
    exact ⟨fun _ => hkept, fun _ _ => hkept, fun _ => hkept⟩
  · exact fun turn s e _ hs _ => ⟨hs, fun _ => hs⟩

/-- What a program leaves alone can be added to its triple. -/
theorem Triple.frame (h : Triple allowed P m Q E C) (hkeeps : Keeps f m) (R : γ -> Prop) :
    Triple allowed (fun s => P s ∧ R (f s)) m (fun a s => Q a s ∧ R (f s))
      (fun e s => E e s ∧ R (f s)) (fun s => C s ∧ R (f s)) := by
  intro s turns hs hallowed
  have hends := h s turns hs.1 hallowed
  have hkept : R (f (m s turns).state) := (hkeeps s turns).symm ▸ hs.2
  unfold Ends at hends ⊢
  split at hends <;> exact ⟨hends, hkept⟩

end Faulty

end Reprobit.Machine

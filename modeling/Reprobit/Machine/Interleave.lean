import Reprobit.Machine.Bounded

/-!
# Interleaved programs

Programs as trees of atomic actions, any number of processes that run them on a shared
state in any order, and crashes between two actions.  A process is verified alone,
against what the others may do: `Safe` says that from a state, and after whatever the
others do, every action of a program keeps the invariant and the process's guarantee.
Verified processes keep the invariant together (`run_safe`).
-/

namespace Reprobit.Machine.Interleave

open Option

/-- A value, or an action and a program for each result. -/
inductive Prog (Act : Type) (Res : Act -> Type) (α : Type) : Type where
  | ret (value : α)
  | act (action : Act) (next : Res action -> Prog Act Res α)

namespace Prog

variable {Act : Type} {Res : Act -> Type} {α β : Type}

def bind (m : Prog Act Res α) (f : α -> Prog Act Res β) : Prog Act Res β :=
  match m with
  | ret value => f value
  | act action next => act action fun result => (next result).bind f

instance : Monad (Prog Act Res) where
  pure := ret
  bind := bind

end Prog

/-- A program that may refuse. -/
abbrev Trying (Act : Type) (Res : Act -> Type) (ε α : Type) : Type :=
  ExceptT ε (Prog Act Res) α

namespace Trying

variable {Act : Type} {Res : Act -> Type} {ε α β : Type}

def perform (action : Act) : Trying Act Res ε (Res action) :=
  ExceptT.mk (.act action fun result => .ret (.ok result))

/-- A program whose refusal is a value. -/
def attempt (m : Trying Act Res ε α) : Trying Act Res ε (Except ε α) :=
  ExceptT.mk (m.run.bind fun result => .ret (.ok result))

/-- A program followed by another one, however it ends. -/
def andFinally (m : Trying Act Res ε α) (last : Trying Act Res ε Unit) : Trying Act Res ε α := do
  let result <- m.attempt
  last
  ExceptT.mk (.ret result)

end Trying

/-- The environment answers; an action without a result must wait. -/
structure Semantics (Act : Type) (Res : Act -> Type) (Pid Answer σ : Type) where
  step : Pid -> (action : Act) -> Answer -> σ -> Option (Res action × σ)
  crash : Pid -> σ -> σ

variable {Act : Type} {Res : Act -> Type} {Pid Answer σ α β : Type}

/-- A process takes its next action, or crashes. -/
inductive Event (Answer : Type) where
  | step (answer : Answer)
  | crash

structure Config (Act : Type) (Res : Act -> Type) (Pid σ : Type) where
  shared : σ
  programs : Pid -> Prog Act Res Unit

section

variable [DecidableEq Pid] (sem : Semantics Act Res Pid Answer σ)

/-- One event of a process; nothing where it has ended or must wait. -/
def Config.next (config : Config Act Res Pid σ) (p : Pid) :
    Event Answer -> Option (Config Act Res Pid σ)
  | .crash =>
    some ⟨sem.crash p config.shared, Function.update config.programs p (.ret ())⟩
  | .step answer =>
    match config.programs p with
    | .ret _ => none
    | .act action next =>
      (sem.step p action answer config.shared).map fun done =>
        ⟨done.2, Function.update config.programs p (next done.1)⟩

def Config.run (config : Config Act Res Pid σ) :
    List (Pid × Event Answer) -> Option (Config Act Res Pid σ)
  | [] => some config
  | (p, event) :: schedule => (config.next sem p event).bind fun c => c.run schedule

def Config.each (test : Pid -> (action : Act) -> Res action -> σ -> Bool)
    (config : Config Act Res Pid σ) : List (Pid × Event Answer) -> Bool
  | [] => true
  | (p, event) :: schedule =>
    (match event, config.programs p with
      | .step answer, .act action _ =>
        (sem.step p action answer config.shared).all fun done =>
          test p action done.1 config.shared
      | _, _ => true) &&
    (config.next sem p event).all fun c => c.each test schedule

end

/-- The invariant, and what a step of each process may change. -/
structure Contract (Pid σ : Type) where
  inv : σ -> Prop
  guar : Pid -> σ -> σ -> Prop

/-- A step of another process that keeps the invariant. -/
def Contract.rely (contract : Contract Pid σ) (p : Pid) (s t : σ) : Prop :=
  contract.inv t ∧ ∃ q, q ≠ p ∧ contract.guar q s t

/-- A fact that the other processes do not disturb. -/
def Contract.Stable (contract : Contract Pid σ) (p : Pid) (P : σ -> Prop) : Prop :=
  ∀ s t, P s -> contract.rely p s t -> P t

section

variable (sem : Semantics Act Res Pid Answer σ) (contract : Contract Pid σ)

/-- Whatever the others do, each action keeps invariant and guarantee. -/
def Safe (p : Pid) (post : α -> σ -> Prop) : Prog Act Res α -> σ -> Prop
  | .ret value, s => post value s
  | .act action next, s =>
    ∀ t, Relation.ReflTransGen (contract.rely p) s t -> contract.inv t ->
      ∀ answer done, sem.step p action answer t = some done ->
        contract.inv done.2 ∧ contract.guar p t done.2 ∧ Safe p post (next done.1) done.2

end

variable {sem : Semantics Act Res Pid Answer σ} {contract : Contract Pid σ} {p : Pid}
  {P : σ -> Prop}
  {s t : σ} {m : Prog Act Res α} {action : Act}

theorem Contract.Stable.trans (h : contract.Stable p P) (hs : P s)
    (hst : Relation.ReflTransGen (contract.rely p) s t) : P t := by
  induction hst with
  | refl => exact hs
  | tail _ hstep ih => exact h _ _ ih hstep

theorem Contract.Stable.and {Q : σ -> Prop} (hP : contract.Stable p P) (hQ : contract.Stable p Q) :
    contract.Stable p fun s => P s ∧ Q s :=
  fun s t h hst => ⟨hP s t h.1 hst, hQ s t h.2 hst⟩

theorem Safe.act (hstable : contract.Stable p P) {post : α -> σ -> Prop}
    {next : Res action -> Prog Act Res α} (hs : P s)
    (h : ∀ t, contract.inv t -> P t -> ∀ answer done, sem.step p action answer t = some done ->
      contract.inv done.2 ∧ contract.guar p t done.2 ∧
        Safe sem contract p post (next done.1) done.2) :
    Safe sem contract p post (.act action next) s :=
  fun t hst hinv answer done hdone => h t hinv (hstable.trans hs hst) answer done hdone

theorem Safe.bind {post : β -> σ -> Prop} {f : α -> Prog Act Res β}
    (h : Safe sem contract p (fun x => Safe sem contract p post (f x)) m s) :
    Safe sem contract p post (m.bind f) s := by
  induction m generalizing s with
  | ret value => exact h
  | act action next ih =>
    intro t hst hinv answer done hdone
    obtain ⟨hinv', hguar, hnext⟩ := h t hst hinv answer done hdone
    exact ⟨hinv', hguar, ih _ hnext⟩

theorem Safe.weaken {post post' : α -> σ -> Prop} (hpost : ∀ x s, post x s -> post' x s)
    (h : Safe sem contract p post m s) : Safe sem contract p post' m s := by
  induction m generalizing s with
  | ret value => exact hpost _ _ h
  | act action next ih =>
    intro t hst hinv answer done hdone
    obtain ⟨hinv', hguar, hnext⟩ := h t hst hinv answer done hdone
    exact ⟨hinv', hguar, ih _ hnext⟩

/-! ## Programs that may refuse -/

section

variable {ε : Type}

/-- Ends with a value as stated, or refuses as stated. -/
def SafeTry (sem : Semantics Act Res Pid Answer σ) (contract : Contract Pid σ) (p : Pid)
    (post : α -> σ -> Prop) (refused : σ -> Prop) (m : Trying Act Res ε α) (s : σ) : Prop :=
  Safe sem contract p (fun result t => match result with
      | .ok x => post x t
      | .error _ => refused t) m.run s

variable {refused : σ -> Prop} {post : α -> σ -> Prop} {s : σ} {m : Trying Act Res ε α}

theorem SafeTry.pure {x : α} (h : post x s) :
    SafeTry sem contract p post refused (pure x : Trying Act Res ε α) s := h

theorem SafeTry.throw {e : ε} (h : refused s) :
    SafeTry sem contract p post refused (throw e : Trying Act Res ε α) s := h

theorem SafeTry.perform (hstable : contract.Stable p P) {post : Res action -> σ -> Prop} (hs : P s)
    (h : ∀ t, contract.inv t -> P t -> ∀ answer done, sem.step p action answer t = some done ->
      contract.inv done.2 ∧ contract.guar p t done.2 ∧ post done.1 done.2) :
    SafeTry sem contract p post refused (Trying.perform action : Trying Act Res ε _) s :=
  Safe.act hstable hs h

variable {f : α -> Trying Act Res ε β}

theorem SafeTry.bind {post : β -> σ -> Prop}
    (h : SafeTry sem contract p (fun x => SafeTry sem contract p post refused (f x)) refused m s) :
    SafeTry sem contract p post refused (m >>= f) s := by
  refine Safe.bind (h.weaken fun result t hresult => ?_)
  cases result with
  | ok x => exact hresult
  | error e => exact hresult

theorem SafeTry.weaken {post' : α -> σ -> Prop} {refused' : σ -> Prop}
    (hpost : ∀ x s, post x s -> post' x s) (hrefused : ∀ s, refused s -> refused' s)
    (h : SafeTry sem contract p post refused m s) : SafeTry sem contract p post' refused' m s := by
  refine Safe.weaken (fun result t hresult => ?_) h
  cases result with
  | ok x => exact hpost x t hresult
  | error e => exact hrefused t hresult

theorem SafeTry.seq {mid : α -> σ -> Prop} {post : β -> σ -> Prop}
    (h : SafeTry sem contract p mid refused m s)
    (hf : ∀ x t, mid x t -> SafeTry sem contract p post refused (f x) t) :
    SafeTry sem contract p post refused (m >>= f) s :=
  SafeTry.bind (h.weaken hf fun _ ht => ht)

/-- A refusal that is caught: both ends go on. -/
theorem SafeTry.attempt {post : Except ε α -> σ -> Prop} (caught : σ -> Prop)
    (h : SafeTry sem contract p (fun x => post (.ok x)) caught m s)
    (hcaught : ∀ e t, caught t -> post (.error e) t) :
    SafeTry sem contract p post refused m.attempt s := by
  refine Safe.bind (Safe.weaken (fun result t hresult => ?_) h)
  cases result with
  | ok x => exact hresult
  | error e => exact hcaught e t hresult

/-- What must be done at the end, however the program ends. -/
theorem SafeTry.andFinally {done : α -> σ -> Prop}
    {caught : σ -> Prop} {last : Trying Act Res ε Unit}
    (h : SafeTry sem contract p done caught m s)
    (hdone : ∀ x t, done x t -> SafeTry sem contract p (fun _ => post x) refused last t)
    (hcaught : ∀ t, caught t -> SafeTry sem contract p (fun _ => refused) refused last t) :
    SafeTry sem contract p post refused (m.andFinally last) s := by
  refine SafeTry.bind (SafeTry.attempt caught ?_ ?_)
  · exact h.weaken (fun x t ht => SafeTry.bind (hdone x t ht)) fun _ ht => ht
  · exact fun e t ht => SafeTry.bind (hcaught t ht)

def Prog.Uses (kind : Act -> Prop) : Prog Act Res α -> Prop
  | .ret _ => True
  | .act action next => kind action ∧ ∀ result, (next result).Uses kind

def Trying.Uses (kind : Act -> Prop) (m : Trying Act Res ε α) : Prop := m.run.Uses kind

variable {kind : Act -> Prop}

theorem Prog.Uses.mono {kind' : Act -> Prop} (h : ∀ action, kind action -> kind' action)
    {m : Prog Act Res α} (hm : m.Uses kind) : m.Uses kind' := by
  induction m with
  | ret value => trivial
  | act action next ih => exact ⟨h action hm.1, fun result => ih result (hm.2 result)⟩

theorem Prog.Uses.bind {m : Prog Act Res α} {f : α -> Prog Act Res β} (hm : m.Uses kind)
    (hf : ∀ x, (f x).Uses kind) : (m.bind f).Uses kind := by
  induction m with
  | ret value => exact hf value
  | act action next ih => exact ⟨hm.1, fun result => ih result (hm.2 result)⟩

theorem Trying.Uses.bind (hm : m.Uses kind)
    (hf : ∀ x, (f x).Uses kind) : Trying.Uses kind (m >>= f) := by
  refine Prog.Uses.bind hm fun result => ?_
  cases result with
  | ok x => exact hf x
  | error e => trivial

theorem Trying.Uses.attempt (hm : m.Uses kind) : Trying.Uses kind m.attempt :=
  Prog.Uses.bind hm fun _ => trivial

theorem SafeTry.of_uses (hstable : contract.Stable p P)
    (hkind : ∀ action, kind action -> ∀ t, contract.inv t -> P t -> ∀ answer done,
      sem.step p action answer t = some done ->
        contract.inv done.2 ∧ contract.guar p t done.2 ∧ P done.2) (hm : m.Uses kind) (hs : P s) :
    SafeTry sem contract p (fun _ => P) P m s := by
  have hsafe : ∀ (m : Prog Act Res (Except ε α)) s, m.Uses kind -> P s ->
      Safe sem contract p (fun _ => P) m s := by
    intro m
    induction m with
    | ret value => exact fun s _ hs => hs
    | act action next ih =>
      intro s hm hs
      refine Safe.act hstable hs fun t hinv ht answer done hdone => ?_
      obtain ⟨hinv', hguar, hP⟩ := hkind action hm.1 t hinv ht answer done hdone
      exact ⟨hinv', hguar, ih _ _ (hm.2 _) hP⟩
  refine (hsafe m.run s hm hs).weaken fun result t ht => ?_
  cases result with
  | ok x => exact ht
  | error e => exact ht

end

/-- A step of another process does not make a program unsafe. -/
theorem Safe.rely (h : Safe sem contract p (fun _ _ => True) m s) (hst : contract.rely p s t) :
    Safe sem contract p (fun _ _ => True) m t := by
  cases m with
  | ret value => trivial
  | act action next => exact fun u htu => h u (.head hst htu)

/-- The state and every process are as verified. -/
structure Config.Sound (sem : Semantics Act Res Pid Answer σ) (contract : Contract Pid σ)
    (config : Config Act Res Pid σ) : Prop where
  inv : contract.inv config.shared
  safe : ∀ p, Safe sem contract p (fun _ _ => True) (config.programs p) config.shared

variable [DecidableEq Pid] {config config' : Config Act Res Pid σ}
  {schedule : List (Pid × Event Answer)}

theorem Config.Sound.next (hcrash : ∀ p s, contract.inv s ->
      contract.inv (sem.crash p s) ∧ contract.guar p s (sem.crash p s))
    (hsound : config.Sound sem contract) {event : Event Answer}
    (h : config.next sem p event = some config') : config'.Sound sem contract := by
  -- the process that moved goes on from the new state, for the others it is a step to rely on
  have hmoved : ∀ {shared : σ} {program : Prog Act Res Unit}, contract.inv shared ->
      contract.guar p config.shared shared ->
      Safe sem contract p (fun _ _ => True) program shared ->
      Config.Sound sem contract ⟨shared, Function.update config.programs p program⟩ := by
    intro shared program hinv hguar hprogram
    refine ⟨hinv, fun q => ?_⟩
    by_cases hq : q = p
    · subst hq
      simpa using hprogram
    · simp only [ne_eq, hq, not_false_eq_true, Function.update_of_ne]
      exact (hsound.safe q).rely ⟨hinv, p, fun h => hq h.symm, hguar⟩
  cases event with
  | crash =>
    cases h
    obtain ⟨hinv, hguar⟩ := hcrash p config.shared hsound.inv
    exact hmoved hinv hguar trivial
  | step answer =>
    simp only [Config.next] at h
    split at h
    · cases h
    · rename_i action next hprogram
      obtain ⟨done, hdone, rfl⟩ := map_eq_some_iff.mp h
      have hsafe := hsound.safe p
      rw [hprogram] at hsafe
      obtain ⟨hinv, hguar, hnext⟩ := hsafe _ .refl hsound.inv answer done hdone
      exact hmoved hinv hguar hnext

/-- Processes verified one by one keep the invariant. -/
theorem Config.Sound.run (hcrash : ∀ p s, contract.inv s ->
      contract.inv (sem.crash p s) ∧ contract.guar p s (sem.crash p s))
    (hsound : config.Sound sem contract) (h : config.run sem schedule = some config') :
    config'.Sound sem contract := by
  induction schedule generalizing config with
  | nil =>
    cases h
    exact hsound
  | cons event schedule ih =>
    obtain ⟨config₁, hnext, hrun⟩ := bind_eq_some_iff.mp h
    exact ih (hsound.next hcrash hnext) hrun

theorem Config.Sound.guar (hcrash : ∀ p s, contract.inv s ->
      contract.inv (sem.crash p s) ∧ contract.guar p s (sem.crash p s))
    (hsound : config.Sound sem contract) {event : Event Answer}
    (h : config.next sem p event = some config') :
    contract.guar p config.shared config'.shared := by
  cases event with
  | crash =>
    cases h
    exact (hcrash p config.shared hsound.inv).2
  | step answer =>
    simp only [Config.next] at h
    split at h
    · cases h
    · rename_i action next hprogram
      obtain ⟨done, hdone, rfl⟩ := map_eq_some_iff.mp h
      have hsafe := hsound.safe p
      rw [hprogram] at hsafe
      exact (hsafe _ .refl hsound.inv answer done hdone).2.1

/-- A stable fact holds on in a run without turns of its process. -/
theorem Config.Sound.stable (hcrash : ∀ p s, contract.inv s ->
      contract.inv (sem.crash p s) ∧ contract.guar p s (sem.crash p s))
    (hsound : config.Sound sem contract) (hstable : contract.Stable p P)
    (hother : ∀ turn ∈ schedule, turn.1 ≠ p) (hs : P config.shared)
    (h : config.run sem schedule = some config') : P config'.shared := by
  induction schedule generalizing config with
  | nil =>
    cases h
    exact hs
  | cons turn schedule ih =>
    obtain ⟨config₁, hnext, hrun⟩ := bind_eq_some_iff.mp h
    have hsound₁ := hsound.next hcrash hnext
    obtain ⟨hturn, hothers⟩ := List.forall_mem_cons.mp hother
    have hrely : contract.rely p config.shared config₁.shared :=
      ⟨hsound₁.inv, turn.1, hturn, hsound.guar hcrash hnext⟩
    exact ih hsound₁ hothers (hstable _ _ hs hrely) hrun

variable {η : Type} {test fine : Pid -> (action : Act) -> Res action -> σ -> Bool}
  {note : Pid -> (action : Act) -> Res action -> σ -> σ -> η -> η}

def Semantics.noting (sem : Semantics Act Res Pid Answer σ)
    (test : Pid -> (action : Act) -> Res action -> σ -> Bool)
    (note : Pid -> (action : Act) -> Res action -> σ -> σ -> η -> η) :
    Semantics Act Res Pid Answer (σ × η) where
  step p action answer s :=
    ((sem.step p action answer s.1).filter fun done => test p action done.1 s.1).map fun done =>
      (done.1, done.2, note p action done.1 s.1 done.2 s.2)
  crash p s := (sem.crash p s.1, s.2)

/-- Processes verified with a history pass a second test at every step. -/
theorem Config.Sound.each {contract : Contract Pid (σ × η)}
    (hcrash : ∀ p s, contract.inv s -> contract.inv ((sem.noting test note).crash p s) ∧
      contract.guar p s ((sem.noting test note).crash p s))
    (hfine : ∀ p action result s t h, contract.inv (t, note p action result s t h) ->
      fine p action result s = true) {h : η}
    (hsound : Config.Sound (sem.noting test note) contract ⟨(config.shared, h), config.programs⟩)
    (htest : config.each sem test schedule = true) : config.each sem fine schedule = true := by
  induction schedule generalizing config h with
  | nil => rfl
  | cons event schedule ih =>
    obtain ⟨p, event⟩ := event
    cases event with
    | crash =>
      have hnext := hsound.next hcrash (show Config.next _ _ p .crash = some _ from rfl)
      exact ih hnext htest
    | step answer =>
      cases hprogram : config.programs p with
      | ret value => simp [Config.each, Config.next, hprogram]
      | act action next =>
        cases hstep : sem.step p action answer config.shared with
        | none => simp [Config.each, Config.next, hprogram, hstep]
        | some done =>
          simp only [Config.each, Config.next, hprogram, hstep, all_some,
            Bool.and_eq_true] at htest ⊢
          have hnoted : (sem.noting test note).step p action answer (config.shared, h) =
              some (done.1, done.2, note p action done.1 config.shared done.2 h) := by
            simp [Semantics.noting, hstep, htest.1]
          have hnext := hsound.next hcrash (show Config.next _ _ p (.step answer) = some _ by
            simp only [Config.next, hprogram, hnoted]
            rfl)
          exact ⟨hfine _ _ _ _ _ _ hnext.inv, ih hnext htest.2⟩

end Reprobit.Machine.Interleave

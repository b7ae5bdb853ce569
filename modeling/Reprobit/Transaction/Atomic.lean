import Reprobit.Transaction.Apply

/-!
# Crash atomicity

With no outside writer, a commit that is stopped at any step is undone or completed by
recovery, however often recovery is stopped itself, as long as each step of the commit
is a benign one.
-/

namespace Reprobit.Transaction

open Machine Faulty List

section

variable {sha256 : List Byte -> Digest} {plan : Plan sha256} {before : Path -> Option File}
  {staged preimages : List (Nat × Snapshot)} {record : Record} {T : (Nat -> Option File) -> Prop}
  {w : World}

theorem Prepares.setRecord (h : Prepares plan before record T w) (f : Record -> Record) :
    Prepares plan before (f record) T
      { w with memory := { w.memory with record := f w.memory.record } } :=
  h.imp fun _ h => { h with memory := congrArg f h.memory }

variable (plan) in
def Staged (staged : List (Nat × Snapshot)) (files : Nat -> Option File) : Prop :=
  ∀ (i : Nat) op data, plan.ops[i]? = some op -> op.data = some data -> ∃ f : File,
    files i = some f ∧ f.data = data ∧ staged.lookup i = some (f.snapshot sha256)

theorem stageOutputs_staged (hvalid : record.Valid plan) (hstate : record.state = .prepared) :
    Undoes plan before (Prepares plan before record fun _ => True)
      (stageOutputs plan plan.ops.zipIdx)
      (fun staged => Prepares plan before record (Staged plan staged)) := by
  refine (stageOutputs_triple hvalid hstate plan.ops.zipIdx ?_ fun _ _ _ _ _ => trivial).post ?_
  · rw [zipIdx_map_snd]
    exact nodup_range'
  · exact fun staged w hw => hw.mono fun files h i op data hop =>
      h.2 op i data (mem_zipIdx_iff_getElem?.mpr hop)

theorem stage_triple :
    Undoes plan before (Prepares plan before (journalRecord plan .prepared) fun _ => True)
    (stage plan)
      (fun staged => Prepares plan before ((journalRecord plan .prepared).withStaged staged)
        (Staged plan staged)) := by
  have hvalid : (journalRecord plan .prepared).Valid plan := journalRecord_valid .prepared
  refine (writeJournal_prepares hvalid rfl).bind fun _ => (stageOutputs_staged hvalid rfl).bind
    fun staged => ?_
  have hsafe : Safe Benign (Prepares plan before (journalRecord plan .prepared)
      (Staged plan staged)) (Troubled plan before) (Either plan before) := Prepares.safe hvalid rfl
  refine Triple.bind (onlyIf_triple (fun _ => hsafe.step fun w _ d ⟨seat, h⟩ heq => ?_)
    fun _ _ => id) fun _ => hsafe.look.bind fun _ =>
    Triple.bind (Triple.change fun w hw => hw.setRecord (·.withStaged staged)) fun _ =>
    (writeJournal_prepares (hvalid.withStaged staged) rfl).bind fun _ => Triple.pure fun w hw => hw
  cases heq
  exact ⟨{ seat with ready := true }, { h with
    seats := Disk.updateSeat_single h.seats fun s => { s with ready := true } }⟩

theorem capture_triple : Undoes plan before
      (Prepares plan before ((journalRecord plan .prepared).withStaged staged) (Staged plan staged))
      (capture plan)
      (fun preimages w => Captured plan before preimages ∧
        Prepares plan before (appliedRecord plan staged preimages .prepared)
        (Staged plan staged) w) := by
  have hvalid : ((journalRecord plan .prepared).withStaged staged).Valid plan :=
    (journalRecord_valid .prepared).withStaged staged
  refine (capturePreimages_triple (Prepares.safe hvalid rfl) fun w ⟨seat, h⟩ => h.files).bind
    fun preimages =>
    Triple.of_pre (fun w hw => hw.2) fun hcaptured =>
    Triple.bind (Q := fun _ => Prepares plan before
      (appliedRecord plan staged preimages .prepared) (Staged plan staged))
      (Triple.change fun w hw => hw.1.setRecord (·.withPreimages preimages)) fun _ =>
    (writeJournal_prepares appliedRecord_valid rfl).bind fun _ =>
    Triple.pure fun w hw => ⟨hcaptured, hw⟩

section

variable (hcaptured : Captured plan before preimages)

include hcaptured

theorem writeJournal_applying : Undoes plan before
      (Prepares plan before (appliedRecord plan staged preimages .applying) (Staged plan staged))
      (writeJournal plan.id) (fun _ => Applies plan before staged preimages 0) := by
  have hundo : Undoable plan before (appliedRecord plan staged preimages .applying)
      (staged.lookup ·) fun _ => True :=
    (appliedRecord_undoable hcaptured (by simp)).mono fun _ _ => trivial
  refine writeJournal_triple (fun w hw => hw.troubled _ hundo)
    (fun w ⟨seat, h⟩ => by simp [h.memory, appliedRecord]) fun w seat committed hw hseats => ?_
  obtain ⟨seat', h⟩ := hw
  obtain ⟨-, rfl⟩ := single_inj hseats h.seats
  exact ⟨{ seat with journal := some (w.memory.record, w.disk.next) }, {
    rolling := (h.rolling _ _).journaled
    journal := ⟨w.disk.next, by rw [h.memory]⟩
    memory := h.memory
    known := by simp
    rolledBack := h.rolledBack
    done := by simp
    untouched := fun i op _ _ => ⟨congrFun h.files _, h.backups i⟩
    outputs := fun i op data hop _ => h.staged i op data hop }⟩

theorem applyAll_triple : Undoes plan before (Applies plan before staged preimages 0)
      (Faulty.forEach (applyOperation plan preimages staged) plan.ops.zipIdx)
      (fun _ => Applies plan before staged preimages plan.ops.length) := by
  have hloop : Undoes plan before (Applies plan before staged preimages
    ([] : List (Operation × Nat)).length)
      (Faulty.forEach (applyOperation plan preimages staged) plan.ops.zipIdx)
      (fun _ => Applies plan before staged preimages plan.ops.zipIdx.length) := by
    refine Triple.forEach (fun done => Applies plan before staged preimages done.length) ?_
    rintro done ⟨op, i⟩ todo heq
    have hat : plan.ops.zipIdx[done.length]? = some (op, i) := by
      rw [heq, getElem?_append_right le_rfl, Nat.sub_self]
      rfl
    rw [getElem?_zipIdx] at hat
    obtain ⟨op', hop, hpair⟩ := Option.map_eq_some_iff.mp hat
    simp only [Nat.zero_add] at hpair
    obtain ⟨rfl, rfl⟩ := hpair
    rw [length_append]
    exact applyOperation_triple hcaptured hop
  rwa [length_zipIdx] at hloop

omit hcaptured in
theorem verifyPostimages_triple {P : World -> Prop} (hP : ∀ w, P w -> Troubled plan before w) :
    Undoes plan before P (verifyPostimages plan) (fun _ => P) := by
  refine Triple.of_forall fun w₀ hw₀ => ?_
  refine (compareTargets_triple w₀.disk.files (Benign.safe (fun w hw => hw ▸ hP w₀ hw₀)
    fun _ hw => hw.either) (fun w hw => by rw [hw]) _).bind fun found => ?_
  unfold orRaise
  split
  · exact Triple.pure fun w hw => hw.1 ▸ hw₀
  · exact Triple.raise fun w hw => hw.1 ▸ hP w₀ hw₀

variable (plan before) in
def Published (w : World) : Prop :=
  Removable (AllAfter plan before) plan.id w.memory.journal w ∧
    Recoverable plan before (AllAfter plan before) w.disk ∧ w.memory.rolledBack = false

theorem writeJournal_committed : Undoes plan before
      (fun w => ∃ w', Applies plan before staged preimages plan.ops.length w' ∧
        w = { w' with memory := { w'.memory with
          record := { w'.memory.record with state := .committed } } })
      (writeJournal plan.id) (fun _ => Published plan before) := by
  refine getMemory_bind fun memory => Triple.bind (Q := fun identity w =>
    Published plan before { w with memory := { w.memory with journal := some identity } })
    (converting_triple (writeJournal_step ?_ ?_)) fun identity => Triple.change fun w hw => hw
  · rintro w ⟨⟨w', ⟨seat, h⟩, rfl⟩, rfl⟩
    have hrecord : { w'.memory.record with state := .committed } =
        appliedRecord plan staged preimages .committed := by
      rw [h.memory]
      rfl
    exact h.troubled_of hcaptured (fun _ => .inl) (fun _ => id)
      (hrecord ▸ appliedRecord_undoable hcaptured (by simp)) h.known
  · rintro w seat committed ⟨⟨w', ⟨seat', h⟩, rfl⟩, rfl⟩ hseats
    have hall : AllAfter plan before w'.disk.files := by
      intro op hop
      obtain ⟨i, hi⟩ := mem_iff_getElem?.mp hop
      exact h.done i op hi (List.getElem?_eq_some_iff.mp hi).1
    have hrecoverable : Recoverable plan before (AllAfter plan before)
        (w'.disk.journaled plan.id seat { w'.memory.record with state := .committed }) := by
      refine .finished _ _ _ rfl rfl rfl ?_ ?_ hall
      · rw [h.memory]
        exact appliedRecord_valid.id
      · rw [h.memory]
        exact appliedRecord_valid.wf
    exact ⟨⟨⟨_, rfl, rfl, hall⟩, hrecoverable, h.rolledBack⟩, .inr hrecoverable,
      fun hharm => absurd (.inl rfl) hharm⟩

theorem applyOperations_triple : Undoes plan before
      (Prepares plan before (appliedRecord plan staged preimages .prepared) (Staged plan staged))
      (applyOperations plan preimages staged)
      (fun _ => Applies plan before staged preimages plan.ops.length) :=
  Triple.bind (Triple.change fun _ hw => hw.setRecord ({ · with state := .applying })) fun _ =>
    (writeJournal_applying hcaptured).bind fun _ => (applyAll_triple hcaptured).bind fun _ =>
    verifyPostimages_triple fun _ ⟨_, h⟩ => h.troubled hcaptured

end

theorem publish_triple :
    Undoes plan before (Prepares plan before (journalRecord plan .prepared) fun _ => True)
    (publish plan)
      (fun _ => Published plan before) :=
  stage_triple.bind fun _ => capture_triple.bind fun _ =>
    Triple.of_pre (fun _ hw => hw.1) fun hcaptured =>
    ((applyOperations_triple hcaptured).weaken fun _ hw => hw.2).bind fun _ =>
    Triple.bind (Triple.change fun w hw => ⟨w, hw, rfl⟩) fun _ => writeJournal_committed hcaptured

variable {ok : (Path -> Option File) -> Prop} {turns : List (Turn Outside Exn)}

theorem Recoverable.mono {ok' : (Path -> Option File) -> Prop} {d : Disk}
    (h : Recoverable plan before ok d) (hok : ∀ files, ok files -> ok' files) :
    Recoverable plan before ok' d := by
  cases h with
  | gone hseats h => exact .gone hseats (hok _ h)
  | discarded name seat hseats hjournal h => exact .discarded name seat hseats hjournal (hok _ h)
  | finished seat record identity hseats hjournal hstate hid hwf h =>
    exact .finished seat record identity hseats hjournal hstate hid hwf (hok _ h)
  | unfinished seat record identity staged pins hrolling hstate hundo h =>
    exact .unfinished seat record identity staged pins hrolling hstate hundo
      fun files hall => hok _ (h files hall)

section

variable {γ : Type} {f : World -> γ} (hdisk : ∀ w d, f { w with disk := d } = f w)
  (houtside : ∀ o w, f (outsideAct o w) = f w)

include hdisk houtside

theorem onDisk_keeps {α : Type} {label : Step} {effect : Disk -> Except Exn (α × Disk)} :
    Keeps f (onDisk label effect) := by
  refine Keeps.step houtside fun w a w' heq => ?_
  cases hresult : effect w.disk with
  | error e => simp [hresult] at heq
  | ok result =>
    simp only [hresult, Except.ok.injEq, Prod.mk.injEq] at heq
    rw [<- heq.2, hdisk]

theorem removeTransactionDirectory_keeps {name : Nat} {identity : Option Nat} :
    Keeps f (removeTransactionDirectory name identity) := by
  have hstep : ∀ {α : Type} {label : Step} {effect : Disk -> Except Exn (α × Disk)},
      Keeps f (onDisk label effect) := onDisk_keeps hdisk houtside
  have hdrop : Keeps f (dropJournal name identity) := by
    cases identity with
    | none => exact Keeps.pure
    | some identity =>
      refine (hstep.attempt fun _ => Keeps.raise).bind fun removed => ?_
      unfold orRaise
      split
      · exact Keeps.pure
      · exact Keeps.raise
  exact hdrop.bind fun _ => (hstep.attempt fun _ => Keeps.raise).bind fun quarantine =>
    (hstep.bind fun _ => hstep.bind fun _ => hstep).attempt fun _ => Keeps.raise

end

variable (plan before) in
def Raised (w : World) : Prop :=
  Recoverable plan before (AllBefore plan before) w.disk ∨
    (Recoverable plan before (AllAfter plan before) w.disk ∧ w.memory.rolledBack = false)

theorem cleanUp_rule {allowed : Step -> Turn Outside Exn -> Prop} {P Q R F C : World -> Prop}
    (hremoved : ∀ memory, Triple allowed (fun w => P w ∧ w.memory = memory)
      (removeTransactionDirectory plan.id memory.journal) (fun _ => Q) (fun _ => F) C)
    (hQ : ∀ w, F w -> Q w) (hR : ∀ w, F w -> R w) :
    Triple allowed P (cleanUp plan) (fun _ => Q) (fun _ => R) C := by
  refine getMemory_bind fun memory => Triple.attempt ((hremoved memory).bind fun _ =>
    Triple.pure fun w hw => hw) fun e => ?_
  cases e with
  | transaction message => exact Triple.pure hQ
  | conflict message => exact Triple.pure hQ
  | securePath => exact Triple.raise hR
  | os => exact Triple.raise hR
  | interrupt => exact Triple.raise hR

theorem cleanUp_triple : Triple Benign (Published plan before) (cleanUp plan)
      (fun _ w => Recoverable plan before (AllAfter plan before) w.disk)
      (fun _ => Raised plan before) (Either plan before) := by
  refine cleanUp_rule (fun memory => ((removeTransactionDirectory_triple Benign.quiet).frame
    (f := World.memory) (removeTransactionDirectory_keeps (fun _ _ => rfl) fun o _ => by
      cases o <;> rfl) (·.rolledBack = false)).conseq ?_ (fun _ w hw => .gone hw.1.1 hw.1.2)
    (fun _ _ => id) fun w hw => .inr hw.1.1) (fun w hw => hw.1.1) fun w hw => .inr ⟨hw.1.1, hw.2⟩
  rintro w ⟨⟨hremovable, hrecoverable, hrolled⟩, rfl⟩
  exact ⟨⟨hremovable, hrecoverable⟩, hrolled⟩

variable {files : Path -> Option File}

theorem allBefore_of_eq (h : files = before) :
    AllBefore plan before files :=
  fun op _ => congrFun h op.path

theorem allAfter_of_checks (hchecks : ∀ op ∈ plan.ops, op.kind = .check)
    (h : files = before) : AllAfter plan before files := by
  intro op hop
  rw [Operation.After, hchecks op hop]
  exact congrFun h op.path

theorem commitSeated_triple : Triple Benign (fun w => w.disk.seats = [] ∧ w.disk.files = before) (do
        createSeat plan.id
        sync
        setMemory fun _ => ⟨journalRecord plan .prepared, none, false⟩
        Faulty.attempt (publish plan) (rollbackAndRaise plan)
        let warning <- cleanUp plan
        pure (⟨plan.id, (plan.ops.filter (·.kind ≠ .check)).map (·.path), warning⟩ :
          TransactionResult))
      (fun _ w => Recoverable plan before (AllAfter plan before) w.disk)
      (fun _ => Raised plan before) (Either plan before) := by
  -- a seat without a journal is removed by recovery
  let Created (w : World) : Prop := w.disk.seats = [(plan.id, .empty)] ∧ w.disk.files = before
  have hcreated : Safe Benign Created (Raised plan before) (Either plan before) :=
    Benign.safe (fun w hw => .inl (.discarded plan.id .empty hw.1 rfl (allBefore_of_eq hw.2)))
      fun _ hw => hw.imp id And.left
  refine Triple.bind (Q := fun _ => Created) ?_ fun _ => hcreated.look.bind fun _ =>
    Triple.bind (Q := fun _ => Prepares plan before (journalRecord plan .prepared) fun _ => True)
      (Triple.change fun w hw => ?_) fun _ =>
    Triple.bind (publish_triple.attempt fun e => ?_) fun _ => cleanUp_triple.bind fun warning =>
    Triple.pure fun w hw => hw
  · refine (Benign.safe (fun w hw => .inl (.gone hw.1 (allBefore_of_eq hw.2)))
      hcreated.crashes).change (fun _ => hcreated.fails) fun w _ d hw heq => ?_
    simp only [hw.1, map_nil, not_mem_nil, if_false, Except.ok.injEq, Prod.mk.injEq,
      true_and] at heq
    exact heq ▸ ⟨rfl, hw.2⟩
  · exact ⟨.empty, {
      seats := hw.1
      files := hw.2
      backups := fun _ => rfl
      journal := fun _ _ h => by simp [Seat.empty] at h
      known := fun _ => rfl
      memory := rfl
      rolledBack := rfl
      staged := trivial }⟩
  · exact (rollbackAndRaise_triple e).conseq (fun _ => id) (fun _ _ => id)
      (fun _ w hw => .inl hw.1) fun w hw => .inl hw.1

theorem commit_triple :
    Triple Benign (fun w => w.disk.seats = [] ∧ w.disk.files = before) (commit plan)
      (fun _ w => Recoverable plan before (AllAfter plan before) w.disk)
      (fun _ => Raised plan before) (Either plan before) := by
  unfold commit
  split
  · rename_i hnone
    exact Triple.pure fun w hw => .gone hw.1 (by simp [AllAfter, hnone])
  have hbefore : ∀ w, Recoverable plan before (· = before) w.disk -> Raised plan before w :=
    fun w hw => .inl (hw.mono fun _ => allBefore_of_eq)
  refine Triple.bind (Q := fun _ w => w.disk.seats = [] ∧ w.disk.files = before)
    ((recoverLocked_triple Benign.quiet).conseq (fun w hw => .gone hw.1 hw.2) (fun _ _ => id)
      (fun _ w hw => hbefore w hw.1) fun w hw => (hbefore w hw.1).imp id And.left) fun _ => ?_
  split
  · rename_i hchecks
    refine Triple.bind (capturePreimages_triple (D := Raised plan before) (Benign.safe
      (fun w hw => .inl (.gone hw.1 (allBefore_of_eq hw.2))) fun _ hw => hw.imp id And.left)
      fun w hw => hw.2) fun preimages => Triple.pure fun w hw => ?_
    exact .gone hw.1.1 (allAfter_of_checks hchecks hw.1.2)
  · exact commitSeated_triple

variable (sha256) in
/-- Recovery run any number of times, however each run ends. -/
def recoveries (w : World) (runs : List (List (Turn Outside Exn))) : World :=
  runs.foldl (fun w turns => (recoverLocked sha256 w turns).state) w

variable (sha256) in
/-- Nobody else touches the project while recovery runs. -/
def Undisturbed (w : World) : List (List (Turn Outside Exn)) -> Prop
  | [] => True
  | turns :: runs => (∀ x ∈ (recoverLocked sha256 w turns).trace, x.2.outside = []) ∧
      Undisturbed (recoverLocked sha256 w turns).state runs

/-- The program before it does anything. -/
def World.start (disk : Disk) : World := ⟨disk, ⟨⟨0, .prepared, []⟩, none, false⟩, [], false⟩

theorem undisturbed_quiet :
    Quiet (fun (_ : Step) (turn : Turn Outside Exn) => turn.outside = []) True :=
  ⟨fun _ _ h => h, fun _ _ _ _ => trivial⟩

section

variable (h : Recoverable plan before ok w.disk)

include h

theorem recoverLocked_recoverable
    (hquiet : ∀ x ∈ (recoverLocked sha256 w turns).trace, x.2.outside = []) :
    Recoverable plan before ok (recoverLocked sha256 w turns).state.disk :=
  (recoverLocked_triple undisturbed_quiet w turns h hquiet).state
    (P := fun w => Recoverable plan before ok w.disk) (fun _ _ hw => .gone hw.1 hw.2)
    (fun _ _ hw => hw.1) fun _ hw => hw.1

theorem recoveries_recoverable {runs : List (List (Turn Outside Exn))}
    (hquiet : Undisturbed sha256 w runs) :
    Recoverable plan before ok (recoveries sha256 w runs).disk := by
  induction runs generalizing w with
  | nil => exact h
  | cons turns runs ih => exact ih (recoverLocked_recoverable h hquiet.1) hquiet.2

theorem recoverLocked_returned
    (hquiet : ∀ x ∈ (recoverLocked sha256 w turns).trace, x.2.outside = [])
    (hreturned : (recoverLocked sha256 w turns).outcome = .returned ()) :
    (recoverLocked sha256 w turns).state.disk.seats = [] ∧
      ok (recoverLocked sha256 w turns).state.disk.files := by
  have hends := recoverLocked_triple undisturbed_quiet w turns h hquiet
  rwa [Ends, hreturned] at hends

theorem recoverLocked_returns
    (hfree : ∀ x ∈ (recoverLocked sha256 w turns).trace, x.2 = ⟨[], .none⟩) :
    (recoverLocked sha256 w turns).outcome = .returned () := by
  have hquiet : Quiet (fun (_ : Step) (turn : Turn Outside Exn) => turn = ⟨[], .none⟩) False :=
    ⟨fun _ turn h => by rw [h], fun _ turn h hfault => hfault (by rw [h])⟩
  have hends := recoverLocked_triple hquiet w turns h hfree
  unfold Ends at hends
  split at hends
  · rename_i a hreturned
    exact hreturned
  · exact hends.2.elim
  · exact hends.2.elim

end

variable (plan) in
/-- No seat is left, and all preimages or all postimages, as the commit went. -/
structure Settles (before : Path -> Option File)
    (committed : Ran Step Outside Exn World TransactionResult) (after : Disk) : Prop where
  seats : after.seats = []
  either : AllBefore plan before after.files ∨ AllAfter plan before after.files
  returned : ∀ result, committed.outcome = .returned result -> AllAfter plan before after.files
  rolledBack : ∀ e, committed.outcome = .raised e -> committed.state.memory.rolledBack = true ->
    AllBefore plan before after.files

theorem settles_of_recoverable {committed : Ran Step Outside Exn World TransactionResult}
    (hends : Ends (fun _ w => Recoverable plan before (AllAfter plan before) w.disk)
      (fun _ => Raised plan before) (Either plan before) committed) :
    ∃ ok, Recoverable plan before ok committed.state.disk ∧ ∀ disk : Disk, disk.seats = [] ->
      ok disk.files -> Settles plan before committed disk := by
  obtain ⟨outcome, state, rest, trace⟩ := committed
  have hbefore : ∀ disk : Disk, disk.seats = [] -> AllBefore plan before disk.files ->
      (∀ result, outcome ≠ .returned result) ->
      Settles plan before ⟨outcome, state, rest, trace⟩ disk := fun disk hseats hall hno =>
    ⟨hseats, .inl hall, fun result h => absurd h (hno result), fun _ _ _ => hall⟩
  have hafter : ∀ disk : Disk, disk.seats = [] -> AllAfter plan before disk.files ->
      (∀ e, outcome = .raised e -> state.memory.rolledBack = false) ->
      Settles plan before ⟨outcome, state, rest, trace⟩ disk := fun disk hseats hall hno =>
    ⟨hseats, .inr hall, fun _ _ => hall, fun e h hrolled => by simp [hno e h] at hrolled⟩
  cases outcome with
  | returned result => exact ⟨_, hends, fun disk hseats h => hafter disk hseats h (by simp)⟩
  | raised e =>
    rcases hends with hends | ⟨hends, hrolled⟩
    · exact ⟨_, hends, fun disk hseats h => hbefore disk hseats h (by simp)⟩
    · exact ⟨_, hends, fun disk hseats h => hafter disk hseats h fun _ _ => hrolled⟩
  | crashed =>
    rcases hends with hends | hends
    · exact ⟨_, hends, fun disk hseats h => hbefore disk hseats h (by simp)⟩
    · exact ⟨_, hends, fun disk hseats h => hafter disk hseats h (by simp)⟩

variable (plan) in
/-- A commit whose steps are benign is atomic: wherever it is stopped, and however often
recovery is stopped after it, a recovery that returns has settled it, and a recovery
that nothing stops returns. -/
theorem commit_atomic (disk : Disk) (turns : List (Turn Outside Exn))
    (runs : List (List (Turn Outside Exn))) (hseats : disk.seats = [])
    (hbenign : ∀ x ∈ (commit plan (World.start disk) turns).trace, Benign x.1 x.2)
    (hquiet : Undisturbed sha256 (commit plan (World.start disk) turns).state runs) :
    let committed := commit plan (World.start disk) turns
    let w := recoveries sha256 committed.state runs
    (∀ last, (∀ x ∈ (recoverLocked sha256 w last).trace, x.2.outside = []) ->
      (recoverLocked sha256 w last).outcome = .returned () ->
      Settles plan disk.files committed (recoverLocked sha256 w last).state.disk) ∧
    ∀ last, (∀ x ∈ (recoverLocked sha256 w last).trace, x.2 = ⟨[], .none⟩) ->
      (recoverLocked sha256 w last).outcome = .returned () := by
  intro committed w
  have htriple : Triple Benign (fun w => w.disk.seats = [] ∧ w.disk.files = disk.files)
      (commit plan) _ _ _ := commit_triple
  have hends := htriple (World.start disk) turns ⟨hseats, rfl⟩ hbenign
  obtain ⟨ok, hrecoverable, hsettles⟩ := settles_of_recoverable hends
  have hstopped := recoveries_recoverable hrecoverable hquiet
  refine ⟨fun last hlast hreturned => ?_, fun last hlast => recoverLocked_returns hstopped hlast⟩
  obtain ⟨hgone, hok⟩ := recoverLocked_returned hstopped hlast hreturned
  exact hsettles _ hgone hok

end

/-! ## Three faults that do harm -/

/-- A digest that tells all contents apart. -/
def plainDigest (data : List Byte) : Digest := String.ofList (data.map fun b => Char.ofNat b.toNat)

def newFile (path : Path) (byte : Byte) : Operation :=
  ⟨.write, path, none, some [byte], some (plainDigest [byte])⟩

def twoWrites : Plan plainDigest where
  id := 7
  ops := [newFile "a" 49, newFile "b" 50]
  wf := by
    intro op hop
    simp only [List.mem_cons, List.not_mem_nil, or_false] at hop
    rcases hop with rfl | rfl <;> exact ⟨fun _ => ⟨_, rfl, rfl, by simp [newFile]⟩,
      by simp [newFile],
      by decide +kernel⟩
  paths := by decide +kernel

def emptyDisk : Disk := ⟨fun _ => none, [], 1⟩

/-- Turns that leave `n` steps alone, and then have a fault. -/
def faultAfter (n : Nat) (fault : Fault Exn) : List (Turn Outside Exn) :=
  List.replicate n ⟨[], .none⟩ ++ [⟨[], fault⟩]

def commitTwo (turns : List (Turn Outside Exn)) : Ran Step Outside Exn World TransactionResult :=
  commit twoWrites (World.start emptyDisk) turns

/-- A recovery after it that nothing stops. -/
def recoverTwo (turns : List (Turn Outside Exn)) : Ran Step Outside Exn World Unit :=
  recoverLocked plainDigest (commitTwo turns).state []

theorem not_either_of_one (h : (files "a").isSome ≠ (files "b").isSome) :
    ¬ (AllBefore twoWrites emptyDisk.files files ∨ AllAfter twoWrites emptyDisk.files files) := by
  rintro (hall | hall)
  · have ha := hall (newFile "a" 49) (by simp [twoWrites])
    have hb := hall (newFile "b" 50) (by simp [twoWrites])
    simp only [newFile, emptyDisk] at ha hb
    simp [ha, hb] at h
  · have ha := hall (newFile "a" 49) (by simp [twoWrites])
    have hb := hall (newFile "b" 50) (by simp [twoWrites])
    simp only [Operation.After, newFile, Option.map_eq_some_iff] at ha hb
    obtain ⟨fa, ha, -⟩ := ha
    obtain ⟨fb, hb, -⟩ := hb
    simp [ha, hb] at h

def promotionRaises : List (Turn Outside Exn) := faultAfter 14 (.raiseAfter .securePath)

def committedRaises : List (Turn Outside Exn) :=
  faultAfter 18 (.raiseAfter .os) ++ faultAfter 4 .crashBefore

def firstRaises : List (Turn Outside Exn) :=
  faultAfter 3 (.raiseAfter .os) ++ faultAfter 1 .crashBefore

/-- The commit rolls back and leaves the second file; recovery leaves the first file;
recovery refuses from then on. -/
theorem commitTwo_mixed : ((commitTwo promotionRaises).outcome =
        .raised (.conflict "transaction target changed while applying: b") ∧
      (commitTwo promotionRaises).state.memory.rolledBack = true ∧
      (recoverTwo promotionRaises).outcome = .returned () ∧
      ¬ (AllBefore twoWrites emptyDisk.files (recoverTwo promotionRaises).state.disk.files ∨
        AllAfter twoWrites emptyDisk.files (recoverTwo promotionRaises).state.disk.files)) ∧
    ((commitTwo committedRaises).outcome = .crashed ∧
      (recoverTwo committedRaises).outcome = .returned () ∧
      ¬ (AllBefore twoWrites emptyDisk.files (recoverTwo committedRaises).state.disk.files ∨
        AllAfter twoWrites emptyDisk.files (recoverTwo committedRaises).state.disk.files)) ∧
    ((commitTwo firstRaises).outcome = .crashed ∧ (recoverTwo firstRaises).outcome =
        .raised (.transaction "transaction journal does not match its seat") ∧
      (recoverTwo firstRaises).state.disk.seats.length = 1) := by
  refine ⟨⟨by decide +kernel, by decide +kernel, by decide +kernel,
    not_either_of_one (by decide +kernel)⟩, ⟨by decide +kernel, by decide +kernel,
    not_either_of_one (by decide +kernel)⟩, by decide +kernel, by decide +kernel,
    by decide +kernel⟩

theorem Benign.of_crash {label : Step} {turn : Turn Outside Exn} (houtside : turn.outside = [])
    (hfault : turn.fault = .none ∨ turn.fault = .crashAfter) : Benign label turn := by
  refine ⟨houtside, fun _ => ?_, fun _ _ _ _ e => ?_⟩ <;> rcases hfault with h | h <;> simp [h]

/-- A commit that crashes with the second file just installed, and a recovery that
crashes as well. -/
theorem commitTwo_atomic : (commitTwo (faultAfter 14 .crashAfter)).outcome = .crashed ∧
    ∀ last, (∀ x ∈ (recoverLocked plainDigest (recoveries plainDigest
          (commitTwo (faultAfter 14 .crashAfter)).state [faultAfter 4 .crashAfter]) last).trace,
        x.2.outside = []) ->
      (recoverLocked plainDigest (recoveries plainDigest
        (commitTwo (faultAfter 14 .crashAfter)).state [faultAfter 4 .crashAfter]) last).outcome =
          .returned () ->
      Settles twoWrites emptyDisk.files (commitTwo (faultAfter 14 .crashAfter))
        (recoverLocked plainDigest (recoveries plainDigest
          (commitTwo (faultAfter 14 .crashAfter)).state [faultAfter 4 .crashAfter])
            last).state.disk := by
  refine ⟨by decide +kernel, (commit_atomic twoWrites emptyDisk (faultAfter 14 .crashAfter)
    [faultAfter 4 .crashAfter] rfl ?_ ⟨?_, trivial⟩).1⟩
  · have hfaults : ∀ x ∈ (commitTwo (faultAfter 14 .crashAfter)).trace,
        x.2.outside = [] ∧ (x.2.fault = .none ∨ x.2.fault = .crashAfter) := by decide +kernel
    exact fun x hx => .of_crash (hfaults x hx).1 (hfaults x hx).2
  · decide +kernel

end Reprobit.Transaction

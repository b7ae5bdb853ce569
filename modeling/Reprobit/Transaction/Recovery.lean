import Reprobit.Transaction.Rollback

/-!
# Recovery

The disks from which recovery ends with the same result, however often it is stopped.
-/

namespace Reprobit.Transaction

open Machine Faulty Prod

variable {sha256 : List Byte -> Digest} (plan : Plan sha256) (before : Path -> Option File)

/-- The seat is gone, or about to be, or its journal undoes what was done. -/
inductive Recoverable (ok : (Path -> Option File) -> Prop) (d : Disk) : Prop
  | gone (hseats : d.seats = []) (hok : ok d.files)
  | discarded (name : Nat) (seat : Seat) (hseats : d.seats = [(name, seat)])
      (hjournal : seat.journal = none) (hok : ok d.files)
  | finished (seat : Seat) (record : Record) (identity : Nat) (hseats : d.seats = [(plan.id, seat)])
      (hjournal : seat.journal = some (record, identity)) (hstate : record.state = .committed)
      (hid : record.transactionId = plan.id) (hwf : ∀ e ∈ record.entries, e.Wf) (hok : ok d.files)
  | unfinished (seat : Seat) (record : Record) (identity : Nat) (staged : Nat -> Option Snapshot)
      (pins : Path -> Prop)
      (hrolling : Rolling plan before plan.id (some (record, identity)) staged pins d seat)
      (hstate : record.state ≠ .committed) (hundo : Undoable plan before record staged pins)
      (hok : ∀ files, AllBefore plan before files -> ok files)

variable {plan before} {ok : (Path -> Option File) -> Prop} {name : Nat} {d : Disk}
  {allowed : Step -> Turn Outside Exn -> Prop} {X : Prop}

variable (plan before) in
/-- An interrupted recovery. -/
abbrev Stopped (ok : (Path -> Option File) -> Prop) (X : Prop) (w : World) : Prop :=
  Recoverable plan before ok w.disk ∧ X

def Journalless (ok : (Path -> Option File) -> Prop) (name : Nat) (w : World) : Prop :=
  ∃ seat, w.disk.seats = [(name, seat)] ∧ seat.journal = none ∧ ok w.disk.files

variable {w : World}

theorem Journalless.recoverable (h : Journalless ok name w) :
    Recoverable plan before ok w.disk := by
  obtain ⟨seat, hseats, hjournal, hok⟩ := h
  exact .discarded name seat hseats hjournal hok

/-- Without a journal the seat can be removed at any pace. -/
theorem removeQuarantined_triple (hquiet : Quiet allowed X) : Leaves allowed (Journalless ok name)
      (do
        let quarantine <- refusing (renameSeat name) "cannot quarantine transaction seat"
        refusing (do
          emptySeat quarantine
          dropSeat quarantine
          sync) "cannot remove quarantined transaction seat")
      (fun _ w => w.disk.seats = [] ∧ ok w.disk.files) (Stopped plan before ok X) := by
  refine Triple.bind (Q := fun quarantine => Journalless ok quarantine) ?_ fun quarantine => ?_
  · refine refusing_triple (onDisk_triple hquiet (fun w hw => hw.recoverable) fun w hw => ?_)
    obtain ⟨seat, hseats, hjournal, hok⟩ := hw
    have hnext : Journalless ok w.disk.freshName { w with disk := { w.disk with
        seats := w.disk.seats.map fun entry =>
          if entry.1 = name then (w.disk.freshName, entry.2) else entry } } :=
      ⟨seat, by simp [hseats], hjournal, hok⟩
    exact ⟨_, _, rfl, hnext, hnext.recoverable⟩
  · refine refusing_triple (Triple.bind (Q := fun _ => Journalless ok quarantine) ?_ fun _ =>
      Triple.bind (Q := fun _ w => w.disk.seats = [] ∧ ok w.disk.files) ?_ fun _ => ?_)
    · refine onDisk_triple hquiet (fun w hw => hw.recoverable) fun w hw => ?_
      obtain ⟨seat, hseats, hjournal, hok⟩ := hw
      have hnext : Journalless ok quarantine
          { w with disk := w.disk.updateSeat quarantine fun _ => .empty } :=
        ⟨.empty, Disk.updateSeat_single hseats _, rfl, hok⟩
      exact ⟨(), _, rfl, hnext, hnext.recoverable⟩
    · refine onDisk_triple hquiet (fun w hw => hw.recoverable) fun w hw => ?_
      obtain ⟨seat, hseats, hjournal, hok⟩ := hw
      have hgone : w.disk.seats.filter (·.1 ≠ quarantine) = [] := by simp [hseats]
      exact ⟨(), _, rfl, ⟨hgone, hok⟩, .gone hgone hok⟩
    · exact sync_triple hquiet (fun w hw => .gone hw.1 hw.2) fun w hw => hw

def Removable (ok : (Path -> Option File) ->
    Prop) (name : Nat) (identity : Option Nat) (w : World) :
    Prop :=
  ∃ seat, w.disk.seats = [(name, seat)] ∧ seat.journal.map snd = identity ∧ ok w.disk.files

theorem removeJournalEffect_eq {seat : Seat} {identity : Nat} (hseats : d.seats = [(name, seat)])
    (hjournal : seat.journal.map snd = some identity) :
    removeJournalEffect name identity d =
      .ok (true, d.updateSeat name fun s => { s with journal := none }) := by
  simp [removeJournalEffect, Disk.seat?_single hseats, hjournal]

theorem removeTransactionDirectory_triple (hquiet : Quiet allowed X) {identity : Option Nat} :
    Leaves allowed (fun w => Removable ok name identity w ∧ Recoverable plan before ok w.disk)
      (removeTransactionDirectory name identity)
      (fun _ w => w.disk.seats = [] ∧ ok w.disk.files) (Stopped plan before ok X) := by
  refine Triple.bind (Q := fun _ => Journalless ok name) ?_ fun _ =>
    removeQuarantined_triple hquiet
  cases identity with
  | none =>
    refine Triple.pure fun w ⟨⟨seat, hseats, hjournal, hok⟩, _⟩ => ⟨seat, hseats, ?_, hok⟩
    simpa using hjournal
  | some identity =>
    refine Triple.bind (Q := fun removed w => removed = true ∧ Journalless ok name w) ?_
      fun removed => orRaise_triple fun w hw => hw
    refine converting_triple (onDisk_triple hquiet (fun w hw => hw.2) fun w hw => ?_)
    obtain ⟨⟨seat, hseats, hjournal, hok⟩, -⟩ := hw
    have hnext : Journalless ok name
        { w with disk := w.disk.updateSeat name fun s => { s with journal := none } } :=
      ⟨_, Disk.updateSeat_single hseats _, rfl, hok⟩
    exact ⟨true, _, removeJournalEffect_eq hseats hjournal, ⟨rfl, hnext⟩, hnext.recoverable⟩

variable (plan before) in
def Waiting (ok : (Path -> Option File) -> Prop) (name : Nat) (journal : Option (Record × Nat))
    (w : World) : Prop :=
  (∃ seat, w.disk.seats = [(name, seat)] ∧ seat.journal = journal) ∧
    Recoverable plan before ok w.disk

variable {record : Record} {identity : Nat}

theorem Recoverable.journaled (h : Recoverable plan before ok d) {seat : Seat}
    (hseats : d.seats = [(name, seat)]) (hjournal : seat.journal = some (record, identity)) :
    name = plan.id ∧ ((record.state = .committed ∧ record.transactionId = plan.id ∧
        (∀ e ∈ record.entries, e.Wf) ∧ ok d.files) ∨
      (record.state ≠ .committed ∧ (∀ files, AllBefore plan before files -> ok files) ∧
        ∃ staged pins, Undoable plan before record staged pins ∧
          Rolling plan before plan.id (some (record, identity)) staged pins d seat)) := by
  cases h with
  | gone hgone => simp [hseats] at hgone
  | discarded name' seat' hseats' hnone =>
    obtain ⟨-, rfl⟩ := single_inj hseats hseats'
    simp [hjournal] at hnone
  | finished seat' record' identity' hseats' hjournal' hstate hid hwf hok =>
    obtain ⟨rfl, rfl⟩ := single_inj hseats hseats'
    cases hjournal.symm.trans hjournal'
    exact ⟨rfl, .inl ⟨hstate, hid, hwf, hok⟩⟩
  | unfinished seat' record' identity' staged pins hrolling hstate hundo hok =>
    obtain ⟨rfl, rfl⟩ := single_inj hseats hrolling.seats
    cases hjournal.symm.trans hrolling.journal
    exact ⟨rfl, .inr ⟨hstate, hok, staged, pins, hundo, hrolling⟩⟩

theorem Waiting.discarded (h : Waiting plan before ok name none w) :
    Removable ok name none w := by
  obtain ⟨⟨seat, hseats, hjournal⟩, hrecoverable⟩ := h
  refine ⟨seat, hseats, by rw [hjournal]; rfl, ?_⟩
  cases hrecoverable with
  | gone _ hok => exact hok
  | discarded _ _ _ _ hok => exact hok
  | finished _ _ _ _ _ _ _ _ hok => exact hok
  | unfinished seat' record identity _ _ hrolling =>
    obtain ⟨-, rfl⟩ := single_inj hseats hrolling.seats
    cases hjournal.symm.trans hrolling.journal

theorem Waiting.finished (h : Waiting plan before ok name (some (record, identity)) w)
    (hstate : record.state = .committed) :
    Removable ok name (some identity) w ∧ record.transactionId = name ∧
      ∀ e ∈ record.entries, e.Wf := by
  obtain ⟨⟨seat, hseats, hjournal⟩, hrecoverable⟩ := h
  obtain ⟨rfl, ⟨-, hid, hwf, hok⟩ | ⟨hno, -⟩⟩ := hrecoverable.journaled hseats hjournal
  · exact ⟨⟨seat, hseats, by rw [hjournal]; rfl, hok⟩, hid, hwf⟩
  · exact absurd hstate hno

theorem Waiting.unfinished (h : Waiting plan before ok name (some (record, identity)) w)
    (hstate : record.state ≠ .committed) :
    (name = plan.id ∧ ∀ files, AllBefore plan before files -> ok files) ∧ ∃ staged pins,
      Undoable plan before record staged pins ∧
        Rolls plan before plan.id (some (record, identity)) staged pins w := by
  obtain ⟨⟨seat, hseats, hjournal⟩, hrecoverable⟩ := h
  obtain ⟨rfl, ⟨hyes, -⟩ | ⟨-, hok, staged, pins, hundo, hrolling⟩⟩ :=
    hrecoverable.journaled hseats hjournal
  · exact absurd hyes hstate
  · exact ⟨⟨rfl, hok⟩, staged, pins, hundo, seat, hrolling⟩

theorem recoverLoaded_triple (hquiet : Quiet allowed X) (journal : Option (Record × Nat)) :
    Leaves allowed (Waiting plan before ok name journal) (recoverLoaded sha256 name journal)
      (fun _ w => w.disk.seats = [] ∧ ok w.disk.files) (Stopped plan before ok X) := by
  rcases journal with _ | ⟨record, identity⟩
  · exact (removeTransactionDirectory_triple hquiet).weaken fun w hw => ⟨hw.discarded, hw.2⟩
  by_cases hstate : record.state = .committed
  · apply Triple.of_pre fun w hw => (hw.finished hstate).2
    rintro ⟨hid, hwf⟩
    refine (validateJournalRecord_triple hid hwf).bind fun _ => Triple.bind
      (Q := fun _ => Waiting plan before ok name (some (record, identity)))
      (onlyIf_triple (fun hno => absurd hstate hno) fun _ w hw => hw) fun _ => ?_
    exact (removeTransactionDirectory_triple hquiet).weaken
      fun w hw => ⟨(hw.finished hstate).1, hw.2⟩
  · apply Triple.of_pre fun w hw => (hw.unfinished hstate).1
    rintro ⟨rfl, hok⟩
    refine Triple.weaken (W := fun w => ∃ staged pins, Undoable plan before record staged pins ∧
      Rolls plan before plan.id (some (record, identity)) staged pins w) ?_
      fun w hw => (hw.unfinished hstate).2
    refine Triple.exists fun staged => Triple.exists fun pins => Triple.of_pre
      (fun w hw => hw.1) fun hundo => Triple.weaken ?_ fun w hw => hw.2
    have hrecoverable : ∀ w, Rolls plan before plan.id (some (record, identity)) staged pins w ->
        Recoverable plan before ok w.disk := fun w ⟨seat, hrolling⟩ =>
      .unfinished seat record identity staged pins hrolling hstate hundo hok
    refine (validateJournalRecord_triple hundo.id hundo.wf).bind fun _ => Triple.bind
      (onlyIf_triple (fun _ => ?_) fun hno => absurd hstate hno) fun _ =>
        removeTransactionDirectory_triple hquiet
    refine (rollbackRecord_triple hquiet hundo).conseq (fun _ => id) (fun _ w hw => ?_)
      (fun _ w hw => ⟨hrecoverable w hw.1, hw.2⟩) fun w hw => ⟨hrecoverable w hw.1, hw.2⟩
    obtain ⟨hrolls, hall⟩ := hw
    refine ⟨?_, hrecoverable w hrolls⟩
    obtain ⟨seat, hrolling⟩ := hrolls
    exact ⟨seat, hrolling.seats, by rw [hrolling.journal]; rfl, hok _ hall⟩

theorem recoverSeat_triple (hquiet : Quiet allowed X) : Leaves allowed
      (fun w => (∃ seat, w.disk.seats = [(name, seat)]) ∧ Recoverable plan before ok w.disk)
      (recoverSeat sha256 name) (fun _ w => w.disk.seats = [] ∧
        ok w.disk.files) (Stopped plan before ok X) := by
  refine Triple.bind ?_ (recoverLoaded_triple hquiet)
  refine onDisk_triple hquiet (fun w hw => hw.2) fun w ⟨⟨seat, hseats⟩, hrecoverable⟩ => ?_
  refine ⟨_, w.disk, rfl, ⟨⟨seat, hseats, ?_⟩, hrecoverable⟩, hrecoverable⟩
  simp [Disk.seat?_single hseats]

theorem Recoverable.seats (h : Recoverable plan before ok d) :
    (d.seats = [] ∧ ok d.files) ∨ ∃ name seat, d.seats = [(name, seat)] := by
  cases h with
  | gone hseats hok => exact .inl ⟨hseats, hok⟩
  | discarded name seat hseats => exact .inr ⟨name, seat, hseats⟩
  | finished seat record identity hseats => exact .inr ⟨plan.id, seat, hseats⟩
  | unfinished seat record identity staged pins hrolling =>
    exact .inr ⟨plan.id, seat, hrolling.seats⟩

theorem recoverLocked_triple (hquiet : Quiet allowed X) :
    Leaves allowed (fun w => Recoverable plan before ok w.disk) (recoverLocked sha256)
      (fun _ w => w.disk.seats = [] ∧ ok w.disk.files) (Stopped plan before ok X) := by
  refine Triple.bind (Q := fun names w => (names = [] ∧ w.disk.seats = [] ∧ ok w.disk.files) ∨
    ∃ name, names = [name] ∧ (∃ seat, w.disk.seats = [(name, seat)]) ∧
      Recoverable plan before ok w.disk) ?_ fun names => ?_
  · refine onDisk_triple hquiet (fun w hw => hw) fun w hw => ⟨_, w.disk, rfl, ?_, hw⟩
    rcases hw.seats with ⟨hseats, hok⟩ | ⟨name, seat, hseats⟩
    · exact .inl ⟨by simp [hseats], hseats, hok⟩
    · exact .inr ⟨name, by simp [hseats], ⟨seat, hseats⟩, hw⟩
  · rcases names with _ | ⟨name, _ | ⟨second, rest⟩⟩
    · exact Triple.pure fun w hw => by simpa using hw
    · refine ((recoverSeat_triple hquiet).weaken fun w hw => ?_).bind fun _ =>
        Triple.pure fun w hw => hw
      simpa using hw
    · exact fun w turns hw => by simp at hw

end Reprobit.Transaction

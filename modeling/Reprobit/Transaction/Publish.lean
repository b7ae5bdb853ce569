import Reprobit.Transaction.Recovery

/-!
# Publishing without an outside writer

The states between the steps of a commit.  Each of them can be recovered to the
preimages of all targets, until the committed journal is published; from then on to
their postimages.
-/

namespace Reprobit.Transaction

open Machine Faulty List Function Prod

/-- A fault does no harm, except at three steps that raise when they are done. -/
def Benign (label : Step) (turn : Turn Outside Exn) : Prop :=
  turn.outside = [] ∧ (label = .promoteStaged true -> turn.fault ≠ .raiseAfter .securePath) ∧
    ∀ state first, label = .writeJournal state first -> state = .committed ∨ first = true ->
      ∀ e, turn.fault ≠ .raiseAfter e

theorem Benign.quiet : Quiet Benign True := ⟨fun _ _ h => h.1, fun _ _ _ _ => trivial⟩

section

variable {α : Type} {P D C : World -> Prop} {Q : α -> World -> Prop}

theorem Benign.safe (hD : ∀ w, P w -> D w) (hC : ∀ w, D w -> C w) : Safe Benign P D C :=
  ⟨fun _ turn hturn w hw => by rw [hturn.1]; exact hw, hD, hC⟩

theorem getMemory_bind {allowed : Step -> Turn Outside Exn -> Prop} {f : Memory -> M α}
    {E : Exn -> World -> Prop}
    (h : ∀ memory, Triple allowed (fun w => P w ∧ w.memory = memory) (f memory) Q E C) :
    Triple allowed P (getMemory >>= f) Q E C := by
  intro w turns hw hallowed
  exact h w.memory w turns ⟨hw, rfl⟩ hallowed

end

variable {sha256 : List Byte -> Digest} (plan : Plan sha256) (before : Path -> Option File)

def Operation.After (before : Path -> Option File) (op : Operation) (files : Path -> Option File) :
    Prop :=
  match op.kind with
  | .write => (files op.path).map (·.data) = op.data
  | .delete => files op.path = none
  | .check => files op.path = before op.path

def AllAfter (files : Path -> Option File) : Prop := ∀ op ∈ plan.ops, op.After before files

/-- Recovery brings all preimages, or all postimages. -/
def Either (w : World) : Prop :=
  Recoverable plan before (AllBefore plan before) w.disk ∨
    Recoverable plan before (AllAfter plan before) w.disk

def Troubled (w : World) : Prop :=
  ∃ seat staged pins, Rolling plan before plan.id seat.journal staged pins w.disk seat ∧
    (seat.journal = none -> ∀ op ∈ plan.ops, pins op.path) ∧
    (∀ record identity, seat.journal = some (record, identity) ->
      record.state ≠ .committed ∧ Undoable plan before record staged pins) ∧
    Undoable plan before w.memory.record staged pins ∧
    (w.memory.journal = none -> seat.journal = none)

/-- A program that can be undone wherever it ends early. -/
abbrev Undoes {α : Type} (P : World -> Prop) (m : M α) (Q : α -> World -> Prop) : Prop :=
  Triple Benign P m Q (fun _ => Troubled plan before) (Either plan before)

variable {plan before} {w : World} {d : Disk} {seat : Seat}
  {staged preimages : List (Nat × Snapshot)} {pins : Path -> Prop} {Q : Unit -> World -> Prop}
  {identity : Nat}

theorem Rolling.recoverable {staged : Nat -> Option Snapshot}
    (h : Rolling plan before plan.id seat.journal staged pins d seat)
    (hnone : seat.journal = none -> ∀ op ∈ plan.ops, pins op.path)
    (hsome : ∀ record identity, seat.journal = some (record, identity) ->
      record.state ≠ .committed ∧ Undoable plan before record staged pins) :
    Recoverable plan before (AllBefore plan before) d := by
  cases hjournal : seat.journal with
  | none => exact .discarded _ _ h.seats hjournal fun op hop => h.pinned _ (hnone hjournal op hop)
  | some journal =>
    obtain ⟨record, identity⟩ := journal
    obtain ⟨hstate, hundo⟩ := hsome _ _ hjournal
    exact .unfinished seat record identity staged pins (hjournal ▸ h) hstate hundo fun _ => id

theorem Troubled.recoverable (h : Troubled plan before w) :
    Recoverable plan before (AllBefore plan before) w.disk := by
  obtain ⟨seat, staged, pins, hrolling, hnone, hsome, -⟩ := h
  exact hrolling.recoverable hnone hsome

theorem Troubled.either (h : Troubled plan before w) : Either plan before w := .inl h.recoverable

theorem dropJournal_stale {ok : (Path -> Option File) -> Prop} :
    Leaves Benign (fun w => (∃ seat, w.disk.seats = [(plan.id, seat)] ∧
        seat.journal.map snd ≠ some identity) ∧ Recoverable plan before ok w.disk)
      (dropJournal plan.id (some identity)) Q (Stopped plan before ok True) := by
  refine Triple.bind (Q := fun removed w => removed = false ∧ Recoverable plan before ok w.disk) ?_
    fun removed => ?_
  · refine converting_triple (onDisk_triple Benign.quiet (fun w hw => hw.2) fun w hw => ?_)
    obtain ⟨⟨seat, hseats, hne⟩, hrecoverable⟩ := hw
    refine ⟨false, w.disk, ?_, ⟨rfl, hrecoverable⟩, hrecoverable⟩
    simp [removeJournalEffect, Disk.seat?_single hseats, hne]
  · refine Triple.of_pre (fun w hw => hw.1) ?_
    rintro rfl
    exact Triple.raise fun w hw => ⟨hw.2, trivial⟩

theorem rollbackAndRaise_triple (e : Exn) :
    Leaves Benign (Troubled plan before) (rollbackAndRaise plan e) Q
      (Stopped plan before (AllBefore plan before) True) := by
  refine getMemory_bind fun memory => Triple.bind
    (Triple.attempt (F := fun _ => Stopped plan before (AllBefore plan before) True) ?_
      fun _ => Triple.raise fun w hw => hw) fun _ => Triple.raise fun w hw => hw
  refine Triple.of_forall fun w₀ hw₀ => ?_
  obtain ⟨⟨seat, staged, pins, hrolling, hnone, hsome, hundo, hfirst⟩, rfl⟩ := hw₀
  have hrecoverable : ∀ w, Rolls plan before plan.id seat.journal staged pins w ->
      Recoverable plan before (AllBefore plan before) w.disk := by
    rintro w ⟨seat', hrolling'⟩
    have heq := hrolling'.journal
    exact Rolling.recoverable (heq ▸ hrolling') (heq ▸ hnone) (heq ▸ hsome)
  have hrolled : Leaves Benign (· = w₀) (rollbackRecord sha256 plan.id w₀.memory.record)
      (fun _ w => Rolls plan before plan.id seat.journal staged pins w ∧
        AllBefore plan before w.disk.files)
      (Stopped plan before (AllBefore plan before) True) :=
    (rollbackRecord_triple Benign.quiet hundo).conseq
      (fun w hw => by subst hw; exact ⟨seat, hrolling⟩) (fun _ _ => id)
      (fun _ w hw => ⟨hrecoverable w hw.1, trivial⟩) fun w hw => ⟨hrecoverable w hw.1, trivial⟩
  refine hrolled.bind fun _ => Triple.bind (Q := fun _ w =>
    Rolls plan before plan.id seat.journal staged pins w ∧ AllBefore plan before w.disk.files)
    (Triple.change fun w hw => hw) fun _ => ?_
  by_cases hcurrent : seat.journal.map snd = w₀.memory.journal
  · refine (removeTransactionDirectory_triple Benign.quiet).conseq (fun w hw => ?_)
      (fun _ w hw => ⟨.gone hw.1 hw.2, trivial⟩) (fun _ _ => id) fun _ => id
    refine ⟨?_, hrecoverable w hw.1⟩
    obtain ⟨⟨seat', hrolling'⟩, hall⟩ := hw
    exact ⟨seat', hrolling'.seats, by rw [hrolling'.journal, hcurrent], hall⟩
  · -- a stale identity is never `none`
    cases hidentity : w₀.memory.journal with
    | none => simp [hidentity, hfirst hidentity] at hcurrent
    | some identity =>
      refine Triple.bind (dropJournal_stale.weaken fun w hw => ⟨?_, hrecoverable w hw.1⟩)
        (Q := fun _ _ => False) fun _ w _ hw => hw.elim
      obtain ⟨⟨seat', hrolling'⟩, -⟩ := hw
      exact ⟨seat', hrolling'.seats, by rw [hrolling'.journal, <- hidentity]; exact hcurrent⟩

def Disk.journaled (d : Disk) (name : Nat) (seat : Seat) (record : Record) : Disk :=
  { d with
    seats := [(name, { seat with journal := some (record, d.next) })]
    next := d.next + 1 }

variable {record : Record} {P : World -> Prop} {expected : Option Nat} {name : Nat}

theorem journalEffect_eq_ok {d' : Disk}
    (h : journalEffect name record expected d = .ok (identity, d'))
    (hseats : d.seats = [(name, seat)]) :
    identity = d.next ∧ d' = d.journaled name seat record := by
  rw [journalEffect, Disk.seat?_single hseats] at h
  dsimp only at h
  split at h
  · cases h
    refine ⟨rfl, ?_⟩
    rw [Disk.updateSeat_single hseats]
    rfl
  · simp at h

theorem Rolling.journaled {staged : Nat -> Option Snapshot} {journal : Option (Record × Nat)}
    (h : Rolling plan before name journal staged pins d seat) :
    Rolling plan before name (some (record, d.next)) staged pins (d.journaled name seat record)
      { seat with journal := some (record, d.next) } :=
  ⟨rfl, rfl, h.held, h.pinned⟩

theorem Troubled.journaled (h : Troubled plan before w)
    (hstate : w.memory.record.state ≠ .committed) (hseats : w.disk.seats = [(plan.id, seat)])
    {memory : Memory} {committed : Bool} (hrecord : memory.record = w.memory.record)
    (hjournal : memory.journal ≠ none) : Troubled plan before { w with
      disk := w.disk.journaled plan.id seat w.memory.record, memory, committed } := by
  obtain ⟨seat', staged, pins, hrolling, -, -, hundo, -⟩ := h
  obtain ⟨-, rfl⟩ := single_inj hseats hrolling.seats
  refine ⟨{ seat with journal := some (w.memory.record, w.disk.next) }, staged, pins,
    hrolling.journaled, by simp, ?_, hrecord ▸ hundo, fun hnone => absurd hnone hjournal⟩
  intro record identity hsome
  simp only [Option.some.injEq, mk.injEq] at hsome
  exact hsome.1 ▸ ⟨hstate, hundo⟩

theorem writeJournal_step {Q : Nat -> World -> Prop} (hP : ∀ w, P w -> Troubled plan before w)
    (hpublished : ∀ w seat committed, P w -> w.disk.seats = [(plan.id, seat)] ->
      let w' : World := { w with disk := w.disk.journaled plan.id seat record, committed }
      Q w.disk.next w' ∧ Either plan before w' ∧
        (¬ (record.state = .committed ∨ expected = none) -> Troubled plan before w')) :
    Undoes plan before P (publishJournal plan.id record expected) Q := by
  apply Triple.step
  · intro turn hturn w hw
    rw [hturn.1]
    exact hw
  · exact fun turn w _ hw => ⟨fun _ _ => hP w hw, fun _ => (hP w hw).either⟩
  · intro turn w identity w' hturn hw heq
    obtain ⟨seat, _, _, hrolling, _⟩ := hP w hw
    cases hresult : journalEffect plan.id record expected w.disk with
    | error e => simp [hresult] at heq
    | ok result =>
      obtain ⟨identity', d⟩ := result
      obtain ⟨rfl, rfl⟩ := journalEffect_eq_ok hresult hrolling.seats
      simp only [hresult] at heq
      obtain ⟨rfl, rfl⟩ := heq
      obtain ⟨hq, heither, htroubled⟩ := hpublished w seat
        (w.committed || decide (record.state = .committed)) hw hrolling.seats
      refine ⟨fun _ => hq, fun e he => htroubled fun hharm => ?_, fun _ => heither⟩
      refine hturn.2.2 _ _ rfl (hharm.imp id fun hnone => ?_) e he
      rw [hnone]
      rfl
  · exact fun turn w e _ hw _ => ⟨hP w hw, fun _ => (hP w hw).either⟩

theorem writeJournal_triple {Q : World -> Prop} (hP : ∀ w, P w -> Troubled plan before w)
    (hstate : ∀ w, P w -> w.memory.record.state ≠ .committed)
    (hQ : ∀ w seat committed, P w -> w.disk.seats = [(plan.id, seat)] -> Q { w with
        disk := w.disk.journaled plan.id seat w.memory.record
        memory := { w.memory with journal := some w.disk.next }
        committed }) : Undoes plan before P (writeJournal plan.id) (fun _ => Q) := by
  refine getMemory_bind fun memory => Triple.bind (Q := fun identity w =>
    Q { w with memory := { w.memory with journal := some identity } })
    (converting_triple (writeJournal_step (fun w hw => hP w hw.1) ?_)) fun identity =>
      Triple.change fun w hw => hw
  rintro w seat committed ⟨hw, rfl⟩ hseats
  refine ⟨hQ w seat committed hw hseats, ?_, fun hharm => ?_⟩
  · -- the journal alone matters here, so take a memory that knows of it
    have htroubled : Troubled plan before { w with
        disk := w.disk.journaled plan.id seat w.memory.record
        memory := { w.memory with journal := some w.disk.next }
        committed } := (hP w hw).journaled (hstate w hw) hseats rfl (by simp)
    exact .inl htroubled.recoverable
  · exact (hP w hw).journaled (hstate w hw) hseats rfl fun hnone => hharm (.inr hnone)

variable (plan) in
/-- A record that belongs to the plan's seat. -/
structure Record.Valid (record : Record) : Prop where
  id : record.transactionId = plan.id
  wf : ∀ e ∈ record.entries, e.Wf

theorem Undoable.of_prepared {staged : Nat -> Option Snapshot}
    (hvalid : record.Valid plan) (hstate : record.state = .prepared)
    (hpins : ∀ op ∈ plan.ops, pins op.path) : Undoable plan before record staged pins where
  id := hvalid.id
  wf := hvalid.wf
  prepared := fun _ => hpins
  described := fun hno => absurd hstate hno
  checks := fun hno => absurd hstate hno

variable (plan before) in
/-- Nothing is done yet; `T` is known of the staged outputs. -/
structure Preparing (record : Record) (T : (Nat -> Option File) -> Prop) (w : World) (seat : Seat) :
    Prop where
  seats : w.disk.seats = [(plan.id, seat)]
  files : w.disk.files = before
  backups : ∀ i, seat.backups i = none
  journal : ∀ r identity, seat.journal = some (r, identity) -> r.Valid plan ∧ r.state = .prepared
  known : w.memory.journal = none -> seat.journal = none
  memory : w.memory.record = record
  rolledBack : w.memory.rolledBack = false
  staged : T seat.staged

variable (plan before) in
def Prepares (record : Record) (T : (Nat -> Option File) -> Prop) (w : World) : Prop :=
  ∃ seat, Preparing plan before record T w seat

variable {record : Record} {T T' : (Nat -> Option File) -> Prop}

theorem Preparing.rolling (h : Preparing plan before record T w seat)
    (staged : Nat -> Option Snapshot) (pins : Path -> Prop) :
    Rolling plan before plan.id seat.journal staged pins w.disk seat where
  seats := h.seats
  journal := rfl
  held := fun i op _ => .inPlace (by rw [h.files]) (h.backups i)
  pinned := fun path _ => by rw [h.files]

theorem Prepares.troubled (h : Prepares plan before record T w) (staged : Nat -> Option Snapshot)
    (hundo : Undoable plan before record staged fun _ => True) : Troubled plan before w := by
  obtain ⟨seat, h⟩ := h
  refine ⟨seat, staged, fun _ => True, h.rolling _ _, by simp, fun r identity hsome => ?_,
    h.memory ▸ hundo, h.known⟩
  obtain ⟨hvalid, hstate⟩ := h.journal r identity hsome
  exact ⟨by simp [hstate], .of_prepared hvalid hstate (by simp)⟩

theorem Prepares.troubled_of_prepared (h : Prepares plan before record T w)
    (hvalid : record.Valid plan) (hstate : record.state = .prepared) : Troubled plan before w :=
  h.troubled (fun _ => none) (.of_prepared hvalid hstate (by simp))

theorem Prepares.mono (h : Prepares plan before record T w) (hT : ∀ staged, T staged -> T' staged) :
    Prepares plan before record T' w :=
  h.imp fun _ h => { h with staged := hT _ h.staged }

section

variable (hvalid : record.Valid plan) (hstate : record.state = .prepared)

include hvalid hstate

theorem Prepares.safe :
    Safe Benign (Prepares plan before record T) (Troubled plan before) (Either plan before) :=
  Benign.safe (fun _ hw => hw.troubled_of_prepared hvalid hstate) fun _ hw => hw.either

theorem writeJournal_prepares :
    Undoes plan before (Prepares plan before record T) (writeJournal plan.id)
      (fun _ => Prepares plan before record T) := by
  refine writeJournal_triple (fun w hw => hw.troubled_of_prepared hvalid hstate)
    (fun w ⟨seat, h⟩ => by simp [h.memory, hstate]) fun w seat committed hw hseats => ?_
  obtain ⟨seat', h⟩ := hw
  obtain ⟨-, rfl⟩ := single_inj hseats h.seats
  refine ⟨{ seat with journal := some (w.memory.record, w.disk.next) },
    { h with seats := rfl, journal := ?_, known := by simp }⟩
  intro r identity hsome
  simp only [Option.some.injEq, mk.injEq] at hsome
  exact hsome.1 ▸ h.memory ▸ ⟨hvalid, hstate⟩

theorem publishNew_prepares {index : Nat} {data : List Byte} :
    Undoes plan before (Prepares plan before record T)
      (publishNew sha256 .publishStaged (.staged plan.id index) data)
      (fun snapshot w => ∃ f : File, (f.data = data ∧ snapshot = f.snapshot sha256) ∧
        Prepares plan before record
          (fun staged => ∃ old, T old ∧ staged = update old index (some f)) w) := by
  refine (Prepares.safe hvalid hstate).change (fun _ w ⟨_, _, hw⟩ =>
    hw.troubled_of_prepared hvalid hstate) fun w snapshot d ⟨seat, h⟩ heq => ?_
  split at heq
  · cases heq
    exact ⟨_, ⟨rfl, rfl⟩, { seat with
      staged := update seat.staged index (some ⟨data, w.disk.next⟩) }, { h with
        seats := Disk.updateSeat_single h.seats fun s =>
          { s with staged := update s.staged index (some ⟨data, w.disk.next⟩) }
        staged := ⟨seat.staged, h.staged, rfl⟩ }⟩
  · simp at heq

theorem stageOutputs_triple (items : List (Operation × Nat)) (hitems : (items.map snd).Nodup)
    (hT : ∀ staged i file, i ∈ items.map snd -> T staged -> T (update staged i file)) :
    Undoes plan before (Prepares plan before record T) (stageOutputs plan items)
      (fun snapshots => Prepares plan before record fun staged => T staged ∧
        ∀ op i data, (op, i) ∈ items -> op.data = some data -> ∃ f : File, staged i = some f ∧
          f.data = data ∧ snapshots.lookup i = some (f.snapshot sha256)) := by
  induction items generalizing T with
  | nil => exact Triple.pure fun w hw => hw.mono fun staged h => ⟨h, by simp⟩
  | cons item rest ih =>
    obtain ⟨op, index⟩ := item
    simp only [map_cons, nodup_cons] at hitems
    cases hdata : op.data with
    | none =>
      simp only [stageOutputs, hdata]
      refine (ih hitems.2 fun staged i file hi => hT staged i file (by simp [hi])).post ?_
      intro snapshots w hw
      refine hw.mono fun staged h => ⟨h.1, fun op' i data hmem hsome => ?_⟩
      rcases mem_cons.mp hmem with heq | hmem
      · simp only [mk.injEq] at heq
        rw [heq.1, hdata] at hsome
        cases hsome
      · exact h.2 op' i data hmem hsome
    | some data =>
      simp only [stageOutputs, hdata]
      refine (publishNew_prepares hvalid hstate).bind fun snapshot => Triple.exists fun f =>
        Triple.of_pre (fun w hw => hw.1) ?_
      rintro ⟨hfile, rfl⟩
      have hrest := ih (T := fun staged => T staged ∧ staged index = some f) hitems.2 ?_
      · refine (hrest.weaken fun w hw => hw.2.mono ?_).bind fun snapshots =>
          Triple.pure fun w hw => hw.mono fun staged h => ⟨h.1.1, ?_⟩
        · intro op' i data' hmem hsome
          rcases mem_cons.mp hmem with heq | hmem'
          · cases heq
            rw [hdata, Option.some.injEq] at hsome
            exact ⟨f, h.1.2, hfile.trans hsome, by simp⟩
          · obtain ⟨g, hstaged, hg, hlookup⟩ := h.2 op' i data' hmem' hsome
            have hne : i ≠ index := by
              rintro rfl
              exact hitems.1 (mem_map.mpr ⟨(op', i), hmem', rfl⟩)
            refine ⟨g, hstaged, hg, ?_⟩
            rw [lookup_cons, beq_false_of_ne hne]
            exact hlookup
        · rintro staged ⟨old, hold, rfl⟩
          exact ⟨hT old index (some f) (by simp) hold, by simp⟩
      · intro staged i file hi hstaged
        refine ⟨hT staged i file (by simp [hi]) hstaged.1, ?_⟩
        rw [update_of_ne, hstaged.2]
        rintro rfl
        exact hitems.1 hi

end

def snapshotsOf (sha256 : List Byte -> Digest) (files : Path -> Option File)
    (items : List ((Path × Option Digest) × Nat)) : List (Nat × Snapshot) :=
  items.flatMap fun item =>
    ((files item.1.1).map (·.snapshot sha256)).toList.map fun snapshot => (item.2, snapshot)

theorem lookup_snapshotsOf {files : Path -> Option File}
    {items : List ((Path × Option Digest) × Nat)} (hitems : (items.map snd).Nodup)
    {item : (Path × Option Digest) × Nat} (hmem : item ∈ items) :
    (snapshotsOf sha256 files items).lookup item.2 = (files item.1.1).map (·.snapshot sha256) := by
  have hnone : ∀ (rest : List ((Path × Option Digest) × Nat)) i, i ∉ rest.map snd ->
      (snapshotsOf sha256 files rest).lookup i = none := by
    intro rest i hi
    rw [lookup_eq_none_iff]
    intro pair hpair
    obtain ⟨other, hother, hin⟩ := mem_flatMap.mp hpair
    obtain ⟨snapshot, -, rfl⟩ := mem_map.mp hin
    exact bne_iff_ne.mpr fun heq => hi (mem_map.mpr ⟨other, hother, heq.symm⟩)
  induction items with
  | nil => simp at hmem
  | cons first rest ih =>
    simp only [map_cons, nodup_cons] at hitems
    rw [snapshotsOf, flatMap_cons, lookup_append]
    rcases mem_cons.mp hmem with rfl | hmem
    · cases (files item.1.1).map (·.snapshot sha256) with
      | none => exact hnone rest item.2 hitems.1
      | some snapshot => simp
    · have hne : item.2 ≠ first.2 := fun heq =>
        hitems.1 (mem_map.mpr ⟨item, hmem, heq⟩)
      have hfirst := hnone [first] item.2 (by simpa using hne)
      rw [snapshotsOf, flatMap_singleton] at hfirst
      rw [hfirst, Option.none_or]
      exact ih hitems.2 hmem

/-- Without differences, each target has the digest expected there. -/
def Compared (sha256 : List Byte -> Digest) (files : Path -> Option File)
    (items : List ((Path × Option Digest) × Nat)) (found : List (Nat × Snapshot) × List String) :
    Prop :=
  found.2 = [] -> found.1 = snapshotsOf sha256 files items ∧
    ∀ item ∈ items, item.1.2 = (files item.1.1).map fun f => sha256 f.data

theorem compareTargets_triple {D C : World -> Prop} (files : Path -> Option File)
    (hsafe : Safe Benign P D C) (hfiles : ∀ w, P w -> w.disk.files = files)
    (items : List ((Path × Option Digest) × Nat)) : Triple Benign P (compareTargets sha256 items)
      (fun found w => P w ∧ Compared sha256 files items found) (fun _ => D) C := by
  induction items with
  | nil => exact Triple.pure fun w hw => ⟨hw, fun _ => ⟨rfl, by simp⟩⟩
  | cons item rest ih =>
    obtain ⟨⟨path, expected⟩, index⟩ := item
    refine Triple.bind (Q := fun found w => P w ∧ found = (files path).map (·.snapshot sha256))
      (converting_triple (hsafe.read fun w hw => ⟨hw, by rw [Disk.fileAt, hfiles w hw]⟩))
      fun found => Triple.of_pre (fun w hw => hw.2) ?_
    · rintro rfl
      refine (ih.weaken fun w hw => hw.1).bind fun others => Triple.pure fun w hw => ⟨hw.1, ?_⟩
      have hdigest : ((files path).map (·.snapshot sha256)).map (·.digest) =
          (files path).map fun f => sha256 f.data := by
        rw [Option.map_map]
        rfl
      intro hnone
      split at hnone
      · rename_i hexpected
        obtain ⟨hfound, hrest⟩ := hw.2 hnone
        rw [if_pos hexpected]
        refine ⟨by rw [hfound]; rfl, ?_⟩
        rintro item (_ | ⟨_, hmem⟩)
        · exact hexpected.symm.trans hdigest
        · exact hrest item hmem
      · simp at hnone

variable (plan before) in
/-- The snapshots of all preimages, which are as the plan expects them. -/
structure Captured (preimages : List (Nat × Snapshot)) : Prop where
  expects : ∀ op ∈ plan.ops, op.Expects sha256 before
  lookup : ∀ (i : Nat) op, plan.ops[i]? = some op ->
    preimages.lookup i = (before op.path).map (·.snapshot sha256)

theorem capturePreimages_triple {D C : World -> Prop} (hsafe : Safe Benign P D C)
    (hfiles : ∀ w, P w -> w.disk.files = before) : Triple Benign P (capturePreimages plan)
      (fun preimages w => P w ∧ Captured plan before preimages) (fun _ => D) C := by
  refine (compareTargets_triple before hsafe hfiles _).bind fun found => ?_
  refine Triple.bind (Q := fun _ w => P w ∧ found.2 = [] ∧ Compared sha256 before
    (plan.ops.map fun op => (op.path, op.expected)).zipIdx found) ?_ fun _ =>
      Triple.pure fun w hw => ⟨hw.1, ?_⟩
  · unfold orRaise
    split
    · exact Triple.pure fun w hw => ⟨hw.1, ‹_›, hw.2⟩
    · exact Triple.raise fun w hw => hsafe.fails w hw.1
  · obtain ⟨-, hnone, hcompared⟩ := hw
    obtain ⟨hfound, hexpected⟩ := hcompared hnone
    have hmem : ∀ (i : Nat) op, plan.ops[i]? = some op -> ((op.path, op.expected), i) ∈
          (plan.ops.map fun op => (op.path, op.expected)).zipIdx := by
      intro i op hop
      rw [mem_zipIdx_iff_getElem?, getElem?_map, hop]
      rfl
    refine ⟨fun op hop => ?_, fun i op hop => ?_⟩
    · obtain ⟨i, hi⟩ := mem_iff_getElem?.mp hop
      exact hexpected _ (hmem i op hi)
    · rw [hfound]
      refine lookup_snapshotsOf ?_ (hmem i op hop)
      rw [zipIdx_map_snd]
      exact nodup_range'

theorem journalRecord_valid (state : JournalState) : (journalRecord plan state).Valid plan where
  id := rfl
  wf := by
    intro e he
    obtain ⟨op, hop, rfl⟩ := mem_map.mp he
    have hwf := plan.wf op hop
    refine ⟨⟨fun hkind => ?_, fun hresult => ?_⟩, hwf.seated⟩
    · obtain ⟨data, -, hresult, -⟩ := hwf.written hkind
      simp [hresult]
    · by_contra hkind
      exact hresult (hwf.unwritten hkind).2

theorem Record.Valid.mapEntries (h : record.Valid plan) {g : Entry × Nat -> Entry}
    (hg : ∀ x, x.1.Wf -> (g x).Wf) :
    Record.Valid plan { record with entries := record.entries.zipIdx.map g } where
  id := h.id
  wf := by
    intro e he
    obtain ⟨⟨e', i⟩, he', rfl⟩ := mem_map.mp he
    exact hg _ (h.wf e' (fst_mem_of_mem_zipIdx he'))

theorem Record.Valid.withStaged (h : record.Valid plan) (snapshots : List (Nat × Snapshot)) :
    (record.withStaged snapshots).Valid plan := h.mapEntries fun _ hwf => hwf

theorem Record.Valid.withPreimages (h : record.Valid plan) (snapshots : List (Nat × Snapshot)) :
    (record.withPreimages snapshots).Valid plan := h.mapEntries fun _ hwf => hwf

def appliedRecord (plan : Plan sha256) (staged preimages : List (Nat × Snapshot))
    (state : JournalState) : Record :=
  { ((journalRecord plan .prepared).withStaged staged).withPreimages preimages with state }

variable {state : JournalState}

theorem appliedRecord_valid :
    (appliedRecord plan staged preimages state).Valid plan :=
  let h := ((journalRecord_valid .prepared).withStaged staged).withPreimages preimages
  ⟨h.id, h.wf⟩

theorem appliedRecord_entry {i : Nat} {e : Entry} {op : Operation}
    (hop : plan.ops[i]? = some op)
    (he : (appliedRecord plan staged preimages state).entries[i]? = some e) :
    e = ⟨op.kind, op.path, op.expected, op.result, preimages.lookup i, staged.lookup i⟩ := by
  simpa [appliedRecord, Record.withPreimages, Record.withStaged, journalRecord, hop] using he.symm

theorem appliedRecord_describes (hcaptured : Captured plan before preimages)
    : Describes plan before (appliedRecord plan staged preimages state) (staged.lookup ·) where
  id := appliedRecord_valid.id
  wf := appliedRecord_valid.wf
  length := by
    simp [appliedRecord, Record.withPreimages, Record.withStaged, journalRecord]
  path := by
    intro i op e hop he
    rw [appliedRecord_entry hop he]
  entry := by
    intro i op e hop he _
    rw [appliedRecord_entry hop he]
    exact ⟨rfl, rfl, rfl, hcaptured.lookup i op hop, rfl,
      hcaptured.expects op (mem_of_getElem? hop)⟩

variable (plan) in
def checkPins (path : Path) : Prop := ∃ op ∈ plan.ops, op.kind = .check ∧ op.path = path

theorem appliedRecord_undoable (hcaptured : Captured plan before preimages)
    (hstate : state ≠ .prepared) :
    Undoable plan before (appliedRecord plan staged preimages state) (staged.lookup ·)
      (checkPins plan) where
  id := appliedRecord_valid.id
  wf := appliedRecord_valid.wf
  prepared := fun h => absurd h hstate
  described := fun _ => appliedRecord_describes hcaptured
  checks := by
    intro _ e he hkind
    have hdescribes : Describes plan before (appliedRecord plan staged preimages state)
        (staged.lookup ·) := appliedRecord_describes hcaptured
    obtain ⟨i, hi⟩ := mem_iff_getElem?.mp he
    have hlt : i < plan.ops.length := by
      rw [<- hdescribes.length]
      exact (List.getElem?_eq_some_iff.mp hi).1
    have hop : plan.ops[i]? = some plan.ops[i] := getElem?_eq_getElem hlt
    have hentry := appliedRecord_entry hop hi
    subst hentry
    exact ⟨plan.ops[i], getElem_mem hlt, hkind, rfl⟩

end Reprobit.Transaction

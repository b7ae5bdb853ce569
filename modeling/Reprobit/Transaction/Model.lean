import Reprobit.Foundation
import Reprobit.Machine.Faulty
import Reprobit.Machine.Bytes
import Mathlib.Data.List.Sort

/-!
# Project transactions

A transaction replaces, deletes and checks project files.  It stages its outputs in a
private seat, moves each preimage to a backup and each output to its target, and keeps
a journal from which an interrupted transaction is rolled back.

The primitives on files are atomic steps; between them the program can be stopped, and
a writer that ignores the project lock can replace target files.  Directory identities
are not modelled: nothing in the model redirects a directory.
-/

namespace Reprobit.Transaction

open Machine Function

abbrev Path := String

abbrev Digest := String

/-- The identity stands for size, device, inode, times and mode. -/
structure File where
  data : List Byte
  identity : Nat
  deriving DecidableEq

/-- What is observed of a file version. -/
structure Snapshot where
  digest : Digest
  identity : Nat
  deriving DecidableEq

inductive Kind where
  | write
  | delete
  | check
  deriving DecidableEq

/-- `expected = none` means that the path must be absent. -/
structure Operation where
  kind : Kind
  path : Path
  expected : Option Digest
  data : Option (List Byte)
  result : Option Digest
  deriving DecidableEq

def privateRoot : String := ".reprobit-transactions"

def isPrivate (path : Path) : Bool := (path.toList.splitOn '/').head? = some privateRoot.toList

/-- Only a write carries data, and it changes the file. -/
structure Operation.Wf (sha256 : List Byte -> Digest) (op : Operation) : Prop where
  written : op.kind = .write ->
    ∃ data, op.data = some data ∧ op.result = some (sha256 data) ∧ op.result ≠ op.expected
  unwritten : op.kind ≠ .write -> op.data = none ∧ op.result = none
  seated : isPrivate op.path = false

/-- A list of operations on different paths. -/
structure Plan (sha256 : List Byte -> Digest) where
  id : Nat
  ops : List Operation
  wf : ∀ op ∈ ops, op.Wf sha256
  paths : (ops.map (·.path)).Nodup

section

variable {sha256 : List Byte -> Digest} {data : Option (List Byte)} {expected : Option Digest}
  {kind : Kind} {path : Path}

def operationOf (sha256 : List Byte -> Digest) (kind : Kind) (path : Path)
    (data : Option (List Byte)) (expected : Option Digest) : Operation :=
  if kind = .write ∧ data.map sha256 = expected then ⟨.check, path, expected, none, none⟩
  else ⟨kind, path, expected, data, data.map sha256⟩

theorem operationOf_path : (operationOf sha256 kind path data expected).path = path := by
  unfold operationOf
  split <;> rfl

theorem operationOf_wf (hdata : kind = .write ↔ data ≠ none) (hpath : isPrivate path = false) :
    (operationOf sha256 kind path data expected).Wf sha256 := by
  unfold operationOf
  split
  · exact ⟨by simp, by simp, hpath⟩
  · rename_i hno
    refine ⟨fun hkind => ?_, fun hkind => ?_, hpath⟩
    · obtain ⟨bytes, rfl⟩ := Option.ne_none_iff_exists'.mp (hdata.mp hkind)
      exact ⟨bytes, rfl, rfl, fun heq => hno ⟨hkind, heq⟩⟩
    · have hnone : data = none := by
        by_contra hne
        exact hkind (hdata.mpr hne)
      simp [hnone]

def Plan.add (plan : Plan sha256) (kind : Kind) (path : Path) (data : Option (List Byte))
    (expected : Option Digest) (hdata : kind = .write ↔ data ≠ none) : Refusing (Plan sha256) :=
  if hprivate : isPrivate path then
    .error "transaction paths cannot name private transaction state"
  else if hrepeated : path ∈ plan.ops.map (·.path) then
    .error ("transaction path is repeated: " ++ path)
  else
    .ok {
      id := plan.id
      ops := plan.ops ++ [operationOf sha256 kind path data expected]
      wf := by
        intro op hop
        rcases List.mem_append.mp hop with hop | hop
        · exact plan.wf op hop
        · rw [List.mem_singleton.mp hop]
          exact operationOf_wf hdata (by simpa using hprivate)
      paths := by
        rw [List.map_append, List.map_singleton, operationOf_path]
        exact List.nodup_append.mpr ⟨plan.paths, by simp, fun a ha b hb => by
          rw [List.mem_singleton.mp hb]
          exact fun heq => hrepeated (heq ▸ ha)⟩ }

end

inductive JournalState where
  | prepared
  | applying
  | committed
  deriving DecidableEq

structure Entry where
  kind : Kind
  path : Path
  expected : Option Digest
  result : Option Digest
  preimage : Option Snapshot
  staged : Option Snapshot
  deriving DecidableEq

structure Record where
  transactionId : Nat
  state : JournalState
  entries : List Entry
  deriving DecidableEq

/-- The journal with its identity, the staged outputs, and the preimages. -/
structure Seat where
  journal : Option (Record × Nat)
  staged : Nat -> Option File
  ready : Bool
  backups : Nat -> Option File

def Seat.empty : Seat := ⟨none, fun _ => none, false, fun _ => none⟩

structure Disk where
  files : Path -> Option File
  seats : List (Nat × Seat)
  /-- the identity of the next file version -/
  next : Nat

/-- Where a file version can be. -/
inductive Place where
  | target (path : Path)
  | staged (seat index : Nat)
  | backup (seat index : Nat)
  deriving DecidableEq

namespace Disk

def seat? (d : Disk) (name : Nat) : Option Seat := d.seats.lookup name

def updateSeat (d : Disk) (name : Nat) (f : Seat -> Seat) : Disk :=
  { d with seats := d.seats.map fun (n, s) => if n = name then (n, f s) else (n, s) }

def fileAt (d : Disk) : Place -> Option File
  | .target path => d.files path
  | .staged seat index => (d.seat? seat).bind (·.staged index)
  | .backup seat index => (d.seat? seat).bind (·.backups index)

def put (d : Disk) (file : Option File) : Place -> Disk
  | .target path => { d with files := update d.files path file }
  | .staged seat index =>
    d.updateSeat seat fun s => { s with staged := update s.staged index file }
  | .backup seat index =>
    d.updateSeat seat fun s => { s with backups := update s.backups index file }

end Disk

/-- The program's variables that its handlers read. -/
structure Memory where
  record : Record
  /-- the identity of the journal as last written -/
  journal : Option Nat
  /-- whether a rollback went through -/
  rolledBack : Bool

/-- The disk, the variables, and the history of outside versions. -/
structure World where
  disk : Disk
  memory : Memory
  outside : List (Path × File)
  committed : Bool

/-! ## Steps -/

inductive Exn where
  | securePath
  | os
  | conflict (message : String)
  | transaction (message : String)
  | interrupt
  deriving DecidableEq

inductive Step where
  | createSeat
  | listSeats
  | readJournal
  /-- the state of the revision, and is it the first one -/
  | writeJournal (state : JournalState) (first : Bool)
  | removeJournal
  | publishStaged
  | publishReady
  | observe
  | moveToBackup
  /-- is the target expected to be absent -/
  | promoteStaged (absent : Bool)
  | restoreBackup
  | removeTarget
  | renameSeat
  | emptySeat
  | dropSeat
  | sync
  deriving DecidableEq

/-- What the outside writer does to a target. -/
inductive Outside where
  | install (path : Path) (data : List Byte)
  | erase (path : Path)
  deriving DecidableEq

/-- What the outside writer leaves when it takes a version away. -/
def World.released (w : World) (path : Path) : List (Path × File) :=
  w.outside.filter fun x => ¬ (x.1 = path ∧ w.disk.files path = some x.2)

def outsideAct : Outside -> World -> World
  | .install path data, w =>
    { w with
      disk := { w.disk with
        files := update w.disk.files path (some ⟨data, w.disk.next⟩)
        next := w.disk.next + 1 }
      outside := (path, ⟨data, w.disk.next⟩) :: w.released path }
  | .erase path, w =>
    { w with
      disk := { w.disk with files := update w.disk.files path none }
      outside := w.released path }

abbrev M := Faulty Step Outside Exn World

def onDisk {α : Type} (label : Step) (effect : Disk -> Except Exn (α × Disk)) : M α :=
  Faulty.step outsideAct label fun w =>
    match effect w.disk with
    | .error e => .error e
    | .ok (a, d) => .ok (a, { w with disk := d })

/-- A step that changes nothing. -/
def sync : M Unit := onDisk .sync fun d => .ok ((), d)

def converting {α : Type} (m : M α) (instead : Exn) : M α :=
  Faulty.attempt m fun e => Faulty.raise (if e = .securePath then instead else e)

/-- Run a program where a condition holds. -/
def onlyIf (condition : Prop) [Decidable condition] (m : M Unit) : M Unit :=
  if condition then m else pure ()

def orRaise (condition : Prop) [Decidable condition] (e : Exn) : M Unit :=
  if condition then pure () else Faulty.raise e

def setMemory (f : Memory -> Memory) : M Unit :=
  Faulty.change fun w => { w with memory := f w.memory }

def getMemory : M Memory := do
  let w <- Faulty.look
  pure w.memory

def createSeat (name : Nat) : M Unit :=
  onDisk .createSeat fun d =>
    if name ∈ d.seats.map Prod.fst then
      .error (.transaction "cannot securely create transaction seat")
    else .ok ((), { d with seats := d.seats ++ [(name, .empty)] })

/-- The names of the private seats, in order. -/
def listSeats : M (List Nat) :=
  onDisk .listSeats fun d => .ok ((d.seats.map Prod.fst).insertionSort (· <= ·), d)

def readJournal (name : Nat) : M (Option (Record × Nat)) :=
  onDisk .readJournal fun d => .ok ((d.seat? name).bind (·.journal), d)

def journalEffect (name : Nat) (record : Record) (expected : Option Nat) (d : Disk) :
    Except Exn (Nat × Disk) :=
  match d.seat? name with
  | none => .error .securePath
  | some seat =>
    if seat.journal.map Prod.snd = expected then
      .ok (d.next, { d.updateSeat name fun s => { s with journal := some (record, d.next) } with
        next := d.next + 1 })
    else .error .securePath

def publishJournal (name : Nat) (record : Record) (expected : Option Nat) : M Nat :=
  Faulty.step outsideAct (.writeJournal record.state expected.isNone) fun w =>
    match journalEffect name record expected w.disk with
    | .error e => .error e
    | .ok (identity, d) =>
      .ok (identity, { w with
        disk := d, committed := w.committed || decide (record.state = .committed) })

def writeJournal (name : Nat) : M Unit := do
  let memory <- getMemory
  let identity <- converting (publishJournal name memory.record memory.journal)
    (.transaction "transaction journal changed")
  setMemory fun m => { m with journal := some identity }

variable (sha256 : List Byte -> Digest)

def File.snapshot (f : File) : Snapshot := ⟨sha256 f.data, f.identity⟩

def observe (place : Place) : M (Option Snapshot) :=
  onDisk .observe fun d => .ok ((d.fileAt place).map (·.snapshot sha256), d)

def publishNew (label : Step) (place : Place) (data : List Byte) : M Snapshot :=
  onDisk label fun d =>
    if d.fileAt place = none then
      let file : File := ⟨data, d.next⟩
      .ok (file.snapshot sha256, { d.put (some file) place with next := d.next + 1 })
    else .error .securePath

def promoteEffect (source destination : Place) (expected : Snapshot) (d : Disk) :
    Except Exn (Snapshot × Disk) :=
  if (d.fileAt source).map (·.snapshot sha256) = some expected ∧ d.fileAt destination = none then
    .ok (expected, (d.put none source).put (d.fileAt source) destination)
  else .error .securePath

def promote (label : Step) (source destination : Place) (expected : Snapshot) : M Snapshot :=
  onDisk label (promoteEffect sha256 source destination expected)

def removeEffect (path : Path) (expected : Snapshot) (d : Disk) : Except Exn (Bool × Disk) :=
  if (d.files path).map (·.snapshot sha256) = some expected then
    .ok (true, d.put none (.target path))
  else .ok (false, d)

def removeTarget (path : Path) (expected : Snapshot) : M Bool :=
  onDisk .removeTarget (removeEffect sha256 path expected)

def removeJournalEffect (name expected : Nat) (d : Disk) : Except Exn (Bool × Disk) :=
  match d.seat? name with
  | none => .ok (false, d)
  | some seat =>
    if seat.journal.map Prod.snd = some expected then
      .ok (true, d.updateSeat name fun s => { s with journal := none })
    else .ok (false, d)

def removeJournal (name expected : Nat) : M Bool :=
  onDisk .removeJournal (removeJournalEffect name expected)

def Disk.freshName (d : Disk) : Nat := (d.seats.map Prod.fst).foldr max 0 + 1

def renameSeat (name : Nat) : M Nat :=
  onDisk .renameSeat fun d =>
    .ok (d.freshName, { d with
      seats := d.seats.map fun (n, s) => if n = name then (d.freshName, s) else (n, s) })

def emptySeat (name : Nat) : M Unit :=
  onDisk .emptySeat fun d => .ok ((), d.updateSeat name fun _ => .empty)

def dropSeat (name : Nat) : M Unit :=
  onDisk .dropSeat fun d => .ok ((), { d with seats := d.seats.filter (·.1 ≠ name) })

/-- An error of the file system becomes one of the transaction. -/
def refusing {α : Type} (m : M α) (message : String) : M α :=
  Faulty.attempt m fun e =>
    Faulty.raise (if e = .securePath ∨ e = .os then .transaction message else e)

variable (name : Nat) (entry : Entry)

def dropJournal : Option Nat -> M Unit
  | none => pure ()
  | some expected => do
    let changed := Exn.transaction "transaction journal changed"
    let removed <- converting (removeJournal name expected) changed
    orRaise (removed = true) changed

/-- The journal goes first, so that the rest is never rolled back. -/
def removeTransactionDirectory (journal : Option Nat) : M Unit := do
  dropJournal name journal
  let quarantine <- refusing (renameSeat name) "cannot quarantine transaction seat"
  refusing (do
    emptySeat quarantine
    dropSeat quarantine
    sync) "cannot remove quarantined transaction seat"

/-! ## Rolling back -/

def Entry.Wf (e : Entry) : Prop :=
  (e.kind = .write ↔ e.result ≠ none) ∧ isPrivate e.path = false

instance (e : Entry) : Decidable e.Wf := inferInstanceAs (Decidable (_ ∧ _))

def validateJournalRecord (record : Record) : M Unit :=
  if record.transactionId ≠ name then
    Faulty.raise (.transaction "transaction journal does not match its seat")
  else if ∀ e ∈ record.entries, e.Wf then pure ()
  else Faulty.raise (.transaction "malformed transaction operation")

def Snapshot.MatchesRecord (snapshot : Snapshot) (record : Option Snapshot)
    (expected : Option Digest) : Prop :=
  record = some snapshot ∧ (expected = none ∨ expected = some snapshot.digest)

instance (snapshot : Snapshot) (record : Option Snapshot) (expected : Option Digest) :
    Decidable (snapshot.MatchesRecord record expected) := inferInstanceAs (Decidable (_ ∧ _))

def recoveryTargetUnknown (path : Path) : Exn :=
  .transaction ("recovery target has unknown contents: " ++ path)

def recoveryTargetChanged (path : Path) : Exn := .transaction ("recovery target changed: " ++ path)

def removeInstalled (current : Snapshot) : M Unit :=
  if entry.kind ≠ .write ∨ ¬ current.MatchesRecord entry.staged entry.result then
    Faulty.raise (recoveryTargetUnknown entry.path)
  else do
    let removed <- removeTarget sha256 entry.path current
    orRaise (removed = true) (recoveryTargetChanged entry.path)

/-- Free the target of a displaced preimage. -/
def clearTarget : Option Snapshot -> M Unit
  | none => pure ()
  | some snapshot => removeInstalled sha256 entry snapshot

/-- Bring a displaced preimage back. -/
def restorePreimage (index : Nat) (current : Option Snapshot) (backup : Snapshot) : M Unit :=
  if ¬ backup.MatchesRecord entry.preimage entry.expected then
    Faulty.raise (.transaction "transaction backup changed")
  else do
    clearTarget sha256 entry current
    let _ <- converting
      (promote sha256 .restoreBackup (.backup name index) (.target entry.path) backup)
      (recoveryTargetChanged entry.path)
    sync

/-- Nothing was displaced; a new output may be installed. -/
def rollbackInPlace (current : Option Snapshot) : M Unit :=
  match entry.expected, current with
  | some _, none => Faulty.raise (recoveryTargetUnknown entry.path)
  | some expected, some snapshot =>
    orRaise (snapshot.MatchesRecord entry.preimage (some expected))
      (recoveryTargetUnknown entry.path)
  | none, none => pure ()
  | none, some snapshot => do
    removeInstalled sha256 entry snapshot
    sync

def rollbackObserved (index : Nat) (current : Option Snapshot) : Option Snapshot -> M Unit
  | some backup => restorePreimage sha256 name entry index current backup
  | none => rollbackInPlace sha256 entry current

def rollbackEntry (item : Entry × Nat) : M Unit :=
  let (entry, index) := item
  if entry.kind = .check then pure ()
  else do
    let changed := Exn.transaction ("transaction recovery path changed: " ++ entry.path)
    let current <- converting (observe sha256 (.target entry.path)) changed
    let backup <- converting (observe sha256 (.backup name index)) changed
    rollbackObserved sha256 name entry index current backup

def rollbackRecord (record : Record) : M Unit := do
  validateJournalRecord name record
  onlyIf (record.state ≠ .prepared)
    (Faulty.forEach (rollbackEntry sha256 name) record.entries.zipIdx.reverse)

def recoverLoaded : Option (Record × Nat) -> M Unit
  | none => removeTransactionDirectory name none
  | some (record, journal) => do
    validateJournalRecord name record
    onlyIf (record.state ≠ .committed) (rollbackRecord sha256 name record)
    removeTransactionDirectory name (some journal)

def recoverSeat : M Unit := do
  let loaded <- readJournal name
  recoverLoaded sha256 name loaded

def recoverLocked : M Unit := do
  let names <- listSeats
  Faulty.forEach (recoverSeat sha256) names

/-! ## Committing -/

variable {sha256} (plan : Plan sha256)

def journalRecord (plan : Plan sha256) (state : JournalState) : Record :=
  ⟨plan.id, state, plan.ops.map fun op => ⟨op.kind, op.path, op.expected, op.result, none, none⟩⟩

def Record.setEntry (record : Record) (index : Nat) (f : Entry -> Entry) : Record :=
  { record with entries := record.entries.modify index f }

def Record.withStaged (record : Record) (staged : List (Nat × Snapshot)) : Record :=
  { record with entries := record.entries.zipIdx.map fun (e, index) =>
      { e with staged := (staged.lookup index).or e.staged } }

def Record.withPreimages (record : Record) (preimages : List (Nat × Snapshot)) : Record :=
  { record with entries := record.entries.zipIdx.map fun (e, index) =>
      { e with preimage := (preimages.lookup index).or e.preimage } }

def setEntry (index : Nat) (f : Entry -> Entry) : M Unit :=
  setMemory fun m => { m with record := m.record.setEntry index f }

def setState (state : JournalState) : M Unit :=
  setMemory fun m => { m with record := { m.record with state } }

def stageOutputs : List (Operation × Nat) -> M (List (Nat × Snapshot))
  | [] => pure []
  | (op, index) :: rest =>
    match op.data with
    | none => stageOutputs rest
    | some data => do
      let snapshot <- publishNew sha256 .publishStaged (.staged plan.id index) data
      let snapshots <- stageOutputs rest
      pure ((index, snapshot) :: snapshots)

def showDigest : Option Digest -> String
  | none => "None"
  | some digest => digest

def mismatch (path : Path) (expected actual : Option Digest) : String :=
  path ++ ": expected " ++ showDigest expected ++ ", found " ++ showDigest actual

variable (sha256) in
def compareTargets : List ((Path × Option Digest) × Nat) -> M (List (Nat × Snapshot) × List String)
  | [] => pure ([], [])
  | ((path, expected), index) :: rest => do
    let found <- converting (observe sha256 (.target path))
      (.conflict ("transaction target is redirected or not a regular file: " ++ path))
    let others <- compareTargets rest
    pure (if found.map (·.digest) = expected then
        ((found.toList.map fun s => (index, s)) ++ others.1, others.2)
      else (others.1, mismatch path expected (found.map (·.digest)) :: others.2))

def capturePreimages : M (List (Nat × Snapshot)) := do
  let compared <- compareTargets sha256 (plan.ops.map fun op => (op.path, op.expected)).zipIdx
  orRaise (compared.2 = [])
    (.conflict ("transaction preimage conflict: " ++ "; ".intercalate compared.2))
  pure compared.1

def verifyPostimages : M Unit := do
  let compared <- compareTargets sha256
    (plan.ops.map fun op => (op.path, if op.kind = .check then op.expected else op.result)).zipIdx
  orRaise (compared.2 = [])
    (.conflict ("transaction postimage conflict: " ++ "; ".intercalate compared.2))

def targetChanged (path : Path) : Exn :=
  .conflict ("transaction target changed while applying: " ++ path)

/-- It is taken to have installed nothing. -/
def promotionRefused {α : Type} (op : Operation) (index : Nat) : M α := do
  onlyIf (op.expected = none) (do
    setEntry index fun e => { e with kind := .check, result := none, staged := none }
    writeJournal plan.id)
  Faulty.raise (targetChanged op.path)

def installStaged (staged : List (Nat × Snapshot)) (op : Operation) (index : Nat) : M Unit :=
  match staged.lookup index with
  | none => Faulty.raise (.transaction "transaction staged identity is missing")
  | some snapshot => do
    let published <- Faulty.attempt
      (promote sha256 (.promoteStaged (op.expected = none)) (.staged plan.id index)
        (.target op.path) snapshot)
      fun e => if e = .securePath then promotionRefused plan op index else Faulty.raise e
    orRaise (some published.digest = op.result)
      (.transaction ("installed output digest differs: " ++ op.path))

def displace (preimages : List (Nat × Snapshot)) (op : Operation) (index : Nat) : M Unit :=
  match preimages.lookup index with
  | none => Faulty.raise (.transaction "transaction preimage identity is missing")
  | some preimage => do
    let _ <- converting
      (promote sha256 .moveToBackup (.target op.path) (.backup plan.id index) preimage)
      (targetChanged op.path)
    sync

variable (sha256) in
def checkAbsent (op : Operation) : M Unit := do
  let actual <- observe sha256 (.target op.path)
  orRaise (actual = none) (.conflict ("transaction target appeared while applying: " ++ op.path))

def applyOperation (preimages staged : List (Nat × Snapshot)) (item : Operation × Nat) : M Unit :=
  let (op, index) := item
  onlyIf (op.kind ≠ .check) (do
    onlyIf (op.expected ≠ none) (displace plan preimages op index)
    onlyIf (op.data ≠ none) (installStaged plan staged op index)
    onlyIf (op.data = none ∧ op.expected = none) (checkAbsent sha256 op)
    onlyIf (op.expected ≠ none ∨ op.data ≠ none) sync)

def stage : M (List (Nat × Snapshot)) := do
  writeJournal plan.id
  let staged <- stageOutputs plan plan.ops.zipIdx
  onlyIf (∃ op ∈ plan.ops, op.kind ≠ .check ∧ op.expected ≠ none) (onDisk .publishReady fun d =>
      .ok ((), d.updateSeat plan.id fun s => { s with ready := true }))
  sync
  setMemory fun m => { m with record := m.record.withStaged staged }
  writeJournal plan.id
  pure staged

def capture : M (List (Nat × Snapshot)) := do
  let preimages <- capturePreimages plan
  setMemory fun m => { m with record := m.record.withPreimages preimages }
  writeJournal plan.id
  pure preimages

def applyOperations (preimages staged : List (Nat × Snapshot)) : M Unit := do
  setState .applying
  writeJournal plan.id
  Faulty.forEach (applyOperation plan preimages staged) plan.ops.zipIdx
  verifyPostimages plan

def publish : M Unit := do
  let staged <- stage plan
  let preimages <- capture plan
  applyOperations plan preimages staged
  setState .committed
  writeJournal plan.id

def rollbackAndRaise (e : Exn) : M Unit := do
  let memory <- getMemory
  Faulty.attempt
    (do
      rollbackRecord sha256 plan.id memory.record
      setMemory fun m => { m with rolledBack := true }
      removeTransactionDirectory plan.id memory.journal)
    fun _ => Faulty.raise e
  Faulty.raise e

structure TransactionResult where
  transactionId : Nat
  changedPaths : List Path
  cleanupWarning : Bool
  deriving DecidableEq

/-- A refusal is only a warning. -/
def cleanUp : M Bool := do
  let memory <- getMemory
  Faulty.attempt
    (do
      removeTransactionDirectory plan.id memory.journal
      pure false)
    fun
    | .transaction _ => pure true
    | .conflict _ => pure true
    | e => Faulty.raise e

def commit : M TransactionResult :=
  if plan.ops = [] then pure ⟨plan.id, [], false⟩
  else do
    recoverLocked sha256
    if ∀ op ∈ plan.ops, op.kind = .check then do
      let _ <- capturePreimages plan
      pure ⟨plan.id, [], false⟩
    else do
      createSeat plan.id
      sync
      setMemory fun _ => ⟨journalRecord plan .prepared, none, false⟩
      Faulty.attempt (publish plan) (rollbackAndRaise plan)
      let warning <- cleanUp plan
      pure ⟨plan.id, (plan.ops.filter (·.kind ≠ .check)).map (·.path), warning⟩

end Reprobit.Transaction

import Reprobit.Cache.Store

/-!
# Leases and garbage collection

The operations of the cache as programs over the accesses to its files: a build opens a
lease, stages, publishes, looks up and restores under it in any order, and closes it; a
garbage collection takes the gate, gives up where a lease is open, and removes records
and then the blobs that no record it keeps refers to.  Error texts leave the path out
that the code appends.
-/

namespace Reprobit.Cache

open Machine.Interleave

variable {Pid Content : Type}

abbrev Op (Pid Content α : Type) : Type := Trying (Access Pid Content) Access.Result String α

def does (action : Access Pid Content) : Op Pid Content action.Result := Trying.perform action

def must (condition : Prop) [Decidable condition] (message : String) : Op Pid Content Unit :=
  if condition then pure () else throw message

variable (output : CacheOutput)

def probeBlobOnce : Op Pid Content Unit := do
  must (isHex output.digest) "blob digest must be a lowercase SHA-256 digest"
  match <- does (.statBlob output.digest) with
  | none => throw "cache blob is absent, redirected, or non-regular"
  | some size =>
    must (size = output.size) "cache blob failed integrity validation (wrong size)"

/-- A second attempt follows a failed one. -/
def probeBlob : Op Pid Content Unit := do
  match <- (probeBlobOnce output).attempt with
  | .ok _ => pure ()
  | .error _ => probeBlobOnce output

def probeBlobs : List CacheOutput -> Op Pid Content Unit
  | [] => pure ()
  | output :: outputs => do
    probeBlob output
    probeBlobs outputs

def parseRecord (path : RecordPath) : Op Pid Content CacheRecord := do
  match <- does (.readRecord path) with
  | none => throw "cache record is malformed"
  | some record => pure record

def digestExisting : Op Pid Content (Text × Nat) := do
  probeBlobOnce output
  match <- does (.digestBlob output.digest) with
  | none => throw "cache blob is redirected or unstable"
  | some snapshot => pure snapshot

/-- A second attempt follows a failed one. -/
def digestSettled : Op Pid Content (Text × Nat) := do
  match <- (digestExisting output).attempt with
  | .ok snapshot => pure snapshot
  | .error _ => digestExisting output

def validateExistingBlob : Op Pid Content Unit := do
  let snapshot <- digestSettled output
  must (snapshot = (output.digest, output.size)) "cache blob failed integrity validation"

section Lease

/-! ## The operations of a lease -/

variable (implementation : Text)

def recordPath (domain key : Text) : Op Pid Content RecordPath := do
  must (isDomain domain) "invalid cache domain"
  must (isHex key) "cache key must be a lowercase SHA-256 digest"
  pure ⟨implementation, domain, key⟩

def lookup (domain key : Text) : Op Pid Content (Option CacheRecord) := do
  let path <- recordPath implementation domain key
  if <- does (.recordExists path) then
    let record <- parseRecord path
    probeBlobs record.outputs
    pure (some record)
  else pure none

def existingRecord (domain key : Text) : Op Pid Content (Option CacheRecord) := do
  let path <- recordPath implementation domain key
  if <- does (.recordExists path) then lookup implementation domain key else pure none

/-- The names of the outputs, in any order, and the metadata. -/
structure StageRequest where
  domain : Text
  key : Text
  names : List Text
  metadata : Text

def recordRequest (request : StageRequest) : Op Pid Content (List Text) := do
  must (isDomain request.domain) "invalid cache domain"
  must (isHex request.key) "cache key must be a lowercase SHA-256 digest"
  must (request.names ≠ []) "cache record must contain at least one output"
  let names := sortNames request.names
  must names.Nodup "cache output names overlap"
  must (∀ name ∈ names, isOutputName name) "invalid cache output name"
  pure names

section Digests

variable (digest : Content -> Text) (size : Content -> Nat)

def fileOutputReceipts : List Text -> Op Pid Content (List CacheOutput)
  | [] => pure []
  | name :: names => do
    match <- does (.copySource name) with
    | none => throw "cache source is absent, redirected, or unstable"
    | some (content, executable) =>
      let receipts <- fileOutputReceipts names
      pure (⟨name, digest content, size content, executable⟩ :: receipts)

def stageOutput (name : Text) : Op Pid Content CacheOutput := do
  match <- does (.copySource name) with
  | none => throw "cache source changed or staging publication failed"
  | some (content, executable) =>
    let receipt : CacheOutput := ⟨name, digest content, size content, executable⟩
    if <- does (.promote content) then pure receipt
    else
      validateExistingBlob receipt
      pure receipt

def stageOutputs : List Text -> Op Pid Content (List CacheOutput)
  | [] => pure []
  | name :: names => do
    let receipt <- stageOutput digest size name
    let receipts <- stageOutputs names
    pure (receipt :: receipts)

def stageRecord (request : StageRequest) : Op Pid Content CacheRecord := do
  let names <- recordRequest request
  match <- existingRecord implementation request.domain request.key with
  | some record =>
    let requested <- fileOutputReceipts digest size names
    must (requested = record.outputs ∧ record.metadata = request.metadata)
      "cache key already names different immutable output or metadata"
    pure record
  | none =>
    let receipts <- stageOutputs digest size names
    let created <- does .now
    pure ⟨implementation, request.domain, request.key, created, receipts, request.metadata⟩

end Digests

def checkOutputs : List CacheOutput -> Op Pid Content Unit
  | [] => pure ()
  | output :: outputs => do
    must (isOutputName output.name) "invalid cache output name"
    must (isHex output.digest) "cache blob digest must be a lowercase SHA-256 digest"
    probeBlob output
    checkOutputs outputs

def sameRecord (record existing : CacheRecord) (message : String) : Op Pid Content CacheRecord := do
  must (existing.outputs = record.outputs ∧ existing.metadata = record.metadata) message
  pure existing

def publishRecord (record : CacheRecord) : Op Pid Content CacheRecord := do
  must (isDomain record.domain) "invalid cache domain"
  must (isHex record.key) "cache key must be a lowercase SHA-256 digest"
  must (record.implementation = implementation)
    "staged cache record differs from its implementation namespace"
  must (record.outputs ≠ []) "staged cache record has no outputs"
  let names := record.outputs.map CacheOutput.name
  must (names = sortNames names ∧ names.Nodup) "staged cache record outputs are not canonical"
  checkOutputs record.outputs
  match <- existingRecord implementation record.domain record.key with
  | some existing =>
    sameRecord record existing "cache key already names different immutable output or metadata"
  | none =>
    if <- does (.publishRecord record) then parseRecord record.path
    else
      match <- lookup implementation record.domain record.key with
      | none => throw "immutable cache record publication failed"
      | some existing =>
        sameRecord record existing
          "cache key concurrently named different immutable output or metadata"

def restoreOutputs : List CacheOutput -> Op Pid Content Unit
  | [] => pure ()
  | output :: outputs => do
    probeBlob output
    if <- does (.copyBlob output) then restoreOutputs outputs
    else throw "cache blob failed integrity validation during restore"

/-- The places in the workspace are not part of the cache. -/
def restore (record : CacheRecord) (destinations : List Text) : Op Pid Content Unit := do
  let names := record.outputs.map CacheOutput.name
  must (record.implementation = implementation ∧ (∀ name ∈ destinations, name ∈ names) ∧
      ∀ name ∈ names, name ∈ destinations)
    "cache restore request differs from its record"
  must (destinations ≠ []) "cache selected restore request differs from its record"
  -- of outputs with one name the last counts
  restoreOutputs ((sortNames destinations).filterMap fun name =>
    record.outputs.reverse.find? fun output => output.name = name)

/-- The operations of a build, each chosen from the results before. -/
inductive Build where
  | close
  | lookup (domain key : Text) (next : Except String (Option CacheRecord) -> Build)
  | stage (request : StageRequest) (next : Except String CacheRecord -> Build)
  | publish (record : CacheRecord) (next : Except String CacheRecord -> Build)
  | restore (record : CacheRecord) (destinations : List Text) (next : Except String Unit -> Build)

def runBuild (digest : Content -> Text) (size : Content -> Nat) : Build -> Op Pid Content Unit
  | .close => pure ()
  | .lookup domain key next => do
    let result <- (lookup implementation domain key).attempt
    runBuild digest size (next result)
  | .stage request next => do
    let result <- (stageRecord implementation digest size request).attempt
    runBuild digest size (next result)
  | .publish record next => do
    let result <- (publishRecord implementation record).attempt
    runBuild digest size (next result)
  | .restore record destinations next => do
    let result <- (restore implementation record destinations).attempt
    runBuild digest size (next result)

/-- The gate is held until the lock of the lease file is taken. -/
def openLease (self : Pid) : Op Pid Content Unit := do
  if <- does .publishLease then
    match <- does (.openLease self) with
    | .opened =>
      if <- does (.tryLock self) then pure ()
      else throw "fresh cache lease could not be acquired"
    | _ => throw "fresh cache lease could not be acquired"
  else throw "immutable cache publication failed"

def closeLease (self : Pid) : Op Pid Content Unit := do
  does (.unlock self)
  let _ <- does (.removeLease self)

def lease (digest : Content -> Text) (size : Content -> Nat) (self : Pid) (build : Build) :
    Op Pid Content Unit := do
  does .acquireGate
  let opened <- (do
    match <- (openLease self).attempt with
    | .ok _ => pure ()
    | .error message => do
      -- a lease that could not be opened is taken back
      closeLease self
      throw message).andFinally (does .releaseGate) |>.attempt
  match opened with
  | .ok _ => (runBuild implementation digest size build).andFinally (closeLease self)
  | .error _ => pure ()

end Lease

structure GcOptions where
  implementation : Text
  dryRun : Bool
  obsoleteImplementationFamily : Option Text

section

variable (options : GcOptions)

def activeLeaseCount : List Pid -> Op Pid Content Nat
  | [] => pure 0
  | lease :: leases => do
    match <- does (.openLease lease) with
    | .absent => activeLeaseCount leases
    | .failed => throw "cache lease is unsafe"
    | .opened =>
      if <- does (.tryLock lease) then
        does (.unlock lease)
        if options.dryRun then activeLeaseCount leases
        else
          let _ <- does (.removeLease lease)
          activeLeaseCount leases
      else
        let active <- activeLeaseCount leases
        pure (active + 1)

def GcOptions.selects (record : CacheRecord) : Bool :=
  match options.obsoleteImplementationFamily with
  | none => true
  | some family =>
    family.isPrefixOf record.implementation && record.implementation ≠ options.implementation

def collectRecords : List RecordPath -> Op Pid Content (List CacheRecord)
  | [] => pure []
  | path :: paths => do
    let record <- parseRecord path
    if options.selects record then
      if <- does (.isRecent path) then
        let retained <- collectRecords paths
        pure (record :: retained)
      else if options.dryRun then collectRecords paths
      else if <- does (.removeRecord path) then collectRecords paths
      else throw "cache record disappeared during GC"
    else
      let retained <- collectRecords paths
      pure (record :: retained)

def collectBlobs (referenced : List Text) : List Text -> Op Pid Content Unit
  | [] => pure ()
  | name :: names => do
    if name ∈ referenced then collectBlobs referenced names
    else if options.dryRun then collectBlobs referenced names
    else if <- does (.removeBlob name) then collectBlobs referenced names
    else throw "cache blob disappeared during GC"

/-- A collection with the gate held. -/
def collect : Op Pid Content Unit := do
  let leases <- does .listLeases
  let active <- activeLeaseCount options leases
  if active = 0 then
    let paths <- does .listRecords
    let retained <- collectRecords options paths
    let referenced := retained.flatMap fun record => record.outputs.map CacheOutput.digest
    let names <- does .listBlobs
    collectBlobs options referenced names
  else pure ()

def gc : Op Pid Content Unit := do
  does .acquireGate
  (collect options).andFinally (does .releaseGate)

end

/-- A build with its lease, or a garbage collection. -/
inductive Job where
  | build (implementation : Text) (body : Build)
  | collection (options : GcOptions)

/-- A process ends with its job, whatever the outcome. -/
def Job.program (digest : Content -> Text) (size : Content -> Nat) (self : Pid) :
    Job -> Prog (Access Pid Content) Access.Result Unit
  | .build implementation body =>
    (lease implementation digest size self body).run.bind fun _ => .ret ()
  | .collection options => (gc options).run.bind fun _ => .ret ()

/-- Processes that have not begun, on an empty cache. -/
def initial (digest : Content -> Text) (size : Content -> Nat) (jobs : Pid -> Job) :
    Config (Access Pid Content) Access.Result Pid (Store Pid Content) where
  shared := Store.empty Pid Content
  programs := fun self => (jobs self).program digest size self

end Reprobit.Cache

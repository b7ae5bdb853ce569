import Reprobit.Foundation
import Reprobit.PosixPath
import Reprobit.Machine.Interleave
import Mathlib.Data.List.Sort

/-!
# The store of the incremental cache

Records name outputs by their digests, and blobs hold the contents.  Builds and garbage
collections share the files of one cache: a gate, one lock for each lease, the records
and the blobs.  Every access to them is one atomic action, and the environment decides
what the cache does not: which content a source has, how old a file is, and whether an
access fails.
-/

namespace Reprobit.Cache

open Machine.Interleave List

structure CacheOutput where
  name : Text
  digest : Text
  size : Nat
  executable : Bool
  deriving DecidableEq, Repr

structure CacheRecord where
  implementation : Text
  domain : Text
  key : Text
  createdNs : Nat
  outputs : List CacheOutput
  /-- the canonical text of the metadata -/
  metadata : Text
  deriving DecidableEq, Repr

/-- `records/implementation/domain/key.json` -/
structure RecordPath where
  implementation : Text
  domain : Text
  key : Text
  deriving DecidableEq, Repr

def CacheRecord.path (record : CacheRecord) : RecordPath :=
  ⟨record.implementation, record.domain, record.key⟩

def isLower (c : Char) : Bool := 97 <= c.toNat && c.toNat <= 122

def isDigit (c : Char) : Bool := 48 <= c.toNat && c.toNat <= 57

/-- `[0-9a-f]{64}` -/
def isHex (t : Text) : Bool :=
  t.length = 64 && t.all fun c => isDigit c || (97 <= c.toNat && c.toNat <= 102)

/-- `[a-z][a-z0-9-]{0,63}` -/
def isDomain : Text -> Bool
  | [] => false
  | c :: rest =>
    isLower c && rest.length <= 63 && rest.all fun c => isLower c || isDigit c || c = '-'

def isOutputName (t : Text) : Bool :=
  t ≠ [] && !t.contains '\\' && !t.contains (Char.ofNat 0) &&
    (PurePosixPath.parse t).root = [] && (PurePosixPath.parse t).asPosix = t &&
    (PurePosixPath.parse t).parts.all fun part => part ≠ [] && part ≠ ['.'] && part ≠ ['.', '.']

/-- Names in the order of their code points. -/
def sortNames (names : List Text) : List Text := names.insertionSort (· <= ·)

/-- The files of a cache; a lease file is named by its process. -/
structure Store (Pid Content : Type) where
  /-- who holds the gate -/
  gate : Option Pid
  leases : List Pid
  /-- who holds the lock of a lease file -/
  locks : Pid -> Option Pid
  records : List (RecordPath × CacheRecord)
  blobs : List (Text × Content)
  /-- the blobs that a process promoted, or found to have their digest -/
  staged : List (Pid × Text)

def Store.empty (Pid Content : Type) : Store Pid Content where
  gate := none
  leases := []
  locks := fun _ => none
  records := []
  blobs := []
  staged := []

/-- A lease is open while its process holds its lock. -/
def Store.IsOpen {Pid Content : Type} (s : Store Pid Content) (p : Pid) : Prop :=
  s.locks p = some p

def erase {κ β : Type} [DecidableEq κ] (name : κ) (files : List (κ × β)) : List (κ × β) :=
  files.filter fun file => file.1 ≠ name

theorem lookup_erase {κ β : Type} [DecidableEq κ] [BEq κ] [LawfulBEq κ] (name : κ)
    (files : List (κ × β)) (k : κ) :
    (erase name files).lookup k = if k = name then none else files.lookup k := by
  induction files with
  | nil => simp [erase]
  | cons file files ih =>
    obtain ⟨n, content⟩ := file
    unfold erase at ih ⊢
    by_cases hfile : n = name
    · subst hfile
      rw [filter_cons_of_neg (by simp), ih]
      by_cases hk : k = n
      · rw [if_pos hk, if_pos hk]
      · rw [if_neg hk, if_neg hk, lookup_cons, beq_eq_false_iff_ne.mpr hk]
    · rw [filter_cons_of_pos (by simpa using hfile), lookup_cons, lookup_cons, ih]
      by_cases hk : k = n
      · subst hk
        simp only [beq_self_eq_true, if_neg hfile]
      · rw [beq_eq_false_iff_ne.mpr hk]

theorem mem_names_of_lookup {κ β : Type} [BEq κ] [LawfulBEq κ] {files : List (κ × β)} {k : κ}
    {x : β} (h : files.lookup k = some x) : k ∈ files.map Prod.fst := by
  have hsome : (files.lookup k).isSome := by rw [h]; rfl
  obtain ⟨file, hfile, hk⟩ := lookup_isSome_iff.mp hsome
  exact mem_map.mpr ⟨file, hfile, (beq_iff_eq.mp hk).symm⟩

inductive Opened where
  | opened | absent | failed
  deriving DecidableEq, Repr

inductive Access (Pid Content : Type) where
  | acquireGate
  | releaseGate
  | publishLease
  | openLease (lease : Pid)
  | tryLock (lease : Pid)
  | unlock (lease : Pid)
  | removeLease (lease : Pid)
  | listLeases
  | recordExists (path : RecordPath)
  | readRecord (path : RecordPath)
  | publishRecord (record : CacheRecord)
  | isRecent (path : RecordPath)
  | removeRecord (path : RecordPath)
  | listRecords
  | statBlob (digest : Text)
  | digestBlob (digest : Text)
  | copySource (name : Text)
  | promote (content : Content)
  | removeBlob (digest : Text)
  | listBlobs
  | copyBlob (output : CacheOutput)
  | now

/-- A failed access gives `none` or `false`. -/
@[reducible] def Access.Result {Pid Content : Type} : Access Pid Content -> Type
  | .acquireGate => Unit
  | .releaseGate => Unit
  | .publishLease => Bool
  | .openLease _ => Opened
  | .tryLock _ => Bool
  | .unlock _ => Unit
  | .removeLease _ => Bool
  | .listLeases => List Pid
  | .recordExists _ => Bool
  | .readRecord _ => Option CacheRecord
  | .publishRecord _ => Bool
  | .isRecent _ => Bool
  | .removeRecord _ => Bool
  | .listRecords => List RecordPath
  | .statBlob _ => Option Nat
  | .digestBlob _ => Option (Text × Nat)
  | .copySource _ => Option (Content × Bool)
  | .promote _ => Bool
  | .removeBlob _ => Bool
  | .listBlobs => List Text
  | .copyBlob _ => Bool
  | .now => Nat

/-- What the environment decides at an access. -/
structure Answer (Content : Type) where
  /-- the access fails, although it need not -/
  fails : Bool
  content : Content
  executable : Bool
  recent : Bool
  time : Nat

variable {Pid Content : Type} [DecidableEq Pid] (digest : Content -> Text) (size : Content -> Nat)

def access (p : Pid) (action : Access Pid Content) (answer : Answer Content)
    (s : Store Pid Content) : Option (action.Result × Store Pid Content) :=
  match action with
  | .acquireGate => if s.gate = none then some ((), { s with gate := some p }) else none
  | .releaseGate => some ((), if s.gate = some p then { s with gate := none } else s)
  | .publishLease =>
    if answer.fails then some (false, s) else some (true, { s with leases := p :: s.leases })
  | .openLease lease =>
    if answer.fails then some (.failed, s)
    else if lease ∈ s.leases then some (.opened, s)
    else some (.absent, s)
  | .tryLock lease =>
    if s.locks lease = none then
      some (true, { s with locks := Function.update s.locks lease (some p) })
    else some (false, s)
  | .unlock lease =>
    some ((), if s.locks lease = some p then
      { s with locks := Function.update s.locks lease none } else s)
  | .removeLease lease =>
    if answer.fails then some (false, s)
    else some (true, { s with leases := s.leases.filter (· ≠ lease) })
  | .listLeases => some (s.leases, s)
  | .recordExists path => some ((s.records.lookup path).isSome, s)
  | .readRecord path => some (if answer.fails then none else s.records.lookup path, s)
  | .publishRecord record =>
    if answer.fails ∨ (s.records.lookup record.path).isSome then some (false, s)
    else some (true, { s with records := (record.path, record) :: s.records })
  | .isRecent _ => some (answer.recent, s)
  | .removeRecord path =>
    if answer.fails ∨ (s.records.lookup path).isNone then some (false, s)
    else some (true, { s with records := erase path s.records })
  | .listRecords => some (s.records.map Prod.fst, s)
  | .statBlob name =>
    some (if answer.fails then none else (s.blobs.lookup name).map size, s)
  | .digestBlob name =>
    match if answer.fails then none else s.blobs.lookup name with
    | none => some (none, s)
    | some content =>
      some (some (digest content, size content),
        if digest content = name then { s with staged := (p, name) :: s.staged } else s)
  | .copySource _ =>
    some (if answer.fails then none else some (answer.content, answer.executable), s)
  | .promote content =>
    if answer.fails ∨ (s.blobs.lookup (digest content)).isSome then some (false, s)
    else
      some (true, { s with
        blobs := (digest content, content) :: s.blobs
        staged := (p, digest content) :: s.staged })
  | .removeBlob name =>
    if answer.fails ∨ (s.blobs.lookup name).isNone then some (false, s)
    else some (true, { s with blobs := erase name s.blobs })
  | .listBlobs => some (s.blobs.map Prod.fst, s)
  | .copyBlob output =>
    some (!answer.fails && (s.blobs.lookup output.digest).any fun content =>
      digest content = output.digest && size content = output.size, s)
  | .now => some (answer.time, s)

/-- The system takes the locks of a process that ends. -/
def crashed (p : Pid) (s : Store Pid Content) : Store Pid Content :=
  { s with
    gate := if s.gate = some p then none else s.gate
    locks := fun lease => if s.locks lease = some p then none else s.locks lease }

def cacheSemantics :
    Semantics (Access Pid Content) Access.Result Pid (Answer Content) (Store Pid Content) where
  step := access digest size
  crash := crashed

end Reprobit.Cache

import Reprobit.Foundation
import Reprobit.Machine.Faulty
import Mathlib.Data.List.Sort

/-!
# Capture of a sealed namespace

`_PosixNamespaceLease` holds a descriptor for every directory and file it captures.  Calls of
the operating system are atomic steps; what they answer can change at any time, and each of
them may fail, without an effect.  A descriptor is held once it is registered with the lease;
until then only the function that opened it knows it.
-/

namespace Reprobit.SealedNamespace

open Machine Machine.Faulty List

abbrev Path := List String

def showPath (path : Path) : String := "/" ++ "/".intercalate path

structure Stat where
  device : Nat
  inode : Nat
  mode : Nat
  links : Nat
  size : Nat
  modified : Nat
  changed : Nat
  deriving DecidableEq

def Stat.isDirectory (s : Stat) : Bool := s.mode / 4096 % 16 = 4

def Stat.isRegular (s : Stat) : Bool := s.mode / 4096 % 16 = 8

structure Directory where
  key : Nat × Nat
  path : Path
  descriptor : Nat
  metadata : Stat
  members : List String
  sealChange : Bool
  sealContents : Bool

structure HeldFile where
  label : String
  relative : Path
  path : Path
  descriptor : Nat
  metadata : Stat

/-- What the system answers. -/
structure Answer where
  stat : Stat
  members : List String
  block : List Byte

/-- With the descriptors opened so far and those closed. -/
structure Lease where
  directories : List Directory
  files : List HeldFile
  opened : Nat
  closings : List Nat
  answer : Answer

/-- The calls; a descriptor is fresh until the lease holds it. -/
inductive Call where
  | preflight
  | open
  | stat
  | fstat (fresh : Bool)
  | listdir (fresh : Bool)
  | pread
  | close
  deriving DecidableEq

inductive Failure where
  | failed (call : Call)
  /-- "held namespace file produced a short read" -/
  | shortRead
  | sealed (message : String)
  | recursion
  deriving DecidableEq

abbrev Program (α : Type) := Faulty Call Answer Failure Lease α

def perform {α : Type} (call : Call) (effect : Lease -> α × Lease) : Program α :=
  step (fun answer lease => { lease with answer }) call fun lease => .ok (effect lease)

def ask {α : Type} (call : Call) (read : Answer -> α) : Program α :=
  perform call fun lease => (read lease.answer, lease)

/-- A call whose failure is reported with a message. -/
def orSealed {α : Type} (program : Program α) (message : String) : Program α :=
  attempt program fun _ => raise (.sealed message)

def openDescriptor (message : String) : Program Nat :=
  orSealed (perform .open fun lease => (lease.opened, { lease with opened := lease.opened + 1 }))
    message

def close (descriptor : Nat) : Program Unit :=
  perform .close fun lease => ((), { lease with closings := descriptor :: lease.closings })

def reject {α : Type} (descriptor : Nat) (message : String) : Program α := do
  close descriptor
  raise (.sealed message)

def update (directory : Directory) (metadata : Stat) (members : List String)
    (sealChange sealContents : Bool) : Program Directory := do
  change fun lease => { lease with
    directories := lease.directories.map fun d =>
      if d.key = directory.key then { d with metadata, members, sealChange, sealContents } else d }
  pure { directory with metadata, members, sealChange, sealContents }

def register (directory : Directory) : Program Directory := do
  change fun lease => { lease with directories := lease.directories ++ [directory] }
  pure directory

/-- Note the metadata of a held directory, unless that was done. -/
def sealChange (directory : Directory) : Program Directory :=
  if directory.sealChange then pure directory
  else do
    let metadata <- ask (.fstat false) (·.stat)
    update directory metadata directory.members true directory.sealContents

/-! ## Directories and files -/

section

variable (casefold : String -> String)

def listdir (fresh : Bool) : Program (List String) :=
  ask (.listdir fresh) fun answer =>
    answer.members.insertionSort fun a b => casefold a <= casefold b

def sealContents (directory : Directory) : Program Directory :=
  if directory.sealContents then pure directory
  else do
    let metadata <- ask (.fstat false) (·.stat)
    let members <- listdir casefold false
    update directory metadata members directory.sealChange true

def reuse (existing : Directory) (path : Path) (change contents : Bool) : Program Directory :=
  if existing.path ≠ path then
    raise (.sealed
      s!"namespace aliases one directory at {showPath existing.path} and {showPath path}")
  else do
    let existing <- (if change || contents then sealChange existing else pure existing)
    (if contents then sealContents casefold existing else pure existing)

def openDirectory (path : Path) (absent notDirectory : String) (change contents : Bool)
    (found : Directory -> Program Directory) : Program Directory := do
  let descriptor <- openDescriptor absent
  let received <- ask (.fstat true) (·.stat)
  if !received.isDirectory then reject descriptor notDirectory
  else
    let key := (received.device, received.inode)
    let lease <- look
    match lease.directories.find? fun d => d.key = key with
    | some existing => do
      close descriptor
      found existing
    | none => do
      let members <- (if contents then listdir casefold true else pure [])
      register ⟨key, path, descriptor, received, members, change || contents, contents⟩

def openChildDirectory (path : Path) (change contents : Bool) : Program Directory :=
  openDirectory casefold path ("namespace directory is absent or redirected: " ++ showPath path)
    ("namespace path is not a directory: " ++ showPath path) change contents fun existing =>
      reuse casefold existing path change contents

def descend (change : Bool) : Directory -> List String -> Program Directory
  | current, [] => pure current
  | current, component :: rest => do
    let child <- openChildDirectory casefold (current.path ++ [component]) change false
    descend change child rest

def openAnchor (anchor : Path) : Program Directory := do
  let root <- openDirectory casefold [] "namespace filesystem root is absent or redirected: /"
    ("namespace anchor is not a directory: " ++ showPath anchor) false false pure
  let current <- descend casefold false root anchor
  sealChange current

/-- `Path.relative_to` -/
def relativeTo (path anchor : Path) : Option Path :=
  if anchor <+: path then some (path.drop anchor.length) else none

def openPath (anchor target : Path) : Program Directory :=
  match relativeTo target anchor with
  | none => raise (.sealed
      s!"namespace target {showPath target} escapes anchor {showPath anchor}")
  | some relative => do
    let current <- openAnchor casefold anchor
    let current <- descend casefold true current relative
    sealContents casefold current

def readBlocks (size : Nat) : Nat -> List Byte -> Program (List Byte)
  | 0, payload => pure payload
  | fuel + 1, payload =>
    if size <= payload.length then pure payload
    else do
      let block <- ask .pread fun answer => answer.block.take (min 1048576 (size - payload.length))
      if block = [] then pure payload else readBlocks size fuel (payload ++ block)

def readDescriptor (size : Nat) : Program (List Byte) := do
  let payload <- readBlocks size size []
  if payload.length ≠ size then raise .shortRead else pure payload

def openFile (label : String) (relative path : Path) : Program Unit := do
  let descriptor <- openDescriptor ("namespace file is absent or redirected: " ++ showPath path)
  let before <- ask (.fstat true) (·.stat)
  if !before.isRegular then reject descriptor ("namespace file is not regular: " ++ showPath path)
  else
    let _ <- readDescriptor before.size
    let after <- ask (.fstat true) (·.stat)
    if before ≠ after then
      reject descriptor ("namespace file changed during capture: " ++ showPath path)
    else
      change fun lease => { lease with
        files := lease.files ++ [⟨label, relative, path, descriptor, after⟩] }

/-- The fuel is the depth to which calls may nest. -/
def walkTree (label : String) : Nat -> Directory -> Path -> Program Unit
  | 0, _, _ => raise .recursion
  | fuel + 1, directory, relative =>
    directory.members |> forEach fun name => do
      let path := directory.path ++ [name]
      let lexical <- orSealed (ask .stat (·.stat))
        ("namespace entry disappeared during capture: " ++ showPath path)
      if lexical.isDirectory then
        let child <- openChildDirectory casefold path true true
        walkTree label fuel child (relative ++ [name])
      else if !lexical.isRegular then
        raise (.sealed ("namespace entry is not a regular file/directory: " ++ showPath path))
      else openFile label (relative ++ [name]) path

/-- A tree or a file, with the anchor it is reached from. -/
structure Item where
  label : String
  path : Path
  anchor : Path

def openStandaloneFile (item : Item) : Program Unit :=
  match relativeTo item.path item.anchor with
  | none => raise (.sealed
      s!"namespace file {showPath item.path} escapes anchor {showPath item.anchor}")
  | some [] => raise (.sealed "namespace standalone file cannot equal its anchor")
  | some relative => do
    let anchor <- openAnchor casefold item.anchor
    let _ <- descend casefold true anchor relative.dropLast
    openFile item.label relative item.path

def sortItems (items : List Item) : List Item :=
  items.insertionSort fun a b =>
    a.label < b.label ∨ (a.label = b.label ∧ showPath a.path <= showPath b.path)

def closeDescriptors : Program Unit := do
  let lease <- look
  forEach close (lease.files.reverse.map (·.descriptor) ++
    lease.directories.reverse.map (·.descriptor))

def construct (depth : Nat) (trees files : List Item) : Program Unit := do
  ask .preflight fun _ => ()
  attempt
    (do
      forEach (fun tree => do
        let root <- openPath casefold tree.anchor tree.path
        walkTree casefold tree.label depth root []) (sortItems trees)
      forEach (openStandaloneFile casefold) (sortItems files))
    fun failure => do
      closeDescriptors
      raise failure

end

/-! ## Every descriptor -/

/-- The listed descriptors are open, the others were closed once. -/
def StillOpen (open' : List Nat) (lease : Lease) : Prop :=
  (open' ++ lease.closings).Perm (List.range lease.opened)

def Lease.held (lease : Lease) : List Nat :=
  lease.files.map (·.descriptor) ++ lease.directories.map (·.descriptor)

def Accounted (fresh : List Nat) (lease : Lease) : Prop := StillOpen (fresh ++ lease.held) lease

/-- A descriptor is open that the lease does not hold. -/
def Failure.exposed : Failure -> Bool
  | .failed (.fstat fresh) | .failed (.listdir fresh) => fresh
  | .failed .pread | .failed .close | .shortRead => true
  | _ => false

def Dropped (failure : Failure) (lease : Lease) : Prop :=
  if failure.exposed then ∃ d, Accounted [d] lease else Accounted [] lease

def Fails (call : Call) (turn : Turn Answer Failure) : Prop :=
  turn.fault = .none ∨ turn.fault = .raiseBefore (.failed call)

instance (call : Call) (turn : Turn Answer Failure) : Decidable (Fails call turn) :=
  inferInstanceAs (Decidable (_ ∨ _))

theorem not_stillOpen_nil {d : Nat} {rest : List Nat} {lease : Lease}
    (h : StillOpen (d :: rest) lease) : ¬StillOpen [] lease := by
  intro hnone
  have hmore := h.length_eq
  have hless := hnone.length_eq
  simp at hmore hless
  omega

section

variable {α β : Type} {P : Lease -> Prop} {Q : α -> Lease -> Prop} {E : Failure -> Lease -> Prop}
  {fresh : List Nat} {d size fuel : Nat} {casefold : String -> String} {directory : Directory}
  {read : Answer -> α} {message label : String} {call : Call} {failure : Failure} {contents : Bool}
  {path anchor relative : Path}

abbrev Spec (P : Lease -> Prop) (program : Program α) (Q : α -> Lease -> Prop)
    (E : Failure -> Lease -> Prop) : Prop :=
  Triple Fails P program Q E fun _ => True

abbrev Tidy (fresh : List Nat) (program : Program α) : Prop :=
  Spec (Accounted fresh) program (fun _ => Accounted fresh) Dropped

theorem perform_spec {effect : Lease -> α × Lease}
    (hanswer : ∀ lease answer, P lease -> P { lease with answer })
    (hfail : ∀ lease, P lease -> E (.failed call) lease)
    (heffect : ∀ lease, P lease -> Q (effect lease).1 (effect lease).2) :
    Spec P (perform call effect) Q E := by
  refine Triple.step (fun turn _ lease hlease => ?_) ?_ ?_ ?_
  · induction turn.outside generalizing lease with
    | nil => exact hlease
    | cons answer rest ih => exact ih _ (hanswer lease answer hlease)
  · rintro turn lease (hturn | hturn) hlease <;> simp [hturn, hfail lease hlease]
  · intro turn lease a lease' hturn hlease heq
    have hafter := heffect lease hlease
    rw [Except.ok.inj heq] at hafter
    rcases hturn with hturn | hturn <;> simp [hturn, hafter]
  · rintro turn lease failure - - ⟨⟩

theorem look_spec {f : Lease -> Program β} {R : β -> Lease -> Prop}
    (h : ∀ lease, P lease -> Spec (· = lease) (f lease) R E) : Spec P (look >>= f) R E :=
  fun lease turns hlease hturns => h lease hlease lease turns rfl hturns

theorem pure_spec {a : α} : Tidy fresh (pure a : Program α) := Triple.pure fun _ h => h

theorem ask_spec (hfail : ∀ lease, Accounted fresh lease -> Dropped (.failed call) lease) :
    Tidy fresh (ask call read) :=
  perform_spec (fun _ _ h => h) hfail fun _ h => h

theorem ask_fresh (h : (Failure.failed call).exposed = true) : Tidy [d] (ask call read) :=
  ask_spec fun lease hlease => by simpa [Dropped, h] using ⟨d, hlease⟩

theorem ask_held (h : (Failure.failed call).exposed = false) : Tidy [] (ask call read) :=
  ask_spec fun lease hlease => by simpa [Dropped, h] using hlease

theorem raise_spec (h : failure.exposed = false) :
    Spec (Accounted []) (raise failure : Program α) Q Dropped :=
  Triple.raise fun lease hlease => by simpa [Dropped, h] using hlease

theorem orSealed_spec {program : Program α}
    (h : Spec (Accounted []) program Q fun _ => Accounted []) :
    Spec (Accounted []) (orSealed program message) Q Dropped :=
  Triple.attempt h fun _ => raise_spec rfl

theorem openDescriptor_spec :
    Spec (Accounted []) (openDescriptor message) (fun d => Accounted [d]) Dropped :=
  orSealed_spec <| perform_spec (fun _ _ h => h) (fun _ h => h) fun lease h => by
    have hmore := h.cons lease.opened
    simp only [Accounted, StillOpen, range_succ]
    exact hmore.trans (perm_append_singleton ..).symm

theorem close_spec : Spec (Accounted [d]) (close d) (fun _ => Accounted []) Dropped :=
  perform_spec (fun _ _ h => h) (fun _ h => ⟨d, h⟩) fun _ h => perm_middle.trans h

theorem reject_spec : Spec (Accounted [d]) (reject d message : Program α) Q Dropped :=
  close_spec.bind fun _ => raise_spec rfl

theorem change_spec {f : Lease -> Lease} (h : ∀ lease, (f lease).opened = lease.opened ∧
      (f lease).closings = lease.closings ∧ (f lease).held.Perm (fresh ++ lease.held)) :
    Spec (Accounted fresh) (change f) (fun _ => Accounted []) Dropped :=
  Triple.change fun lease hlease => by
    obtain ⟨hopened, hclosings, hheld⟩ := h lease
    unfold Accounted StillOpen at *
    rw [hopened, hclosings]
    exact (hheld.append_right _).trans hlease

theorem update_spec {metadata : Stat} {members : List String} {change : Bool} :
    Tidy [] (update directory metadata members change contents) := by
  refine Triple.bind (change_spec fun lease => ⟨rfl, rfl, ?_⟩) fun _ => pure_spec
  simp [Lease.held, Function.comp_def, apply_ite]

theorem register_spec (h : directory.descriptor = d) :
    Spec (Accounted [d]) (register directory) (fun _ => Accounted []) Dropped := by
  refine Triple.bind (change_spec fun lease => ⟨rfl, rfl, ?_⟩) fun _ => pure_spec
  simp only [Lease.held, map_append, map_singleton, <- append_assoc, h]
  exact perm_append_singleton ..

theorem sealChange_spec : Tidy [] (sealChange directory) := by
  unfold sealChange
  split
  · exact pure_spec
  · exact (ask_held rfl).bind fun _ => update_spec

theorem sealContents_spec : Tidy [] (sealContents casefold directory) := by
  unfold sealContents
  split
  · exact pure_spec
  · exact (ask_held rfl).bind fun _ => (ask_held rfl).bind fun _ => update_spec

theorem reuse_spec {existing : Directory} {change : Bool} :
    Tidy [] (reuse casefold existing path change contents) := by
  unfold reuse
  split
  · exact raise_spec rfl
  · refine Triple.bind (Q := fun _ => Accounted []) ?_ fun existing => ?_
    · split
      · exact sealChange_spec
      · exact pure_spec
    · split
      · exact sealContents_spec
      · exact pure_spec

theorem openDirectory_spec {absent notDirectory : String} {change : Bool}
    {found : Directory -> Program Directory} (hfound : ∀ existing, Tidy [] (found existing)) :
    Tidy [] (openDirectory casefold path absent notDirectory change contents found) := by
  refine openDescriptor_spec.bind fun descriptor => (ask_fresh rfl).bind fun received => ?_
  split
  · exact reject_spec
  · refine look_spec fun lease hlease => Triple.weaken ?_ fun _ h => h ▸ hlease
    split
    · exact close_spec.bind fun _ => hfound _
    · refine Triple.bind (Q := fun _ => Accounted [descriptor]) ?_ fun _ => register_spec rfl
      split
      · exact ask_fresh rfl
      · exact pure_spec

theorem descend_spec {change : Bool} {current : Directory} {components : List String} :
    Tidy [] (descend casefold change current components) := by
  induction components generalizing current with
  | nil => exact pure_spec
  | cons component rest ih =>
    exact (openDirectory_spec fun _ => reuse_spec).bind fun _ => ih

theorem openAnchor_spec : Tidy [] (openAnchor casefold anchor) :=
  (openDirectory_spec fun _ => pure_spec).bind fun _ =>
    descend_spec.bind fun _ => sealChange_spec

theorem openPath_spec {target : Path} : Tidy [] (openPath casefold anchor target) := by
  unfold openPath
  split
  · exact raise_spec rfl
  · exact openAnchor_spec.bind fun _ => descend_spec.bind fun _ => sealContents_spec

theorem readBlocks_spec {payload : List Byte} : Tidy [d] (readBlocks size fuel payload) := by
  induction fuel generalizing payload with
  | zero => exact pure_spec
  | succ fuel ih =>
    unfold readBlocks
    split
    · exact pure_spec
    · refine (ask_fresh rfl).bind fun block => ?_
      split
      · exact pure_spec
      · exact ih

theorem readDescriptor_spec : Tidy [d] (readDescriptor size) := by
  refine readBlocks_spec.bind fun payload => ?_
  split
  · exact Triple.raise fun lease h => ⟨d, h⟩
  · exact pure_spec

theorem openFile_spec : Tidy [] (openFile label relative path) := by
  refine openDescriptor_spec.bind fun descriptor => (ask_fresh rfl).bind fun before => ?_
  split
  · exact reject_spec
  · refine readDescriptor_spec.bind fun payload => (ask_fresh rfl).bind fun after => ?_
    split
    · exact reject_spec
    · exact change_spec fun lease => ⟨rfl, rfl, by simp [Lease.held]⟩

/-- A walk drops a descriptor only where it fails; by the depth. -/
theorem walkTree_spec : Tidy [] (walkTree casefold label fuel directory relative) := by
  induction fuel generalizing directory relative with
  | zero => exact raise_spec rfl
  | succ fuel ih =>
    refine Triple.forEach (fun _ => Accounted []) fun _ name _ _ => ?_
    refine Triple.bind (Q := fun _ => Accounted []) (orSealed_spec
      (perform_spec (fun _ _ h => h) (fun _ h => h) fun _ h => h)) fun lexical => ?_
    split
    · exact (openDirectory_spec fun _ => reuse_spec).bind fun _ => ih
    · split
      · exact raise_spec rfl
      · exact openFile_spec

theorem openStandaloneFile_spec {item : Item} :
    Tidy [] (openStandaloneFile casefold item) := by
  unfold openStandaloneFile
  split
  · exact raise_spec rfl
  · exact raise_spec rfl
  · exact openAnchor_spec.bind fun _ => descend_spec.bind fun _ => openFile_spec

/-- The failure that leaves the construction, with what was closed. -/
def Left (failure : Failure) (lease : Lease) : Prop :=
  StillOpen [] lease ↔ failure.exposed = false

theorem closeAll_spec {descriptors : List Nat} :
    Spec (StillOpen (descriptors ++ fresh)) (forEach close descriptors) (fun _ => StillOpen fresh)
      Left := by
  induction descriptors with
  | nil => exact Triple.pure fun _ h => h
  | cons d rest ih =>
    refine Triple.bind (perform_spec (fun _ _ h => h) (fun lease h => ?_) fun lease h => ?_)
      fun _ => ih
    · simpa [Left, Failure.exposed] using not_stillOpen_nil h
    · exact perm_middle.trans h

theorem closeDescriptors_spec :
    Spec (Accounted fresh) closeDescriptors (fun _ => StillOpen fresh) Left := by
  refine look_spec fun lease hlease => closeAll_spec.weaken fun _ h => ?_
  subst h
  refine Perm.trans (Perm.append_right _ ?_) hlease
  refine perm_append_comm.trans (Perm.append_left _ ?_)
  simp only [map_reverse]
  exact (reverse_perm _).append (reverse_perm _)

theorem handler_spec :
    Spec (Dropped failure) (do closeDescriptors; raise failure : Program α) Q Left := by
  have hraise : ∀ fresh, (∀ lease, StillOpen fresh lease -> Left failure lease) ->
      Spec (Accounted fresh) (do closeDescriptors; raise failure : Program α) Q Left :=
    fun fresh h => closeDescriptors_spec.bind fun _ => Triple.raise h
  unfold Dropped
  split
  · rename_i hexposed
    exact Triple.exists fun d => hraise [d] fun lease h => by
      simpa [Left, hexposed] using not_stillOpen_nil h
  · rename_i hexposed
    exact hraise [] fun lease h => by simpa [Left, hexposed] using h

theorem construct_spec {depth : Nat} {trees files : List Item} :
    Spec (fun lease => lease.held = [] ∧ StillOpen [] lease) (construct casefold depth trees files)
      (fun _ => Accounted []) Left := by
  refine Triple.bind (Q := fun _ => Accounted []) ?_ fun _ => Triple.attempt (F := Dropped) ?_
    fun failure => handler_spec
  · exact perform_spec (fun _ _ h => h) (fun lease h => by simpa [Left, Failure.exposed] using h.2)
      fun lease h => by simpa [Accounted, h.1] using h.2
  · refine (Triple.forEach (fun _ => Accounted []) fun _ tree _ _ => ?_).bind fun _ =>
      Triple.forEach (fun _ => Accounted []) fun _ item _ _ => openStandaloneFile_spec
    exact openPath_spec.bind fun _ => walkTree_spec

end

/-- Before the construction. -/
def Lease.start (answer : Answer) : Lease := ⟨[], [], 0, [], answer⟩

/-- When a failure leaves the construction, every descriptor was closed exactly once just if
no close failed, no call on a descriptor that the lease did not hold yet, and no read was short. -/
theorem construct_closes_iff (casefold : String -> String) (depth : Nat) (trees files : List Item)
    (answer : Answer) (turns : List (Turn Answer Failure)) (failure : Failure)
    (hturns : ∀ x ∈ (construct casefold depth trees files (.start answer) turns).trace,
      Fails x.1 x.2)
    (hraised : (construct casefold depth trees files (.start answer) turns).outcome =
      .raised failure) :
    (∀ d, (construct casefold depth trees files (.start answer) turns).state.closings.count d =
      if d < (construct casefold depth trees files (.start answer) turns).state.opened then 1
      else 0) ↔ failure.exposed = false := by
  have hends := construct_spec (Lease.start answer) turns ⟨rfl, .nil⟩ hturns
  simp only [Ends, hraised] at hends
  unfold Left StillOpen at hends
  rw [<- hends, nil_append, perm_iff_count]
  simp

/-- A directory, or a file that has lost its byte. -/
def answerFor (kind : Nat) : Answer := ⟨⟨0, 0, kind * 4096, 1, 1, 0, 0⟩, [], []⟩

def captureOne (turns : List (Turn Answer Failure)) : Ran Call Answer Failure Lease Unit :=
  construct id 1 [] [⟨"file", ["a"], []⟩] (.start (answerFor 4)) turns

/-- The file shrinks behind its first stat: its descriptor, the second one, is not closed. -/
theorem captureOne_leaks :
    let run := captureOne (replicate 5 ⟨[], .none⟩ ++ [⟨[answerFor 8], .none⟩])
    (run.outcome, run.state.opened, run.state.closings) = (.raised .shortRead, 2, [0]) := by
  decide

theorem captureOne_closes :
    let run := captureOne (replicate 4 ⟨[], .none⟩ ++ [⟨[], .raiseBefore (.failed .open)⟩])
    (∀ d, run.state.closings.count d = if d < run.state.opened then 1 else 0) ↔
      (Failure.sealed "namespace file is absent or redirected: /a").exposed = false :=
  construct_closes_iff _ _ _ _ _ _ _ (by decide) (by decide)

/-- A capture, and the release of all that it holds. -/
def captureAndRelease (casefold : String -> String) (depth : Nat) (trees files : List Item) :
    Program Unit := do
  construct casefold depth trees files
  closeDescriptors

/-- Where both go through, every descriptor that was ever opened is closed, and once. -/
theorem captureAndRelease_closes (casefold : String -> String) (depth : Nat)
    (trees files : List Item) (answer : Answer) (turns : List (Turn Answer Failure)) :
    let run := captureAndRelease casefold depth trees files (.start answer) turns
    (∀ x ∈ run.trace, Fails x.1 x.2) -> run.outcome = .returned () ->
      ∀ d, run.state.closings.count d = if d < run.state.opened then 1 else 0 := by
  intro run hturns hreturned d
  have hends : Ends (fun _ => StillOpen []) Left (fun _ => True) run :=
    (construct_spec.bind fun _ => closeDescriptors_spec) _ turns ⟨rfl, .nil⟩ hturns
  rw [Ends, hreturned] at hends
  simpa using hends.count_eq d

theorem captureAndRelease_one :
    let run := captureAndRelease id 1 [] [⟨"file", ["a"], []⟩] (.start (answerFor 4))
      (replicate 4 ⟨[], .none⟩ ++ [⟨[⟨⟨0, 0, 8 * 4096, 1, 0, 0, 0⟩, [], []⟩], .none⟩])
    (run.outcome = .returned () ∧ run.state.opened = 2) ∧
      ∀ d, run.state.closings.count d = if d < run.state.opened then 1 else 0 :=
  ⟨by decide, captureAndRelease_closes id 1 [] [⟨"file", ["a"], []⟩] (answerFor 4) _
    (by decide) (by decide)⟩

end Reprobit.SealedNamespace

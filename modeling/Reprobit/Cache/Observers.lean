import Reprobit.Cache.LeaseSafety

/-!
# Observers of a cache

`status` counts the open leases as a collection does, by taking their locks, but it does
not take the gate.  A lease publishes its file and then takes its lock, once, with the
gate held: a status that looks in between makes it fail.  Where no status takes the lock
of a lease that holds the gate, every lease is obtained.
-/

namespace Reprobit.Cache

open Machine.Interleave List

variable {Pid Content : Type} (options : GcOptions)

structure CacheStatus where
  records : Nat
  blobs : Nat
  activeLeases : Nat
  currentRecords : Nat
  obsoleteRecords : Nat

/-- The usage of a cache; nothing is removed. -/
def status (implementation : Text) (implementationFamily : Option Text) :
    Op Pid Content CacheStatus := do
  must (implementationFamily.all (·.isPrefixOf implementation))
    "current cache implementation is outside the selected implementation family"
  let leases <- does .listLeases
  let active <- activeLeaseCount ⟨implementation, true, implementationFamily⟩ leases
  let paths <- does .listRecords
  let blobs <- does .listBlobs
  let counted (select : Text -> RecordPath -> Bool) : Nat :=
    paths.countP fun path => implementationFamily.any fun family => select family path
  pure ⟨paths.length, blobs.length, active,
    counted fun _ path => path.implementation = implementation,
    counted fun family path =>
      path.implementation ≠ implementation && family.isPrefixOf path.implementation⟩

/-- A process builds or collects, or it asks for the status. -/
inductive Visit where
  | job (work : Job)
  | status (implementation : Text) (implementationFamily : Option Text)

def Visit.program (digest : Content -> Text) (size : Content -> Nat) (self : Pid) :
    Visit -> Prog (Access Pid Content) Access.Result Unit
  | .job work => work.program digest size self
  | .status implementation family => (Cache.status implementation family).run.bind fun _ => .ret ()

/-- Processes that have not begun, on a cache that was used before. -/
def visiting (digest : Content -> Text) (size : Content -> Nat) (store : Store Pid Content)
    (visits : Pid -> Option Visit) :
    Config (Access Pid Content) Access.Result Pid (Store Pid Content) where
  shared := store
  programs := fun self => (visits self).elim (.ret ()) (Visit.program digest size self)

/-- Nobody uses the cache; its lease files are those of others. -/
structure Store.Settled (visits : Pid -> Option Visit) (s : Store Pid Content) : Prop where
  gate : s.gate = none
  locks : ∀ lease, s.locks lease = none
  leases : ∀ lease ∈ s.leases, visits lease = none

section

variable [DecidableEq Pid]

/-- A lease finds its file and takes its lock, and no owner's lock is taken. -/
def undisturbed (p : Pid) : (action : Access Pid Content) -> action.Result -> Store Pid Content ->
    Bool
  | .openLease lease, found, _ => lease ≠ p || found ≠ .absent
  | .tryLock lease, locked, s => if locked then s.locks lease ≠ some lease else lease ≠ p
  | _, _, _ => true

def courteous (visits : Pid -> Option Visit) (p : Pid) (action : Access Pid Content)
    (_ : action.Result) (s : Store Pid Content) : Bool :=
  match action, visits p with
  | .tryLock lease, some (.status _ _) => s.gate ≠ some lease
  | _, _ => true

end

section

@[grind =] def Access.quiet : Access Pid Content -> Bool
  | .acquireGate | .releaseGate | .publishLease | .openLease _ | .tryLock _ | .unlock _
  | .removeLease _ => false
  | _ => true

theorem Only.quiet {α : Type} {m : Op Pid Content α} (hm : Only Access.mild m) :
    Only Access.quiet m := by
  refine Prog.Uses.mono (fun action hmild => ?_) hm
  cases action <;> first | rfl | cases hmild

variable (implementation : Text) (digest : Content -> Text) (size : Content -> Nat)

theorem publishRecord_quiet (record : CacheRecord) :
    Only Access.quiet (@publishRecord Pid Content implementation record) := by
  have hcheck : ∀ outputs, Only Access.mild (@checkOutputs Pid Content outputs) := by
    intro outputs
    induction outputs with
    | nil => exact .pure _
    | cons output outputs ih =>
      unfold checkOutputs
      grind
  refine .bind (.must ..) fun _ => .bind (.must ..) fun _ => .bind (.must ..) fun _ =>
    .bind (.must ..) fun _ => .bind (.must ..) fun _ => .bind (hcheck _).quiet fun _ =>
    .bind (existingRecord_mild ..).quiet fun existing => ?_
  cases existing with
  | some existing => exact (sameRecord_mild ..).quiet
  | none =>
    refine .bind (.does rfl) fun published => ?_
    split
    · exact (parseRecord_mild _).quiet
    · refine .bind (lookup_mild ..).quiet fun found => ?_
      cases found with
      | none => exact .throw _
      | some existing => exact (sameRecord_mild ..).quiet

theorem runBuild_quiet (build : Build) :
    Only Access.quiet (@runBuild Pid Content implementation digest size build) := by
  induction build with
  | close => exact .pure _
  | lookup domain key next ih => exact .bind (lookup_mild ..).quiet.attempt ih
  | stage request next ih => exact .bind (stageRecord_mild ..).quiet.attempt ih
  | publish record next ih => exact .bind (publishRecord_quiet ..).attempt ih
  | restore record destinations next ih => exact .bind (restore_mild ..).quiet.attempt ih

theorem collectRecords_quiet (paths : List RecordPath) :
    Only Access.quiet (@collectRecords Pid Content options paths) := by
  induction paths with
  | nil => exact .pure _
  | cons path paths ih =>
    have hparse := Only.quiet (@parseRecord_mild Pid Content path)
    unfold collectRecords
    grind

theorem collectBlobs_quiet (referenced names : List Text) :
    Only Access.quiet (@collectBlobs Pid Content options referenced names) := by
  induction names with
  | nil => exact .pure _
  | cons name names ih =>
    unfold collectBlobs
    grind

end

/-! ## The gate, the leases and the locks -/

/-- A cache, the leases ever seen, and whether all was undisturbed. -/
abbrev Watched (Pid Content : Type) : Type := Store Pid Content × List Pid × Bool

@[grind cases] structure Watched.Sane (s : Watched Pid Content) : Prop where
  leases : ∀ lease ∈ s.1.leases, lease ∈ s.2.1
  locks : ∀ lease, lease ∉ s.2.1 -> s.1.locks lease = none
  fine : s.2.2 = true

/-- From a process that holds the gate, another one takes nothing. -/
def Store.Spares (p : Pid) (s t : Store Pid Content) : Prop :=
  ∀ q, q ≠ p -> s.gate = some q ->
    t.gate = some q ∧ (q ∈ s.leases -> q ∈ t.leases) ∧ (s.locks q = none -> t.locks q = none)

structure Careful (p : Pid) (s t : Watched Pid Content) : Prop where
  seen_kept : ∀ lease ∈ s.2.1, lease ∈ t.2.1
  seen_new : ∀ lease, lease ≠ p -> lease ∈ t.2.1 -> lease ∈ s.2.1
  spares : s.1.Spares p t.1

def carefulContract : Contract Pid (Watched Pid Content) where
  inv := Watched.Sane
  guar := Careful

/-- What an access needs, so as to take nothing from another process. -/
@[grind =] def Access.Allowed (p : Pid) (seen : List Pid) (s : Store Pid Content) :
    Access Pid Content -> Prop
  | .tryLock lease => lease ∈ seen ∧ (lease = p ∨ s.gate ≠ some lease)
  | .removeLease lease => lease = p ∨ s.gate = some p
  | _ => True

@[grind =] def Outside (p : Pid) (leases : List Pid) (gated : Prop) (s : Watched Pid Content) :
    Prop :=
  p ∉ s.2.1 ∧ (∀ lease ∈ leases, lease ∈ s.2.1) ∧ (gated -> s.1.gate = some p)

@[grind =] def Entering (p : Pid) (s : Watched Pid Content) : Prop :=
  s.1.gate = some p ∧ p ∈ s.1.leases ∧ s.1.locks p = none

section

variable {p : Pid} {leases : List Pid} {gated : Prop}

theorem Outside.stable :
    carefulContract.Stable p (Outside p leases gated : Watched Pid Content -> Prop) := by
  rintro s t ⟨hunseen, hseen, hgate⟩ ⟨-, q, hq, hstep⟩
  exact ⟨fun hp => hunseen (hstep.seen_new p hq.symm hp),
    fun lease hlease => hstep.seen_kept lease (hseen lease hlease),
    fun hgated => (hstep.spares p hq.symm (hgate hgated)).1⟩

theorem Entering.stable : carefulContract.Stable p (Entering p : Watched Pid Content -> Prop) := by
  rintro s t ⟨hgate, hlease, hlock⟩ ⟨-, q, hq, hstep⟩
  obtain ⟨hgate', hlease', hlock'⟩ := hstep.spares p hq.symm hgate
  exact ⟨hgate', hlease' hlease, hlock' hlock⟩

theorem stable_true : carefulContract.Stable p fun _ : Watched Pid Content => True :=
  fun _ _ _ _ => trivial

end

section

variable [DecidableEq Pid] {digest : Content -> Text} {size : Content -> Nat}
  {visits : Pid -> Option Visit} {p : Pid} {action : Access Pid Content}

theorem access_spares {answer : Answer Content}
    {s t : Store Pid Content} {seen : List Pid} {result : action.Result}
    (hallowed : action.Allowed p seen s)
    (h : access digest size p action answer s = some (result, t)) :
    (∀ lease ∈ t.leases, lease ∈ s.leases ∨ lease = p) ∧
      (∀ lease, lease ∉ seen -> s.locks lease = none -> t.locks lease = none) ∧ s.Spares p t := by
  cases action <;> simp only [access, Access.Allowed] at h hallowed <;>
    (repeat' split at h) <;> cases h <;> refine ⟨?_, ?_, ?_⟩ <;>
    grind [Store.Spares, Function.update_apply]

def watch (p : Pid) (action : Access Pid Content) (result : action.Result)
    (s t : Store Pid Content) (history : List Pid × Bool) : List Pid × Bool :=
  (t.leases ++ history.1, history.2 && undisturbed p action result s)

abbrev Attentive (digest : Content -> Text) (size : Content -> Nat) (visits : Pid -> Option Visit)
    {α : Type} (p : Pid) (post : α -> Watched Pid Content -> Prop) (m : Op Pid Content α)
    (s : Watched Pid Content) : Prop :=
  SafeTry ((cacheSemantics digest size).noting (courteous visits) watch) carefulContract p post
    (fun _ => True) m s

variable {P : Watched Pid Content -> Prop} {s : Watched Pid Content}

theorem Attentive.perform (hstable : carefulContract.Stable p P)
    {post : action.Result -> Watched Pid Content -> Prop} (hs : P s)
    (h : ∀ s seen answer result t, P (s, seen, true) -> Watched.Sane (s, seen, true) ->
      access digest size p action answer s = some (result, t) ->
      courteous visits p action result s = true ->
        action.Allowed p seen s ∧ undisturbed p action result s = true ∧
          post result (t, t.leases ++ seen, true)) :
    Attentive digest size visits p post (does action) s := by
  refine SafeTry.perform hstable hs ?_
  rintro ⟨s, seen, fine⟩ hinv hP answer done hdone
  obtain ⟨⟨result, t⟩, haccess, rfl⟩ := Option.map_eq_some_iff.mp hdone
  obtain ⟨haccess, hcourteous⟩ := Option.filter_eq_some_iff.mp haccess
  obtain rfl : fine = true := hinv.fine
  obtain ⟨hallowed, hfine, hpost⟩ := h s seen answer result t hP hinv haccess hcourteous
  obtain ⟨hleases, hlocks, hspares⟩ := access_spares hallowed haccess
  simp only [watch, hfine]
  refine ⟨⟨fun lease => mem_append_left _, fun lease hlease => ?_, rfl⟩,
    ⟨fun lease => mem_append_right _, fun lease hne hlease => ?_, hspares⟩, hpost⟩
  · have hunseen : lease ∉ seen := fun h => hlease (mem_append_right _ h)
    exact hlocks lease hunseen (hinv.locks lease hunseen)
  · rcases mem_append.mp hlease with hlease | hlease
    · exact hinv.leases lease ((hleases lease hlease).resolve_right hne)
    · exact hlease

variable {m : Op Pid Content α} {α : Type}

theorem Attentive.caught
    (hm : Attentive digest size visits p (fun _ _ => True) m s) :
    Attentive digest size visits p (fun _ _ => True) m.attempt s :=
  SafeTry.attempt _ hm fun _ _ _ => trivial

/-- Programs that leave the gate, the leases and the locks alone. -/
theorem attentive_of_quiet (hm : Only Access.quiet m) :
    Attentive digest size visits p (fun _ _ => True) m s := by
  refine SafeTry.of_uses stable_true (fun action hquiet s hinv _ => ?_) hm trivial
  have hdoes : Attentive digest size visits p (fun _ _ => True) (does action) s := by
    refine Attentive.perform stable_true trivial fun _ _ _ _ _ _ _ _ _ => ?_
    cases action <;> cases hquiet <;> exact ⟨trivial, rfl, trivial⟩
  exact fun answer done hdone => hdoes s .refl hinv answer done hdone

variable {leases : List Pid} {gated : Prop}

theorem acquireGate_attentive (hs : Outside p [] False s) :
    Attentive digest size visits p (fun _ => Outside p [] True) (does .acquireGate) s := by
  refine Attentive.perform Outside.stable hs fun s seen answer result t h hsane haccess _ => ?_
  grind [access, undisturbed]

theorem releaseGate_attentive :
    Attentive digest size visits p (fun _ _ => True) (does .releaseGate) s :=
  Attentive.perform stable_true trivial fun _ _ _ _ _ _ _ _ _ => ⟨trivial, rfl, trivial⟩

theorem Attentive.releasing
    (hm : Attentive digest size visits p (fun _ _ => True) m s) :
    Attentive digest size visits p (fun _ _ => True) (m.andFinally (does .releaseGate)) s :=
  hm.andFinally (fun _ _ _ => releaseGate_attentive) fun _ _ => releaseGate_attentive

/-- The lock of a lease that never was is free. -/
theorem publishLease_attentive (hs : Outside p [] True s) :
    Attentive digest size visits p (fun published t => published = true -> Entering p t)
      (does .publishLease) s := by
  refine Attentive.perform Outside.stable hs fun s seen answer result t h hsane haccess _ => ?_
  grind [access, undisturbed]

theorem openLease_self_attentive (hs : Entering p s) :
    Attentive digest size visits p (fun _ => Entering p) (does (.openLease p)) s := by
  refine Attentive.perform Entering.stable hs fun s seen answer result t h hsane haccess _ => ?_
  grind [access, undisturbed]

theorem tryLock_self_attentive (hs : Entering p s) :
    Attentive digest size visits p (fun _ _ => True) (does (.tryLock p)) s := by
  refine Attentive.perform Entering.stable hs fun s seen answer result t h hsane haccess _ => ?_
  grind [access, undisturbed]

theorem closeLease_attentive :
    Attentive digest size visits p (fun _ _ => True) (closeLease p) s := by
  have hunlock : Attentive digest size visits p (fun _ _ => True) (does (.unlock p)) s :=
    Attentive.perform stable_true trivial fun _ _ _ _ _ _ _ _ _ => ⟨trivial, rfl, trivial⟩
  refine hunlock.seq fun _ t _ => ?_
  have hremove : Attentive digest size visits p (fun _ _ => True) (does (.removeLease p)) t :=
    Attentive.perform stable_true trivial fun _ _ _ _ _ _ _ _ _ => ⟨.inl rfl, rfl, trivial⟩
  exact hremove.seq fun _ _ _ => SafeTry.pure trivial

theorem openLease_attentive (hs : Outside p [] True s) :
    Attentive digest size visits p (fun _ _ => True) (openLease p) s := by
  refine (publishLease_attentive hs).seq fun published t ht => ?_
  split
  · rename_i hpublished
    refine (openLease_self_attentive (ht hpublished)).seq fun found t ht => ?_
    split
    · refine (tryLock_self_attentive ht).seq fun locked t _ => ?_
      split
      · exact SafeTry.pure trivial
      · exact SafeTry.throw trivial
    · exact SafeTry.throw trivial
  · exact SafeTry.throw trivial

theorem lease_attentive (implementation : Text) (build : Build) (hs : Outside p [] False s) :
    Attentive digest size visits p (fun _ _ => True)
      (lease implementation digest size p build) s := by
  refine (acquireGate_attentive hs).seq fun _ t ht => ?_
  refine (Attentive.releasing ?_).caught.seq fun opened t _ => ?_
  · refine (openLease_attentive ht).caught.seq fun result t _ => ?_
    cases result with
    | ok _ => exact SafeTry.pure trivial
    | error message => exact closeLease_attentive.seq fun _ _ _ => SafeTry.throw trivial
  · cases opened with
    | ok _ =>
      exact SafeTry.andFinally
        (attentive_of_quiet (runBuild_quiet implementation digest size build))
        (fun _ _ _ => closeLease_attentive) fun _ _ => closeLease_attentive
    | error message => exact SafeTry.pure trivial

theorem listLeases_attentive (hs : Outside p [] gated s) :
    Attentive digest size visits p (fun leases => Outside p leases gated) (does .listLeases) s := by
  refine Attentive.perform Outside.stable hs fun s seen answer result t h hsane haccess _ => ?_
  grind [access, undisturbed]

theorem count_attentive {lease : Pid}
    (haction : action = .openLease lease ∨ action = .tryLock lease ∨ action = .unlock lease ∨
      action = .removeLease lease ∧ gated)
    (hgated : gated ∨ ∃ i family, visits p = some (.status i family))
    (hs : Outside p (lease :: leases) gated s) :
    Attentive digest size visits p (fun _ => Outside p (lease :: leases) gated)
      (does action) s := by
  refine Attentive.perform Outside.stable hs ?_
  rintro s seen answer result t h ⟨hleases, -, -⟩ haccess hcourteous
  have hgate : action = .tryLock lease -> s.gate ≠ some lease := by
    rintro rfl
    rcases hgated with hgated | ⟨i, family, hstatus⟩
    · grind
    · simpa [courteous, hstatus] using hcourteous
  rcases haction with rfl | rfl | rfl | ⟨rfl, hgated⟩ <;> simp only [access] at haccess <;>
    grind [undisturbed]

theorem activeLeaseCount_attentive
    (hgated : gated ∨ options.dryRun = true ∧ ∃ i family, visits p = some (.status i family))
    (hs : Outside p leases gated s) :
    Attentive digest size visits p (fun _ _ => True) (activeLeaseCount options leases) s := by
  induction leases generalizing s with
  | nil => exact SafeTry.pure trivial
  | cons lease leases ih =>
    have htail : ∀ {s : Watched Pid Content}, Outside p (lease :: leases) gated s ->
        Outside p leases gated s := by grind
    have hstatus := hgated.imp_right And.right
    refine (count_attentive (.inl rfl) hstatus hs).seq fun found t ht => ?_
    split
    · exact ih (htail ht)
    · exact SafeTry.throw trivial
    · refine (count_attentive (.inr (.inl rfl)) hstatus ht).seq fun locked t ht => ?_
      split
      · refine (count_attentive (.inr (.inr (.inl rfl))) hstatus ht).seq fun _ t ht => ?_
        split
        · exact ih (htail ht)
        · rename_i hrun
          have hgate : gated := hgated.resolve_right fun h => hrun h.1
          refine (count_attentive (.inr (.inr (.inr ⟨rfl, hgate⟩))) hstatus ht).seq ?_
          exact fun _ t ht => ih (htail ht)
      · exact (ih (htail ht)).seq fun _ _ _ => SafeTry.pure trivial

theorem gc_attentive (hs : Outside p [] False s) :
    Attentive digest size visits p (fun _ _ => True) (gc options) s := by
  refine (acquireGate_attentive hs).seq fun _ t ht => ?_
  refine Attentive.releasing ((listLeases_attentive ht).seq fun leases t ht => ?_)
  refine (activeLeaseCount_attentive options (.inl trivial) ht).seq fun active t _ => ?_
  split
  · exact attentive_of_quiet (.bind (.does rfl) fun paths => .bind (collectRecords_quiet ..)
      fun _ => .bind (.does rfl) fun _ => collectBlobs_quiet ..)
  · exact SafeTry.pure trivial

theorem status_attentive {implementation : Text} {family : Option Text}
    (hp : visits p = some (.status implementation family)) (hs : Outside p [] False s) :
    Attentive digest size visits p (fun _ _ => True) (status implementation family) s := by
  have hmust : ∀ {c : Prop} [Decidable c] {message : String}, Attentive digest size visits p
      (fun _ => Outside p [] False) (must c message) s := by
    intro c _ message
    unfold must
    split
    · exact SafeTry.pure hs
    · exact SafeTry.throw trivial
  refine hmust.seq fun _ t ht => ?_
  refine (listLeases_attentive ht).seq fun leases t ht => ?_
  refine (activeLeaseCount_attentive _ (.inr ⟨rfl, _, _, hp⟩) ht).seq fun active t _ => ?_
  exact attentive_of_quiet (.bind (.does rfl) fun _ => .bind (.does rfl) fun _ => .pure _)

theorem crashed_careful (s : Watched Pid Content) (hs : s.Sane) :
    Watched.Sane (crashed p s.1, s.2) ∧ Careful p s (crashed p s.1, s.2) := by
  have hlocks : ∀ lease, s.1.locks lease = none -> (crashed p s.1).locks lease = none := by
    intro lease h
    simp [crashed, h]
  refine ⟨⟨hs.leases, fun lease h => hlocks lease (hs.locks lease h), hs.fine⟩,
    fun _ => id, fun _ _ => id, fun q hne hq => ⟨?_, id, hlocks q⟩⟩
  simp [crashed, hq, hne]

/-- In every run of builds, collections and observers, with a crash at any time, in which
no status takes the lock of a lease that holds the gate, every lease finds its file and
gets its lock, and no lease is taken for a stale one while its owner holds it. -/
theorem leases_obtained {store : Store Pid Content} (hstore : store.Settled visits)
    {schedule : List (Pid × Event (Answer Content))}
    (hcourteous : (visiting digest size store visits).each (cacheSemantics digest size)
      (courteous visits) schedule = true) :
    (visiting digest size store visits).each (cacheSemantics digest size) undisturbed
      schedule = true := by
  have hsound : Config.Sound ((cacheSemantics digest size).noting (courteous visits) watch)
      carefulContract ⟨(store, store.leases, true),
      (visiting digest size store visits).programs⟩ := by
    refine ⟨⟨fun _ => id, fun lease _ => hstore.locks lease, rfl⟩, fun p => ?_⟩
    simp only [visiting]
    cases hp : visits p with
    | none => trivial
    | some visit =>
      have hs : Outside p [] False ((store, store.leases, true) : Watched Pid Content) :=
        ⟨fun h => by simp [hstore.leases p h] at hp, by simp, False.elim⟩
      cases visit with
      | job work =>
        cases work with
        | build implementation body =>
          exact Safe.bind (Safe.weaken (fun _ _ _ => trivial)
            (lease_attentive implementation body hs))
        | collection options =>
          exact Safe.bind (Safe.weaken (fun _ _ _ => trivial) (gc_attentive options hs))
      | status implementation family =>
        exact Safe.bind (Safe.weaken (fun _ _ _ => trivial) (status_attentive hp hs))
  refine Config.Sound.each (fun p s hs => crashed_careful s hs) ?_ hsound hcourteous
  exact fun _ _ _ _ _ _ hs => (Bool.and_eq_true_iff.mp hs.fine).2

end

def leaseAndStatus : Nat -> Option Visit
  | 0 => some (.job (.build "msvc".toList .close))
  | 1 => some (.status "msvc".toList none)
  | _ => none

def steps (p count : Nat) : List (Nat × Event (Answer Unit)) :=
  List.replicate count (p, .step ⟨false, (), false, false, 0⟩)

theorem leaseAndStatus_settled : (Store.empty Nat Unit).Settled leaseAndStatus :=
  ⟨rfl, fun _ => rfl, fun _ h => absurd h not_mem_nil⟩

/-- A status that finds the lease open. -/
theorem lease_before_status :
    (visiting (fun _ => []) (fun _ => 0) (Store.empty Nat Unit) leaseAndStatus).each
      (cacheSemantics (fun _ => []) fun _ => 0) undisturbed
      (steps 0 5 ++ steps 1 5 ++ steps 0 2) = true :=
  leases_obtained leaseAndStatus_settled (by decide)

/-- A status takes the lock of a lease between the publication of its file and its own
attempt, which fails. -/
theorem status_spoils_lease : (Store.empty Nat Unit).Settled leaseAndStatus ∧
    (visiting (fun _ => []) (fun _ => 0) (Store.empty Nat Unit) leaseAndStatus).each
      (cacheSemantics (fun _ => []) fun _ => 0) undisturbed
      (steps 0 2 ++ steps 1 3 ++ steps 0 2) = false :=
  ⟨leaseAndStatus_settled, by decide⟩

end Reprobit.Cache

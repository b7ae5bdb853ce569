import Reprobit.Cache.LeaseSafety

/-!
# Records never dangle

A garbage collection is verified against the contract, and with it every run of builds
and collections.  While a collection counts the leases, every open lease is one it still
has to look at, or it has found one; a collection that has found none is alone, and then
every record is one it keeps or still has to look at.
-/

namespace Reprobit.Cache

open Machine.Interleave List Function

variable {Pid Content : Type} {digest : Content -> Text} {size : Content -> Nat}

section

variable {g : Pid}

/-- The gate is held without a lease, and open leases are among some. -/
structure Watching (g : Pid) (among : Pid -> Prop) (s : Store Pid Content) : Prop where
  gated : Gated g s
  noFile : g ∉ s.leases
  opened : ∀ q, s.IsOpen q -> among q

theorem Watching.steady (among : Pid -> Prop) :
    Steady digest size g fun s : Store Pid Content => Watching g among s := by
  intro s t hs hst
  have hopen : ∀ q, t.IsOpen q -> s.IsOpen q := by
    intro q hq
    by_contra hclosed
    exact (Gated.steady_closed q s t ⟨hs.gated, hclosed⟩ hst).2 hq
  refine ⟨Gated.steady s t hs.gated hst, fun hfile => ?_, fun q hq => hs.opened q (hopen q hq)⟩
  obtain ⟨-, q, hq, hguar⟩ := hst
  exact hs.noFile (hguar.lease_new g hq.symm hfile)

theorem Watching.mono {among among' : Pid -> Prop} {s : Store Pid Content}
    (h : Watching g among s) (himp : ∀ q, s.IsOpen q -> among q -> among' q) :
    Watching g among' s :=
  ⟨h.gated, h.noFile, fun q hq => himp q hq (h.opened q hq)⟩

/-- No lease is open, and every record has a path to look at or is kept. -/
structure Alone (g : Pid) (paths : List RecordPath) (kept : CacheRecord -> Prop)
    (s : Store Pid Content) : Prop where
  watching : Watching g (fun _ => False) s
  records : ∀ path record, s.records.lookup path = some record -> path ∈ paths ∨ kept record

theorem Alone.steady (paths : List RecordPath) (kept : CacheRecord -> Prop) :
    Steady digest size g fun s : Store Pid Content => Alone g paths kept s := by
  intro s t hs hst
  refine ⟨Watching.steady _ s t hs.watching hst, fun path record hrecord => ?_⟩
  obtain ⟨-, q, -, hguar⟩ := hst
  exact hs.records path record (hguar.record_new hs.watching.opened path record hrecord)

end

section

variable [DecidableEq Pid] {g : Pid} {s : Store Pid Content} {refused : Store Pid Content -> Prop}
  {lease : Pid} {among : Pid -> Prop} {kept : CacheRecord -> Prop} {referenced : List Text}
  {options : GcOptions}

theorem tryLock_other_verified (hne : lease ≠ g) (hs : Watching g among s) : Verified digest size g
      (fun locked t => Watching g among t ∧ (locked = true -> ¬t.IsOpen lease)) refused
      (does (.tryLock lease)) s := by
  refine SafeTry.perform (Watching.steady among) hs ?_
  intro t hinv ht answer done hdone
  simp only [cacheSemantics, access] at hdone
  split at hdone
  · rename_i hfree
    cases hdone
    have hlocks : ∀ l q, update t.locks lease (some g) l = some q ->
        t.locks l = some q ∨ l = lease ∧ q = g := by
      intro l q hq
      by_cases hl : l = lease
      · subst hl
        rw [update_self] at hq
        exact .inr ⟨rfl, (Option.some.inj hq).symm⟩
      · rw [update_of_ne hl] at hq
        exact .inl hq
    have hopen : ∀ q, update t.locks lease (some g) q = some q -> t.IsOpen q := by
      intro q hq
      rcases hlocks q q hq with hq | ⟨hl, hg⟩
      · exact hq
      · exact absurd (hl.symm.trans hg) hne
    refine ⟨⟨hinv.named, hinv.addressed,
        fun q name hname hq => hinv.staged q name hname (hopen q hq),
        fun q hq => hinv.filed q (hopen q hq)⟩,
      { Guarantee.refl g t with
        lock_kept := fun l q _ hq => ?_
        lock_new := fun l q hq => (hlocks l q hq).imp_right And.right
        open_new := fun hq => .inl (hopen g hq) },
      ⟨ht.gated, ht.noFile, fun q hq => ht.opened q (hopen q hq)⟩, fun _ hq => ?_⟩
    · have hl : l ≠ lease := by
        rintro rfl
        rw [hfree] at hq
        cases hq
      exact (update_of_ne hl (some g) t.locks).trans hq
    · have hlease : t.locks lease = some lease := hopen lease hq
      rw [hfree] at hlease
      cases hlease
  · cases hdone
    exact ⟨hinv, Guarantee.refl g t, ht, fun h => by cases h⟩

def Passing (g : Pid) (among : Pid -> Prop) (lease : Pid) (s : Store Pid Content) : Prop :=
  Watching g among s ∧ ¬s.IsOpen lease

omit [DecidableEq Pid] in
theorem Passing.steady (among : Pid -> Prop) (lease : Pid) :
    Steady digest size g fun s : Store Pid Content => Passing g among lease s := by
  rintro s t ⟨hs, hclosed⟩ hst
  exact ⟨Watching.steady among s t hs hst,
    (Gated.steady_closed lease s t ⟨hs.gated, hclosed⟩ hst).2⟩

theorem unlock_other_verified (hs : Passing g among lease s) :
    Verified digest size g (fun _ => Passing g among lease) refused (does (.unlock lease)) s := by
  refine unlock_verified (Passing.steady among lease) lease (fun t ht _ => ?_) (fun _ ht _ => ht) hs
  have hopen : ∀ q, update t.locks lease none q = some q -> q ≠ lease ∧ t.IsOpen q := by
    intro q hq
    by_cases hl : q = lease
    · subst hl
      rw [update_self] at hq
      cases hq
    · rw [update_of_ne hl] at hq
      exact ⟨hl, hq⟩
  exact ⟨⟨ht.1.gated, ht.1.noFile, fun q hq => ht.1.opened q (hopen q hq).2⟩,
    fun hq => (hopen lease hq).1 rfl⟩

theorem removeLease_other_verified (hs : Passing g among lease s) :
    Verified digest size g (fun _ => Passing g among lease) refused
      (does (.removeLease lease)) s := by
  refine removeLease_verified (Passing.steady among lease) lease (fun _ ht => ht.2)
    (.inr fun _ ht => ht.1.gated) (fun t ht => ?_) hs
  exact ⟨⟨ht.1.gated, fun hg => ht.1.noFile (mem_filter.mp hg).1, ht.1.opened⟩, ht.2⟩

theorem activeLeaseCount_verified (options : GcOptions) (leases : List Pid) (hg : g ∉ leases)
    {found : Prop} (hs : Watching g (fun q => q ∈ leases ∨ found) s) :
    Verified digest size g (fun active t => Watching g (fun _ => active = 0 -> found) t)
      (fun _ => True) (activeLeaseCount options leases) s := by
  induction leases generalizing s found with
  | nil =>
    refine SafeTry.pure (hs.mono fun q _ hq _ => ?_)
    exact hq.resolve_left not_mem_nil
  | cons lease leases ih =>
    have hne : lease ≠ g := fun h => hg (h ▸ mem_cons_self)
    have hg' : g ∉ leases := fun h => hg (mem_cons_of_mem _ h)
    -- a closed lease need not be looked at again
    have hpass : ∀ {t : Store Pid Content},
        Watching g (fun q => q ∈ lease :: leases ∨ found) t -> ¬t.IsOpen lease ->
          Watching g (fun q => q ∈ leases ∨ found) t := by
      intro t ht hclosed
      refine ht.mono fun q hopen hq => hq.imp_left fun hmem => ?_
      exact (mem_cons.mp hmem).resolve_left fun h => hclosed (h ▸ hopen)
    refine SafeTry.bind (Verified.read (Watching.steady _) rfl hs ?_)
    intro t answer done hinv ht hdone
    split
    · rename_i habsent
      have hclosed : ¬t.IsOpen lease := by
        intro hopen
        have hmem := hinv.filed lease hopen
        simp only [access] at hdone
        split at hdone
        · cases hdone
          cases habsent
        · cases hdone
          cases habsent
      exact ih hg' (hpass ht hclosed)
    · exact SafeTry.throw trivial
    · refine (tryLock_other_verified hne ht).seq fun locked t ht => ?_
      split
      · rename_i hlocked
        have hrest : Passing g (fun q => q ∈ leases ∨ found) lease t :=
          ⟨hpass ht.1 (ht.2 hlocked), ht.2 hlocked⟩
        refine (unlock_other_verified hrest).seq fun _ t ht => ?_
        split
        · exact ih hg' ht.1
        · exact (removeLease_other_verified ht).seq fun _ t ht => ih hg' ht.1
      · have hfound : Watching g (fun q => q ∈ leases ∨ True) t :=
          ht.1.mono fun _ _ _ => .inr trivial
        refine (ih hg' hfound).seq fun active t ht => ?_
        exact SafeTry.pure (ht.mono fun _ _ _ h => absurd h (Nat.succ_ne_zero active))

theorem removeRecord_verified {path : RecordPath} {paths : List RecordPath}
    (hs : Alone g (path :: paths) kept s) :
    Verified digest size g (fun removed t => removed = true -> Alone g paths kept t) refused
      (does (.removeRecord path)) s := by
  refine SafeTry.perform (Alone.steady (path :: paths) kept) hs ?_
  intro t hinv ht answer done hdone
  simp only [cacheSemantics, access] at hdone
  split at hdone
  · cases hdone
    exact ⟨hinv, Guarantee.refl g t, fun h => by cases h⟩
  cases hdone
  have herased : ∀ k r, (erase path t.records).lookup k = some r ->
      k ≠ path ∧ t.records.lookup k = some r := by
    intro k r hr
    rw [lookup_erase] at hr
    split at hr
    · cases hr
    · rename_i hk
      exact ⟨hk, hr⟩
  refine ⟨⟨fun k r hr => hinv.named k r (herased k r hr).2, hinv.addressed, hinv.staged,
      hinv.filed⟩,
    { Guarantee.refl g t with record_new := fun _ k r hr => (herased k r hr).2 },
    fun _ => ⟨⟨ht.watching.gated, ht.watching.noFile, ht.watching.opened⟩, fun k r hr => ?_⟩⟩
  obtain ⟨hk, hr⟩ := herased k r hr
  exact (ht.records k r hr).imp_left fun hmem => (mem_cons.mp hmem).resolve_left hk

theorem collectRecords_verified (options : GcOptions) (hrun : options.dryRun = false)
    (paths : List RecordPath) (hs : Alone g paths kept s) : Verified digest size g
      (fun retained t => Alone g [] (fun record => record ∈ retained ∨ kept record) t)
      (fun _ => True) (collectRecords options paths) s := by
  induction paths generalizing s kept with
  | nil =>
    refine SafeTry.pure ⟨hs.watching, fun path record hrecord => .inr (.inr ?_)⟩
    exact (hs.records path record hrecord).resolve_left not_mem_nil
  | cons path paths ih =>
    -- the record that was read is the only one its path can have from now on
    have hread : Verified digest size g (fun record t => Alone g (path :: paths) kept t ∧
          Alone g paths (fun r => r = record ∨ kept r) t)
        (fun _ => True) (parseRecord path) s := by
      refine SafeTry.bind (Verified.read (Alone.steady _ _) rfl hs ?_)
      intro t answer done _ ht hdone
      cases hdone
      split
      · exact SafeTry.throw trivial
      · rename_i record hfound
        refine SafeTry.pure ⟨ht, ht.watching, fun k r hr => ?_⟩
        split at hfound
        · cases hfound
        rcases ht.records k r hr with hmem | hkept
        · rcases mem_cons.mp hmem with rfl | hmem
          · rw [hr] at hfound
            exact .inr (.inl (Option.some.inj hfound))
          · exact .inl hmem
        · exact .inr (.inr hkept)
    have hsteady : ∀ record, Steady digest size g fun t : Store Pid Content =>
        Alone g (path :: paths) kept t ∧ Alone g paths (fun r => r = record ∨ kept r) t :=
      fun record => (Alone.steady _ _).and (Alone.steady _ _)
    have hkeep : ∀ {record} {t : Store Pid Content},
        Alone g paths (fun r => r = record ∨ kept r) t ->
        Verified digest size g
          (fun retained t => Alone g [] (fun r => r ∈ retained ∨ kept r) t) (fun _ => True)
          (do
            let retained <- collectRecords options paths
            pure (record :: retained)) t := by
      intro record t ht
      refine (ih ht).seq fun retained t ht => SafeTry.pure ⟨ht.watching, fun k r hr => ?_⟩
      rcases ht.records k r hr with hmem | hmem | rfl | hkept
      · exact .inl hmem
      · exact .inr (.inl (mem_cons_of_mem _ hmem))
      · exact .inr (.inl mem_cons_self)
      · exact .inr (.inr hkept)
    refine hread.seq fun record t ht => ?_
    split
    · refine (Verified.look (hsteady record) rfl ht).seq fun recent t ht => ?_
      split
      · exact hkeep ht.2
      · rw [if_neg (by rw [hrun]; exact Bool.false_ne_true)]
        refine (removeRecord_verified ht.1).seq fun removed t ht => ?_
        split
        · rename_i hremoved
          exact ih (ht hremoved)
        · exact SafeTry.throw trivial
    · exact hkeep ht.2

abbrev Referencing (referenced : List Text) (record : CacheRecord) : Prop :=
  ∀ output ∈ record.outputs, output.digest ∈ referenced

theorem removeBlob_verified {name : Text} (hname : name ∉ referenced)
    (hs : Alone g [] (Referencing referenced) s) :
    Verified digest size g (fun _ => Alone g [] (Referencing referenced)) refused
      (does (.removeBlob name)) s := by
  refine SafeTry.perform (Alone.steady [] (Referencing referenced)) hs ?_
  intro t hinv ht answer done hdone
  simp only [cacheSemantics, access] at hdone
  split at hdone
  · cases hdone
    exact ⟨hinv, Guarantee.refl g t, ht⟩
  cases hdone
  have hnone : ∀ q, ¬t.IsOpen q := ht.watching.opened
  refine ⟨⟨fun path record hrecord output houtput => ?_, fun k content hcontent => ?_,
      fun q k _ hq => absurd hq (hnone q), hinv.filed⟩,
    { Guarantee.refl g t with blob_kept := fun h => absurd h.choose_spec.2 (hnone h.choose) },
    ⟨ht.watching.gated, ht.watching.noFile, ht.watching.opened⟩, ht.records⟩
  · have hreferenced : output.digest ∈ referenced :=
      (ht.records path record hrecord).resolve_left not_mem_nil output houtput
    obtain ⟨content, hcontent, hsize⟩ := hinv.named path record hrecord output houtput
    have hne : output.digest ≠ name := fun h => hname (h ▸ hreferenced)
    refine ⟨content, ?_, hsize⟩
    rw [lookup_erase, if_neg hne]
    exact hcontent
  · dsimp only at hcontent
    rw [lookup_erase] at hcontent
    split at hcontent
    · cases hcontent
    · exact hinv.addressed k content hcontent

theorem collectBlobs_verified (options : GcOptions) (names : List Text)
    (hs : Alone g [] (Referencing referenced) s) :
    Verified digest size g (fun _ _ => True) (fun _ => True)
      (collectBlobs options referenced names) s := by
  induction names generalizing s with
  | nil => exact SafeTry.pure trivial
  | cons name names ih =>
    unfold collectBlobs
    split
    · exact ih hs
    rename_i hname
    split
    · exact ih hs
    refine (removeBlob_verified hname hs).seq fun removed t ht => ?_
    split
    · exact ih ht
    · exact SafeTry.throw trivial

theorem Only.look {α : Type} {m : Op Pid Content α} (hm : Only Access.reads m) :
    Verified digest size g (fun _ _ => True) (fun _ => True) m s := by
  refine SafeTry.of_uses steady_true (fun action hreads t hinv _ answer done hdone => ?_) hm trivial
  exact (Verified.look steady_true hreads trivial : Verified digest size g (fun _ _ => True)
    (fun _ => True) (Cache.does action) t) t .refl hinv answer done hdone

omit [DecidableEq Pid] in
theorem collectRecords_dry (hdry : options.dryRun = true) (paths : List RecordPath) :
    Only Access.reads (@collectRecords Pid Content options paths) := by
  induction paths with
  | nil => exact .pure _
  | cons path paths ih =>
    unfold collectRecords parseRecord
    grind [Access.reads]

omit [DecidableEq Pid] in
theorem collectBlobs_dry (hdry : options.dryRun = true) (referenced names : List Text) :
    Only Access.reads (@collectBlobs Pid Content options referenced names) := by
  induction names with
  | nil => exact .pure _
  | cons name names ih =>
    unfold collectBlobs
    grind

theorem collect_verified (options : GcOptions) (hs : Watching g (fun _ => True) s) :
    Verified digest size g (fun _ _ => True) (fun _ => True) (collect options) s := by
  refine SafeTry.bind (Verified.read (Watching.steady _) rfl hs ?_)
  intro t answer done hinv ht hdone
  cases hdone
  have hlisted : Watching g (fun q => q ∈ t.leases ∨ False) t :=
    ht.mono fun q hq _ => .inl (hinv.filed q hq)
  refine (activeLeaseCount_verified options t.leases ht.noFile hlisted).seq fun active t ht => ?_
  split
  · rename_i hactive
    have halone : Watching g (fun _ => False) t := ht.mono fun _ _ h => h hactive
    cases hdry : options.dryRun with
    | false =>
      refine SafeTry.bind (Verified.read (Watching.steady _) rfl halone ?_)
      intro t answer done _ ht hdone
      cases hdone
      have hpaths : Alone g (t.records.map Prod.fst) (fun _ => False) t :=
        ⟨ht, fun path record hrecord => .inl (mem_names_of_lookup hrecord)⟩
      refine (collectRecords_verified options hdry _ hpaths).seq fun retained t ht => ?_
      have hreferencing : Alone g [] (Referencing (retained.flatMap fun record =>
          record.outputs.map CacheOutput.digest)) t := by
        refine ⟨ht.watching, fun path record hrecord => .inr fun output houtput => ?_⟩
        have hretained : record ∈ retained :=
          (((ht.records path record hrecord).resolve_left not_mem_nil).resolve_right id)
        exact mem_flatMap.mpr ⟨record, hretained, mem_map_of_mem houtput⟩
      refine (Verified.look (Alone.steady _ _) rfl hreferencing).seq fun names t ht => ?_
      exact collectBlobs_verified options names ht
    | true =>
      exact Only.look (.bind (.does rfl) fun paths => .bind (collectRecords_dry hdry paths)
        fun _ => .bind (.does rfl) fun names => collectBlobs_dry hdry _ names)
  · exact SafeTry.pure trivial

omit [DecidableEq Pid] in
/-- A process that has no lease gets none from others. -/
theorem steady_noFile : Steady digest size g fun s : Store Pid Content => g ∉ s.leases := by
  rintro s t hs ⟨-, q, hq, hguar⟩ ht
  exact hs (hguar.lease_new g hq.symm ht)

theorem gc_verified (options : GcOptions) (hs : g ∉ s.leases) :
    Verified digest size g (fun _ _ => True) (fun _ => True) (gc options) s := by
  refine (acquireGate_verified steady_noFile (fun _ h => h) hs).seq fun _ t ht => ?_
  have hwatching : Watching g (fun _ => True) t := ⟨ht.2, ht.1, fun _ _ => trivial⟩
  exact SafeTry.andFinally (collect_verified options hwatching)
    (fun _ t _ => releaseGate_verified steady_true (fun _ h => h) trivial)
    fun t _ => releaseGate_verified steady_true (fun _ h => h) trivial

omit [DecidableEq Pid] in
theorem Store.empty_consistent : (Store.empty Pid Content).Consistent digest size where
  named path record h := by cases h
  addressed name content h := by cases h
  staged p name h := by cases h
  filed p h := by cases h

theorem initial_sound (jobs : Pid -> Job) :
    (initial digest size jobs).Sound (cacheSemantics digest size) (cacheContract digest size) where
  inv := Store.empty_consistent
  safe p := by
    have hempty : (initial digest size jobs).shared = Store.empty Pid Content := rfl
    simp only [initial, Job.program]
    split
    · rename_i implementation body _
      have hfresh : Fresh p (Store.empty Pid Content) := fun _ h => by cases h
      have hlease : Verified digest size p (fun _ _ => True) (fun _ => True)
          (lease implementation digest size p body) (Store.empty Pid Content) :=
        lease_verified implementation body hfresh
      exact Safe.bind (Safe.weaken (fun _ _ _ => trivial) hlease)
    · rename_i options _
      have hgc : Verified digest size p (fun _ _ => True) (fun _ => True) (gc options)
          (Store.empty Pid Content) := gc_verified options not_mem_nil
      exact Safe.bind (Safe.weaken (fun _ _ _ => trivial) hgc)

/-- In every run of builds and collections on a cache, with a crash at any time, a
published record names blobs that are there with their digest, and what an open lease has
staged is there. -/
theorem records_never_dangle {jobs : Pid -> Job} {schedule : List (Pid × Event (Answer Content))}
    {config : Config (Access Pid Content) Access.Result Pid (Store Pid Content)}
    (h : (initial digest size jobs).run (cacheSemantics digest size) schedule = some config) :
    (∀ path record, config.shared.records.lookup path = some record ->
      ∀ output ∈ record.outputs, ∃ content,
        config.shared.blobs.lookup output.digest = some content ∧
          digest content = output.digest ∧ size content = output.size) ∧
    ∀ p name, (p, name) ∈ config.shared.staged -> config.shared.IsOpen p ->
      ∃ content, config.shared.blobs.lookup name = some content ∧ digest content = name := by
  have hsound : config.Sound (cacheSemantics digest size) (cacheContract digest size) :=
    (initial_sound jobs).run (fun p s hs => crashed_spec p hs) h
  have hinv : config.shared.Consistent digest size := hsound.inv
  constructor
  · intro path record hrecord output houtput
    obtain ⟨content, hcontent, hsize⟩ := hinv.named path record hrecord output houtput
    exact ⟨content, hcontent, hinv.addressed _ _ hcontent, hsize⟩
  · intro p name hstaged hopen
    obtain ⟨content, hcontent⟩ := Option.isSome_iff_exists.mp (hinv.staged p name hstaged hopen)
    exact ⟨content, hcontent, hinv.addressed _ _ hcontent⟩

/-- While a lease is open, other builds, collections and crashes leave it open, with its
file, and take no blob away, whatever they do. -/
theorem lease_pins_blobs {jobs : Pid -> Job} {before after : List (Pid × Event (Answer Content))}
    {config config' : Config (Access Pid Content) Access.Result Pid (Store Pid Content)} {p : Pid}
    (hbefore : (initial digest size jobs).run (cacheSemantics digest size) before = some config)
    (hopen : config.shared.IsOpen p) (hother : ∀ turn ∈ after, turn.1 ≠ p)
    (hafter : config.run (cacheSemantics digest size) after = some config') :
    (config'.shared.IsOpen p ∧ p ∈ config'.shared.leases) ∧ ∀ name content,
      config.shared.blobs.lookup name = some content ->
        config'.shared.blobs.lookup name = some content := by
  have hcrash : ∀ (q : Pid) (s : Store Pid Content), s.Consistent digest size ->
      (crashed q s).Consistent digest size ∧ Guarantee q s (crashed q s) :=
    fun q _ hs => crashed_spec q hs
  have hsound := (initial_sound jobs).run hcrash hbefore
  have hpinned : ∀ blobs : List (Text × Content), Steady digest size p fun s =>
      s.IsOpen p ∧ ∀ name content, blobs.lookup name = some content ->
        s.blobs.lookup name = some content := by
    rintro blobs s t ⟨hs, hblobs⟩ ⟨-, q, hq, hguar⟩
    exact ⟨hguar.lock_kept p p hq.symm hs, fun name content h =>
      hguar.blob_kept ⟨p, hq.symm, hs⟩ _ _ (hblobs name content h)⟩
  obtain ⟨hopen', hblobs⟩ := hsound.stable hcrash (hpinned config.shared.blobs) hother
    ⟨hopen, fun _ _ h => h⟩ hafter
  exact ⟨⟨hopen', (hsound.run hcrash hafter).inv.filed p hopen'⟩, hblobs⟩

end

def letterDigest (content : Char) : Text := List.replicate 64 content

def letterBuild : Build :=
  .stage ⟨"objects".toList, letterDigest '1', ["a.obj".toList], []⟩ fun
    | .ok record => .publish record fun _ => .close
    | .error _ => .close

/-- The build is process 0, every other process collects. -/
def letterJobs : Nat -> Job
  | 0 => .build "msvc".toList letterBuild
  | _ => .collection ⟨"msvc".toList, false, none⟩

def letterAnswer : Answer Char := ⟨false, 'a', false, false, 0⟩

/-- A build stages while one collection looks and another dies. -/
def letterSchedule : List (Nat × Event (Answer Char)) :=
  List.replicate 8 (0, .step letterAnswer) ++ List.replicate 5 (1, .step letterAnswer) ++
    [(2, .step letterAnswer), (2, .crash)] ++ List.replicate 5 (0, .step letterAnswer)

theorem letterBuild_published : ∃ config, (initial letterDigest (fun _ => 1) letterJobs).run
        (cacheSemantics letterDigest fun _ => 1) letterSchedule = some config ∧
      (config.shared.records.map Prod.fst = [⟨"msvc".toList, "objects".toList, letterDigest '1'⟩] ∧
        config.shared.staged = [(0, letterDigest 'a')] ∧ config.shared.locks 0 = some 0) ∧
      (∀ path record, config.shared.records.lookup path = some record ->
        ∀ output ∈ record.outputs, ∃ content,
          config.shared.blobs.lookup output.digest = some content ∧
            letterDigest content = output.digest ∧ 1 = output.size) ∧
      ∀ p name, (p, name) ∈ config.shared.staged -> config.shared.IsOpen p ->
        ∃ content, config.shared.blobs.lookup name = some content ∧
          letterDigest content = name := by
  have hfacts : ((initial letterDigest (fun _ => 1) letterJobs).run
      (cacheSemantics letterDigest fun _ => 1) letterSchedule).map (fun c =>
        (c.shared.records.map Prod.fst, c.shared.staged, c.shared.locks 0)) =
      some ([⟨"msvc".toList, "objects".toList, letterDigest '1'⟩], [(0, letterDigest 'a')],
        some 0) := by decide
  obtain ⟨config, hrun, hconfig⟩ := Option.map_eq_some_iff.mp hfacts
  simp only [Prod.mk.injEq] at hconfig
  exact ⟨config, hrun, hconfig, records_never_dangle hrun⟩

/-- Two collections, one of which dies, run against the lease of a build. -/
theorem letterBuild_pinned : ∃ config config', (initial letterDigest (fun _ => 1) letterJobs).run
        (cacheSemantics letterDigest fun _ => 1) (letterSchedule.take 8) = some config ∧
      config.run (cacheSemantics letterDigest fun _ => 1) ((letterSchedule.drop 8).take 7) =
        some config' ∧
      config'.shared.blobs.lookup (letterDigest 'a') = some 'a' := by
  have hfacts : ((initial letterDigest (fun _ => 1) letterJobs).run
      (cacheSemantics letterDigest fun _ => 1) (letterSchedule.take 8)).bind (fun c =>
        (c.run (cacheSemantics letterDigest fun _ => 1) ((letterSchedule.drop 8).take 7)).map
          fun _ => (c.shared.locks 0, c.shared.blobs)) =
      some (some 0, [(letterDigest 'a', 'a')]) := by decide
  obtain ⟨config, hbefore, hrest⟩ := Option.bind_eq_some_iff.mp hfacts
  obtain ⟨config', hafter, hconfig⟩ := Option.map_eq_some_iff.mp hrest
  obtain ⟨hopen, hblobs⟩ := Prod.mk.inj hconfig
  refine ⟨config, config', hbefore, hafter, ?_⟩
  refine (lease_pins_blobs hbefore hopen (by decide) hafter).2 _ _ ?_
  rw [hblobs]
  decide

end Reprobit.Cache

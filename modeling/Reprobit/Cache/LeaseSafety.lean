import Reprobit.Cache.Contract

/-!
# Leases keep the contract

Every operation of a lease, verified against what the other processes may do.
-/

namespace Reprobit.Cache

open Machine.Interleave List

/-! ## Kinds of accesses -/

section

variable {Pid Content α β : Type}

@[grind =] def Access.mild : Access Pid Content -> Bool
  | .recordExists _ | .readRecord _ | .statBlob _ | .digestBlob _ | .copySource _ | .promote _
  | .copyBlob _ | .now => true
  | _ => false

def Only (kind : Access Pid Content -> Bool) (m : Op Pid Content α) : Prop :=
  m.Uses fun action => kind action = true

variable {kind : Access Pid Content -> Bool} {m : Op Pid Content α}

@[grind <-] theorem Only.bind {f : α -> Op Pid Content β} (hm : Only kind m)
    (hf : ∀ x, Only kind (f x)) : Only kind (m >>= f) :=
  Trying.Uses.bind hm hf

@[grind <-] theorem Only.attempt (hm : Only kind m) : Only kind m.attempt :=
  Trying.Uses.attempt hm

@[grind <-] theorem Only.pure (x : α) : Only kind (Pure.pure x) := trivial

@[grind <-] theorem Only.throw (e : String) : Only kind (throw e : Op Pid Content α) := trivial

@[grind <-] theorem Only.does {action : Access Pid Content} (h : kind action = true) :
    Only kind (does action) :=
  ⟨h, fun _ => trivial⟩

@[grind <-] theorem Only.must (c : Prop) [Decidable c] (e : String) : Only kind (must c e) := by
  unfold Cache.must
  split <;> trivial

end

section

variable {Pid Content : Type} (implementation : Text) (digest : Content -> Text)
  (size : Content -> Nat) (names : List Text) (domain key : Text)

variable (output : CacheOutput)

@[grind <-] theorem probeBlobOnce_mild : Only Access.mild (@probeBlobOnce Pid Content output) := by
  unfold probeBlobOnce
  grind

@[grind <-] theorem probeBlob_mild : Only Access.mild (@probeBlob Pid Content output) := by
  unfold probeBlob
  grind

@[grind <-] theorem probeBlobs_mild (outputs : List CacheOutput) :
    Only Access.mild (@probeBlobs Pid Content outputs) := by
  induction outputs with
  | nil => exact .pure _
  | cons output outputs ih => exact .bind (probeBlob_mild output) fun _ => ih

@[grind <-] theorem parseRecord_mild (path : RecordPath) :
    Only Access.mild (@parseRecord Pid Content path) := by
  unfold parseRecord
  grind

@[grind <-] theorem recordPath_mild :
    Only Access.mild (@recordPath Pid Content implementation domain key) :=
  .bind (.must ..) fun _ => .bind (.must ..) fun _ => .pure _

@[grind <-] theorem lookup_mild :
    Only Access.mild (@lookup Pid Content implementation domain key) := by
  unfold lookup
  grind

@[grind <-] theorem existingRecord_mild :
    Only Access.mild (@existingRecord Pid Content implementation domain key) := by
  unfold existingRecord
  grind

@[grind <-] theorem fileOutputReceipts_mild :
    Only Access.mild (@fileOutputReceipts Pid Content digest size names) := by
  induction names with
  | nil => exact .pure _
  | cons name names ih =>
    unfold fileOutputReceipts
    grind

@[grind <-] theorem digestExisting_mild :
    Only Access.mild (@digestExisting Pid Content output) := by
  unfold digestExisting
  grind

@[grind <-] theorem validateExistingBlob_mild :
    Only Access.mild (@validateExistingBlob Pid Content output) := by
  refine .bind (.bind (digestExisting_mild output).attempt fun result => ?_) fun _ => .must ..
  cases result with
  | ok snapshot => exact .pure _
  | error message => exact digestExisting_mild output

@[grind <-] theorem stageOutputs_mild :
    Only Access.mild (@stageOutputs Pid Content digest size names) := by
  induction names with
  | nil => exact .pure _
  | cons name names ih =>
    unfold stageOutputs stageOutput
    grind

theorem stageRecord_mild (request : StageRequest) :
    Only Access.mild (@stageRecord Pid Content implementation digest size request) := by
  refine .bind (.bind (.must ..) fun _ => .bind (.must ..) fun _ => .bind (.must ..) fun _ =>
    .bind (.must ..) fun _ => .bind (.must ..) fun _ => .pure _) fun names => ?_
  refine .bind (existingRecord_mild ..) fun existing => ?_
  cases existing with
  | some record => exact .bind (fileOutputReceipts_mild ..) fun _ => .bind (.must ..) fun _ => .pure _
  | none => exact .bind (stageOutputs_mild ..) fun _ => .bind (.does rfl) fun _ => .pure _

theorem sameRecord_mild (record existing : CacheRecord) (message : String) :
    Only Access.mild (@sameRecord Pid Content record existing message) :=
  .bind (.must ..) fun _ => .pure _

theorem restore_mild (record : CacheRecord) (destinations : List Text) :
    Only Access.mild (@restore Pid Content implementation record destinations) := by
  have houtputs : ∀ outputs, Only Access.mild (@restoreOutputs Pid Content outputs) := by
    intro outputs
    induction outputs with
    | nil => exact .pure _
    | cons output outputs ih =>
      unfold restoreOutputs
      grind
  exact .bind (.must ..) fun _ => .bind (.must ..) fun _ => houtputs _

end

variable {Pid Content : Type} [DecidableEq Pid] {digest : Content -> Text} {size : Content -> Nat}
  {p : Pid} {refused : Store Pid Content -> Prop} {known : List CacheOutput} {s : Store Pid Content}
  (implementation : Text) (build : Build)

theorem probeBlobOnce_verified (output : CacheOutput) (hs : Knows size p known s) :
    Verified digest size p (fun _ => Knows size p (output :: known)) (Knows size p known)
      (probeBlobOnce output) s := by
  refine SafeTry.bind (Verified.must (fun _ => ?_) fun _ => hs)
  refine SafeTry.bind (Verified.read (Knows.steady known) rfl hs ?_)
  intro t answer done _ ht hdone
  cases hdone
  split
  · exact SafeTry.throw ht
  · rename_i found hfound
    refine Verified.must (fun hsize => ht.cons ?_) fun _ => ht
    split at hfound
    · cases hfound
    · obtain ⟨content, hcontent, rfl⟩ := Option.map_eq_some_iff.mp hfound
      exact ⟨content, hcontent, hsize⟩

theorem probeBlob_verified (output : CacheOutput) (hs : Knows size p known s) :
    Verified digest size p (fun _ => Knows size p (output :: known)) (Knows size p known)
      (probeBlob output) s := by
  refine SafeTry.bind (SafeTry.attempt _ (probeBlobOnce_verified output hs) ?_)
  exact fun _ t ht => probeBlobOnce_verified output ht

theorem digestBlob_verified (name : Text) (hs : Knows size p known s) :
    Verified digest size p (fun _ => Knows size p known) refused (does (.digestBlob name)) s := by
  refine SafeTry.perform (Knows.steady known) hs ?_
  intro t hinv ht answer done hdone
  simp only [cacheSemantics, access] at hdone
  split at hdone
  · cases hdone
    exact ⟨hinv, Guarantee.refl p t, ht⟩
  · rename_i content hcontent
    cases hdone
    have hfound : t.blobs.lookup name = some content := by
      split at hcontent
      · cases hcontent
      · exact hcontent
    split
    · refine ⟨⟨hinv.named, hinv.addressed, fun q o ho hq => ?_, hinv.filed⟩,
        { Guarantee.refl p t with staged_new := fun q o hq ho => ?_ }, ht⟩
      · rcases mem_cons.mp ho with heq | ho
        · cases heq
          rw [hfound]
          rfl
        · exact hinv.staged q o ho hq
      · rcases mem_cons.mp ho with heq | ho
        · cases heq
          exact absurd rfl hq
        · exact ho
    · exact ⟨hinv, Guarantee.refl p t, ht⟩

/-- A promoted blob is new, so that every other one stays. -/
theorem promote_verified (content : Content) (hs : Knows size p known s) :
    Verified digest size p (fun _ => Knows size p known) refused (does (.promote content)) s := by
  refine SafeTry.perform (Knows.steady known) hs ?_
  intro t hinv ht answer done hdone
  simp only [cacheSemantics, access] at hdone
  split at hdone
  · cases hdone
    exact ⟨hinv, Guarantee.refl p t, ht⟩
  rename_i hnew
  cases hdone
  have hnone : t.blobs.lookup (digest content) = none :=
    Option.not_isSome_iff_eq_none.mp fun h => hnew (.inr h)
  have hkept : ∀ name c, t.blobs.lookup name = some c ->
      ((digest content, content) :: t.blobs).lookup name = some c := by
    intro name c hc
    have hne : name ≠ digest content := by
      rintro rfl
      rw [hnone] at hc
      cases hc
    rw [lookup_cons, beq_eq_false_iff_ne.mpr hne]
    exact hc
  have hhas : ∀ output, t.Has size output -> Store.Has size { t with
      blobs := (digest content, content) :: t.blobs
      staged := (p, digest content) :: t.staged } output := by
    rintro output ⟨c, hc, hsize⟩
    exact ⟨c, hkept _ _ hc, hsize⟩
  refine ⟨⟨fun path record hrecord output houtput =>
      hhas output (hinv.named path record hrecord output houtput), fun name c hc => ?_,
      fun q name hname hq => ?_, hinv.filed⟩,
    { Guarantee.refl p t with
      blob_kept := fun _ => hkept, staged_new := fun q name hq hname => ?_ },
    ht.1, fun output houtput => hhas output (ht.2 output houtput)⟩
  · rw [lookup_cons] at hc
    split at hc
    · rename_i heq
      cases hc
      exact (beq_iff_eq.mp heq).symm
    · exact hinv.addressed name c hc
  · rcases mem_cons.mp hname with heq | hname
    · cases heq
      simp
    · obtain ⟨c, hc⟩ := Option.isSome_iff_exists.mp (hinv.staged q name hname hq)
      rw [hkept name c hc]
      rfl
  · rcases mem_cons.mp hname with heq | hname
    · cases heq
      exact absurd rfl hq
    · exact hname

abbrev Keeps (digest : Content -> Text) (size : Content -> Nat) {α : Type} (p : Pid)
    (known : List CacheOutput) (m : Op Pid Content α) : Prop :=
  ∀ ⦃s⦄, Knows size p known s ->
    Verified digest size p (fun _ => Knows size p known) (Knows size p known) m s

theorem Only.keeps {α : Type} {m : Op Pid Content α} (hm : Only Access.mild m) :
    Keeps digest size p known m := by
  intro s hs
  refine SafeTry.of_uses (Knows.steady known) (fun action hmild t hinv ht => ?_) hm hs
  have hdoes : Verified digest size p (fun _ => Knows size p known) (fun _ => True)
      (Cache.does action) t := by
    cases action <;> cases hmild
    case digestBlob name => exact digestBlob_verified name ht
    case promote content => exact promote_verified content ht
    all_goals exact Verified.look (Knows.steady known) rfl ht
  exact fun answer done hdone => hdoes t .refl hinv answer done hdone

theorem checkOutputs_verified (outputs : List CacheOutput) (hs : Knows size p known s) :
    Verified digest size p (fun _ => Knows size p (outputs.reverse ++ known))
      (fun t => t.IsOpen p) (checkOutputs outputs) s := by
  induction outputs generalizing known s with
  | nil => exact SafeTry.pure hs
  | cons output outputs ih =>
    refine SafeTry.bind (Verified.must (fun _ => ?_) fun _ => hs.1)
    refine SafeTry.bind (Verified.must (fun _ => ?_) fun _ => hs.1)
    refine SafeTry.bind ((probeBlob_verified output hs).weaken ?_ fun _ h => h.1)
    intro _ t ht
    rw [reverse_cons, append_assoc]
    exact ih ht

theorem publish_verified {record : CacheRecord}
    (hs : Knows size p (record.outputs.reverse ++ known) s) :
    Verified digest size p (fun _ t => t.IsOpen p) refused (does (.publishRecord record)) s := by
  refine SafeTry.perform (Knows.steady _) hs ?_
  intro t hinv ht answer done hdone
  simp only [cacheSemantics, access] at hdone
  split at hdone
  · cases hdone
    exact ⟨hinv, Guarantee.refl p t, ht.1⟩
  cases hdone
  refine ⟨⟨fun path r hr => ?_, hinv.addressed, hinv.staged, hinv.filed⟩,
    { Guarantee.refl p t with record_new := fun hclosed => absurd ht.1 (hclosed p) }, ht.1⟩
  rw [lookup_cons] at hr
  split at hr
  · cases hr
    exact fun output houtput => ht.2 output (mem_append_left _ (mem_reverse.mpr houtput))
  · exact hinv.named path r hr

theorem publishRecord_verified (record : CacheRecord) :
    Keeps digest size p [] (publishRecord implementation record) := by
  intro s hs
  have hnil : ∀ {outputs} {t : Store Pid Content}, Knows size p outputs t -> Knows size p [] t :=
    fun h => Knows.nil h.1
  refine (Verified.check hs).seq fun _ _ h => ?_
  refine (Verified.check h).seq fun _ _ h => ?_
  refine (Verified.check h).seq fun _ _ h => ?_
  refine (Verified.check h).seq fun _ _ h => ?_
  refine (Verified.check h).seq fun _ _ h => ?_
  refine SafeTry.bind ((checkOutputs_verified record.outputs h).weaken ?_ fun _ h => Knows.nil h)
  intro _ t h
  refine SafeTry.bind (((existingRecord_mild implementation _ _).keeps h).weaken ?_ fun _ => hnil)
  intro existing t h
  split
  · exact (sameRecord_mild record _ _).keeps (hnil h)
  · refine (publish_verified h).seq fun published t hopen => ?_
    split
    · exact (parseRecord_mild record.path).keeps (Knows.nil hopen)
    · refine ((lookup_mild implementation _ _).keeps (Knows.nil hopen)).seq fun found t h => ?_
      split
      · exact SafeTry.throw h
      · exact (sameRecord_mild record _ _).keeps h

theorem runBuild_verified :
    Keeps digest size p [] (runBuild implementation digest size build) := by
  -- an operation that keeps what is known, and the rest of the build
  have hthen : ∀ {α : Type} {m : Op Pid Content α} {next : Except String α -> Build},
      Keeps digest size p [] m ->
      (∀ result, Keeps digest size p [] (runBuild implementation digest size (next result))) ->
      Keeps digest size p []
        (m.attempt >>= fun result => runBuild implementation digest size (next result)) := by
    intro α m next hm ih s hs
    refine SafeTry.bind (SafeTry.attempt (Knows size p []) ?_ fun _ t ht => ih _ ht)
    exact (hm hs).weaken (fun _ _ ht => ih _ ht) fun _ ht => ht
  induction build with
  | close => exact fun _ hs => SafeTry.pure hs
  | lookup domain key next ih => exact hthen (lookup_mild implementation domain key).keeps ih
  | stage request next ih =>
    exact hthen (stageRecord_mild implementation digest size request).keeps ih
  | publish record next ih => exact hthen (publishRecord_verified implementation record) ih
  | restore record destinations next ih =>
    exact hthen (restore_mild implementation record destinations).keeps ih

/-- A lease is opened with the gate, before anything is staged. -/
theorem tryLock_self_verified (hs : (Gated p s ∧ p ∈ s.leases) ∧ Fresh p s) :
    Verified digest size p (fun locked t => locked = true -> t.IsOpen p) refused
      (does (.tryLock p)) s := by
  refine SafeTry.perform (Gated.steady_leases.and Fresh.steady) hs ?_
  rintro t hinv ⟨⟨hgate, hlease⟩, hfresh⟩ answer done hdone
  simp only [cacheSemantics, access] at hdone
  split at hdone
  · rename_i hfree
    cases hdone
    have hlocks : ∀ l q, Function.update t.locks p (some p) l = some q ->
        t.locks l = some q ∨ l = p ∧ q = p := by
      intro l q hq
      by_cases hl : l = p
      · subst hl
        rw [Function.update_self] at hq
        exact .inr ⟨rfl, (Option.some.inj hq).symm⟩
      · rw [Function.update_of_ne hl] at hq
        exact .inl hq
    refine ⟨⟨hinv.named, hinv.addressed, fun q name hname hq => ?_, fun q hq => ?_⟩,
      { Guarantee.refl p t with
        lock_kept := fun l q hne hq => ?_
        lock_new := fun l q hq => (hlocks l q hq).imp_right And.right
        open_new := fun _ => .inr hgate }, fun _ => ?_⟩
    · rcases hlocks q q hq with hq | ⟨rfl, -⟩
      · exact hinv.staged q name hname hq
      · exact absurd hname (hfresh name)
    · rcases hlocks q q hq with hq | ⟨rfl, -⟩
      · exact hinv.filed q hq
      · exact hlease
    · have hl : l ≠ p := by
        rintro rfl
        rw [hfree] at hq
        cases hq
      exact (Function.update_of_ne hl (some p) t.locks).trans hq
    · simp [Store.IsOpen]
  · cases hdone
    exact ⟨hinv, Guarantee.refl p t, fun h => by cases h⟩

theorem publishLease_verified (hs : Gated p s ∧ Fresh p s) : Verified digest size p
      (fun published t => published = true -> (Gated p t ∧ p ∈ t.leases) ∧ Fresh p t) refused
      (does .publishLease) s := by
  refine SafeTry.perform (Gated.steady.and Fresh.steady) hs ?_
  rintro t hinv ⟨hgate, hfresh⟩ answer done hdone
  simp only [cacheSemantics, access] at hdone
  split at hdone
  · cases hdone
    exact ⟨hinv, Guarantee.refl p t, fun h => by cases h⟩
  · cases hdone
    refine ⟨⟨hinv.named, hinv.addressed, hinv.staged,
        fun q hq => mem_cons_of_mem _ (hinv.filed q hq)⟩,
      { Guarantee.refl p t with
        lease_kept := fun q _ hq => .inl (mem_cons_of_mem _ hq)
        lease_new := fun q hne hq => (mem_cons.mp hq).resolve_left hne },
      fun _ => ⟨⟨hgate, mem_cons_self⟩, hfresh⟩⟩

theorem openLease_verified (hs : Gated p s ∧ Fresh p s) :
    Verified digest size p (fun _ t => t.IsOpen p) (fun _ => True) (openLease p) s := by
  refine (publishLease_verified hs).seq fun published t ht => ?_
  split
  · rename_i hpublished
    refine (Verified.look (Gated.steady_leases.and Fresh.steady) rfl (ht hpublished)).seq ?_
    intro found t ht
    split
    · refine (tryLock_self_verified ht).seq fun locked t ht => ?_
      split
      · rename_i hlocked
        exact SafeTry.pure (ht hlocked)
      · exact SafeTry.throw trivial
    · exact SafeTry.throw trivial
  · exact SafeTry.throw trivial

/-- The lock is given back before the file goes. -/
theorem closeLease_verified :
    Verified digest size p (fun _ _ => True) (fun _ => True) (closeLease p) s := by
  have hunlocked : Verified digest size p (fun _ t => ¬t.IsOpen p) (fun _ => True)
      (does (.unlock p)) s := by
    refine unlock_verified steady_true p (fun t _ _ => ?_) (fun t _ h => h) trivial
    simp [Store.IsOpen]
  refine hunlocked.seq fun _ t ht => ?_
  exact (removeLease_verified steady_closed p (fun _ h => h) (.inl rfl) (fun _ h => h) ht).seq
    fun _ _ _ => SafeTry.pure trivial

theorem lease_verified (hs : Fresh p s) :
    Verified digest size p (fun _ _ => True) (fun _ => True)
      (lease implementation digest size p build) s := by
  refine (acquireGate_verified Fresh.steady (fun _ h => h) hs).seq fun _ t ht => ?_
  refine SafeTry.bind (SafeTry.attempt (fun _ => True) (SafeTry.andFinally ?_
    (fun _ t (ht : Knows size p [] t) => ?_) fun t (_ : True) => ?_) ?_)
  · refine SafeTry.bind (SafeTry.attempt (fun _ => True)
      ((openLease_verified ht.symm).weaken ?_ fun _ h => h) ?_)
    · exact fun _ t ht => SafeTry.pure (Knows.nil ht)
    · intro message t _
      exact closeLease_verified.seq fun _ _ _ => SafeTry.throw trivial
  · refine (releaseGate_verified (Knows.steady []) (fun _ h => h) ht).weaken ?_ fun _ h => h
    intro _ t ht
    exact SafeTry.andFinally (runBuild_verified implementation build ht)
      (fun _ _ _ => closeLease_verified) fun _ _ => closeLease_verified
  · exact releaseGate_verified steady_true (fun _ h => h) trivial
  · exact fun _ t _ => SafeTry.pure trivial

end Reprobit.Cache

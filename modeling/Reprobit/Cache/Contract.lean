import Reprobit.Cache.Operations

/-!
# The contract of a cache

What a process of a cache may change, and what it may count on while others run.  A lease
keeps the blobs it has seen: others remove blobs only while no lease is open.  A
collection that holds the gate and has found no open lease is alone: a lease takes its
lock only with the gate, and records are published only under an open lease.
-/

namespace Reprobit.Cache

open Machine.Interleave List Option Function

variable {Pid Content : Type} {digest : Content -> Text} {size : Content -> Nat}

def Store.Has (size : Content -> Nat) (s : Store Pid Content) (output : CacheOutput) : Prop :=
  ∃ content, s.blobs.lookup output.digest = some content ∧ size content = output.size

structure Store.Consistent (digest : Content -> Text) (size : Content -> Nat)
    (s : Store Pid Content) : Prop where
  /-- published records name blobs that are there -/
  named : ∀ path record, s.records.lookup path = some record ->
    ∀ output ∈ record.outputs, s.Has size output
  /-- a blob has the digest it is named by -/
  addressed : ∀ name content, s.blobs.lookup name = some content -> digest content = name
  /-- what an open lease has staged is there -/
  staged : ∀ p name, (p, name) ∈ s.staged -> s.IsOpen p -> (s.blobs.lookup name).isSome
  /-- an open lease has its file -/
  filed : ∀ p, s.IsOpen p -> p ∈ s.leases

/-- What a step of a process may change. -/
structure Guarantee (p : Pid) (s t : Store Pid Content) : Prop where
  gate_kept : ∀ q, q ≠ p -> s.gate = some q -> t.gate = some q
  lock_kept : ∀ lease q, q ≠ p -> s.locks lease = some q -> t.locks lease = some q
  lock_new : ∀ lease q, t.locks lease = some q -> s.locks lease = some q ∨ q = p
  /-- a process opens its own lease with the gate only -/
  open_new : t.IsOpen p -> s.IsOpen p ∨ s.gate = some p
  /-- another's lease file goes only with the gate, and not if it is open -/
  lease_kept : ∀ q, q ≠ p -> q ∈ s.leases -> q ∈ t.leases ∨ s.gate = some p ∧ ¬s.IsOpen q
  lease_new : ∀ q, q ≠ p -> q ∈ t.leases -> q ∈ s.leases
  /-- blobs stay where another lease is open -/
  blob_kept : (∃ q, q ≠ p ∧ s.IsOpen q) ->
    ∀ name content, s.blobs.lookup name = some content -> t.blobs.lookup name = some content
  /-- records appear under an open lease only -/
  record_new : (∀ q, ¬s.IsOpen q) ->
    ∀ path record, t.records.lookup path = some record -> s.records.lookup path = some record
  staged_new : ∀ q name, q ≠ p -> (q, name) ∈ t.staged -> (q, name) ∈ s.staged

def cacheContract (digest : Content -> Text) (size : Content -> Nat) :
    Contract Pid (Store Pid Content) where
  inv := Store.Consistent digest size
  guar := Guarantee

theorem Guarantee.refl (p : Pid) (s : Store Pid Content) : Guarantee p s s where
  gate_kept _ _ h := h
  lock_kept _ _ _ h := h
  lock_new _ _ h := .inl h
  open_new h := .inl h
  lease_kept _ _ h := .inl h
  lease_new _ _ h := h
  blob_kept _ _ _ h := h
  record_new _ _ _ h := h
  staged_new _ _ _ h := h

/-! ## What a process knows -/

section

variable {p : Pid}

abbrev Steady (digest : Content -> Text) (size : Content -> Nat) (p : Pid)
    (P : Store Pid Content -> Prop) : Prop :=
  (cacheContract digest size).Stable p P

/-- The lease is open, and some blobs are there. -/
def Knows (size : Content -> Nat) (p : Pid) (outputs : List CacheOutput)
    (s : Store Pid Content) : Prop :=
  s.IsOpen p ∧ ∀ output ∈ outputs, s.Has size output

theorem Knows.steady (outputs : List CacheOutput) :
    Steady digest size p (Knows size p outputs) := by
  rintro s t ⟨hopen, hhas⟩ ⟨-, q, hq, hguar⟩
  refine ⟨hguar.lock_kept p p hq.symm hopen, fun output houtput => ?_⟩
  obtain ⟨content, hcontent, hsize⟩ := hhas output houtput
  exact ⟨content, hguar.blob_kept ⟨p, hq.symm, hopen⟩ _ _ hcontent, hsize⟩

variable {s : Store Pid Content}

theorem Knows.nil (h : s.IsOpen p) : Knows size p [] s := ⟨h, by simp⟩

theorem Knows.cons {outputs : List CacheOutput} {output : CacheOutput}
    (h : Knows size p outputs s) (houtput : s.Has size output) :
    Knows size p (output :: outputs) s :=
  ⟨h.1, fun o ho => by
    rcases mem_cons.mp ho with rfl | ho
    · exact houtput
    · exact h.2 o ho⟩

theorem steady_true : Steady digest size p fun _ : Store Pid Content => True :=
  fun _ _ _ _ => trivial

def Fresh (p : Pid) (s : Store Pid Content) : Prop := ∀ name, (p, name) ∉ s.staged

theorem Fresh.steady : Steady digest size p fun s : Store Pid Content => Fresh p s := by
  rintro s t hs ⟨-, q, hq, hguar⟩ name hname
  exact hs name (hguar.staged_new p name hq.symm hname)

def Gated (p : Pid) (s : Store Pid Content) : Prop := s.gate = some p

theorem Gated.steady : Steady digest size p fun s : Store Pid Content => Gated p s := by
  rintro s t hs ⟨-, q, hq, hguar⟩
  exact hguar.gate_kept p hq.symm hs

/-- With the gate held, the own lease file stays. -/
theorem Gated.steady_leases :
    Steady digest size p fun s : Store Pid Content => Gated p s ∧ p ∈ s.leases := by
  rintro s t ⟨hs, hlease⟩ hst
  refine ⟨Gated.steady s t hs hst, ?_⟩
  obtain ⟨-, q, hq, hguar⟩ := hst
  rcases hguar.lease_kept p hq.symm hlease with h | ⟨h, -⟩
  · exact h
  · exact absurd (some.inj (hs.symm.trans h)) hq.symm

/-- A lease that its process does not hold stays closed. -/
theorem steady_closed : Steady digest size p fun s : Store Pid Content => ¬s.IsOpen p := by
  rintro s t hs ⟨-, q, hq, hguar⟩ ht
  rcases hguar.lock_new p p ht with h | h
  · exact hs h
  · exact hq h.symm

theorem Gated.steady_closed (lease : Pid) :
    Steady digest size p fun s : Store Pid Content => Gated p s ∧ ¬s.IsOpen lease := by
  rintro s t ⟨hs, hclosed⟩ hst
  refine ⟨Gated.steady s t hs hst, fun ht => ?_⟩
  obtain ⟨-, q, hq, hguar⟩ := hst
  rcases hguar.lock_new lease lease ht with h | rfl
  · exact hclosed h
  · rcases hguar.open_new ht with h | h
    · exact hclosed h
    · exact hq (some.inj (h.symm.trans hs))

end

variable [DecidableEq Pid]

/-- A crash gives locks back and touches no file. -/
theorem crashed_spec (p : Pid) (h : s.Consistent digest size) :
    (crashed p s).Consistent digest size ∧ Guarantee p s (crashed p s) := by
  have hopen : ∀ q, (crashed p s).IsOpen q -> s.IsOpen q := by
    intro q hq
    simp only [Store.IsOpen, crashed] at hq ⊢
    split at hq
    · cases hq
    · exact hq
  refine ⟨⟨h.named, h.addressed, fun q name hs hq => h.staged q name hs (hopen q hq),
    fun q hq => h.filed q (hopen q hq)⟩, ?_⟩
  refine { Guarantee.refl p s with
    gate_kept := ?_, lock_kept := ?_, lock_new := ?_, open_new := fun hq => .inl (hopen p hq) }
  · intro q hq hgate
    have hne : s.gate ≠ some p := by
      rw [hgate]
      exact fun h => hq (some.inj h)
    change (if s.gate = some p then none else s.gate) = some q
    rw [if_neg hne, hgate]
  · intro lease q hq hlock
    have hne : s.locks lease ≠ some p := by
      rw [hlock]
      exact fun h => hq (some.inj h)
    change (if s.locks lease = some p then none else s.locks lease) = some q
    rw [if_neg hne, hlock]
  · intro lease q hlock
    simp only [crashed] at hlock
    split at hlock
    · cases hlock
    · exact .inl hlock

def Access.reads : Access Pid Content -> Bool
  | .openLease _ | .listLeases | .recordExists _ | .readRecord _ | .isRecent _ | .listRecords
  | .statBlob _ | .copySource _ | .listBlobs | .copyBlob _ | .now => true
  | _ => false

variable {action : Access Pid Content}

theorem access_of_reads {p : Pid} (hreads : action.reads = true)
    {answer : Answer Content} {done : action.Result × Store Pid Content}
    (h : access digest size p action answer s = some done) : done.2 = s := by
  cases action <;> try cases hreads
  case openLease lease =>
    simp only [access] at h
    split at h
    · cases h; rfl
    · split at h <;> (cases h; rfl)
  all_goals (cases h; rfl)

abbrev Verified (digest : Content -> Text) (size : Content -> Nat) {α : Type} (p : Pid)
    (post : α -> Store Pid Content -> Prop) (refused : Store Pid Content -> Prop)
    (m : Op Pid Content α) (s : Store Pid Content) : Prop :=
  SafeTry (cacheSemantics digest size) (cacheContract digest size) p post refused m s

variable {p : Pid} {refused : Store Pid Content -> Prop} {P : Store Pid Content -> Prop}

section

variable (hsteady : Steady digest size p P) {message : String} {c : Prop}

include hsteady

theorem Verified.read (hreads : action.reads = true) {post : action.Result -> Store Pid Content ->
    Prop} (hs : P s) (h : ∀ t answer done, t.Consistent digest size -> P t ->
      access digest size p action answer t = some done -> post done.1 t) :
    Verified digest size p post refused (does action) s := by
  refine SafeTry.perform hsteady hs fun t hinv ht answer done hdone => ?_
  have hsame := access_of_reads hreads hdone
  rw [hsame]
  exact ⟨hinv, Guarantee.refl p t, h t answer done hinv ht hdone⟩

theorem Verified.look (hreads : action.reads = true) (hs : P s) :
    Verified digest size p (fun _ => P) refused (does action) s :=
  Verified.read hsteady hreads hs fun _ _ _ _ ht _ => ht

omit hsteady in
theorem Verified.must [Decidable c] {post : Unit -> Store Pid Content -> Prop}
    (hpost : c -> post () s) (hrefused : ¬c -> refused s) :
    Verified digest size p post refused (must c message) s := by
  unfold Cache.must
  split
  · rename_i h
    exact SafeTry.pure (hpost h)
  · rename_i h
    exact SafeTry.throw (hrefused h)

omit hsteady in
theorem Verified.check [Decidable c] (hs : P s) :
    Verified digest size p (fun _ => P) P (Cache.must c message) s :=
  Verified.must (fun _ => hs) fun _ => hs

variable {s : Store Pid Content}

theorem acquireGate_verified (hgate : ∀ t, P t -> P { t with gate := some p }) (hs : P s) :
    Verified digest size p (fun _ t => P t ∧ Gated p t) refused (does .acquireGate) s := by
  refine SafeTry.perform hsteady hs ?_
  intro t hinv ht answer done hdone
  simp only [cacheSemantics, access] at hdone
  split at hdone
  · rename_i hfree
    cases hdone
    refine ⟨⟨hinv.named, hinv.addressed, hinv.staged, hinv.filed⟩,
      { Guarantee.refl p t with gate_kept := fun q _ hq => ?_ }, hgate t ht, rfl⟩
    rw [hfree] at hq
    cases hq
  · cases hdone

theorem releaseGate_verified (hgate : ∀ t, P t -> P { t with gate := none }) (hs : P s) :
    Verified digest size p (fun _ => P) refused (does .releaseGate) s := by
  refine SafeTry.perform hsteady hs ?_
  intro t hinv ht answer done hdone
  cases hdone
  split
  · rename_i hheld
    refine ⟨⟨hinv.named, hinv.addressed, hinv.staged, hinv.filed⟩,
      { Guarantee.refl p t with gate_kept := fun q hne hq => ?_ }, hgate t ht⟩
    rw [hheld] at hq
    exact absurd (some.inj hq).symm hne
  · exact ⟨hinv, Guarantee.refl p t, ht⟩

theorem unlock_verified (lease : Pid) {Q : Store Pid Content -> Prop}
    (hfree : ∀ t, P t -> t.locks lease = some p ->
      Q { t with locks := update t.locks lease none })
    (hother : ∀ t, P t -> t.locks lease ≠ some p -> Q t) (hs : P s) :
    Verified digest size p (fun _ => Q) refused (does (.unlock lease)) s := by
  refine SafeTry.perform hsteady hs ?_
  intro t hinv ht answer done hdone
  cases hdone
  split
  · rename_i hheld
    have hlocks : ∀ l q, update t.locks lease none l = some q -> t.locks l = some q := by
      intro l q hq
      by_cases hl : l = lease
      · subst hl
        rw [update_self] at hq
        cases hq
      · rwa [update_of_ne hl] at hq
    refine ⟨⟨hinv.named, hinv.addressed, fun q name hname hq => hinv.staged q name hname
        (hlocks q q hq), fun q hq => hinv.filed q (hlocks q q hq)⟩,
      { Guarantee.refl p t with
        lock_kept := fun l q hne hq => ?_
        lock_new := fun l q hq => .inl (hlocks l q hq)
        open_new := fun hq => .inl (hlocks p p hq) }, hfree t ht hheld⟩
    have hl : l ≠ lease := by
      rintro rfl
      rw [hheld] at hq
      exact hne (some.inj hq).symm
    exact (update_of_ne hl none t.locks).trans hq
  · rename_i hheld
    exact ⟨hinv, Guarantee.refl p t, hother t ht hheld⟩

/-- A lease file goes by its own process or with the gate, never while open. -/
theorem removeLease_verified (lease : Pid)
    (hclosed : ∀ t, P t -> ¬t.IsOpen lease) (hgate : lease = p ∨ ∀ t, P t -> Gated p t)
    (hremoved : ∀ t, P t -> P { t with leases := t.leases.filter (· ≠ lease) }) (hs : P s) :
    Verified digest size p (fun _ => P) refused (does (.removeLease lease)) s := by
  refine SafeTry.perform hsteady hs ?_
  intro t hinv ht answer done hdone
  simp only [cacheSemantics, access] at hdone
  split at hdone
  · cases hdone
    exact ⟨hinv, Guarantee.refl p t, ht⟩
  cases hdone
  refine ⟨⟨hinv.named, hinv.addressed, hinv.staged, fun q hq => ?_⟩, { Guarantee.refl p t with
      lease_kept := fun q hne hq => ?_
      lease_new := fun q _ hq => (mem_filter.mp hq).1 }, hremoved t ht⟩
  · have hne : q ≠ lease := by
      rintro rfl
      exact hclosed t ht hq
    exact mem_filter.mpr ⟨hinv.filed q hq, by simpa using hne⟩
  · by_cases hql : q = lease
    · subst hql
      rcases hgate with rfl | hgate
      · exact absurd rfl hne
      · exact .inr ⟨hgate t ht, hclosed t ht⟩
    · exact .inl (mem_filter.mpr ⟨hq, by simpa using hql⟩)

end

end Reprobit.Cache

import Reprobit.Transaction.Outside

/-!
# Committing beside an outside writer

The steps of a commit keep every outside version, and so does the recovery after it,
wherever they are stopped.
-/

namespace Reprobit.Transaction

open Machine Faulty List Function

section

variable {sha256 : List Byte -> Digest} {plan : Plan sha256} {w : World} {record : Record}
  {seat : Seat} {op : Operation} {k : Nat} {memory : Memory}
  {staged preimages : List (Nat × Snapshot)} {s s' : Snapshot} {x : Path × File}
  {identities : List Nat} {d : Disk}

theorem Faithful.setMemory (h : Faithful plan record w) : Faithful plan record { w with memory } :=
  ⟨h.paths, h.kinds, h.staged⟩

theorem SeatOk.setMemory (h : SeatOk plan w seat) : SeatOk plan { w with memory } seat :=
  { h with faithful := fun r n hsome hstate => (h.faithful r n hsome hstate).setMemory }

theorem Intact.setMemory (h : Intact plan w) : Intact plan { w with memory } where
  fresh := h.fresh
  located := h.located
  seats := h.seats.imp id fun ⟨name, seat, hseats, hok⟩ => ⟨name, seat, hseats, hok.setMemory⟩

theorem SeatOk.same {seat' : Seat} (h : SeatOk plan w seat)
    (hbackups : seat'.backups = seat.backups)
    (hjournal : seat'.journal = seat.journal) : SeatOk plan w seat' := by
  cases seat'
  subst hbackups hjournal
  exact ⟨h.backups, h.bare, h.committed, h.faithful, h.prepared⟩

variable (plan) in
def Guarded (w : World) : Prop :=
  Undoing plan w.memory.record plan.id (fun _ => w.memory.record.state = .prepared) w

variable (plan) in
/-- It can be rolled back, and leaves the files of others. -/
abbrev Preserves {α : Type} (P : World -> Prop) (m : M α) (Q : α -> World -> Prop) : Prop :=
  Triple Anything P m Q (fun _ => Guarded plan) (Intact plan)

theorem Guarded.stable : Stable (Guarded plan) := by
  intro o w hw
  unfold Guarded
  rw [outsideAct_memory]
  exact Undoing.stable o w hw

theorem rollbackAndRaise_any {e : Exn} {Q : Unit -> World -> Prop} :
    Leaves Anything (Guarded plan) (rollbackAndRaise plan e) Q (Intact plan) := by
  refine getMemory_bind fun memory => Triple.bind (Q := fun _ => Intact plan)
    (Triple.attempt (F := fun _ => Intact plan) ?_ fun _ => Triple.raise fun w hw => hw)
    fun _ => Triple.raise fun w hw => hw
  refine Triple.bind (Q := fun _ => Spent plan plan.id) (rollbackRecord_any.weaken ?_) fun _ =>
    Triple.bind (Q := fun _ => Spent plan plan.id) (Triple.change ?_) fun _ =>
    (removeTransactionDirectory_any fun _ => id).post fun _ w hw => hw.1
  · rintro w ⟨hw, rfl⟩
    exact hw
  · rintro w ⟨hintact, seat, hseats, hemptied⟩
    exact ⟨hintact.setMemory, seat, hseats, hemptied⟩

variable (plan) in
abbrev World.published (w : World) (seat : Seat) : World :=
  { w with
    disk := w.disk.journaled plan.id seat w.memory.record
    committed := w.committed || decide (w.memory.record.state = .committed) }

theorem Guarded.published (h : Guarded plan w) (hseats : w.disk.seats = [(plan.id, seat)]) :
    Intact plan (w.published plan seat) ∧
      Faithful plan w.memory.record (w.published plan seat) := by
  obtain ⟨hintact, hfaithful, seat', hseats', hprepared⟩ := h
  obtain ⟨-, rfl⟩ := single_inj hseats hseats'
  have hfaithful' : Faithful plan w.memory.record (w.published plan seat) :=
    { hfaithful with staged := fun e he s hs =>
        ⟨(hfaithful.staged e he s hs).1.trans (Nat.lt_succ_self _),
          (hfaithful.staged e he s hs).2⟩ }
  refine ⟨⟨fun x hx => (hintact.fresh x hx).trans (Nat.lt_succ_self _), fun x hx => ?_,
    .inr ⟨plan.id, _, rfl, ?_⟩⟩, hfaithful'⟩
  · rcases hintact.located x hx with hfile | ⟨hclaimed, hsaved | hold⟩
    · exact .inl hfile
    · obtain ⟨i, op, hop, hpath, hbackup⟩ := hsaved.backup hseats
      exact .inr ⟨hclaimed, .inl ⟨plan.id, _, i, op, rfl, hop, hpath, hbackup⟩⟩
    · exact .inr ⟨hclaimed, .inr (by simp [hold])⟩
  · have hsame : ∀ {r : Record} {n : Nat},
        some (w.memory.record, w.disk.next) = some (r, n) -> r = w.memory.record := by
      intro r n hsome
      simp only [Option.some.injEq, Prod.mk.injEq] at hsome
      exact hsome.1.symm
    exact {
      backups := (hintact.seatOk hseats).backups
      bare := by simp
      committed := fun r n hsome hstate => by simp [hsame hsome ▸ hstate]
      faithful := fun r n hsome _ => hsame hsome ▸ hfaithful'
      prepared := fun r n hsome hstate i => hprepared i (hsame hsome ▸ hstate) }

theorem writeJournal_any {P Q : World ->
    Prop} (hsafe : Safe Anything P (Guarded plan) (Intact plan))
    (hQ : ∀ w seat, P w -> w.disk.seats = [(plan.id, seat)] -> Q { w.published plan seat with
        memory := { w.memory with journal := some w.disk.next } }) :
    Preserves plan P (writeJournal plan.id) (fun _ => Q) := by
  refine getMemory_bind fun memory => Triple.bind (Q := fun identity w =>
    Q { w with memory := { w.memory with journal := some identity } }) (converting_triple ?_)
    fun identity => Triple.change fun w hw => hw
  apply Triple.step
  · exact fun turn hturn w hw => ⟨hsafe.stable _ turn hturn w hw.1, Stable.foldl
      (P := fun w => w.memory = memory) (fun _ _ => outsideAct_memory.trans) hw.2 turn.outside⟩
  · exact fun turn w _ hw => ⟨fun _ _ => hsafe.fails w hw.1, fun _ => (hsafe.fails w hw.1).1⟩
  · rintro turn w identity w' - ⟨hw, rfl⟩ heq
    have hguarded := hsafe.fails w hw
    obtain ⟨seat, hseats, hprepared⟩ := hguarded.2.2
    cases hresult : journalEffect plan.id w.memory.record w.memory.journal w.disk with
    | error e => simp [hresult] at heq
    | ok result =>
      obtain ⟨identity', d⟩ := result
      obtain ⟨rfl, rfl⟩ := journalEffect_eq_ok hresult hseats
      simp only [hresult] at heq
      obtain ⟨rfl, rfl⟩ := heq
      have hnext := hguarded.published hseats
      exact ⟨fun _ => hQ w seat hw hseats,
        fun _ _ => ⟨hnext.1, hnext.2, _, rfl, hprepared⟩, fun _ => hnext.1⟩
  · exact fun turn w e _ hw _ => ⟨hsafe.fails w hw.1, fun _ => (hsafe.fails w hw.1).1⟩

variable (plan) in
/-- Nothing is displaced yet. -/
def Outset (record : Record) (w : World) : Prop :=
  Intact plan w ∧ Faithful plan record w ∧ w.memory.record = record ∧
    ∃ seat, w.disk.seats = [(plan.id, seat)] ∧ ∀ i, seat.backups i = none

theorem Outset.guarded (h : Outset plan record w) : Guarded plan w := by
  obtain ⟨hintact, hfaithful, rfl, seat, hseats, hnone⟩ := h
  exact ⟨hintact, hfaithful, seat, hseats, fun i _ => hnone i⟩

theorem Outset.stable : Stable (Outset plan record) := by
  rintro o w ⟨hintact, hfaithful, hmemory, seat, hseats, hnone⟩
  exact ⟨hintact.outside, hfaithful.outside, by rw [outsideAct_memory]; exact hmemory, seat,
    by simpa using hseats, hnone⟩

theorem Outset.safe : Safe Anything (Outset plan record) (Guarded plan) (Intact plan) :=
  Outset.stable.safe (fun _ hw => hw.guarded) fun _ hw => hw.1

theorem Outset.setRecord (h : Outset plan record w) (f : Record -> Record)
    (hfaithful : Faithful plan (f record) w) : Outset plan (f record)
      { w with memory := { w.memory with record := f w.memory.record } } := by
  obtain ⟨hintact, -, hmemory, hseat⟩ := h
  exact ⟨hintact.setMemory, hfaithful.setMemory, congrArg f hmemory, hseat⟩

theorem writeJournal_outset (hstate : record.state ≠ .committed) :
    Preserves plan (Outset plan record) (writeJournal plan.id) (fun _ => Outset plan record) := by
  refine writeJournal_any Outset.safe fun w seat hw hseats => ?_
  obtain ⟨hintact, hfaithful⟩ := hw.guarded.published hseats
  obtain ⟨-, -, rfl, seat', hseats', hnone⟩ := hw
  obtain ⟨-, rfl⟩ := single_inj hseats hseats'
  exact ⟨hintact.setMemory, hfaithful.setMemory, rfl, _, rfl, hnone⟩

variable (plan) in
def OutsetWith (record : Record) (identities : List Nat) (w : World) : Prop :=
  Outset plan record w ∧ ∀ identity ∈ identities, Apart w identity

theorem OutsetWith.safe :
    Safe Anything (OutsetWith plan record identities) (Guarded plan) (Intact plan) :=
  Stable.safe (fun o w hw => ⟨Outset.stable o w hw.1, fun n h => (hw.2 n h).outside⟩)
    (fun _ hw => hw.1.guarded) fun _ hw => hw.1

theorem OutsetWith.setSeat (h : OutsetWith plan record identities w) (f : Seat -> Seat)
    (hf : ∀ s, (f s).backups = s.backups ∧ (f s).journal = s.journal)
    (hfiles : d.files = w.disk.files) (hnext : w.disk.next <= d.next)
    (hseats : d.seats = (w.disk.updateSeat plan.id f).seats) :
    OutsetWith plan record identities { w with disk := d } := by
  obtain ⟨⟨hintact, hfaithful, hmemory, seat, hseat, hnone⟩, hapart⟩ := h
  obtain ⟨hbackups, hjournal⟩ := hf seat
  rw [Disk.updateSeat_single hseat] at hseats
  exact ⟨⟨hintact.setSeat hseat hfiles hnext hseats hbackups
    ((hintact.seatOk hseat).same hbackups hjournal), hfaithful.later hnext, hmemory, _, hseats,
    fun i => hbackups ▸ hnone i⟩, fun n h => (hapart n h).later hnext⟩

theorem publishNew_any {index : Nat} {data : List Byte} :
    Preserves plan (OutsetWith plan record identities)
      (publishNew sha256 .publishStaged (.staged plan.id index) data)
      (fun s => OutsetWith plan record (s.identity :: identities)) := by
  refine OutsetWith.safe.change (fun _ w hw => hw.1.guarded) fun w s d hw heq => ?_
  split at heq
  · cases heq
    have hnext := hw.setSeat (fun s =>
      { s with staged := update s.staged index (some ⟨data, w.disk.next⟩) }) (fun _ => ⟨rfl, rfl⟩)
      (d := { w.disk.put (some ⟨data, w.disk.next⟩) (.staged plan.id index) with
        next := w.disk.next + 1 }) rfl (Nat.le_succ _) rfl
    refine ⟨hnext.1, ?_⟩
    rintro identity (_ | ⟨_, hmem⟩)
    · exact ⟨Nat.lt_succ_self _, fun x hx => (hw.1.1.fresh x hx).ne⟩
    · exact hnext.2 identity hmem
  · simp at heq

theorem stageOutputs_any (items : List (Operation × Nat)) (identities : List Nat) :
    Preserves plan (OutsetWith plan record identities) (stageOutputs plan items)
      (fun snapshots => OutsetWith plan record
        (snapshots.map (fun x => x.2.identity) ++ identities)) := by
  induction items generalizing identities with
  | nil => exact Triple.pure fun w hw => hw
  | cons item rest ih =>
    obtain ⟨op, index⟩ := item
    cases hdata : op.data with
    | none =>
      simp only [stageOutputs, hdata]
      exact ih identities
    | some data =>
      simp only [stageOutputs, hdata]
      refine publishNew_any.bind fun s => (ih (s.identity :: identities)).bind fun snapshots =>
        Triple.pure fun w hw => ⟨hw.1, fun identity hmem => hw.2 identity ?_⟩
      simp only [map_cons, mem_cons, mem_append] at hmem ⊢
      tauto

theorem journalRecord_faithful {state : JournalState} :
    Faithful plan (journalRecord plan state) w where
  paths := by simp [journalRecord]
  kinds := by
    intro i op e hop he hkind _
    simp only [journalRecord, getElem?_map, hop, Option.map_some, Option.some.injEq] at he
    rw [<- he]
    exact hkind
  staged := by
    intro e he s hs
    obtain ⟨op, -, rfl⟩ := mem_map.mp he
    simp at hs

theorem mem_of_lookup {pairs : List (Nat × Snapshot)} {i : Nat} (h : pairs.lookup i = some s) :
    (i, s) ∈ pairs := by
  obtain ⟨before, after, rfl, -⟩ := lookup_eq_some_iff.mp h
  simp

theorem Faithful.mapEntries (h : Faithful plan record w) {g : Entry × Nat -> Entry}
    (hpath : ∀ x, (g x).path = x.1.path) (hkind : ∀ x, (g x).kind = x.1.kind)
    (hstaged : ∀ x s, (g x).staged = some s -> x.1.staged = some s ∨ Apart w s.identity) :
    Faithful plan { record with entries := record.entries.zipIdx.map g } w where
  paths := by
    have hcomp : (fun e : Entry => e.path) ∘ g = (fun e : Entry => e.path) ∘ Prod.fst :=
      funext hpath
    rw [map_map, hcomp, <- map_map, zipIdx_map_fst, h.paths]
  kinds := by
    intro i op e hop he
    simp only [getElem?_map, getElem?_zipIdx, Option.map_map, Option.map_eq_some_iff] at he
    obtain ⟨e', he', rfl⟩ := he
    exact (hkind _).symm ▸ h.kinds i op e' hop he'
  staged := by
    intro e he s hs
    obtain ⟨⟨e', i⟩, he', rfl⟩ := mem_map.mp he
    exact (hstaged _ s hs).elim (h.staged e' (fst_mem_of_mem_zipIdx he') s) id

theorem Faithful.withStaged (h : Faithful plan record w) {snapshots : List (Nat × Snapshot)}
    (hapart : ∀ x ∈ snapshots, Apart w x.2.identity) :
    Faithful plan (record.withStaged snapshots) w := by
  refine h.mapEntries (fun _ => rfl) (fun _ => rfl) fun x s hs => ?_
  rcases Option.or_eq_some_iff.mp hs with hs | ⟨-, hs⟩
  · exact .inr (hapart (x.2, s) (mem_of_lookup hs))
  · exact .inl hs

theorem Faithful.withPreimages (h : Faithful plan record w) (snapshots : List (Nat × Snapshot)) :
    Faithful plan (record.withPreimages snapshots) w :=
  h.mapEntries (fun _ => rfl) (fun _ => rfl) fun _ _ => .inl

theorem Faithful.setState (h : Faithful plan record w) (state : JournalState) :
    Faithful plan { record with state } w :=
  ⟨h.paths, h.kinds, h.staged⟩

theorem stage_any : Preserves plan (Outset plan (journalRecord plan .prepared)) (stage plan)
      (fun staged => Outset plan ((journalRecord plan .prepared).withStaged staged)) := by
  have hstate : (journalRecord plan .prepared).state ≠ .committed := by simp [journalRecord]
  refine (writeJournal_outset hstate).bind fun _ => Triple.bind
    ((stageOutputs_any plan.ops.zipIdx []).weaken fun w hw => ⟨hw, by simp⟩) fun staged => ?_
  refine Triple.bind (onlyIf_triple (fun _ => OutsetWith.safe.step fun w _ d hw heq => ?_)
    fun _ _ => id) fun _ => OutsetWith.safe.look.bind fun _ =>
    Triple.bind (Q := fun _ => Outset plan ((journalRecord plan .prepared).withStaged staged))
      (Triple.change fun w hw => hw.1.setRecord (·.withStaged staged) ?_) fun _ =>
    Triple.bind (Q := fun _ => Outset plan ((journalRecord plan .prepared).withStaged staged))
      (writeJournal_outset hstate) fun _ => Triple.pure fun w hw => hw
  · cases heq
    exact hw.setSeat ({ · with ready := true }) (fun _ => ⟨rfl, rfl⟩) rfl le_rfl rfl
  · refine hw.1.2.1.withStaged fun x hx => hw.2 _ ?_
    rw [append_nil]
    exact mem_map.mpr ⟨x, hx, rfl⟩

def Matched (items : List ((Path × Option Digest) × Nat))
    (found : List (Nat × Snapshot) × List String) : Prop :=
  found.2 = [] -> ∀ x ∈ found.1, ∃ path, ((path, some x.2.digest), x.1) ∈ items

theorem compareTargets_any {P D C : World ->
    Prop} (hsafe : Safe Anything P D C) (items : List ((Path × Option Digest) × Nat)) :
    Triple Anything P (compareTargets sha256 items) (fun found w => P w ∧ Matched items found)
      (fun _ => D) C := by
  induction items with
  | nil => exact Triple.pure fun w hw => ⟨hw, fun _ x hx => by simp at hx⟩
  | cons item rest ih =>
    obtain ⟨⟨path, expected⟩, index⟩ := item
    refine (converting_triple hsafe.look).bind fun found => ih.bind fun others =>
      Triple.pure fun w hw => ⟨hw.1, ?_⟩
    intro hnone x hx
    split at hnone
    · rename_i hexpected
      rw [if_pos hexpected] at hx
      rcases mem_append.mp hx with hx | hx
      · obtain ⟨s, hs, rfl⟩ := mem_map.mp hx
        rw [Option.mem_toList] at hs
        rw [hs, Option.map_some] at hexpected
        exact ⟨path, by simp [hexpected]⟩
      · obtain ⟨path', hmem⟩ := hw.2 hnone x hx
        exact ⟨path', mem_cons_of_mem _ hmem⟩
    · simp at hnone

variable (plan) in
def CapturedDigests (preimages : List (Nat × Snapshot)) : Prop :=
  ∀ (i : Nat) op s, plan.ops[i]? = some op -> preimages.lookup i = some s ->
    op.expected = some s.digest

theorem capturePreimages_any {P D C : World -> Prop} (hsafe : Safe Anything P D C) :
    Triple Anything P (capturePreimages plan)
      (fun preimages w => P w ∧ CapturedDigests plan preimages) (fun _ => D) C := by
  refine (compareTargets_any hsafe _).bind fun found =>
    (orRaise_any fun w hw => hsafe.fails w hw.1).bind fun _ => Triple.pure fun w hw => ⟨hw.2.1, ?_⟩
  intro i op s hop hlookup
  obtain ⟨path, hmem⟩ := hw.2.2 hw.1 (i, s) (mem_of_lookup hlookup)
  rw [mem_zipIdx_iff_getElem?, getElem?_map, hop, Option.map_some, Option.some.injEq,
    Prod.mk.injEq] at hmem
  exact hmem.2

theorem capture_any :
    Preserves plan (Outset plan ((journalRecord plan .prepared).withStaged staged)) (capture plan)
      (fun preimages w => Outset plan (appliedRecord plan staged preimages .prepared) w ∧
        CapturedDigests plan preimages) := by
  refine (capturePreimages_any Outset.safe).bind
    fun preimages => Triple.of_pre (fun w hw => hw.2) fun hcaptured =>
    Triple.bind (Q := fun _ => Outset plan (appliedRecord plan staged preimages .prepared))
      (Triple.change fun w hw => hw.1.setRecord (·.withPreimages preimages)
        (hw.1.2.1.withPreimages preimages)) fun _ =>
    (writeJournal_outset (by simp [appliedRecord])).bind fun _ =>
    Triple.pure fun w hw => ⟨hw, hcaptured⟩

variable (plan) in
/-- The operations are being applied; the journal says so. -/
def Underway (record : Record) (w : World) : Prop :=
  Intact plan w ∧ Faithful plan record w ∧ w.memory.record = record ∧ record.state = .applying ∧
    ∃ seat identity, w.disk.seats = [(plan.id, seat)] ∧ seat.journal = some (record, identity)

theorem Underway.guarded (h : Underway plan record w) : Guarded plan w := by
  obtain ⟨hintact, hfaithful, rfl, hstate, seat, identity, hseats, -⟩ := h
  exact ⟨hintact, hfaithful, seat, hseats, by simp [hstate]⟩

theorem Underway.safe : Safe Anything (Underway plan record) (Guarded plan) (Intact plan) := by
  refine Stable.safe ?_ (fun _ hw => hw.guarded) fun _ hw => hw.1
  rintro o w ⟨hintact, hfaithful, hmemory, hstate, seat, identity, hseats, hjournal⟩
  exact ⟨hintact.outside, hfaithful.outside, by rw [outsideAct_memory]; exact hmemory, hstate,
    seat, identity, by simpa using hseats, hjournal⟩

theorem Underway.displace (h : Underway plan record w) (hop : plan.ops[k]? = some op)
    (hkind : op.kind ≠ .check) (hexpected : op.expected = some s.digest)
    (heq : promoteEffect sha256 (.target op.path) (.backup plan.id k) s w.disk = .ok (s', d)) :
    Underway plan record { w with disk := d } := by
  obtain ⟨hintact, hfaithful, hmemory, hstate, seat, identity, hseats, hjournal⟩ := h
  obtain ⟨hsource, hfree, -, rfl⟩ := promoteEffect_eq_ok heq
  rw [Disk.fileAt_backup hseats] at hfree
  rw [Disk.fileAt] at hsource ⊢
  obtain ⟨f, hfile, hsnapshot⟩ := Option.map_eq_some_iff.mp hsource
  rw [hfile]
  have hseats' := Disk.updateSeat_single (d := w.disk.put none (.target op.path)) hseats fun s =>
    { s with backups := update s.backups k (some f) }
  have hok := hintact.seatOk hseats
  have hok' : SeatOk plan w { seat with backups := update seat.backups k (some f) } :=
    { hok with
      backups := fun i hi => by
        by_cases hik : i = k
        · exact ⟨op, hik ▸ hop, hkind, by simp [hexpected]⟩
        · exact hok.backups i (by simpa [update_of_ne hik] using hi)
      bare := fun hnone => by simp [hjournal] at hnone
      prepared := fun r n hsome hprepared => by
        simp only [hjournal, Option.some.injEq, Prod.mk.injEq] at hsome
        simp [<- hsome.1, hstate] at hprepared }
  have hnext : Intact plan { w with
      disk := (w.disk.put none (.target op.path)).put (some f) (.backup plan.id k) } := by
    refine hintact.step le_rfl (fun x hx hplaced => ?_) (fun path g hclaimed hsave => ?_)
      (.inr ⟨plan.id, _, hseats', hok'.later le_rfl⟩)
    · by_cases hpath : x.1 = op.path
      · rw [hpath, hfile, Option.some.injEq] at hplaced
        refine .inr ⟨⟨op, mem_of_getElem? hop, hpath.symm, hkind, ?_⟩,
          .inl ⟨plan.id, _, k, op, hseats', hop, hpath.symm, by simp [hplaced]⟩⟩
        rw [hexpected, <- hsnapshot, <- hplaced]
        rfl
      · exact .inl ((update_of_ne hpath _ _).trans hplaced)
    · obtain ⟨i, op', hop', hpath, hbackup⟩ := hsave.backup hseats
      have hik : i ≠ k := by
        rintro rfl
        simp [hfree] at hbackup
      exact .inr ⟨hclaimed, .inl ⟨plan.id, _, i, op', hseats', hop', hpath,
        (update_of_ne hik _ _).trans hbackup⟩⟩
  exact ⟨hnext, hfaithful.later le_rfl, hmemory, hstate, _, identity, hseats', hjournal⟩

theorem Underway.install (h : Underway plan record w)
    (heq : promoteEffect sha256 (.staged plan.id k) (.target op.path) s w.disk = .ok (s', d)) :
    Underway plan record { w with disk := d } := by
  obtain ⟨hintact, hfaithful, hmemory, hstate, seat, identity, hseats, hjournal⟩ := h
  obtain ⟨hsource, hfree, -, rfl⟩ := promoteEffect_eq_ok heq
  obtain ⟨f, hfile, -⟩ := Option.map_eq_some_iff.mp hsource
  rw [hfile]
  have hseats' := Disk.updateSeat_single hseats fun s =>
    { s with staged := update s.staged k none }
  exact ⟨hintact.place hfree hseats rfl rfl hseats' (fun i op' g _ hg => .inl hg)
    ((hintact.seatOk hseats).same rfl rfl), hfaithful.later le_rfl, hmemory, hstate, _, identity,
    hseats', hjournal⟩

theorem Faithful.setCheck (h : Faithful plan record w) (hop : plan.ops[k]? = some op)
    (hexpected : op.expected = none) :
    Faithful plan
      (record.setEntry k fun e => { e with kind := .check, result := none, staged := none }) w where
  paths := by
    rw [<- h.paths, Record.setEntry]
    refine ext_getElem? fun i => ?_
    by_cases hki : k = i <;> simp [hki, comp_def]
  kinds := by
    intro i op' e hop' he hkind hexpected'
    rcases Record.getElem?_setEntry he with ⟨e', -, rfl, rfl⟩ | he
    · rw [hop, Option.some.injEq] at hop'
      exact absurd (hop' ▸ hexpected) hexpected'
    · exact h.kinds i op' e hop' he hkind hexpected'
  staged := by
    intro e he s hs
    rcases Record.mem_setEntry he with ⟨e', -, rfl⟩ | he
    · simp at hs
    · exact h.staged e he s hs

theorem promotionRefused_any {α : Type} {Q : α -> World -> Prop} (hop : plan.ops[k]? = some op) :
    Preserves plan (Underway plan record) (promotionRefused plan op k) Q := by
  refine Triple.bind (Q := fun _ => Guarded plan) (onlyIf_triple (fun hexpected => ?_)
    fun _ w hw => hw.guarded) fun _ => Triple.raise fun w hw => hw
  refine Triple.bind (Q := fun _ => Guarded plan) (Triple.change fun w hw => ?_) fun _ =>
    writeJournal_any (Guarded.stable.safe (fun _ => id) fun _ hw => hw.1) fun w seat hw hseats => ?_
  · obtain ⟨hintact, hfaithful, rfl, hstate, seat, identity, hseats, -⟩ := hw
    exact ⟨hintact.setMemory, (hfaithful.setCheck hop hexpected).setMemory, seat, hseats,
      by simp [Record.setEntry, hstate]⟩
  · obtain ⟨hintact, hfaithful⟩ := hw.published hseats
    obtain ⟨-, -, seat', hseats', hprepared⟩ := hw
    obtain ⟨-, rfl⟩ := single_inj hseats hseats'
    exact ⟨hintact.setMemory, hfaithful.setMemory, _, rfl, hprepared⟩

theorem applyOperation_any (hcaptured : CapturedDigests plan preimages)
    (hop : plan.ops[k]? = some op) :
    Preserves plan (Underway plan record) (applyOperation plan preimages staged (op, k))
      (fun _ => Underway plan record) := by
  have hsync : Preserves plan (Underway plan record) sync (fun _ => Underway plan record) :=
    Underway.safe.look
  have hdisplace (hkind : op.kind ≠ .check) : Preserves plan (Underway plan record)
      (displace plan preimages op k) (fun _ => Underway plan record) := by
    unfold displace
    split
    · exact Triple.raise fun w hw => hw.guarded
    · rename_i s hlookup
      exact (converting_triple (Underway.safe.step fun w s' d hw heq =>
        hw.displace hop hkind (hcaptured k op s hop hlookup) heq)).bind fun _ => hsync
  have hinstall : Preserves plan (Underway plan record) (installStaged plan staged op k)
      (fun _ => Underway plan record) := by
    unfold installStaged
    split
    · exact Triple.raise fun w hw => hw.guarded
    · refine Triple.bind (Q := fun _ => Underway plan record) (Triple.attempt
        (Safe.step ⟨Underway.safe.stable, fun _ => id, fun w hw => hw.1⟩ fun w s' d hw =>
          hw.install) fun e => ?_) fun s => Underway.safe.check
      split
      · exact promotionRefused_any hop
      · exact Triple.raise fun w hw => hw.guarded
  refine onlyIf_triple (fun hkind => ?_) fun _ w hw => hw
  refine (onlyIf_triple (fun _ => hdisplace hkind) fun _ w hw => hw).bind fun _ =>
    (onlyIf_triple (fun _ => hinstall) fun _ w hw => hw).bind fun _ =>
    (onlyIf_triple (fun _ => ?_) fun _ w hw => hw).bind fun _ =>
    onlyIf_triple (fun _ => hsync) fun _ w hw => hw
  exact Underway.safe.look.bind fun _ => Underway.safe.check

theorem writeJournal_underway (hstate : record.state = .applying) :
    Preserves plan (Outset plan record) (writeJournal plan.id) (fun _ => Underway plan record) := by
  refine writeJournal_any Outset.safe fun w seat hw hseats => ?_
  obtain ⟨hintact, hfaithful⟩ := hw.guarded.published hseats
  obtain ⟨-, -, rfl, -⟩ := hw
  exact ⟨hintact.setMemory, hfaithful.setMemory, rfl, hstate, _, _, rfl, rfl⟩

theorem applyOperations_any (hcaptured : CapturedDigests plan preimages) :
    Preserves plan (Outset plan (appliedRecord plan staged preimages .prepared))
      (applyOperations plan preimages staged)
      (fun _ => Underway plan (appliedRecord plan staged preimages .applying)) := by
  refine Triple.bind (Q := fun _ => Outset plan (appliedRecord plan staged preimages .applying))
    (Triple.change fun w hw => hw.setRecord ({ · with state := .applying })
      (hw.2.1.setState .applying)) fun _ => (writeJournal_underway rfl).bind fun _ =>
    Triple.bind (Q := fun _ => Underway plan (appliedRecord plan staged preimages .applying))
      (Triple.forEach (fun _ => Underway plan (appliedRecord plan staged preimages .applying))
        fun done x todo heq => ?_) fun _ => ?_
  · obtain ⟨op, k⟩ := x
    have hmem : (op, k) ∈ plan.ops.zipIdx := by
      rw [heq]
      simp
    exact applyOperation_any hcaptured (mem_zipIdx_iff_getElem?.mp hmem)
  · exact (compareTargets_any Underway.safe _).bind
      fun found => (orRaise_any fun w hw => hw.1.guarded).post fun _ w hw => hw.2.1

variable (plan) in
def Over (w : World) : Prop := Spent plan plan.id w ∧ w.committed = true

theorem publish_any : Preserves plan (Outset plan (journalRecord plan .prepared)) (publish plan)
      (fun _ => Over plan) := by
  refine stage_any.bind fun staged => capture_any.bind fun preimages =>
    Triple.of_pre (fun w hw => hw.2) fun hcaptured =>
    ((applyOperations_any hcaptured).weaken fun w hw => hw.1).bind fun _ =>
    Triple.bind (Q := fun _ w => Guarded plan w ∧ w.memory.record.state = .committed)
      (Triple.change fun w hw => ?_) fun _ =>
    writeJournal_any (Stable.safe (fun o w hw => ⟨Guarded.stable o w hw.1, by simpa using hw.2⟩)
      (fun _ hw => hw.1) fun _ hw => hw.1) fun w seat hw hseats => ?_
  · obtain ⟨hintact, hfaithful, hmemory, hstate, seat, identity, hseats, -⟩ := hw
    rw [<- hmemory] at hfaithful
    exact ⟨⟨hintact.setMemory, (hfaithful.setState .committed).setMemory, seat, hseats, by simp⟩,
      rfl⟩
  · have hflag : (w.committed || decide (w.memory.record.state = .committed)) = true := by
      simp [hw.2]
    obtain ⟨hintact, -⟩ := hw.1.published hseats
    exact ⟨⟨hintact.setMemory, _, rfl, .inr hflag⟩, hflag⟩

variable (plan) in
/-- A commit returned: no seat, or a committed transaction. -/
def Finished (w : World) : Prop :=
  Intact plan w ∧ (w.disk.seats = [] ∨ w.committed = true)

theorem cleanUp_any :
    Leaves Anything (Over plan) (cleanUp plan) (fun _ => Finished plan) (Intact plan) :=
  cleanUp_rule (fun memory => ((removeTransactionDirectory_any fun _ => id).frame
    (f := World.committed) (removeTransactionDirectory_keeps (fun _ _ => rfl) fun o _ => by
      cases o <;> rfl) (· = true)).conseq (fun w hw => hw.1) (fun _ w hw => ⟨hw.1.1, .inr hw.2⟩)
    (fun _ _ => id) fun w hw => hw.1) (fun w hw => ⟨hw.1, .inr hw.2⟩) fun w hw => hw.1

variable (plan) in
def Created (w : World) : Prop := Intact plan w ∧ w.disk.seats = [(plan.id, .empty)]

theorem createSeat_any :
    Leaves Anything (Unseated plan) (createSeat plan.id) (fun _ => Created plan) (Intact plan) := by
  refine (Unseated.safe fun _ => id).change (fun _ w hw => hw.1) fun w _ d hw heq => ?_
  obtain ⟨hintact, hseats⟩ := hw
  simp only [hseats, map_nil, not_mem_nil, if_false, Except.ok.injEq, Prod.mk.injEq,
    true_and] at heq
  subst heq
  have hok : SeatOk plan { w with disk := { w.disk with seats := [(plan.id, Seat.empty)] } }
      Seat.empty :=
    ⟨by simp [Seat.empty], fun _ => .inl fun _ => rfl, by simp [Seat.empty], by simp [Seat.empty],
      by simp [Seat.empty]⟩
  refine ⟨hintact.step le_rfl (fun x _ hplaced => .inl hplaced) (fun path f _ hsave => ?_)
    (.inr ⟨plan.id, .empty, rfl, hok⟩), rfl⟩
  obtain ⟨name, seat, i, op, hseats', -⟩ := hsave
  simp [hseats] at hseats'

theorem commit_any :
    Leaves Anything (Unseated plan) (commit plan) (fun _ => Finished plan) (Intact plan) := by
  unfold commit
  split
  · exact Triple.pure fun w hw => ⟨hw.1, .inl hw.2⟩
  refine (recoverLocked_any.weaken fun w hw => hw.1).bind fun _ => ?_
  split
  · exact (capturePreimages_any (Unseated.safe fun _ => id)).bind
      fun preimages => Triple.pure fun w hw => ⟨hw.1.1, .inl hw.1.2⟩
  · have hcreated : Safe Anything (Created plan) (Intact plan) (Intact plan) :=
      Stable.safe (fun _ _ hw => ⟨hw.1.outside, by simpa using hw.2⟩) (fun _ hw => hw.1) fun _ => id
    refine createSeat_any.bind fun _ => hcreated.look.bind fun _ => Triple.bind
      (Q := fun _ w => Outset plan (journalRecord plan .prepared) w)
      (Triple.change fun w hw => ?_) fun _ =>
      (publish_any.attempt fun e => rollbackAndRaise_any).bind fun _ => cleanUp_any.bind
        fun warning => Triple.pure fun w hw => hw
    · exact ⟨hw.1.setMemory, journalRecord_faithful, rfl, .empty, hw.2, fun _ => rfl⟩

theorem commit_ends (disk : Disk) (hseats : disk.seats = []) (turns : List (Turn Outside Exn)) :
    Ends (fun _ => Finished plan) (fun _ => Intact plan) (Intact plan)
      (commit plan (World.start disk) turns) :=
  commit_any (World.start disk) turns
    ⟨⟨by simp [World.start], by simp [World.start], .inl hseats⟩, hseats⟩ fun _ _ => trivial

theorem recoverLocked_intact (h : Intact plan w) (turns : List (Turn Outside Exn)) :
    Intact plan (recoverLocked sha256 w turns).state :=
  (recoverLocked_any w turns h fun _ _ => trivial).state (fun _ _ hw => hw.1) (fun _ _ => id)
    fun _ => id

theorem recoveries_intact (h : Intact plan w) (runs : List (List (Turn Outside Exn))) :
    Intact plan (recoveries sha256 w runs) := by
  induction runs generalizing w with
  | nil => exact h
  | cons turns runs ih => exact ih (recoverLocked_intact h turns)

variable (plan) in
/-- It is in place; or it was expected, and is a backup or was replaced. -/
inductive Kept (w : World) (path : Path) (f : File) : Prop
  | inPlace (hfile : w.disk.files path = some f)
  | saved (hclaimed : Claimed plan path f) (hsaved : Saved plan w.disk path f)
      (hjournal : ∀ x ∈ w.disk.seats, x.2.journal ≠ none)
  | replaced (hclaimed : Claimed plan path f) (hcommitted : w.committed = true)

theorem Intact.kept (h : Intact plan w) (hx : x ∈ w.outside) : Kept plan w x.1 x.2 := by
  rcases h.located x hx with hfile | ⟨hclaimed, hsaved | hcommitted⟩
  · exact .inPlace hfile
  · by_cases hcommitted : w.committed = true
    · exact .replaced hclaimed hcommitted
    · refine .saved hclaimed hsaved fun y hy hnone => ?_
      obtain ⟨name, seat, i, op, hseats, -, -, hbackup⟩ := hsaved
      rw [hseats, mem_singleton] at hy
      subst hy
      rcases (h.seatOk hseats).bare hnone with hall | hflag
      · simp [hall i] at hbackup
      · exact hcommitted hflag
  · exact .replaced hclaimed hcommitted

theorem Finished.kept (h : Finished plan w) (hx : x ∈ w.outside) :
    w.disk.files x.1 = some x.2 ∨ (Claimed plan x.1 x.2 ∧ w.committed = true) := by
  rcases h.1.located x hx with hfile | ⟨hclaimed, hsaved | hcommitted⟩
  · exact .inl hfile
  · rcases h.2 with hseats | hcommitted
    · obtain ⟨name, seat, i, op, hseats', -⟩ := hsaved
      simp [hseats] at hseats'
    · exact .inr ⟨hclaimed, hcommitted⟩
  · exact .inr ⟨hclaimed, hcommitted⟩

end

/-- A write over contents of one byte. -/
def overwrite : Plan plainDigest where
  id := 7
  ops := [⟨.write, "a", some (plainDigest [49]), some [50], some (plainDigest [50])⟩]
  wf := by
    intro op hop
    rw [List.mem_singleton] at hop
    subst hop
    exact ⟨fun _ => ⟨_, rfl, rfl, by decide +kernel⟩, by simp, by decide +kernel⟩
  paths := by decide +kernel

def expectedInstalled : List (Turn Outside Exn) := [⟨[.install "a" [49]], .none⟩]

/-- The output is replaced after the first version was displaced. -/
def raced : List (Turn Outside Exn) :=
  ⟨[.install "a" [49]], .none⟩ :: List.replicate 14 ⟨[], .none⟩ ++ [⟨[.install "a" [51]], .none⟩]

/-- The program before it does anything, with versions in place that are followed like
those of the outside writer. -/
def World.following (disk : Disk) (versions : List (Path × File)) : World :=
  { World.start disk with outside := versions }

def twoVersions : List (Path × File) := [("a", ⟨[49], 0⟩), ("b", ⟨[51], 0⟩)]

end Reprobit.Transaction

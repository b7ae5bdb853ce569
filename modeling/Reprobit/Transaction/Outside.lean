import Reprobit.Transaction.Atomic

/-!
# Outside writers

A writer that ignores the project lock can replace and remove targets before each step
of a transaction, and any step can be stopped.  Through all of it no version that the
outside writer installed is overwritten or removed; only a version with the very
contents that the plan expects at its path counts as the preimage and can be displaced.
-/

namespace Reprobit.Transaction

open Machine Faulty List Option Function

variable {sha256 : List Byte -> Digest} (plan : Plan sha256)

/-- The plan changes the path, and expects these contents there. -/
def Claimed (path : Path) (f : File) : Prop :=
  ∃ op ∈ plan.ops, op.path = path ∧ op.kind ≠ .check ∧ op.expected = some (sha256 f.data)

def Saved (d : Disk) (path : Path) (f : File) : Prop :=
  ∃ name seat i op, d.seats = [(name, seat)] ∧ plan.ops[i]? = some op ∧ op.path = path ∧
    seat.backups i = some f

/-- It is in place; or it was expected, and is saved or was replaced. -/
def Located (w : World) (path : Path) (f : File) : Prop :=
  w.disk.files path = some f ∨
    (Claimed plan path f ∧ (Saved plan w.disk path f ∨ w.committed = true))

def Apart (w : World) (identity : Nat) : Prop :=
  identity < w.disk.next ∧ ∀ x ∈ w.outside, x.2.identity ≠ identity

/-- Nothing is lost with the seat. -/
def Emptied (w : World) (seat : Seat) : Prop :=
  (∀ i, seat.backups i = none) ∨ w.committed = true

/-- Its rollback touches only what was installed and restores the preimages. -/
structure Faithful (record : Record) (w : World) : Prop where
  paths : record.entries.map (·.path) = plan.ops.map (·.path)
  kinds : ∀ (i : Nat) op e, plan.ops[i]? = some op -> record.entries[i]? = some e ->
    op.kind ≠ .check -> op.expected ≠ none -> e.kind ≠ .check
  staged : ∀ e ∈ record.entries, ∀ s, e.staged = some s -> Apart w s.identity

structure SeatOk (w : World) (seat : Seat) : Prop where
  backups : ∀ i, seat.backups i ≠ none ->
    ∃ op, plan.ops[i]? = some op ∧ op.kind ≠ .check ∧ op.expected ≠ none
  bare : seat.journal = none -> Emptied w seat
  committed : ∀ record identity, seat.journal = some (record, identity) ->
    record.state = .committed -> w.committed = true
  faithful : ∀ record identity, seat.journal = some (record, identity) ->
    record.state ≠ .committed -> Faithful plan record w
  prepared : ∀ record identity, seat.journal = some (record, identity) ->
    record.state = .prepared -> ∀ i, seat.backups i = none

/-- Every outside version is where it should be. -/
structure Intact (w : World) : Prop where
  fresh : ∀ x ∈ w.outside, x.2.identity < w.disk.next
  located : ∀ x ∈ w.outside, Located plan w x.1 x.2
  seats : w.disk.seats = [] ∨ ∃ name seat, w.disk.seats = [(name, seat)] ∧ SeatOk plan w seat

variable {plan} {w w' : World} {o : Outside} {record : Record} {seat : Seat} {name identity i : Nat}
  {x : Path × File}

@[simp] theorem outsideAct_seats : (outsideAct o w).disk.seats = w.disk.seats := by
  cases o <;> rfl

@[simp] theorem outsideAct_committed : (outsideAct o w).committed = w.committed := by
  cases o <;> rfl

@[simp] theorem outsideAct_memory : (outsideAct o w).memory = w.memory := by
  cases o <;> rfl

theorem mem_released {path : Path} :
    x ∈ w.released path ↔ x ∈ w.outside ∧ ¬ (x.1 = path ∧ w.disk.files path = some x.2) := by
  rw [World.released, mem_filter, decide_eq_true_iff]

theorem Apart.outside (h : Apart w identity) : Apart (outsideAct o w) identity := by
  cases o with
  | install path data =>
    refine ⟨h.1.trans (Nat.lt_succ_self _), fun x hx => ?_⟩
    rcases mem_cons.mp hx with rfl | hx
    · exact h.1.ne'
    · exact h.2 x (mem_released.mp hx).1
  | erase path => exact ⟨h.1, fun x hx => h.2 x (mem_released.mp hx).1⟩

theorem Faithful.outside (h : Faithful plan record w) : Faithful plan record (outsideAct o w) :=
  { h with staged := fun e he s hs => (h.staged e he s hs).outside }

theorem SeatOk.outside (h : SeatOk plan w seat) : SeatOk plan (outsideAct o w) seat where
  backups := h.backups
  bare := fun hnone => by simpa [Emptied] using h.bare hnone
  committed := fun r n hsome hstate => by simpa using h.committed r n hsome hstate
  faithful := fun r n hsome hstate => (h.faithful r n hsome hstate).outside
  prepared := h.prepared

/-- A version that is not taken away stays where it was. -/
theorem Located.outside {path : Path} (h : Located plan w x.1 x.2) (hx : x ∈ w.released path)
    {file : Option File} (hfiles : w'.disk.files = update w.disk.files path file)
    (hseats : w'.disk.seats = w.disk.seats) (hcommitted : w'.committed = w.committed) :
    Located plan w' x.1 x.2 := by
  rcases h with hfile | ⟨hclaimed, hsaved⟩
  · have hne : x.1 ≠ path := fun heq => (mem_released.mp hx).2 ⟨heq, heq ▸ hfile⟩
    left
    rw [hfiles, update_of_ne hne, hfile]
  · right
    refine ⟨hclaimed, ?_⟩
    rw [hcommitted]
    unfold Saved at hsaved ⊢
    rwa [hseats]

theorem Intact.outside (h : Intact plan w) : Intact plan (outsideAct o w) where
  fresh := by
    intro x hx
    cases o with
    | install path data =>
      rcases mem_cons.mp hx with rfl | hx
      · exact Nat.lt_succ_self _
      · exact (h.fresh x (mem_released.mp hx).1).trans (Nat.lt_succ_self _)
    | erase path => exact h.fresh x (mem_released.mp hx).1
  located := by
    intro x hx
    cases o with
    | install path data =>
      rcases mem_cons.mp hx with rfl | hx
      · exact .inl (by simp [outsideAct])
      · exact (h.located x (mem_released.mp hx).1).outside hx rfl rfl rfl
    | erase path => exact (h.located x (mem_released.mp hx).1).outside hx rfl rfl rfl
  seats := by
    rw [outsideAct_seats]
    exact h.seats.imp id fun ⟨name, seat, hseats, hok⟩ => ⟨name, seat, hseats, hok.outside⟩

/-- The outside writer cannot falsify it. -/
def Stable (P : World -> Prop) : Prop := ∀ o w, P w -> P (outsideAct o w)

/-- Whatever happens. -/
def Anything (_ : Step) (_ : Turn Outside Exn) : Prop := True

section

variable {α : Type} {P D C : World -> Prop} {Q : α -> World -> Prop} {label : Step}

theorem Stable.foldl (h : Stable P) (hw : P w) (acts : List Outside) :
    P (acts.foldl (fun w o => outsideAct o w) w) := by
  induction acts generalizing w with
  | nil => exact hw
  | cons o rest ih => exact ih (h o w hw)

theorem Stable.safe (h : Stable P) (hD : ∀ w, P w -> D w) (hC : ∀ w, D w -> C w) :
    Safe Anything P D C :=
  ⟨fun _ turn _ _ hw => h.foldl hw turn.outside, hD, hC⟩

theorem orRaise_any {condition : Prop} [Decidable condition] {e : Exn} (hD : ∀ w, P w -> D w) :
    Triple Anything P (orRaise condition e) (fun _ w => condition ∧ P w) (fun _ => D) C := by
  unfold orRaise
  split
  · exact Triple.pure fun w hw => ⟨‹_›, hw⟩
  · exact Triple.raise fun w hw => hD w hw

end

variable {d : Disk} {seat' : Seat} {path : Path} {f : File} {op : Operation} {C : World -> Prop}
  {known : Option Nat}

theorem Apart.later (h : Apart w identity) (hnext : w.disk.next <= d.next) :
    Apart { w with disk := d } identity :=
  ⟨h.1.trans_le hnext, h.2⟩

theorem Faithful.later (h : Faithful plan record w) (hnext : w.disk.next <= d.next) :
    Faithful plan record { w with disk := d } :=
  { h with staged := fun e he s hs => (h.staged e he s hs).later hnext }

theorem SeatOk.later (h : SeatOk plan w seat) (hnext : w.disk.next <= d.next) :
    SeatOk plan { w with disk := d } seat :=
  { h with faithful := fun r n hsome hstate => (h.faithful r n hsome hstate).later hnext }

theorem Intact.seatOk (h : Intact plan w) (hseats : w.disk.seats = [(name, seat)]) :
    SeatOk plan w seat := by
  rcases h.seats with hnone | ⟨name', seat', hseats', hok⟩
  · simp [hnone] at hseats
  · obtain ⟨-, rfl⟩ := single_inj hseats hseats'
    exact hok

theorem Saved.mk (hseats : d.seats = [(name, seat)]) (hop : plan.ops[i]? = some op)
    (hbackup : seat.backups i = some f) : Saved plan d op.path f :=
  ⟨name, seat, i, op, hseats, hop, rfl, hbackup⟩

theorem Saved.backup (h : Saved plan d path f) (hseats : d.seats = [(name, seat)]) :
    ∃ i op, plan.ops[i]? = some op ∧ op.path = path ∧ seat.backups i = some f := by
  obtain ⟨name', seat', i, op, hseats', hop, hpath, hbackup⟩ := h
  obtain ⟨-, rfl⟩ := single_inj hseats hseats'
  exact ⟨i, op, hop, hpath, hbackup⟩

/-- A step keeps versions that have a place after it. -/
theorem Intact.step (h : Intact plan w) (hnext : w.disk.next <= d.next)
    (hplaced : ∀ x ∈ w.outside, w.disk.files x.1 = some x.2 ->
      Located plan { w with disk := d } x.1 x.2)
    (hsaved : ∀ path f, Claimed plan path f -> Saved plan w.disk path f ->
      Located plan { w with disk := d } path f)
    (hseats : d.seats = [] ∨ ∃ name seat, d.seats = [(name, seat)] ∧
      SeatOk plan { w with disk := d } seat) : Intact plan { w with disk := d } where
  fresh := fun x hx => (h.fresh x hx).trans_le hnext
  located := by
    intro x hx
    rcases h.located x hx with hfile | ⟨hclaimed, hsave | hcommitted⟩
    · exact hplaced x hx hfile
    · exact hsaved _ _ hclaimed hsave
    · exact .inr ⟨hclaimed, .inr hcommitted⟩
  seats := hseats

theorem Intact.setSeat (h : Intact plan w) {name' : Nat} (hseats : w.disk.seats = [(name, seat)])
    (hfiles : d.files = w.disk.files) (hnext : w.disk.next <= d.next)
    (hseats' : d.seats = [(name', seat')]) (hbackups : seat'.backups = seat.backups)
    (hok : SeatOk plan w seat') : Intact plan { w with disk := d } := by
  refine h.step hnext (fun x _ hfile => .inl (hfiles ▸ hfile)) (fun path f hclaimed hsave => ?_)
    (.inr ⟨name', seat', hseats', hok.later hnext⟩)
  obtain ⟨i, op, hop, rfl, hbackup⟩ := hsave.backup hseats
  exact .inr ⟨hclaimed, .inl (.mk hseats' hop (hbackups ▸ hbackup))⟩

theorem Intact.remove (h : Intact plan w) {s : Snapshot} (happart : Apart w s.identity)
    (hfile : (w.disk.files path).map (·.snapshot sha256) = some s) :
    Intact plan { w with disk := w.disk.put none (.target path) } := by
  refine h.step le_rfl (fun x hx hplaced => .inl ?_) (fun path f hclaimed hsave => ?_)
    (h.seats.imp id fun ⟨name, seat, hseats, hok⟩ => ⟨name, seat, hseats, hok.later le_rfl⟩)
  · have hne : x.1 ≠ path := by
      rintro rfl
      rw [hplaced, map_some, some.injEq] at hfile
      exact happart.2 x hx (congrArg Snapshot.identity hfile)
    simpa [Disk.put, update_of_ne hne] using hplaced
  · exact .inr ⟨hclaimed, .inl hsave⟩

theorem Intact.place (h : Intact plan w) (hfree : w.disk.files path = none)
    (hseats : w.disk.seats = [(name, seat)])
    (hfiles : d.files = update w.disk.files path (some f)) (hnext : d.next = w.disk.next)
    (hseats' : d.seats = [(name, seat')])
    (hbackups : ∀ i op g, plan.ops[i]? = some op -> seat.backups i = some g ->
      seat'.backups i = some g ∨ (op.path = path ∧ g = f))
    (hok : SeatOk plan w seat') : Intact plan { w with disk := d } := by
  refine h.step hnext.ge (fun x _ hplaced => .inl ?_) (fun path' g hclaimed hsave => ?_)
    (.inr ⟨name, seat', hseats', hok.later hnext.ge⟩)
  · have hne : x.1 ≠ path := by
      rintro rfl
      simp [hplaced] at hfree
    simpa [hfiles, update_of_ne hne] using hplaced
  · obtain ⟨i, op, hop, rfl, hbackup⟩ := hsave.backup hseats
    rcases hbackups i op g hop hbackup with hkept | ⟨rfl, rfl⟩
    · exact .inr ⟨hclaimed, .inl (.mk hseats' hop hkept)⟩
    · exact .inl (by simp [hfiles])

theorem Intact.clear (h : Intact plan w) (hseats : w.disk.seats = [(name, seat)])
    (hemptied : Emptied w seat) (hfiles : d.files = w.disk.files) (hnext : d.next = w.disk.next)
    (hseats' : d.seats = [] ∨ d.seats = [(name, .empty)]) : Intact plan { w with disk := d } := by
  refine h.step hnext.ge (fun x _ hplaced => .inl (hfiles ▸ hplaced))
    (fun path f hclaimed hsave => ?_) (hseats'.imp id fun hseats' => ⟨name, .empty, hseats', ?_⟩)
  · obtain ⟨i, op, -, -, hbackup⟩ := hsave.backup hseats
    rcases hemptied with hnone | hcommitted
    · simp [hnone i] at hbackup
    · exact .inr ⟨hclaimed, .inr hcommitted⟩
  · exact ⟨by simp [Seat.empty], fun _ => .inl fun _ => rfl, by simp [Seat.empty],
      by simp [Seat.empty], by simp [Seat.empty]⟩

variable (plan) in
def Spent (name : Nat) (w : World) : Prop :=
  Intact plan w ∧ ∃ seat, w.disk.seats = [(name, seat)] ∧ Emptied w seat

theorem Spent.safe (hC : ∀ w, Intact plan w -> C w) :
    Safe Anything (Spent plan name) (Intact plan) C := by
  refine Stable.safe ?_ (fun _ hw => hw.1) hC
  rintro o w ⟨hintact, seat, hseats, hemptied⟩
  exact ⟨hintact.outside, seat, by simpa using hseats, by simpa [Emptied] using hemptied⟩

variable (plan) in
def Unseated (w : World) : Prop := Intact plan w ∧ w.disk.seats = []

theorem Unseated.safe (hC : ∀ w, Intact plan w -> C w) :
    Safe Anything (Unseated plan) (Intact plan) C :=
  Stable.safe (fun _ _ hw => ⟨hw.1.outside, by simpa using hw.2⟩) (fun _ hw => hw.1) hC

theorem SeatOk.unjournaled (h : SeatOk plan w seat) (hemptied : Emptied w seat) :
    SeatOk plan w { seat with journal := none } where
  backups := h.backups
  bare := fun _ => hemptied
  committed := by simp
  faithful := by simp
  prepared := by simp

theorem dropJournal_any (hC : ∀ w, Intact plan w -> C w) :
    Triple Anything (Spent plan name) (dropJournal name known) (fun _ => Spent plan name)
      (fun _ => Intact plan) C := by
  cases known with
  | none => exact Triple.pure fun w hw => hw
  | some expected =>
    refine (converting_triple ((Spent.safe hC).step fun w removed d hw heq => ?_)).bind
      fun removed => (Spent.safe hC).check
    have hspent := hw
    obtain ⟨hintact, seat, hseats, hemptied⟩ := hw
    simp only [removeJournalEffect, Disk.seat?_single hseats] at heq
    split at heq
    · cases heq
      have hseats' := Disk.updateSeat_single hseats fun s => { s with journal := none }
      exact ⟨hintact.setSeat hseats rfl le_rfl hseats' rfl
        ((hintact.seatOk hseats).unjournaled hemptied), _, hseats', hemptied⟩
    · cases heq
      exact hspent

theorem removeTransactionDirectory_any (hC : ∀ w, Intact plan w -> C w) :
    Triple Anything (Spent plan name) (removeTransactionDirectory name known)
      (fun _ => Unseated plan) (fun _ => Intact plan) C := by
  refine (dropJournal_any hC).bind fun _ => Triple.bind (Q := fun quarantine =>
    Spent plan quarantine) (refusing_triple ((Spent.safe hC).change (fun _ w hw => hw.1)
      fun w quarantine d hw heq => ?_)) fun quarantine => refusing_triple
    (((Spent.safe hC).step fun w _ d hw heq => ?_).bind fun _ =>
    Triple.bind (Q := fun _ => Unseated plan) ((Spent.safe hC).change (fun _ w hw => hw.1)
      fun w _ d hw heq => ?_) fun _ => (Unseated.safe hC).look)
  · obtain ⟨hintact, seat, hseats, hemptied⟩ := hw
    cases heq
    have hseats' : (w.disk.seats.map fun entry =>
        if entry.1 = name then (w.disk.freshName, entry.2) else entry) = [(w.disk.freshName,
          seat)] := by
      simp [hseats]
    exact ⟨hintact.setSeat hseats rfl le_rfl hseats' rfl (hintact.seatOk hseats), seat, hseats',
      hemptied⟩
  · obtain ⟨hintact, seat, hseats, hemptied⟩ := hw
    cases heq
    have hseats' := Disk.updateSeat_single hseats fun _ => Seat.empty
    exact ⟨hintact.clear hseats hemptied rfl rfl (.inr hseats'), _, hseats', .inl fun _ => rfl⟩
  · obtain ⟨hintact, seat, hseats, hemptied⟩ := hw
    cases heq
    have hgone : w.disk.seats.filter (·.1 ≠ quarantine) = [] := by simp [hseats]
    exact ⟨hintact.clear hseats hemptied rfl rfl (.inl hgone), hgone⟩

variable (plan) in
/-- A rollback of a record, whose entries `done` have no backups. -/
def Undoing (record : Record) (name : Nat) (done : Nat -> Prop) (w : World) : Prop :=
  Intact plan w ∧ Faithful plan record w ∧ ∃ seat, w.disk.seats = [(name, seat)] ∧
    ∀ i, done i -> seat.backups i = none

variable {done : Nat -> Prop} {e : Entry} {current : Option Snapshot}

theorem Undoing.stable : Stable (Undoing plan record name done) := by
  rintro o w ⟨hintact, hfaithful, seat, hseats, hdone⟩
  exact ⟨hintact.outside, hfaithful.outside, seat, by simpa using hseats, hdone⟩

theorem Undoing.safe : Safe Anything (Undoing plan record name done) (Intact plan) (Intact plan) :=
  Undoing.stable.safe (fun _ hw => hw.1) fun _ => id

theorem Faithful.operation (h : Faithful plan record w) (he : record.entries[i]? = some e) :
    ∃ op, plan.ops[i]? = some op ∧ op.path = e.path := by
  have hpath := congrArg (·[i]?) h.paths
  simp only [getElem?_map, he] at hpath
  obtain ⟨op, hop, hpath⟩ := map_eq_some_iff.mp hpath.symm
  exact ⟨op, hop, hpath⟩

theorem removeInstalled_any {current : Snapshot} (he : e ∈ record.entries) :
    Leaves Anything (Undoing plan record name done) (removeInstalled sha256 e current)
      (fun _ => Undoing plan record name done) (Intact plan) := by
  unfold removeInstalled
  split
  · exact Triple.raise fun w hw => hw.1
  · rename_i hmatches
    have hstaged : e.staged = some current := (not_not.mp (not_or.mp hmatches).2).1
    refine (Undoing.safe.step fun w removed d hw heq => ?_).bind fun removed =>
      Undoing.safe.check
    have hundoing := hw
    obtain ⟨hintact, hfaithful, seat, hseats, hdone⟩ := hw
    unfold removeEffect at heq
    split at heq
    · rename_i hfile
      cases heq
      exact ⟨hintact.remove (hfaithful.staged e he current hstaged) hfile, hfaithful.later le_rfl,
        seat, hseats, hdone⟩
    · cases heq
      exact hundoing

theorem Undoing.restore (h : Undoing plan record name done w) (he : record.entries[i]? = some e)
    {s s' : Snapshot}
    (heq : promoteEffect sha256 (.backup name i) (.target e.path) s w.disk = .ok (s', d)) :
    Undoing plan record name (fun k => done k ∨ k = i) { w with disk := d } := by
  obtain ⟨hintact, hfaithful, seat, hseats, hdone⟩ := h
  obtain ⟨op, hop, hpath⟩ := hfaithful.operation he
  obtain ⟨hsource, hfree, -, rfl⟩ := promoteEffect_eq_ok heq
  rw [Disk.fileAt_backup hseats] at hsource ⊢
  obtain ⟨f, hbackup, -⟩ := map_eq_some_iff.mp hsource
  rw [hbackup]
  have hseats' := Disk.updateSeat_single hseats fun s =>
    { s with backups := update s.backups i none }
  have hsubset : ∀ k, update seat.backups i none k ≠ none -> seat.backups k ≠ none := by
    intro k hk
    by_cases hki : k = i
    · simp [hki] at hk
    · rwa [update_of_ne hki] at hk
  have hnone : ∀ k, seat.backups k = none -> update seat.backups i none k = none :=
    fun k hk => not_not.mp fun hne => hsubset k hne hk
  have hok := hintact.seatOk hseats
  have hok' : SeatOk plan w { seat with backups := update seat.backups i none } :=
    { hok with
      backups := fun k hk => hok.backups k (hsubset k hk)
      bare := fun hjournal => (hok.bare hjournal).imp (fun hall k => hnone k (hall k)) id
      prepared := fun r n hsome hstate k => hnone k (hok.prepared r n hsome hstate k) }
  refine ⟨hintact.place hfree hseats rfl rfl hseats' ?_ hok',
    hfaithful.later le_rfl, _, hseats', ?_⟩
  · intro k op' g hop' hg
    by_cases hki : k = i
    · subst hki
      rw [hop, some.injEq] at hop'
      rw [hbackup, some.injEq] at hg
      exact .inr ⟨hop' ▸ hpath, hg.symm⟩
    · exact .inl ((update_of_ne hki _ _).trans hg)
  · rintro k (hk | rfl)
    · exact hnone k (hdone k hk)
    · simp

theorem rollbackInPlace_any (he : e ∈ record.entries) :
    Leaves Anything (Undoing plan record name done) (rollbackInPlace sha256 e current)
      (fun _ => Undoing plan record name done) (Intact plan) := by
  unfold rollbackInPlace
  split
  · exact Triple.raise fun w hw => hw.1
  · exact Undoing.safe.check
  · exact Triple.pure fun w hw => hw
  · exact (removeInstalled_any he).bind fun _ => Undoing.safe.look

theorem restorePreimage_any {backup : Snapshot} (he : record.entries[i]? = some e) :
    Leaves Anything (Undoing plan record name done) (restorePreimage sha256 name e i current backup)
      (fun _ => Undoing plan record name fun k => done k ∨ k = i) (Intact plan) := by
  unfold restorePreimage
  split
  · exact Triple.raise fun w hw => hw.1
  · have hclear : Leaves Anything (Undoing plan record name done) (clearTarget sha256 e current)
        (fun _ => Undoing plan record name done) (Intact plan) := by
      cases current with
      | none => exact Triple.pure fun w hw => hw
      | some s => exact removeInstalled_any (mem_of_getElem? he)
    exact hclear.bind fun _ => Triple.bind (Q := fun _ =>
      Undoing plan record name fun k => done k ∨ k = i) (converting_triple
        (Undoing.safe.change (fun _ w hw => hw.1) fun _ _ _ hw => hw.restore he))
      fun _ => Undoing.safe.look

theorem Undoing.also (h : Undoing plan record name done w)
    (hbackup : ∀ seat, w.disk.seats = [(name, seat)] -> seat.backups i = none) :
    Undoing plan record name (fun k => done k ∨ k = i) w := by
  obtain ⟨hintact, hfaithful, seat, hseats, hdone⟩ := h
  refine ⟨hintact, hfaithful, seat, hseats, ?_⟩
  rintro k (hk | rfl)
  · exact hdone k hk
  · exact hbackup seat hseats

theorem rollbackEntry_any (he : record.entries[i]? = some e) :
    Leaves Anything (Undoing plan record name done) (rollbackEntry sha256 name (e, i))
      (fun _ => Undoing plan record name fun k => done k ∨ k = i) (Intact plan) := by
  simp only [rollbackEntry]
  split
  · -- an entry that is only checked never had a backup
    rename_i hkind
    refine Triple.pure fun w hw => hw.also fun seat hseats => ?_
    by_contra hbackup
    obtain ⟨op, hop, hchanged, hexpected⟩ := (hw.1.seatOk hseats).backups i hbackup
    exact hw.2.1.kinds i op e hop he hchanged hexpected hkind
  · refine (converting_triple Undoing.safe.look).bind fun current => Triple.bind
      (Q := fun backup => fun w => Undoing plan record name done w ∧
        ∀ seat, w.disk.seats = [(name, seat)] ->
          backup = (seat.backups i).map (·.snapshot sha256)) (converting_triple
      (Undoing.safe.read fun w hw =>
        ⟨hw, fun seat hseats => by rw [Disk.fileAt_backup hseats]⟩)) fun backup => ?_
    · cases backup with
      | some snapshot => exact (restorePreimage_any he).weaken fun w hw => hw.1
      | none =>
        refine Triple.weaken (W := Undoing plan record name fun k => done k ∨ k = i)
          (rollbackInPlace_any (mem_of_getElem? he)) fun w hw =>
            hw.1.also fun seat hseats => ?_
        simpa using (hw.2 seat hseats).symm

theorem validateJournalRecord_any {P : World -> Prop} (hP : ∀ w, P w -> Intact plan w) :
    Leaves Anything P (validateJournalRecord name record) (fun _ => P) (Intact plan) := by
  unfold validateJournalRecord
  split
  · exact Triple.raise hP
  · split
    · exact Triple.pure fun w hw => hw
    · exact Triple.raise hP

theorem rollbackRecord_any : Leaves Anything
      (Undoing plan record name fun _ => record.state = .prepared)
      (rollbackRecord sha256 name record) (fun _ => Spent plan name) (Intact plan) := by
  refine (validateJournalRecord_any fun w hw => hw.1).bind fun _ =>
    onlyIf_triple (fun _ => ?_) fun hprepared w hw => ?_
  · let Gone (entries : List (Entry × Nat)) : World -> Prop :=
      Undoing plan record name fun k => ∃ x ∈ entries, x.2 = k
    have hloop : Leaves Anything (Gone [])
        (Faulty.forEach (rollbackEntry sha256 name) record.entries.zipIdx.reverse)
        (fun _ => Gone record.entries.zipIdx.reverse) (Intact plan) := by
      refine Triple.forEach Gone fun before ⟨e, i⟩ after heq => ?_
      have hmem : (e, i) ∈ record.entries.zipIdx := by
        rw [<- mem_reverse, heq]
        simp
      refine (rollbackEntry_any (mem_zipIdx_iff_getElem?.mp hmem)).post ?_
      rintro _ w ⟨hintact, hfaithful, seat, hseats, hdone⟩
      refine ⟨hintact, hfaithful, seat, hseats, ?_⟩
      rintro k ⟨x, hx, rfl⟩
      rcases mem_append.mp hx with hx | hx
      · exact hdone _ (.inl ⟨x, hx, rfl⟩)
      · exact hdone _ (.inr (by rw [mem_singleton.mp hx]))
    refine hloop.conseq (fun w hw => ?_) (fun _ w hw => ?_) (fun _ _ => id) fun _ => id
    · obtain ⟨hintact, hfaithful, seat, hseats, -⟩ := hw
      exact ⟨hintact, hfaithful, seat, hseats, by simp⟩
    · obtain ⟨hintact, hfaithful, seat, hseats, hdone⟩ := hw
      refine ⟨hintact, seat, hseats, .inl fun k => ?_⟩
      by_contra hbackup
      obtain ⟨op, hop, -⟩ := (hintact.seatOk hseats).backups k hbackup
      have hlength := congrArg List.length hfaithful.paths
      simp only [length_map] at hlength
      have hlt : k < record.entries.length := by
        rw [hlength]
        exact (List.getElem?_eq_some_iff.mp hop).1
      refine hbackup (hdone k ⟨(record.entries[k], k), ?_, rfl⟩)
      rw [mem_reverse, mem_zipIdx_iff_getElem?]
      exact getElem?_eq_getElem hlt
  · obtain ⟨hintact, -, seat, hseats, hdone⟩ := hw
    exact ⟨hintact, seat, hseats, .inl fun i => hdone i (not_not.mp hprepared)⟩

variable (plan) in
def Loaded (name : Nat) (journal : Option (Record × Nat)) (w : World) : Prop :=
  Intact plan w ∧ ∃ seat, w.disk.seats = [(name, seat)] ∧ seat.journal = journal

theorem recoverLoaded_any (journal : Option (Record × Nat)) :
    Leaves Anything (Loaded plan name journal) (recoverLoaded sha256 name journal)
      (fun _ => Unseated plan) (Intact plan) := by
  rcases journal with _ | ⟨record, identity⟩
  · refine (removeTransactionDirectory_any fun _ => id).weaken fun w hw => ?_
    obtain ⟨hintact, seat, hseats, hjournal⟩ := hw
    exact ⟨hintact, seat, hseats, (hintact.seatOk hseats).bare hjournal⟩
  · refine (validateJournalRecord_any fun w hw => hw.1).bind fun _ =>
      Triple.bind (Q := fun _ => Spent plan name) (onlyIf_triple (fun hstate => ?_)
        fun hstate w hw => ?_) fun _ => removeTransactionDirectory_any fun _ => id
    · refine rollbackRecord_any.weaken fun w hw => ?_
      obtain ⟨hintact, seat, hseats, hjournal⟩ := hw
      have hok := hintact.seatOk hseats
      exact ⟨hintact, hok.faithful _ _ hjournal hstate, seat, hseats,
        fun i hprepared => hok.prepared _ _ hjournal hprepared i⟩
    · obtain ⟨hintact, seat, hseats, hjournal⟩ := hw
      exact ⟨hintact, seat, hseats,
        .inr ((hintact.seatOk hseats).committed _ _ hjournal (not_not.mp hstate))⟩

theorem recoverLocked_any :
    Leaves Anything (Intact plan) (recoverLocked sha256) (fun _ => Unseated plan)
      (Intact plan) := by
  refine Triple.bind (Q := fun names w => Intact plan w ∧ ((names = [] ∧ w.disk.seats = []) ∨
    ∃ name seat, names = [name] ∧ w.disk.seats = [(name, seat)])) (Safe.read
      (Stable.safe (fun _ _ hw => hw.outside) (fun _ => id) fun _ => id) fun w hw => ⟨hw, ?_⟩)
    fun names => ?_
  · rcases hw.seats with hseats | ⟨name, seat, hseats, -⟩
    · exact .inl ⟨by simp [hseats], hseats⟩
    · exact .inr ⟨name, seat, by simp [hseats], hseats⟩
  · rcases names with _ | ⟨name, _ | ⟨second, rest⟩⟩
    · exact Triple.pure fun w hw => ⟨hw.1, by simpa using hw.2⟩
    · refine Triple.bind (Q := fun _ => Unseated plan) (Triple.bind (Q := fun journal =>
        Loaded plan name journal) ((Safe.read (P := fun w => Intact plan w ∧
          ∃ seat, w.disk.seats = [(name, seat)]) (Stable.safe ?_ (fun _ hw => hw.1) fun _ => id)
          fun w hw => ?_).weaken fun w hw => ⟨hw.1, by simpa using hw.2⟩)
        recoverLoaded_any) fun _ => Triple.pure fun w hw => hw
      · rintro o w ⟨hintact, seat, hseats⟩
        exact ⟨hintact.outside, seat, by simpa using hseats⟩
      · obtain ⟨hintact, seat, hseats⟩ := hw
        refine ⟨hintact, seat, hseats, ?_⟩
        rw [Disk.seat?_single hseats]
        rfl
    · exact fun w turns hw => by simp at hw

end Reprobit.Transaction

import Reprobit.Transaction.Model

/-!
# Rolling back

The states between the steps of a rollback.  Each version of a target is in place,
displaced, or replaced by the output, and the pinned paths are known to hold their
preimages; rolling back an entry pins its path, wherever its versions were.
-/

namespace Reprobit.Transaction

open Machine Faulty List Function

section

variable {α : Type} {allowed : Step -> Turn Outside Exn -> Prop} {P D F : World -> Prop}
  {Q : α -> World -> Prop} {C : World -> Prop} {X : Prop} {effect : Disk -> Except Exn (α × Disk)}
  {label : Step} {m : M α} {e : Exn}

/-- The turns allow no outside writer, and faults only where `X` holds. -/
structure Quiet (allowed : Step -> Turn Outside Exn -> Prop) (X : Prop) : Prop where
  outside : ∀ label turn, allowed label turn -> turn.outside = []
  fault : ∀ label turn, allowed label turn -> turn.fault ≠ .none -> X

theorem onDisk_rule (houtside : ∀ turn, allowed label turn -> ∀ w, P w ->
      P (turn.outside.foldl (fun w o => outsideAct o w) w)) (hD : ∀ w, P w -> D w)
    (hC : ∀ w, D w -> C w) (heffect : ∀ w a d, P w -> effect w.disk = .ok (a, d) ->
      Q a { w with disk := d } ∧ D { w with disk := d }) :
    Triple allowed P (onDisk label effect) Q (fun _ => D) C := by
  apply Triple.step houtside
  · exact fun turn w _ hw => ⟨fun _ _ => hD w hw, fun _ => hC w (hD w hw)⟩
  · intro turn w a w' _ hw heq
    cases hresult : effect w.disk with
    | error e => simp [hresult] at heq
    | ok result =>
      obtain ⟨a', d⟩ := result
      simp only [hresult, Except.ok.injEq, Prod.mk.injEq] at heq
      obtain ⟨rfl, rfl⟩ := heq
      obtain ⟨hq, hd⟩ := heffect w a' d hw hresult
      exact ⟨fun _ => hq, fun _ _ => hd, fun _ => hC _ hd⟩
  · exact fun turn w e _ hw _ => ⟨hD w hw, fun _ => hC w (hD w hw)⟩

/-- Other writers keep `P`; a failure leaves `D`, a crash `C`. -/
structure Safe (allowed : Step -> Turn Outside Exn -> Prop) (P D C : World -> Prop) : Prop where
  stable : ∀ label turn, allowed label turn -> ∀ w, P w ->
    P (turn.outside.foldl (fun w o => outsideAct o w) w)
  fails : ∀ w, P w -> D w
  crashes : ∀ w, D w -> C w

section

variable {view : Disk -> α} (h : Safe allowed P D C)

include h

theorem Safe.change (hQ : ∀ a w, Q a w -> D w)
    (heffect : ∀ w a d, P w -> effect w.disk = .ok (a, d) -> Q a { w with disk := d }) :
    Triple allowed P (onDisk label effect) Q (fun _ => D) C :=
  onDisk_rule (h.stable label) h.fails h.crashes
    fun w a d hw heq => ⟨heffect w a d hw heq, hQ a _ (heffect w a d hw heq)⟩

theorem Safe.step
    (heffect : ∀ w a d, P w -> effect w.disk = .ok (a, d) -> P { w with disk := d }) :
    Triple allowed P (onDisk label effect) (fun _ => P) (fun _ => D) C :=
  h.change (fun _ => h.fails) heffect

theorem Safe.read (hread : ∀ w, P w -> Q (view w.disk) w) :
    Triple allowed P (onDisk label fun d => .ok (view d, d)) Q (fun _ => D) C := by
  refine onDisk_rule (h.stable label) h.fails h.crashes fun w a d hw heq => ?_
  cases heq
  exact ⟨hread w hw, h.fails w hw⟩

theorem Safe.look :
    Triple allowed P (onDisk label fun d => .ok (view d, d)) (fun _ => P) (fun _ => D) C :=
  h.read fun _ => id

theorem Safe.check {condition : Prop} [Decidable condition] :
    Triple allowed P (orRaise condition e) (fun _ => P) (fun _ => D) C := by
  unfold orRaise
  split
  · exact Triple.pure fun w hw => hw
  · exact Triple.raise h.fails

end

theorem onDisk_triple (hquiet : Quiet allowed X) (hbefore : ∀ w, P w -> D w)
    (heffect : ∀ w, P w -> ∃ a d, effect w.disk = .ok (a, d) ∧ Q a { w with disk := d } ∧
      D { w with disk := d }) :
    Triple allowed P (onDisk label effect) Q (fun _ w => D w ∧ X) (fun w => D w ∧ X) := by
  apply Triple.step
  · intro turn hturn w hw
    rw [hquiet.outside _ _ hturn]
    exact hw
  · intro turn w hturn hw
    exact ⟨fun e he => ⟨hbefore w hw, hquiet.fault _ _ hturn (by simp [he])⟩,
      fun he => ⟨hbefore w hw, hquiet.fault _ _ hturn (by simp [he])⟩⟩
  · intro turn w a w' hturn hw heq
    obtain ⟨a', d, hok, hq, hd⟩ := heffect w hw
    simp only [hok] at heq
    obtain ⟨rfl, rfl⟩ := heq
    exact ⟨fun _ => hq, fun e he => ⟨hd, hquiet.fault _ _ hturn (by simp [he])⟩,
      fun he => ⟨hd, hquiet.fault _ _ hturn (by simp [he])⟩⟩
  · intro turn w e hturn hw heq
    obtain ⟨a', d, hok, -⟩ := heffect w hw
    simp [hok] at heq

theorem converting_triple (h : Triple allowed P m Q (fun _ w => F w) C) :
    Triple allowed P (converting m e) Q (fun _ w => F w) C :=
  h.attempt fun _ => Triple.raise fun _ hw => hw

theorem refusing_triple {message : String} (h : Triple allowed P m Q (fun _ w => F w) C) :
    Triple allowed P (refusing m message) Q (fun _ w => F w) C :=
  h.attempt fun _ => Triple.raise fun _ hw => hw

variable {Q : Unit -> World -> Prop}

theorem sync_triple (hquiet : Quiet allowed X) (hD : ∀ w, P w -> D w)
    (hQ : ∀ w, P w -> Q () w) :
    Triple allowed P sync Q (fun _ w => D w ∧ X) (fun w => D w ∧ X) :=
  onDisk_triple hquiet hD fun w hw => ⟨(), w.disk, rfl, hQ w hw, hD w hw⟩

theorem observe_triple (hquiet : Quiet allowed X) {sha256 : List Byte -> Digest} {place : Place}
    {Q : Option Snapshot -> World -> Prop} (hD : ∀ w, P w -> D w)
    (hQ : ∀ w, P w -> Q ((w.disk.fileAt place).map (·.snapshot sha256)) w) :
    Triple allowed P (observe sha256 place) Q (fun _ w => D w ∧ X) (fun w => D w ∧ X) :=
  onDisk_triple hquiet hD fun w hw => ⟨_, w.disk, rfl, hQ w hw, hD w hw⟩

variable {E : Exn -> World -> Prop} {condition : Prop}

theorem orRaise_triple [Decidable condition] (h : ∀ w, P w -> condition ∧ Q () w) :
    Triple allowed P (orRaise condition e) Q E C := by
  unfold orRaise
  split
  · exact Triple.pure fun w hw => (h w hw).2
  · exact Triple.raise fun w hw => absurd (h w hw).1 ‹_›

theorem onlyIf_triple [Decidable condition] {m : M Unit}
    (hm : condition -> Triple allowed P m Q E C) (hno : ¬ condition -> ∀ w, P w -> Q () w) :
    Triple allowed P (onlyIf condition m) Q E C := by
  unfold onlyIf
  split
  · exact hm ‹_›
  · exact Triple.pure (hno ‹_›)

end

section

variable {d : Disk} {name index : Nat} {seat : Seat} {file : Option File}

theorem Disk.seat?_single (h : d.seats = [(name, seat)]) : d.seat? name = some seat := by
  simp [Disk.seat?, h]

theorem single_inj {seats : List (Nat × Seat)} {name' : Nat} {a b : Seat}
    (ha : seats = [(name, a)]) (hb : seats = [(name', b)]) : name = name' ∧ a = b := by
  simpa using ha.symm.trans hb

theorem Disk.updateSeat_single (h : d.seats = [(name, seat)]) (f : Seat -> Seat) :
    (d.updateSeat name f).seats = [(name, f seat)] := by
  simp [Disk.updateSeat, h]

theorem Disk.fileAt_backup (h : d.seats = [(name, seat)]) :
    d.fileAt (.backup name index) = seat.backups index := by
  simp [Disk.fileAt, Disk.seat?_single h]

theorem Disk.fileAt_staged (h : d.seats = [(name, seat)]) :
    d.fileAt (.staged name index) = seat.staged index := by
  simp [Disk.fileAt, Disk.seat?_single h]

end

variable {sha256 : List Byte -> Digest}

/-- It is in place, displaced, or replaced by the output. -/
inductive Operation.Held (sha256 : List Byte -> Digest) (before : Path -> Option File)
    (op : Operation) (staged : Option Snapshot) (file backup : Option File) : Prop
  | inPlace (hfile : file = before op.path) (hbackup : backup = none)
  | displaced (hkind : op.kind ≠ .check) (hfile : file = none) (hbackup : backup = before op.path)
      (hsome : before op.path ≠ none)
  | installed (f : File) (hkind : op.kind = .write) (hfile : file = some f)
      (hbackup : backup = before op.path) (hstaged : staged = some (f.snapshot sha256))
      (hresult : op.result = some (sha256 f.data))

variable (plan : Plan sha256) (before : Path -> Option File)

def Operation.Expects (sha256 : List Byte -> Digest) (before : Path -> Option File)
    (op : Operation) : Prop :=
  op.expected = (before op.path).map fun f => sha256 f.data

/-- Of an operation with known preimage and staged output. -/
structure Entry.Of (sha256 : List Byte -> Digest) (before : Path -> Option File) (op : Operation)
    (staged : Option Snapshot) (e : Entry) : Prop where
  kind : e.kind = op.kind
  expected : e.expected = op.expected
  result : e.result = op.result
  preimage : e.preimage = (before op.path).map (·.snapshot sha256)
  staged : e.staged = staged
  expects : op.Expects sha256 before

/-- Its entries are those of the plan, some of them now checks. -/
structure Describes (record : Record) (staged : Nat -> Option Snapshot) : Prop where
  id : record.transactionId = plan.id
  wf : ∀ e ∈ record.entries, e.Wf
  length : record.entries.length = plan.ops.length
  path : ∀ (i : Nat) op e, plan.ops[i]? = some op -> record.entries[i]? = some e -> e.path = op.path
  entry : ∀ (i : Nat) op e, plan.ops[i]? = some op -> record.entries[i]? = some e ->
    e.kind ≠ .check -> e.Of sha256 before op (staged i)

/-- One seat, each version somewhere, and preimages at the pinned paths. -/
structure Rolling (name : Nat) (journal : Option (Record × Nat)) (staged : Nat -> Option Snapshot)
    (pins : Path -> Prop) (d : Disk) (seat : Seat) : Prop where
  seats : d.seats = [(name, seat)]
  journal : seat.journal = journal
  held : ∀ (i : Nat) op, plan.ops[i]? = some op ->
    op.Held sha256 before (staged i) (d.files op.path) (seat.backups i)
  pinned : ∀ path, pins path -> d.files path = before path

variable {plan before} {name i : Nat} {journal : Option (Record × Nat)}
  {staged : Nat -> Option Snapshot} {pins pins' : Path -> Prop} {d d' : Disk} {seat seat' : Seat}
  {op : Operation} {e : Entry} {file backup : Option File}

theorem Plan.index_eq {j : Nat} {op' : Operation} (hi : plan.ops[i]? = some op)
    (hj : plan.ops[j]? = some op') (hpath : op.path = op'.path) : i = j := by
  have hlt : i < (plan.ops.map (·.path)).length := by
    rw [length_map]
    exact (List.getElem?_eq_some_iff.mp hi).1
  refine (getElem?_inj hlt plan.paths).mp ?_
  simp [hi, hj, hpath]

section

variable (hop : plan.ops[i]? = some op)

include hop

/-- A change of one operation's target and backup. -/
theorem Rolling.replace (h : Rolling plan before name journal staged pins d seat)
    (hheld : op.Held sha256 before (staged i) file backup)
    (hpin : pins op.path -> file = before op.path) (hseats : d'.seats = [(name, seat')])
    (hjournal : seat'.journal = seat.journal)
    (hfiles : d'.files = update d.files op.path file)
    (hbackups : seat'.backups = update seat.backups i backup) :
    Rolling plan before name journal staged pins d' seat' where
  seats := hseats
  journal := hjournal.trans h.journal
  held := by
    intro j op' hop'
    rw [hfiles, hbackups]
    by_cases hij : j = i
    · subst hij
      rw [hop, Option.some.injEq] at hop'
      subst hop'
      simpa using hheld
    · have hpath : op'.path ≠ op.path := fun heq => hij (Plan.index_eq hop' hop heq)
      rw [update_of_ne hpath, update_of_ne hij]
      exact h.held j op' hop'
  pinned := by
    intro path hpath
    rw [hfiles]
    by_cases heq : path = op.path
    · subst heq
      simpa using hpin hpath
    · rw [update_of_ne heq]
      exact h.pinned path hpath

omit hop in
theorem Rolling.pin (h : Rolling plan before name journal staged pins d seat)
    (hpins : ∀ path, pins' path -> pins path ∨ d.files path = before path) :
    Rolling plan before name journal staged pins' d seat :=
  { h with pinned := fun path hpath => (hpins path hpath).elim (h.pinned path) id }

variable (plan before) in
def Stands (name : Nat) (journal : Option (Record × Nat)) (staged : Nat -> Option Snapshot)
    (pins : Path -> Prop) (op : Operation) (i : Nat) (file backup : Option File)
    (w : World) : Prop :=
  ∃ seat, Rolling plan before name journal staged pins w.disk seat ∧
    w.disk.files op.path = file ∧ seat.backups i = backup

variable (plan before) in
def Rolls (name : Nat) (journal : Option (Record × Nat)) (staged : Nat -> Option Snapshot)
    (pins : Path -> Prop) (w : World) : Prop :=
  ∃ seat, Rolling plan before name journal staged pins w.disk seat

variable {w : World} {f : File}

omit hop in
theorem Stands.rolls (h : Stands plan before name journal staged pins op i file backup w) :
    Rolls plan before name journal staged pins w :=
  h.imp fun _ h => h.1

theorem Stands.held (h : Stands plan before name journal staged pins op i file backup w) :
    op.Held sha256 before (staged i) file backup := by
  obtain ⟨seat, hrolling, rfl, rfl⟩ := h
  exact hrolling.held i op hop

/-- An installed output is not the preimage, so its path is not pinned. -/
theorem Operation.Expects.result_ne (h : op.Expects sha256 before)
    (hkind : op.kind = .write) (hresult : op.result = some (sha256 f.data)) :
    before op.path ≠ some f := by
  intro hbefore
  obtain ⟨data, -, -, hne⟩ := (plan.wf op (mem_of_getElem? hop)).written hkind
  apply hne
  rw [hresult, h, hbefore]
  rfl

theorem Stands.uninstall (h : Stands plan before name journal staged pins op i (some f) backup w)
    (hexpects : op.Expects sha256 before) (hkind : op.kind = .write)
    (hresult : op.result = some (sha256 f.data)) (hbackup : backup = before op.path) :
    Stands plan before name journal staged pins op i none backup
      { w with disk := w.disk.put none (.target op.path) } := by
  obtain ⟨seat, hrolling, hfile, hseat⟩ := h
  refine ⟨seat, ?_, by simp [Disk.put], hseat⟩
  have hheld : op.Held sha256 before (staged i) none backup := by
    by_cases hnone : before op.path = none
    · exact .inPlace hnone.symm (hbackup.trans hnone)
    · exact .displaced (by simp [hkind]) rfl hbackup hnone
  refine hrolling.replace hop hheld (fun hpin => ?_) hrolling.seats rfl rfl
    (by rw [<- hseat, update_eq_self])
  have hbefore := hfile.symm.trans (hrolling.pinned _ hpin)
  exact absurd hbefore.symm (hexpects.result_ne hop hkind hresult)

theorem Stands.restore (h : Stands plan before name journal staged pins op i none (some f) w)
    (hbefore : before op.path = some f) :
    Stands plan before name journal staged pins op i (some f) none
      { w with disk := (w.disk.put none (.backup name i)).put (some f) (.target op.path) } := by
  obtain ⟨seat, hrolling, hfile, hseat⟩ := h
  refine ⟨{ seat with backups := update seat.backups i none }, ?_, by simp [Disk.put],
    by simp⟩
  have hheld : op.Held sha256 before (staged i) (some f) none := .inPlace hbefore.symm rfl
  have hseats := Disk.updateSeat_single hrolling.seats fun s =>
    { s with backups := update s.backups i none }
  exact hrolling.replace hop hheld (fun _ => hbefore.symm) hseats rfl rfl rfl

/-! ### Triples -/

variable {allowed : Step -> Turn Outside Exn -> Prop} {X : Prop}

variable (plan before) in
/-- An interrupted rollback. -/
abbrev Cut (name : Nat) (journal : Option (Record × Nat)) (staged : Nat -> Option Snapshot)
    (pins : Path -> Prop) (X : Prop) (w : World) : Prop :=
  Rolls plan before name journal staged pins w ∧ X

section

variable (hquiet : Quiet allowed X) (hpath : e.path = op.path)
  (hentry : e.Of sha256 before op (staged i))

include hquiet hpath hentry

theorem removeInstalled_triple (hkind : op.kind = .write)
    (hstaged : staged i = some (f.snapshot sha256)) (hresult : op.result = some (sha256 f.data))
    (hbackup : backup = before op.path) :
    Leaves allowed (Stands plan before name journal staged pins op i (some f) backup)
      (removeInstalled sha256 e (f.snapshot sha256))
      (fun _ => Stands plan before name journal staged pins op i none backup)
        (Cut plan before name journal staged pins X) := by
  unfold removeInstalled
  rw [if_neg (by
    simp [hentry.kind, hkind, Snapshot.MatchesRecord, hentry.staged, hstaged, hentry.result,
      hresult, File.snapshot])]
  refine Triple.bind (Q := fun removed w => removed = true ∧
    Stands plan before name journal staged pins op i none backup w) ?_ fun removed => ?_
  · refine onDisk_triple hquiet (fun w hw => hw.rolls) fun w hw => ?_
    have hnext := hw.uninstall hop hentry.expects hkind hresult hbackup
    obtain ⟨seat, hrolling, hfile, -⟩ := hw
    refine ⟨true, _, ?_, ⟨rfl, hnext⟩, hnext.rolls⟩
    rw [removeEffect, hpath, hfile]
    exact if_pos rfl
  · exact orRaise_triple fun w hw => hw

theorem restorePreimage_triple :
    Leaves allowed (Stands plan before name journal staged pins op i file (some f))
      (restorePreimage sha256 name e i (file.map (·.snapshot sha256)) (f.snapshot sha256))
      (fun _ w => Rolls plan before name journal staged pins w ∧
        w.disk.files op.path = before op.path) (Cut plan before name journal staged pins X) := by
  apply Triple.of_pre fun w hw => hw.held hop
  intro hheld
  have hbefore : before op.path = some f := by
    cases hheld with
    | inPlace _ hbackup => simp at hbackup
    | displaced _ _ hbackup => exact hbackup.symm
    | installed _ _ _ hbackup => exact hbackup.symm
  have hexpected : op.expected = some (sha256 f.data) := by
    rw [hentry.expects, hbefore]
    rfl
  unfold restorePreimage
  rw [if_neg (by
    simp [Snapshot.MatchesRecord, hentry.preimage, hbefore, hentry.expected, hexpected,
      File.snapshot])]
  -- the target is free, or has the installed output
  have hclear : Leaves allowed (Stands plan before name journal staged pins op i file (some f))
      (clearTarget sha256 e (file.map (·.snapshot sha256)))
      (fun _ => Stands plan before name journal staged pins op i none (some f))
        (Cut plan before name journal staged pins X) := by
    cases hheld with
    | inPlace _ hbackup => simp at hbackup
    | displaced _ hfile =>
      subst hfile
      exact Triple.pure fun w hw => hw
    | installed g hkind hfile hbackup hstaged hresult =>
      subst hfile
      exact removeInstalled_triple hop hquiet hpath hentry hkind hstaged hresult hbackup
  refine hclear.bind fun _ => Triple.bind (Q := fun _ =>
    Stands plan before name journal staged pins op i (some f) none) ?_ fun _ => ?_
  · apply converting_triple
    refine onDisk_triple hquiet (fun w hw => hw.rolls) fun w hw => ?_
    have hnext := hw.restore hop hbefore
    obtain ⟨seat, hrolling, hfile, hseat⟩ := hw
    refine ⟨f.snapshot sha256, _, ?_, hnext, hnext.rolls⟩
    have hbackup := (Disk.fileAt_backup hrolling.seats).trans hseat
    rw [promoteEffect, hpath, hbackup]
    exact if_pos ⟨rfl, hfile⟩
  · refine sync_triple hquiet (fun w hw => hw.rolls) fun w hw => ⟨hw.rolls, ?_⟩
    obtain ⟨-, -, hfile, -⟩ := hw
    rw [hfile, hbefore]

theorem rollbackInPlace_triple :
    Leaves allowed (Stands plan before name journal staged pins op i file none)
      (rollbackInPlace sha256 e (file.map (·.snapshot sha256)))
      (fun _ w => Rolls plan before name journal staged pins w ∧
        w.disk.files op.path = before op.path) (Cut plan before name journal staged pins X) := by
  apply Triple.of_pre fun w hw => hw.held hop
  intro hheld
  have hexpected : e.expected = (before op.path).map fun f => sha256 f.data :=
    hentry.expected.trans hentry.expects
  cases hheld with
  | inPlace hfile =>
    subst hfile
    have hdone : ∀ w, Stands plan before name journal staged pins op i (before op.path) none w ->
        Rolls plan before name journal staged pins w ∧ w.disk.files op.path = before op.path :=
      fun w hw => ⟨hw.rolls, by obtain ⟨-, -, hfile, -⟩ := hw; exact hfile⟩
    cases hbefore : before op.path with
    | none =>
      rw [hbefore] at hdone hexpected
      simp only [rollbackInPlace, hexpected]
      exact Triple.pure hdone
    | some f =>
      rw [hbefore] at hdone hexpected
      simp only [rollbackInPlace, hexpected]
      refine orRaise_triple fun w hw => ⟨⟨?_, ?_⟩, hdone w hw⟩
      · rw [hentry.preimage, hbefore]
        rfl
      · exact .inr rfl
  | displaced _ _ hbackup hsome => exact absurd hbackup.symm hsome
  | installed f hkind hfile hbackup hstaged hresult =>
    subst hfile
    rw [<- hbackup] at hexpected
    simp only [rollbackInPlace, hexpected]
    refine (removeInstalled_triple hop hquiet hpath hentry hkind hstaged hresult hbackup).bind
      fun _ => sync_triple hquiet (fun w hw => hw.rolls) fun w hw => ⟨hw.rolls, ?_⟩
    obtain ⟨-, -, hfile, -⟩ := hw
    rw [hfile, hbackup]

end

theorem rollbackEntry_triple (hquiet : Quiet allowed X)
    (hpath : e.path = op.path) (hentry : e.kind ≠ .check -> e.Of sha256 before op (staged i))
    (hpin : e.kind = .check -> pins op.path) :
    Leaves allowed (Rolls plan before name journal staged pins) (rollbackEntry sha256 name (e, i))
      (fun _ => Rolls plan before name journal staged fun path => pins path ∨
      path = op.path) (Cut plan before name journal staged pins X) := by
  simp only [rollbackEntry]
  split
  · rename_i hkind
    refine Triple.pure fun w ⟨seat, hrolling⟩ => ⟨seat, hrolling.pin fun path hp => .inl ?_⟩
    rcases hp with hp | rfl
    · exact hp
    · exact hpin hkind
  · rename_i hkind
    have hentry := hentry hkind
    refine Triple.bind (Q := fun current w => ∃ file backup,
      current = file.map (·.snapshot sha256) ∧
        Stands plan before name journal staged pins op i file backup w) ?_ fun current =>
      Triple.bind (Q := fun saved w => ∃ file backup, current = file.map (·.snapshot sha256) ∧
        saved = backup.map (·.snapshot sha256) ∧
        Stands plan before name journal staged pins op i file backup w) ?_ fun saved => ?_
    · apply converting_triple
      refine observe_triple hquiet (fun w hw => hw) fun w ⟨seat, hrolling⟩ => ?_
      exact ⟨_, _, by rw [Disk.fileAt, hpath], seat, hrolling, rfl, rfl⟩
    · apply converting_triple
      refine observe_triple hquiet (fun w ⟨_, _, _, hw⟩ => hw.rolls) fun w ⟨file, backup, hw⟩ => ?_
      obtain ⟨hcurrent, seat, hrolling, hfile, hseat⟩ := hw
      exact ⟨file, backup, hcurrent, by rw [Disk.fileAt_backup hrolling.seats, hseat],
        seat, hrolling, hfile, hseat⟩
    · refine Triple.exists fun file => Triple.exists fun backup => ?_
      refine Triple.of_pre (p := current = file.map (·.snapshot sha256) ∧
        saved = backup.map (·.snapshot sha256)) (fun w hw => ⟨hw.1, hw.2.1⟩) ?_
      rintro ⟨rfl, rfl⟩
      have hrolled : Leaves allowed (Stands plan before name journal staged pins op i file backup)
          (rollbackObserved sha256 name e i (file.map (·.snapshot sha256))
            (backup.map (·.snapshot sha256)))
          (fun _ w => Rolls plan before name journal staged pins w ∧
            w.disk.files op.path = before op.path)
            (Cut plan before name journal staged pins X) := by
        cases backup with
        | none => exact rollbackInPlace_triple hop hquiet hpath hentry
        | some f => exact restorePreimage_triple hop hquiet hpath hentry
      refine (hrolled.post fun _ w hw => ?_).weaken fun w hw => hw.2.2
      obtain ⟨⟨seat, hrolling⟩, hfile⟩ := hw
      refine ⟨seat, hrolling.pin fun path hp => ?_⟩
      rcases hp with hp | rfl
      · exact .inl hp
      · exact .inr hfile

end

variable (plan before) in
/-- Rolling back the record restores every preimage that is not pinned. -/
structure Undoable (record : Record) (staged : Nat -> Option Snapshot) (pins : Path -> Prop) :
    Prop where
  id : record.transactionId = plan.id
  wf : ∀ e ∈ record.entries, e.Wf
  prepared : record.state = .prepared -> ∀ op ∈ plan.ops, pins op.path
  described : record.state ≠ .prepared -> Describes plan before record staged
  checks : record.state ≠ .prepared -> ∀ e ∈ record.entries, e.kind = .check -> pins e.path

variable {record : Record}

theorem Undoable.mono (h : Undoable plan before record staged pins)
    (hpins : ∀ path, pins path -> pins' path) : Undoable plan before record staged pins' :=
  { h with
    prepared := fun hstate op hop => hpins _ (h.prepared hstate op hop)
    checks := fun hstate e he hkind => hpins _ (h.checks hstate e he hkind) }

theorem Rolls.mono (h : Rolls plan before name journal staged pins w)
    (hpins : ∀ path, pins' path -> pins path) : Rolls plan before name journal staged pins' w :=
  h.imp fun _ h => h.pin fun path hp => .inl (hpins path hp)

variable (plan before) in
/-- Every target has its preimage. -/
def AllBefore (files : Path -> Option File) : Prop :=
  ∀ op ∈ plan.ops, files op.path = before op.path

theorem validateJournalRecord_triple {P : World -> Prop} {C : World -> Prop}
    (hid : record.transactionId = name) (hwf : ∀ e ∈ record.entries, e.Wf) :
    Triple allowed P (validateJournalRecord name record) (fun _ => P) E C := by
  unfold validateJournalRecord
  rw [if_neg (by simp [hid]), if_pos hwf]
  exact Triple.pure fun w hw => hw

theorem rollbackRecord_triple (hquiet : Quiet allowed X)
    (hundo : Undoable plan before record staged pins) :
    Leaves allowed (Rolls plan before plan.id journal staged pins)
      (rollbackRecord sha256 plan.id record)
      (fun _ w => Rolls plan before plan.id journal staged pins w ∧
        AllBefore plan before w.disk.files) (Cut plan before plan.id journal staged pins X) := by
  refine (validateJournalRecord_triple hundo.id hundo.wf).bind fun _ => onlyIf_triple ?_ ?_
  · intro hstate
    have hdescribed := hundo.described hstate
    -- the entries already done are pinned
    let Pinned (done : List (Entry × Nat)) : World -> Prop :=
      Rolls plan before plan.id journal staged fun path => pins path ∨ ∃ x ∈ done, x.1.path = path
    have hloop : Leaves allowed (Pinned [])
        (Faulty.forEach (rollbackEntry sha256 plan.id) record.entries.zipIdx.reverse)
        (fun _ => Pinned record.entries.zipIdx.reverse)
        (Cut plan before plan.id journal staged pins X) := by
      refine Triple.forEach Pinned fun done ⟨e, i⟩ todo heq => ?_
      have hmem : (e, i) ∈ record.entries.zipIdx := by
        rw [<- mem_reverse, heq]
        simp
      have hentry : record.entries[i]? = some e := mem_zipIdx_iff_getElem?.mp hmem
      have hlt : i < plan.ops.length := by
        rw [<- hdescribed.length]
        exact (List.getElem?_eq_some_iff.mp hentry).1
      have hop : plan.ops[i]? = some plan.ops[i] := getElem?_eq_getElem hlt
      have hpath := hdescribed.path i _ e hop hentry
      refine (rollbackEntry_triple hop hquiet hpath (hdescribed.entry i _ e hop hentry)
        fun hkind => ?_).conseq (fun _ => id) (fun _ w hw => hw.mono ?_)
        (fun _ w hw => ⟨hw.1.mono fun _ => .inl, hw.2⟩) fun w hw => ⟨hw.1.mono fun _ => .inl, hw.2⟩
      · rw [<- hpath]
        exact .inl (hundo.checks hstate e (mem_of_getElem? hentry) hkind)
      · rintro path (hp | ⟨x, hx, rfl⟩)
        · exact .inl (.inl hp)
        · rcases mem_append.mp hx with hx | hx
          · exact .inl (.inr ⟨x, hx, rfl⟩)
          · rw [mem_singleton.mp hx]
            exact .inr hpath
    refine hloop.conseq (fun w hw => hw.mono (by simp)) (fun _ w hw => ⟨?_, ?_⟩) (fun _ _ => id)
      fun _ => id
    · exact hw.mono fun path hp => .inl hp
    · intro op hop
      obtain ⟨seat, hrolling⟩ := hw
      obtain ⟨i, hi, rfl⟩ := getElem_of_mem hop
      have hlt : i < record.entries.length := by
        rw [hdescribed.length]
        exact hi
      refine hrolling.pinned _ (.inr ⟨(record.entries[i], i), ?_, ?_⟩)
      · rw [mem_reverse, mem_zipIdx_iff_getElem?]
        exact getElem?_eq_getElem hlt
      · exact hdescribed.path i _ _ (getElem?_eq_getElem hi) (getElem?_eq_getElem hlt)
  · intro hstate w hw
    refine ⟨hw, fun op hop => ?_⟩
    obtain ⟨seat, hrolling⟩ := hw
    exact hrolling.pinned _ (hundo.prepared (not_not.mp hstate) op hop)

end Reprobit.Transaction

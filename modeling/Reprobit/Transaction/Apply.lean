import Reprobit.Transaction.Publish

/-!
# Applying the operations

The operations of a plan are applied in order.  Those before the current one are done,
those after it are untouched, and the versions of the current one can be anywhere on
the way.
-/

namespace Reprobit.Transaction

open Machine Faulty List Option Function

variable {sha256 : List Byte -> Digest} (plan : Plan sha256) (before : Path -> Option File)
  (staged preimages : List (Nat × Snapshot))

/-- Operations below `k` are done, those from `j` on untouched. -/
structure Applying (k j : Nat) (w : World) (seat : Seat) : Prop where
  rolling : Rolling plan before plan.id seat.journal (staged.lookup ·) (checkPins plan) w.disk seat
  journal : ∃ identity, seat.journal = some (appliedRecord plan staged preimages .applying,
    identity)
  memory : w.memory.record = appliedRecord plan staged preimages .applying
  known : w.memory.journal ≠ none
  rolledBack : w.memory.rolledBack = false
  done : ∀ (i : Nat) op, plan.ops[i]? = some op -> i < k -> op.After before w.disk.files
  untouched : ∀ (i : Nat) op, plan.ops[i]? = some op -> j <= i ->
    w.disk.files op.path = before op.path ∧ seat.backups i = none
  outputs : ∀ (i : Nat) op data, plan.ops[i]? = some op -> j <= i -> op.data = some data ->
    ∃ f : File, seat.staged i = some f ∧ f.data = data ∧ staged.lookup i = some (f.snapshot sha256)

variable {plan before staged preimages} {k j i : Nat} {w : World} {seat seat' : Seat} {d : Disk}
  {op : Operation} {file backup out : Option File} {g : Entry -> Entry} {record : Record}
  {e : Entry}

theorem Operation.After.congr {files files' : Path -> Option File} (h : op.After before files)
    (heq : files' op.path = files op.path) : op.After before files' := by
  unfold Operation.After at h ⊢
  rw [heq]
  exact h

theorem Operation.Expects.before_eq_none (h : op.Expects sha256 before)
    (hexpected : op.expected = none) : before op.path = none := by
  rw [Operation.Expects, hexpected] at h
  simpa using h.symm

theorem Plan.kind_write_iff (hop : plan.ops[i]? = some op) : op.kind = .write ↔ op.data ≠ none := by
  have hwf := plan.wf op (mem_of_getElem? hop)
  constructor
  · intro hkind
    obtain ⟨data, hdata, -⟩ := hwf.written hkind
    simp [hdata]
  · intro hdata
    by_contra hkind
    exact hdata (hwf.unwritten hkind).1

theorem not_checkPins (hop : plan.ops[i]? = some op) (hkind : op.kind ≠ .check) :
    ¬ checkPins plan op.path := by
  rintro ⟨op', hop', hkind', hpath⟩
  obtain ⟨i', hi'⟩ := mem_iff_getElem?.mp hop'
  have heq := Plan.index_eq hi' hop hpath
  subst heq
  rw [hop, some.injEq] at hi'
  subst hi'
  exact hkind hkind'

theorem Record.getElem?_setEntry (h : (record.setEntry k g).entries[i]? = some e) :
    (∃ e', record.entries[i]? = some e' ∧ i = k ∧ e = g e') ∨ record.entries[i]? = some e := by
  rw [Record.setEntry, getElem?_modify] at h
  by_cases hik : k = i
  · obtain ⟨e', he', rfl⟩ := map_eq_some_iff.mp h
    exact .inl ⟨e', he', hik.symm, by simp [hik]⟩
  · simp only [hik, if_false, id_map'] at h
    exact .inr h

theorem Record.mem_setEntry (h : e ∈ (record.setEntry k g).entries) :
    (∃ e', record.entries[k]? = some e' ∧ e = g e') ∨ e ∈ record.entries := by
  obtain ⟨i, hi⟩ := mem_iff_getElem?.mp h
  rcases Record.getElem?_setEntry hi with ⟨e', he', rfl, rfl⟩ | he
  · exact .inl ⟨e', he', rfl⟩
  · exact .inr (mem_of_getElem? he)

variable (plan before staged preimages) in
def Amid (op : Operation) (k : Nat) (file backup out : Option File) (w : World) : Prop :=
  ∃ seat, Applying plan before staged preimages k (k + 1) w seat ∧
    w.disk.files op.path = file ∧ seat.backups k = backup ∧ seat.staged k = out

variable (plan before staged preimages) in
def Applies (k : Nat) (w : World) : Prop := ∃ seat, Applying plan before staged preimages k k w seat

theorem Applying.later (h : Applying plan before staged preimages k j w seat) {j' : Nat}
    (hle : j <= j') : Applying plan before staged preimages k j' w seat :=
  { h with
    untouched := fun i op hop hi => h.untouched i op hop (hle.trans hi)
    outputs := fun i op data hop hi => h.outputs i op data hop (hle.trans hi) }

theorem promoteEffect_eq_ok {source destination : Place} {expected snapshot : Snapshot}
    {d d' : Disk}
    (h : promoteEffect sha256 source destination expected d = .ok (snapshot, d')) :
    (d.fileAt source).map (·.snapshot sha256) = some expected ∧ d.fileAt destination = none ∧
      snapshot = expected ∧ d' = (d.put none source).put (d.fileAt source) destination := by
  unfold promoteEffect at h
  split at h
  · rename_i hmatch
    simp only [Except.ok.injEq, Prod.mk.injEq] at h
    exact ⟨hmatch.1, hmatch.2, h.1.symm, h.2.symm⟩
  · simp at h

variable (hcaptured : Captured plan before preimages) (hop : plan.ops[k]? = some op) {f : File}
  {pins : Path -> Prop}

section

include hop

theorem Applying.replace (h : Applying plan before staged preimages k (k + 1) w seat)
    (hkind : op.kind ≠ .check)
    (hheld : op.Held sha256 before (staged.lookup k) file backup)
    (hseats : d.seats = [(plan.id, seat')]) (hjournal : seat'.journal = seat.journal)
    (hfiles : d.files = update w.disk.files op.path file)
    (hbackups : seat'.backups = update seat.backups k backup)
    (hstaged : ∀ i, i ≠ k -> seat'.staged i = seat.staged i) :
    Applying plan before staged preimages k (k + 1) { w with disk := d } seat' := by
  have hother : ∀ (i : Nat) op', plan.ops[i]? = some op' -> i ≠ k ->
      d.files op'.path = w.disk.files op'.path := by
    intro i op' hop' hne
    rw [hfiles, update_of_ne]
    exact fun heq => hne (Plan.index_eq hop' hop heq)
  exact {
    rolling := hjournal ▸ h.rolling.replace hop hheld
      (fun hpin => absurd hpin (not_checkPins hop hkind)) hseats hjournal hfiles hbackups
    journal := hjournal ▸ h.journal
    memory := h.memory
    known := h.known
    rolledBack := h.rolledBack
    done := fun i op' hop' hlt => (h.done i op' hop' hlt).congr (hother i op' hop' hlt.ne)
    untouched := fun i op' hop' hle => by
      have hne : i ≠ k := by omega
      obtain ⟨hfile, hbackup⟩ := h.untouched i op' hop' hle
      exact ⟨(hother i op' hop' hne).trans hfile, by
        rw [hbackups, update_of_ne hne, hbackup]⟩
    outputs := fun i op' data hop' hle hdata => by
      rw [hstaged i (by omega)]
      exact h.outputs i op' data hop' hle hdata }

theorem Amid.displace (h : Amid plan before staged preimages op k (some f) none out w)
    (hkind : op.kind ≠ .check) (hbefore : before op.path = some f) :
    Amid plan before staged preimages op k none (some f) out
      { w with disk := (w.disk.put none (.target op.path)).put (some f) (.backup plan.id k) } := by
  obtain ⟨seat, h, hfile, hbackup, hout⟩ := h
  have hheld : op.Held sha256 before (staged.lookup k) none (some f) :=
    .displaced hkind rfl hbefore.symm (by simp [hbefore])
  refine ⟨{ seat with backups := update seat.backups k (some f) },
    h.replace hop hkind hheld ?_ rfl rfl rfl fun _ _ => rfl, by simp [Disk.put, Disk.updateSeat],
    by simp, hout⟩
  exact Disk.updateSeat_single h.rolling.seats fun s =>
    { s with backups := update s.backups k (some f) }

theorem Amid.install (h : Amid plan before staged preimages op k none (before op.path) (some f) w)
    (hkind : op.kind = .write) (hresult : op.result = some (sha256 f.data))
    (hlookup : staged.lookup k = some (f.snapshot sha256)) :
    Amid plan before staged preimages op k (some f) (before op.path) none
      { w with disk := (w.disk.put none (.staged plan.id k)).put (some f) (.target op.path) } := by
  obtain ⟨seat, h, hfile, hbackup, hout⟩ := h
  have hheld : op.Held sha256 before (staged.lookup k) (some f) (before op.path) :=
    .installed f hkind rfl rfl hlookup hresult
  refine ⟨{ seat with staged := update seat.staged k none },
    h.replace hop (by simp [hkind]) hheld ?_ rfl rfl ?_ ?_, by simp [Disk.put], hbackup, by simp⟩
  · exact Disk.updateSeat_single h.rolling.seats fun s =>
      { s with staged := update s.staged k none }
  · rw [<- hbackup, update_eq_self]
  · exact fun i hne => update_of_ne hne _ _

theorem Undoable.setCheck {snapshots : Nat -> Option Snapshot}
    (h : Undoable plan before record snapshots pins) (hstate : record.state ≠ .prepared) :
    Undoable plan before
      (record.setEntry k fun e => { e with kind := .check, result := none, staged := none })
      snapshots fun path => pins path ∨ path = op.path := by
  have hdescribed := h.described hstate
  have hwf : ∀ e ∈ (record.setEntry k fun e =>
      { e with kind := .check, result := none, staged := none }).entries, e.Wf := by
    intro e he
    rcases Record.mem_setEntry he with ⟨e', he', rfl⟩ | he
    · exact ⟨by simp, (h.wf e' (mem_of_getElem? he')).2⟩
    · exact h.wf e he
  exact {
    id := h.id
    wf := hwf
    prepared := fun hprepared => absurd hprepared hstate
    described := fun _ => {
      id := h.id
      wf := hwf
      length := by rw [Record.setEntry, length_modify, hdescribed.length]
      path := by
        intro i op' e hop' he
        rcases Record.getElem?_setEntry he with ⟨e', he', -, rfl⟩ | he'
        · exact hdescribed.path i op' e' hop' he'
        · exact hdescribed.path i op' e hop' he'
      entry := by
        intro i op' e hop' he hkind
        rcases Record.getElem?_setEntry he with ⟨e', he', -, rfl⟩ | he'
        · exact absurd rfl hkind
        · exact hdescribed.entry i op' e hop' he' hkind }
    checks := by
      intro _ e he hkind
      rcases Record.mem_setEntry he with ⟨e', he', rfl⟩ | he
      · exact .inr (hdescribed.path k op e' hop he')
      · exact .inl (h.checks hstate e he hkind) }

theorem Applies.amid (h : Applies plan before staged preimages k w) :
    ∃ out, Amid plan before staged preimages op k (before op.path) none out w ∧
      ∀ data, op.data = some data -> ∃ f : File, out = some f ∧ f.data = data ∧
        staged.lookup k = some (f.snapshot sha256) := by
  obtain ⟨seat, h⟩ := h
  obtain ⟨hfile, hbackup⟩ := h.untouched k op hop le_rfl
  exact ⟨seat.staged k, ⟨seat, h.later k.le_succ, hfile, hbackup, rfl⟩,
    fun data hdata => h.outputs k op data hop le_rfl hdata⟩

theorem Applies.next (h : Applying plan before staged preimages k (k + 1) w seat)
    (hafter : op.After before w.disk.files) : Applies plan before staged preimages (k + 1) w := by
  refine ⟨seat, { h with done := fun i op' hop' hlt => ?_ }⟩
  rcases Nat.lt_succ_iff_lt_or_eq.mp hlt with hlt | rfl
  · exact h.done i op' hop' hlt
  · rw [hop, some.injEq] at hop'
    exact hop' ▸ hafter

end

include hcaptured

theorem Applying.troubled_of (h : Applying plan before staged preimages k j w seat)
    {memory : Memory}
    (hpins : ∀ path, pins path -> checkPins plan path ∨ w.disk.files path = before path)
    (hchecks : ∀ path, checkPins plan path -> pins path)
    (hundo : Undoable plan before memory.record (staged.lookup ·) pins)
    (hknown : memory.journal ≠ none) : Troubled plan before { w with memory } := by
  obtain ⟨identity, hjournal⟩ := h.journal
  refine ⟨seat, _, pins, h.rolling.pin hpins, by simp [hjournal], fun record identity' hsome => ?_,
    hundo, fun hnone => absurd hnone hknown⟩
  rw [hjournal, some.injEq, Prod.mk.injEq] at hsome
  exact hsome.1 ▸ ⟨by simp [appliedRecord],
    (appliedRecord_undoable hcaptured (by simp)).mono hchecks⟩

theorem Applying.troubled (h : Applying plan before staged preimages k j w seat) :
    Troubled plan before w :=
  h.troubled_of hcaptured (fun _ => .inl) (fun _ => id)
    (h.memory ▸ appliedRecord_undoable hcaptured (by simp)) h.known

theorem Amid.troubled (h : Amid plan before staged preimages op k file backup out w) :
    Troubled plan before w := by
  obtain ⟨seat, h, -⟩ := h
  exact h.troubled hcaptured

theorem Amid.safe : Safe Benign (Amid plan before staged preimages op k file backup out)
    (Troubled plan before) (Either plan before) :=
  Benign.safe (fun _ hw => hw.troubled hcaptured) fun _ hw => hw.either

include hop

theorem displace_triple (hkind : op.kind ≠ .check) (hexpected : op.expected ≠ none) :
    Undoes plan before (Amid plan before staged preimages op k (before op.path) none out)
      (displace plan preimages op k)
      (fun _ => Amid plan before staged preimages op k none (before op.path) out) := by
  have hexpects := hcaptured.expects op (mem_of_getElem? hop)
  have hlookup := hcaptured.lookup k op hop
  cases hbefore : before op.path with
  | none => exact absurd (by rw [hexpects, hbefore]; rfl) hexpected
  | some f =>
    rw [hbefore, map_some] at hlookup
    simp only [displace, hlookup]
    refine Triple.bind (Q := fun _ => Amid plan before staged preimages op k none (some f) out)
      (converting_triple ((Amid.safe hcaptured).change (fun _ w hw => hw.troubled hcaptured)
        fun w snapshot d hw heq => ?_)) fun _ => (Amid.safe hcaptured).look
    obtain ⟨-, -, -, rfl⟩ := promoteEffect_eq_ok heq
    have hnext := hw.displace hop hkind hbefore
    obtain ⟨seat, -, hfile, -⟩ := hw
    rw [Disk.fileAt, hfile]
    exact hnext

theorem Amid.setCheck (h : Amid plan before staged preimages op k none backup out w)
    (hbefore : before op.path = none) :
    Troubled plan before { w with memory := { w.memory with
      record := w.memory.record.setEntry k fun e =>
        { e with kind := .check, result := none, staged := none } } } := by
  obtain ⟨seat, h, hfile, -⟩ := h
  have hpins : ∀ path, checkPins plan path ∨ path = op.path ->
      checkPins plan path ∨ w.disk.files path = before path := by
    rintro path (hpin | rfl)
    · exact .inl hpin
    · exact .inr (hfile.trans hbefore.symm)
  exact h.troubled_of hcaptured hpins (fun _ => .inl) (h.memory ▸
    (appliedRecord_undoable hcaptured (by simp)).setCheck hop (by simp [appliedRecord])) h.known

theorem promotionRefused_triple {α : Type} {Q : α -> World -> Prop} : Undoes plan before
      (fun w => (op.expected = none -> Amid plan before staged preimages op k none backup out w) ∧
        Troubled plan before w)
      (promotionRefused plan op k) Q := by
  refine Triple.bind (Q := fun _ => Troubled plan before) (onlyIf_triple (fun hexpected => ?_)
    fun _ w hw => hw.2) fun _ => Triple.raise fun w hw => hw
  have hbefore := (hcaptured.expects op (mem_of_getElem? hop)).before_eq_none hexpected
  refine Triple.bind (Q := fun _ w => Troubled plan before w ∧
    w.memory.record.state ≠ .committed) (Triple.change fun w hw => ?_) fun _ =>
      writeJournal_triple (fun w hw => hw.1) (fun w hw => hw.2) fun w seat committed hw hseats =>
        hw.1.journaled hw.2 hseats rfl (by simp)
  refine ⟨(hw.1 hexpected).setCheck hcaptured hop hbefore, ?_⟩
  obtain ⟨seat, h, -⟩ := hw.1 hexpected
  simp [Record.setEntry, h.memory, appliedRecord]

/-- A benign promotion that raises has installed nothing. -/
theorem promoteStaged_triple (hkind : op.kind = .write) (hresult : op.result = some (sha256 f.data))
    (hlookup : staged.lookup k = some (f.snapshot sha256)) :
    Triple Benign (Amid plan before staged preimages op k none (before op.path) (some f))
      (promote sha256 (.promoteStaged (op.expected = none)) (.staged plan.id k) (.target op.path)
        (f.snapshot sha256))
      (fun _ => Amid plan before staged preimages op k (some f) (before op.path) none)
      (fun e w => (e = .securePath -> op.expected = none ->
        Amid plan before staged preimages op k none (before op.path) (some f) w) ∧
          Troubled plan before w)
      (Either plan before) := by
  apply Triple.step
  · intro turn hturn w hw
    rw [hturn.1]
    exact hw
  · exact fun turn w _ hw => ⟨fun _ _ => ⟨fun _ _ => hw, hw.troubled hcaptured⟩,
      fun _ => (hw.troubled hcaptured).either⟩
  · intro turn w snapshot w' hturn hw heq
    cases hresult' : promoteEffect sha256 (.staged plan.id k) (.target op.path) (f.snapshot sha256)
        w.disk with
    | error e => simp [hresult'] at heq
    | ok result =>
      obtain ⟨snapshot', d⟩ := result
      simp only [hresult'] at heq
      obtain ⟨rfl, rfl⟩ := heq
      obtain ⟨-, -, -, rfl⟩ := promoteEffect_eq_ok hresult'
      have hnext := hw.install hop hkind hresult hlookup
      obtain ⟨seat, h, -, -, hout⟩ := hw
      rw [Disk.fileAt_staged h.rolling.seats, hout]
      refine ⟨fun _ => hnext, fun e he => ⟨?_, hnext.troubled hcaptured⟩,
        fun _ => (hnext.troubled hcaptured).either⟩
      rintro rfl hexpected
      exact absurd he (hturn.2.1 (by simp [hexpected]))
  · exact fun turn w e _ hw _ => ⟨⟨fun _ _ => hw, hw.troubled hcaptured⟩,
      fun _ => (hw.troubled hcaptured).either⟩

theorem installStaged_triple (hkind : op.kind = .write) (hresult : op.result = some (sha256 f.data))
    (hlookup : staged.lookup k = some (f.snapshot sha256)) :
    Undoes plan before (Amid plan before staged preimages op k none (before op.path) (some f))
      (installStaged plan staged op k)
      (fun _ => Amid plan before staged preimages op k (some f) (before op.path) none) := by
  simp only [installStaged, hlookup]
  refine Triple.bind (Triple.attempt (promoteStaged_triple hcaptured hop hkind hresult hlookup)
    fun e => ?_) fun snapshot => (Amid.safe hcaptured).check
  split
  · rename_i he
    exact (promotionRefused_triple hcaptured hop).weaken fun w hw => ⟨hw.1 he, hw.2⟩
  · exact Triple.raise fun w hw => hw.2

theorem applyOperation_triple : Undoes plan before (Applies plan before staged preimages k)
      (applyOperation plan preimages staged (op, k))
      (fun _ => Applies plan before staged preimages (k + 1)) := by
  refine onlyIf_triple (fun hkind => ?_) fun hcheck w hw => ?_
  · refine Triple.weaken (Triple.exists fun out => Triple.of_pre (fun w hw => hw.2) fun hout =>
      Triple.weaken (W := Amid plan before staged preimages op k (before op.path) none out) ?_
        fun w hw => hw.1) fun w hw => hw.amid hop
    have hexpects := hcaptured.expects op (mem_of_getElem? hop)
    have hsafe : Safe Benign (Applies plan before staged preimages (k + 1)) (Troubled plan before)
        (Either plan before) :=
      Benign.safe (fun w ⟨seat, h⟩ => h.troubled hcaptured) fun _ hw => hw.either
    refine Triple.bind (Q := fun _ => Amid plan before staged preimages op k none (before op.path)
      out) (onlyIf_triple (displace_triple hcaptured hop hkind) fun hnone w hw => ?_) fun _ =>
      Triple.bind (Q := fun _ => Applies plan before staged preimages (k + 1))
        (onlyIf_triple (fun hdata => ?_) fun hdata w hw => ?_) fun _ =>
      Triple.bind (Q := fun _ => Applies plan before staged preimages (k + 1))
        (onlyIf_triple (fun _ => hsafe.look.bind fun _ => hsafe.check) fun _ _ => id) fun _ =>
      onlyIf_triple (fun _ => hsafe.look) fun _ _ => id
    · -- nothing is expected there, and nothing was
      have hbefore := hexpects.before_eq_none (not_not.mp hnone)
      rwa [hbefore] at hw ⊢
    · obtain ⟨data, hdata⟩ := ne_none_iff_exists'.mp hdata
      obtain ⟨f, rfl, hfile, hlookup⟩ := hout data hdata
      have hwrite : op.kind = .write := (Plan.kind_write_iff hop).mpr (by simp [hdata])
      have hresult : op.result = some (sha256 f.data) := by
        obtain ⟨data', hdata', hresult, -⟩ :=
          (plan.wf op (mem_of_getElem? hop)).written hwrite
        rw [hdata, some.injEq] at hdata'
        rw [hresult, hfile, hdata']
      refine (installStaged_triple hcaptured hop hwrite hresult hlookup).post ?_
      rintro _ w ⟨seat, h, htarget, -⟩
      refine Applies.next hop h ?_
      rw [Operation.After, hwrite]
      simp [htarget, hdata, hfile]
    · obtain ⟨seat, h, htarget, -⟩ := hw
      refine Applies.next hop h ?_
      have hdelete : op.kind = .delete := by
        cases hcase : op.kind with
        | write => exact absurd (not_not.mp hdata) ((Plan.kind_write_iff hop).mp hcase)
        | delete => rfl
        | check => exact absurd hcase hkind
      rw [Operation.After, hdelete]
      exact htarget
  · obtain ⟨seat, h⟩ := hw
    obtain ⟨hfile, -⟩ := h.untouched k op hop le_rfl
    refine Applies.next hop (h.later k.le_succ) ?_
    rw [Operation.After, not_not.mp hcheck]
    exact hfile

end Reprobit.Transaction

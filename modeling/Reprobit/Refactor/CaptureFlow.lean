import Reprobit.Machine.Routine
import Reprobit.Refactor.Capture

/-!
# What the captured return does

The donor of a captured return against the clean function, both as code over named variables.
The donor agrees with the clean function, and its new read sees the variable's value, just
if the copy is current wherever it is used; nothing in the proof of the refactor looks at that.
-/

namespace Reprobit.Refactor

open Machine.Routine List Option

variable {L V W : Type}

/-! ## The donor -/

def liftNext : Next L V -> Next (Option L) V
  | .fall => .fall
  | .jump l => .jump (some l)
  | .finish v => .finish v

def liftOutcome (out : Outcome L Text V W) : Outcome (Option L) Text V W :=
  ⟨out.assigned, out.stored, out.world, liftNext out.next⟩

def reseat (place : Nat) (name : Text) (r : Nat × Text) : Nat × Text :=
  if r.1 = place then (r.1, name) else r

/-- A deed of the clean function in the donor, which has one more label. -/
def liftDeed (place : Nat) (name : Text) : Deed L Text V W -> Deed (Option L) Text V W
  | .act reads assigned taken run =>
    .act (reads.map (reseat place name)) assigned taken fun values world =>
      liftOutcome (run values world)
  | .copy source target convert => .copy source target convert

/-- `return x;` -/
def returnDeed {L' : Type} (place : Nat) (name : Text) : Deed L' Text V W :=
  .act [(place, name)] none [] fun values world => .going world (.finish values.head?)

/-- `goto label;` -/
def gotoDeed : Deed (Option L) Text V W :=
  .act [] none [] fun _ world => .going world (.jump none)

theorem step_returnDeed {L' : Type} (place : Nat) (name : Text) (t : State Text V W) :
    (returnDeed place name : Deed L' Text V W).step t =
      (t.locals name).map fun v => (t, .finish (some v)) := by
  cases h : t.locals name <;> simp [returnDeed, Deed.step, h]

theorem step_gotoDeed (t : State Text V W) :
    (gotoDeed : Deed (Option L) Text V W).step t = some (t, .jump none) := by
  simp [gotoDeed, Deed.step]

/-- The index of the first node at or behind a place. -/
def seat (code : Code L Text V W) (place : Nat) : Nat :=
  (code.takeWhile fun n => decide (n.start < place)).length

namespace CaptureRecord

variable (record : CaptureRecord)

def editNode (n : Node L Text V W) : Node (Option L) Text V W where
  start := n.start
  label := n.label.map some
  deed :=
    if n.start = record.branch.position then gotoDeed
    else liftDeed record.read.position record.capture n.deed

/-- `capture = source;` with the conversion to the declared type. -/
def copyNode (convert : V -> V) : Node (Option L) Text V W where
  start := record.assignment.position
  label := none
  deed := .copy record.source record.capture convert

/-- `label: return capture;` -/
def tailNode : Node (Option L) Text V W where
  start := record.tail.position
  label := some none
  deed := returnDeed record.tail.position record.capture

variable (code : Code L Text V W)

def captureSeat : Nat := seat code record.assignment.position

def tailSeat : Nat := seat code record.tail.position

/-- The five operations at their places. -/
def donorCode (convert : V -> V) (code : Code L Text V W) : Code (Option L) Text V W :=
  (code.take (record.captureSeat code)).map record.editNode ++ record.copyNode convert ::
      (((code.take (record.tailSeat code)).drop (record.captureSeat code)).map record.editNode ++
        record.tailNode :: (code.drop (record.tailSeat code)).map record.editNode)

/-- Where a node of the clean function is in the donor. -/
def shift (i : Nat) : Nat :=
  if i < record.captureSeat code then i
  else if i < record.tailSeat code then i + 1
  else i + 2

end CaptureRecord

variable {sha256 : Text -> Text} {inputs : CaptureInputs} {record : CaptureRecord}
  {convert : V -> V} {code : Code L Text V W} {s t u : State Text V W} {copy : Option V}
  {i j : Nat} {n : Node L Text V W} {m : Node (Option L) Text V W}

section Places

theorem seat_le_length (code : Code L Text V W) (place : Nat) : seat code place <= code.length :=
  (takeWhile_sublist _).length_le

theorem seat_mono (code : Code L Text V W) {p q : Nat} (h : p <= q) :
    seat code p <= seat code q := by
  unfold seat
  induction code with
  | nil => exact le_rfl
  | cons n code ih =>
    by_cases hp : n.start < p
    · have hq : n.start < q := by omega
      simpa [hp, hq] using ih
    · simp [hp]

theorem shift_zero (h : record.captureSeat code ≠ 0) : record.shift code 0 = 0 := by
  unfold CaptureRecord.shift
  split_ifs <;> omega

theorem shift_before {i : Nat} (h : record.captureSeat code = i + 1) :
    record.shift code i + 1 = record.captureSeat code := by
  unfold CaptureRecord.shift
  split_ifs <;> omega

theorem shift_captureSeat (h : record.captureSeat code < record.tailSeat code) :
    record.shift code (record.captureSeat code) = record.captureSeat code + 1 := by
  unfold CaptureRecord.shift
  split_ifs <;> omega

variable (hseats : record.captureSeat code <= record.tailSeat code)

include hseats

theorem length_parts : (code.take (record.captureSeat code)).length = record.captureSeat code ∧
      ((code.take (record.tailSeat code)).drop (record.captureSeat code)).length =
        record.tailSeat code - record.captureSeat code := by
  have htail : record.tailSeat code <= code.length := seat_le_length code _
  rw [length_drop, length_take, length_take]
  omega

theorem code_parts : code = code.take (record.captureSeat code) ++
      ((code.take (record.tailSeat code)).drop (record.captureSeat code) ++
        code.drop (record.tailSeat code)) := by
  have hfront : code.take (record.captureSeat code) =
      (code.take (record.tailSeat code)).take (record.captureSeat code) := by
    rw [take_take, Nat.min_eq_left hseats]
  rw [<- append_assoc, hfront, take_append_drop, take_append_drop]

theorem donorCode_shift (i : Nat) :
    (record.donorCode convert code)[record.shift code i]? = code[i]?.map record.editNode := by
  obtain ⟨hfront, hbetween⟩ := length_parts hseats
  unfold CaptureRecord.donorCode CaptureRecord.shift
  split_ifs with hcapture htail
  · rw [getElem?_append_left (by rw [length_map, hfront]; exact hcapture), getElem?_map,
      getElem?_take_of_lt hcapture]
  · rw [getElem?_append_right (by rw [length_map, hfront]; omega), length_map,
      hfront]
    obtain ⟨k, rfl⟩ : ∃ k, i = record.captureSeat code + k := ⟨i - record.captureSeat code,
      by omega⟩
    rw [show record.captureSeat code + k + 1 - record.captureSeat code = k + 1 by omega,
      getElem?_cons_succ,
      getElem?_append_left (by rw [length_map, hbetween]; omega), getElem?_map,
      getElem?_drop, getElem?_take_of_lt htail]
  · rw [getElem?_append_right (by rw [length_map, hfront]; omega), length_map,
      hfront]
    obtain ⟨k, rfl⟩ : ∃ k, i = record.tailSeat code + k := ⟨i - record.tailSeat code, by omega⟩
    rw [show record.tailSeat code + k + 2 - record.captureSeat code =
        record.tailSeat code - record.captureSeat code + k + 1 + 1 by omega,
      getElem?_cons_succ,
      getElem?_append_right (by rw [length_map, hbetween]; omega), length_map,
      hbetween,
      show record.tailSeat code - record.captureSeat code + k + 1 -
        (record.tailSeat code - record.captureSeat code) = k + 1 by omega,
      getElem?_cons_succ, getElem?_map, getElem?_drop]

theorem donorCode_node {i : Nat} {n : Node L Text V W} (hn : code[i]? = some n) :
    (record.donorCode convert code)[record.shift code i]? = some (record.editNode n) := by
  rw [donorCode_shift hseats, hn]
  rfl

theorem shift_succ {i : Nat}
    (hcapture : record.captureSeat code ≠ i + 1) (htail : i + 1 ≠ record.tailSeat code) :
    record.shift code (i + 1) = record.shift code i + 1 := by
  unfold CaptureRecord.shift
  split_ifs <;> omega

theorem donorCode_copy : (record.donorCode convert code)[record.captureSeat code]? =
      some (record.copyNode convert) := by
  obtain ⟨hfront, _⟩ := length_parts hseats
  rw [CaptureRecord.donorCode, getElem?_append_right (by simp), length_map,
    hfront, Nat.sub_self]
  rfl

theorem donorCode_tail :
    (record.donorCode convert code)[record.tailSeat code + 1]? = some record.tailNode := by
  obtain ⟨hfront, hbetween⟩ := length_parts hseats
  rw [CaptureRecord.donorCode, getElem?_append_right (by rw [length_map, hfront]; omega),
    length_map, hfront,
    show record.tailSeat code + 1 - record.captureSeat code =
      record.tailSeat code - record.captureSeat code + 1 by omega,
    getElem?_cons_succ, getElem?_append_right (by rw [length_map, hbetween]),
    length_map, hbetween, Nat.sub_self]
  rfl

variable [DecidableEq L]

theorem target_shift (l : L) :
    target (record.donorCode convert code) (some l) = record.shift code (target code l) := by
  obtain ⟨hfront, hbetween⟩ := length_parts hseats
  have hlabel : ((fun n : Node (Option L) Text V W => decide (n.label = some (some l))) ∘
      record.editNode) = fun n : Node L Text V W => decide (n.label = some l) := by
    funext n
    simp [CaptureRecord.editNode]
  have hclean : target code l = _ := congrArg (target · l) (code_parts hseats)
  rw [hclean]
  unfold target CaptureRecord.donorCode CaptureRecord.shift
  have hcopy : decide ((record.copyNode convert : Node (Option L) Text V W).label = some (some l)) =
      false := by simp [CaptureRecord.copyNode]
  have htail : decide ((record.tailNode : Node (Option L) Text V W).label = some (some l)) =
      false := by simp [CaptureRecord.tailNode]
  simp only [findIdx_append, findIdx_cons, findIdx_map, hlabel, hcopy, htail, length_map,
    cond_false]
  split_ifs <;> omega

theorem target_tail :
    target (record.donorCode convert code) none = record.tailSeat code + 1 := by
  obtain ⟨hfront, hbetween⟩ := length_parts hseats
  have hlabel : ((fun n : Node (Option L) Text V W => decide (n.label = some none)) ∘
      record.editNode) = fun _ : Node L Text V W => false := by
    funext n
    simp [CaptureRecord.editNode]
  have hcopy : decide ((record.copyNode convert : Node (Option L) Text V W).label = some none) =
      false := by simp [CaptureRecord.copyNode]
  have htail : decide ((record.tailNode : Node (Option L) Text V W).label = some none) =
      true := by simp [CaptureRecord.tailNode]
  unfold target CaptureRecord.donorCode
  have hnone : ∀ part : Code L Text V W, part.findIdx (fun _ => false) = part.length :=
    fun part => findIdx_eq_length_of_false fun _ _ => rfl
  simp only [findIdx_append, findIdx_cons, findIdx_map, hlabel, hcopy, htail, length_map, hnone,
    cond_false, cond_true]
  split_ifs <;> omega

end Places

def readsOf : Deed L Text V W -> List (Nat × Text)
  | .act reads _ _ _ => reads
  | .copy .. => []

/-- The text spells its names, the source is read at the reseated read, and the node of the
branch returns it. -/
structure Reading (target : Text) (record : CaptureRecord) (code : Code L Text V W) : Prop where
  spelled : ∀ n ∈ code, ∀ x, n.deed.Names x -> x ∈ tokenText target
  read_source : ∃ n ∈ code, (record.read.position, record.source) ∈ readsOf n.deed
  read_only : ∀ n ∈ code, ∀ r ∈ readsOf n.deed, r.1 = record.read.position -> r.2 = record.source
  return_only : ∀ n ∈ code, n.start = record.branch.position ->
    ∃ place, n.deed = returnDeed place record.source

def UsesCopy (record : CaptureRecord) (n : Node L Text V W) : Prop :=
  n.start = record.branch.position ∨ ∃ r ∈ readsOf n.deed, r.1 = record.read.position

theorem usesCopy_of_read
    (h : (record.read.position, record.capture) ∈ readsOf (record.editNode n).deed) :
    UsesCopy record n := by
  simp only [CaptureRecord.editNode] at h
  split at h
  · cases h
  · revert h
    unfold UsesCopy
    cases n.deed with
    | copy source target conversion => exact fun h => absurd h not_mem_nil
    | act reads assigned taken run =>
      intro h
      obtain ⟨r, hr, heq⟩ := mem_map.mp h
      refine .inr ⟨r, hr, ?_⟩
      unfold reseat at heq
      split at heq
      · assumption
      · rw [heq]

theorem read_of_usesCopy (hbranch : n.start ≠ record.branch.position)
    (h : ∃ r ∈ readsOf n.deed, r.1 = record.read.position) :
    (record.read.position, record.capture) ∈ readsOf (record.editNode n).deed := by
  simp only [CaptureRecord.editNode, if_neg hbranch]
  revert h
  cases n.deed with
  | copy source target conversion => rintro ⟨r, hr, _⟩; cases hr
  | act reads assigned taken run =>
    rintro ⟨r, hr, hplace⟩
    refine mem_map.mpr ⟨r, hr, ?_⟩
    rw [reseat, if_pos hplace, hplace]

theorem mapM_reseat {reads : List (Nat × Text)} (hnames : ∀ r ∈ reads, r.2 ≠ record.capture)
    (honly : ∀ r ∈ reads, r.1 = record.read.position -> r.2 = record.source)
    (hcopy : (∃ r ∈ reads, r.1 = record.read.position) -> copy = t.locals record.source) :
    ((reads.map (reseat record.read.position record.capture)).mapM fun r =>
      (t.set record.capture copy).locals r.2) = reads.mapM fun r => t.locals r.2 := by
  induction reads with
  | nil => rfl
  | cons r reads ih =>
    rw [forall_mem_cons] at hnames honly
    have htail := ih hnames.2 honly.2 fun ⟨r', hr', h⟩ =>
      hcopy ⟨r', mem_cons_of_mem _ hr', h⟩
    have hhead : (t.set record.capture copy).locals
        (reseat record.read.position record.capture r).2 = t.locals r.2 := by
      unfold reseat
      split
      · rename_i hplace
        rw [State.set_locals_same, hcopy ⟨r, mem_cons_self .., hplace⟩, honly.1 hplace]
      · exact State.set_locals_ne t hnames.1 copy
    rw [map_cons, mapM_cons, mapM_cons, htail, hhead]

theorem step_editNode {n : Node L Text V W} (hbranch : n.start ≠ record.branch.position)
    (hnames : ∀ x, n.deed.Names x -> x ≠ record.capture) (hescaped : record.capture ∉ t.escaped)
    (honly : ∀ r ∈ readsOf n.deed, r.1 = record.read.position -> r.2 = record.source)
    (hcopy : (∃ r ∈ readsOf n.deed, r.1 = record.read.position) -> copy = t.locals record.source) :
    (record.editNode n).deed.step (t.set record.capture copy) =
      (n.deed.step t).map fun p => (p.1.set record.capture copy, liftNext p.2) := by
  simp only [CaptureRecord.editNode, if_neg hbranch]
  revert hnames honly hcopy
  cases n.deed with
  | act reads assigned taken run =>
    intro hnames honly hcopy
    have hreads : ∀ r ∈ reads, r.2 ≠ record.capture := fun r hr =>
      hnames _ (.inl ⟨r, hr, rfl⟩)
    have hassigned : assigned ≠ some record.capture := fun h =>
      hnames _ (.inr (.inl h)) rfl
    have htaken : record.capture ∉ taken := fun h => hnames _ (.inr (.inr h)) rfl
    simp only [liftDeed, Deed.step, mapM_reseat hreads honly hcopy, Option.map_map]
    congr 1
    funext values
    exact Prod.ext (State.after_set hassigned htaken hescaped) rfl
  | copy source target conversion =>
    intro hnames _ _
    have hsource : source ≠ record.capture := hnames _ (.inl rfl)
    have htarget : target ≠ record.capture := hnames _ (.inr rfl)
    simp only [liftDeed, Deed.step, map_some, State.set_locals_ne t hsource, liftNext,
      some.injEq, Prod.mk.injEq, and_true]
    exact State.set_comm t htarget.symm _ _

theorem step_escaped {d : Deed L Text V W} {u : State Text V W} {next : Next L V} {x : Text}
    (h : d.step t = some (u, next)) (hx : ¬d.Names x) (hescaped : x ∉ t.escaped) :
    x ∉ u.escaped := by
  cases d with
  | act reads assigned taken run =>
    obtain ⟨values, _, h⟩ := map_eq_some_iff.mp h
    cases h
    have htaken : x ∉ taken := fun hmem => hx (.inr (.inr hmem))
    simp [State.after, hescaped, htaken]
  | copy source target conversion =>
    cases h
    exact hescaped

/-- What the proof of the refactor and the reading give. -/
structure Placed (record : CaptureRecord) (code : Code L Text V W) : Prop where
  seats : record.captureSeat code <= record.tailSeat code
  names : ∀ n ∈ code, ∀ x, n.deed.Names x -> x ≠ record.capture
  source_ne : record.source ≠ record.capture
  read_only : ∀ n ∈ code, ∀ r ∈ readsOf n.deed, r.1 = record.read.position -> r.2 = record.source
  return_only : ∀ n ∈ code, n.start = record.branch.position ->
    ∃ place, n.deed = returnDeed place record.source

theorem step_tailNode (record : CaptureRecord) (t : State Text V W) :
    (record.tailNode : Node (Option L) Text V W).deed.step t =
      (t.locals record.capture).map fun v => (t, .finish (some v)) := step_returnDeed ..

theorem step_return (hplaced : Placed record code) (hn : code[i]? = some n)
    (hbranch : n.start = record.branch.position) (t : State Text V W) :
    n.deed.step t = (t.locals record.source).map fun v => (t, .finish (some v)) := by
  obtain ⟨place, hdeed⟩ := hplaced.return_only n (mem_of_getElem? hn) hbranch
  rw [hdeed, step_returnDeed]

theorem donor_image (hplaced : Placed record code)
    (hm : (record.donorCode convert code)[record.shift code i]? = some m) :
    ∃ n, code[i]? = some n ∧ m = record.editNode n := by
  rw [donorCode_shift hplaced.seats] at hm
  obtain ⟨n, hn, rfl⟩ := map_eq_some_iff.mp hm
  exact ⟨n, hn, rfl⟩

theorem placed_of_accepted (haccept : proveCapture sha256 inputs = .ok record)
    (hreading : Reading inputs.cleanTarget record code) : Placed record code := by
  obtain ⟨hfresh, hsorted⟩ := proveCapture_spec haccept
  have hnames : ∀ n ∈ code, ∀ x, n.deed.Names x -> x ≠ record.capture := by
    rintro n hn x hx rfl
    exact hfresh (hreading.spelled n hn _ hx)
  refine ⟨seat_mono code ?_, hnames, ?_, hreading.read_only, hreading.return_only⟩
  · simp only [CaptureRecord.positions, pairwise_cons, mem_cons] at hsorted
    exact hsorted.2.1 _ (.inr (.inr (.inl rfl)))
  · obtain ⟨n, hn, hread⟩ := hreading.read_source
    refine hnames n hn _ ?_
    revert hread
    cases n.deed with
    | act reads assigned taken run => exact fun hread => .inl ⟨_, hread, rfl⟩
    | copy source target conversion => exact fun hread => absurd hread not_mem_nil

variable [DecidableEq L]

/-- Runs of the clean function with the value that the copy would have. -/
inductive Follows (record : CaptureRecord) (convert : V -> V) (code : Code L Text V W)
    (s : State Text V W) : Nat -> State Text V W -> Option V -> Prop
  | entry : Follows record convert code s 0 s
      (if record.captureSeat code = 0 then (s.locals record.source).map convert else none)
  | fall {i : Nat} {t u : State Text V W} {copy : Option V} {n : Node L Text V W} :
      Follows record convert code s i t copy -> code[i]? = some n ->
      n.deed.step t = some (u, .fall) ->
      Follows record convert code s (i + 1) u
        (if record.captureSeat code = i + 1 then (u.locals record.source).map convert else copy)
  | jump {i : Nat} {t u : State Text V W} {copy : Option V} {n : Node L Text V W} {l : L} :
      Follows record convert code s i t copy -> code[i]? = some n ->
      n.deed.step t = some (u, .jump l) ->
      Follows record convert code s (target code l) u copy

section

variable (record : CaptureRecord) (code : Code L Text V W)

/-- The new name is nothing yet. -/
def FreshIn (s : State Text V W) : Prop :=
  s.locals record.capture = none ∧ record.capture ∉ s.escaped

/-- Nothing in between assigns the source or takes its address. -/
def QuietBetween : Prop :=
  ∀ i n, code[i]? = some n -> record.captureSeat code <= i -> n.start < record.branch.position ->
    match n.deed with
    | .act _ assigned taken _ => assigned ≠ some record.source ∧ record.source ∉ taken
    | .copy _ target _ => target ≠ record.source

def TailClosed : Prop :=
  record.tailSeat code ≠ 0 ∧
    ∀ s i t u n, FreshIn record s -> Reaches code s i t -> code[i]? = some n ->
      n.deed.step t = some (u, .fall) -> i + 1 ≠ record.tailSeat code

/-- Wherever the copy would be used, it has the value of the source. -/
def CopyCurrent (convert : V -> V) (code : Code L Text V W) : Prop :=
  ∀ s i t copy n, FreshIn record s -> Follows record convert code s i t copy ->
    code[i]? = some n -> UsesCopy record n -> copy = t.locals record.source

end

/-- The source is left alone up to its uses, control does not fall into the tail, and the
donor has the same values and effects. -/
structure IsEquivalence (record : CaptureRecord) (convert : V -> V) (code : Code L Text V W) :
    Prop where
  quiet : QuietBetween record code
  closed : TailClosed record code
  agrees : ∀ s, FreshIn record s -> Agrees code (record.donorCode convert code) s
  reads_source : ∀ s j t n, FreshIn record s -> Reaches (record.donorCode convert code) s j t ->
    (record.donorCode convert code)[j]? = some n ->
    (record.read.position, record.capture) ∈ readsOf n.deed ->
    t.locals record.capture = t.locals record.source

/-- What the clean function must do for that. -/
structure CaptureCondition (record : CaptureRecord) (convert : V -> V) (code : Code L Text V W) :
    Prop where
  quiet : QuietBetween record code
  closed : TailClosed record code
  current : CopyCurrent record convert code

/-! ## Whole runs -/

section Runs

theorem Follows.reaches (h : Follows record convert code s i t copy) : Reaches code s i t := by
  induction h with
  | entry => exact .entry
  | fall _ hn hs ih => exact ih.fall hn hs
  | jump _ hn hs ih => exact ih.jump hn hs

theorem exists_follows (record : CaptureRecord) (convert : V -> V) (h : Reaches code s i t) :
    ∃ copy, Follows record convert code s i t copy := by
  refine h.invariant (P := fun i t => ∃ copy, Follows record convert code s i t copy) ⟨_, .entry⟩
    ?_ ?_
  · rintro i t u n ⟨copy, hfollows⟩ hn hs
    exact ⟨_, hfollows.fall hn hs⟩
  · rintro i t u n l ⟨copy, hfollows⟩ hn hs
    exact ⟨_, hfollows.jump hn hs⟩

variable (hplaced : Placed record code) (hfresh : FreshIn record s)

include hplaced hfresh

theorem Follows.not_escaped (h : Follows record convert code s i t copy) :
    record.capture ∉ t.escaped := by
  induction h with
  | entry => exact hfresh.2
  | fall _ hn hs ih =>
    exact step_escaped hs (fun hx => hplaced.names _ (mem_of_getElem? hn) _ hx rfl) ih
  | jump _ hn hs ih =>
    exact step_escaped hs (fun hx => hplaced.names _ (mem_of_getElem? hn) _ hx rfl) ih

theorem Follows.step_donor (h : Follows record convert code s i t copy) (hn : code[i]? = some n)
    (hbranch : n.start ≠ record.branch.position)
    (hcopy : (∃ r ∈ readsOf n.deed, r.1 = record.read.position) -> copy = t.locals record.source) :
    (record.editNode n).deed.step (t.set record.capture copy) =
      (n.deed.step t).map fun p => (p.1.set record.capture copy, liftNext p.2) :=
  step_editNode hbranch (hplaced.names n (mem_of_getElem? hn))
    (h.not_escaped hplaced hfresh) (hplaced.read_only n (mem_of_getElem? hn)) hcopy

theorem Follows.reaches_donor (hclosed : TailClosed record code)
    (hcopy : ∀ i t copy n, Follows record convert code s i t copy ->
      Reaches (record.donorCode convert code) s (record.shift code i)
        (t.set record.capture copy) -> code[i]? = some n ->
      n.start ≠ record.branch.position ->
      (∃ r ∈ readsOf n.deed, r.1 = record.read.position) -> copy = t.locals record.source)
    (h : Follows record convert code s i t copy) :
    Reaches (record.donorCode convert code) s (record.shift code i)
      (t.set record.capture copy) := by
  -- The step of the donor's node, for a node that goes on.
  have hstep : ∀ {i t copy n p}, Follows record convert code s i t copy ->
      Reaches (record.donorCode convert code) s (record.shift code i)
        (t.set record.capture copy) -> code[i]? = some n -> n.deed.step t = some p ->
      (∀ v, p.2 ≠ .finish v) -> (record.editNode n).deed.step (t.set record.capture copy) =
        some (p.1.set record.capture copy, liftNext p.2) := by
    intro i t copy n p hfollows hreach hn hs hgoes
    have hbranch : n.start ≠ record.branch.position := by
      intro hbranch
      rw [step_return hplaced hn hbranch] at hs
      obtain ⟨v, _, rfl⟩ := map_eq_some_iff.mp hs
      exact hgoes _ rfl
    rw [hfollows.step_donor hplaced hfresh hn hbranch (hcopy i t copy n hfollows hreach hn hbranch),
      hs]
    rfl
  induction h with
  | entry =>
    by_cases hseat : record.captureSeat code = 0
    · have hzero : (record.donorCode convert code)[0]? = some (record.copyNode convert) :=
        hseat ▸ donorCode_copy hplaced.seats
      have hpositive := hclosed.1
      have hlt : record.captureSeat code < record.tailSeat code := by omega
      have hshift := shift_captureSeat hlt
      rw [hseat] at hshift
      rw [if_pos hseat, hshift]
      exact Reaches.entry.fall hzero rfl
    · rw [if_neg hseat, shift_zero hseat, <- hfresh.1, State.set_self]
      exact .entry
  | @fall i t u copy n hfollows hn hs ih =>
    have hdonor := ih.fall (donorCode_node hplaced.seats hn)
      (hstep hfollows ih hn hs nofun)
    have hopen := hclosed.2 s i t u n hfresh hfollows.reaches hn hs
    have hseats := hplaced.seats
    by_cases hseat : record.captureSeat code = i + 1
    · rw [shift_before hseat] at hdonor
      have hnext := hdonor.fall (donorCode_copy hplaced.seats) rfl
      rw [State.set_set, State.set_locals_ne u hplaced.source_ne] at hnext
      rw [if_pos hseat, <- hseat, shift_captureSeat (by omega)]
      exact hnext
    · rw [if_neg hseat, shift_succ hseats hseat hopen]
      exact hdonor
  | @jump i t u copy n l hfollows hn hs ih =>
    rw [<- target_shift hplaced.seats]
    exact ih.jump (donorCode_node hplaced.seats hn)
      (hstep hfollows ih hn hs nofun)

omit hfresh in
theorem reaches_tail (hn : code[i]? = some n) (hbranch : n.start = record.branch.position)
    (h : Reaches (record.donorCode convert code) s (record.shift code i) t) :
    Reaches (record.donorCode convert code) s (record.tailSeat code + 1) t := by
  have hdeed : (record.editNode n).deed = gotoDeed := if_pos hbranch
  have htarget : target (record.donorCode convert code) none = record.tailSeat code + 1 :=
    target_tail hplaced.seats
  rw [<- htarget]
  refine h.jump (donorCode_node hplaced.seats hn) ?_
  rw [hdeed, step_gotoDeed]

/-- The donor is at the image of a node, at the capture, or at the tail. -/
inductive Follower (record : CaptureRecord) (convert : V -> V) (code : Code L Text V W)
    (s : State Text V W) : Nat -> State Text V W -> Prop
  | image {i : Nat} {t : State Text V W} {copy : Option V} :
      Follows record convert code s i t copy ->
      Follower record convert code s (record.shift code i) (t.set record.capture copy)
  | capture {t : State Text V W} (old : Option V) :
      record.captureSeat code < record.tailSeat code ->
      Follows record convert code s (record.captureSeat code) t
        ((t.locals record.source).map convert) ->
      Follower record convert code s (record.captureSeat code) (t.set record.capture old)
  | tail {i : Nat} {t : State Text V W} {copy : Option V} {n : Node L Text V W} :
      Follows record convert code s i t copy -> code[i]? = some n ->
      n.start = record.branch.position ->
      Follower record convert code s (record.tailSeat code + 1) (t.set record.capture copy)

omit hplaced in
theorem Follower.entry (hclosed : TailClosed record code) : Follower record convert code s 0 s := by
  have hentry : Follows record convert code s 0 s _ := .entry
  by_cases hseat : record.captureSeat code = 0
  · have hpositive := hclosed.1
    rw [if_pos hseat] at hentry
    have hcapture : Follower record convert code s (record.captureSeat code)
        (s.set record.capture (s.locals record.capture)) :=
      .capture _ (by omega) (hseat.symm ▸ hentry)
    rwa [hseat, State.set_self] at hcapture
  · rw [if_neg hseat, <- hfresh.1] at hentry
    have himage := Follower.image hentry
    rwa [shift_zero hseat, State.set_self] at himage

variable (hcurrent : CopyCurrent record convert code)

include hcurrent

theorem Follows.step_current (h : Follows record convert code s i t copy) (hn : code[i]? = some n)
    (hbranch : n.start ≠ record.branch.position) :
    (record.editNode n).deed.step (t.set record.capture copy) =
      (n.deed.step t).map fun p => (p.1.set record.capture copy, liftNext p.2) :=
  h.step_donor hplaced hfresh hn hbranch fun hread =>
    hcurrent s i t copy n hfresh h hn (.inr hread)

theorem Follows.step_image (h : Follows record convert code s i t copy) (hn : code[i]? = some n)
    {p : State Text V W × Next (Option L) V}
    (hs : (record.editNode n).deed.step (t.set record.capture copy) = some p) :
    (n.start = record.branch.position ∧ p = (t.set record.capture copy, .jump none)) ∨
      n.start ≠ record.branch.position ∧
        ∃ q, n.deed.step t = some q ∧ p = (q.1.set record.capture copy, liftNext q.2) := by
  by_cases hbranch : n.start = record.branch.position
  · have hdeed : (record.editNode n).deed = gotoDeed := if_pos hbranch
    rw [hdeed, step_gotoDeed] at hs
    exact .inl ⟨hbranch, (some.inj hs).symm⟩
  · rw [h.step_current hplaced hfresh hcurrent hn hbranch] at hs
    obtain ⟨q, hq, rfl⟩ := map_eq_some_iff.mp hs
    exact .inr ⟨hbranch, q, hq, rfl⟩

theorem Follower.fall (hclosed : TailClosed record code) (h : Follower record convert code s j t)
    (hm : (record.donorCode convert code)[j]? = some m) (hs : m.deed.step t = some (u, .fall)) :
    Follower record convert code s (j + 1) u := by
  cases h with
  | @image i t copy hfollows =>
    obtain ⟨n, hn, rfl⟩ := donor_image hplaced hm
    rcases hfollows.step_image hplaced hfresh hcurrent hn hs with
      ⟨_, hp⟩ | ⟨_, ⟨q, next⟩, hq, hp⟩
    · cases hp
    obtain ⟨rfl, hnext⟩ := Prod.mk.inj hp
    cases next with
    | jump l => cases hnext
    | finish v => cases hnext
    | fall =>
      have hopen := hclosed.2 s i t q n hfresh hfollows.reaches hn hq
      have hafter := hfollows.fall hn hq
      have hseats := hplaced.seats
      by_cases hseat : record.captureSeat code = i + 1
      · rw [if_pos hseat, <- hseat] at hafter
        rw [shift_before hseat]
        exact .capture copy (by omega) hafter
      · rw [if_neg hseat] at hafter
        rw [<- shift_succ hseats hseat hopen]
        exact .image hafter
  | @capture t old hlt hfollows =>
    rw [donorCode_copy hplaced.seats] at hm
    cases hm
    obtain ⟨rfl, _⟩ := Prod.mk.inj (some.inj hs)
    rw [State.set_set, State.set_locals_ne t hplaced.source_ne, <- shift_captureSeat hlt]
    exact .image hfollows
  | tail _ _ _ =>
    rw [donorCode_tail hplaced.seats] at hm
    cases hm
    obtain ⟨v, _, hp⟩ := map_eq_some_iff.mp hs
    cases hp

theorem Follower.jump {l : Option L} (h : Follower record convert code s j t)
    (hm : (record.donorCode convert code)[j]? = some m)
    (hs : m.deed.step t = some (u, .jump l)) :
    Follower record convert code s (target (record.donorCode convert code) l) u := by
  cases h with
  | @image i t copy hfollows =>
    obtain ⟨n, hn, rfl⟩ := donor_image hplaced hm
    rcases hfollows.step_image hplaced hfresh hcurrent hn hs with
      ⟨hbranch, hp⟩ | ⟨_, ⟨q, next⟩, hq, hp⟩
    · cases hp
      rw [target_tail hplaced.seats]
      exact .tail hfollows hn hbranch
    obtain ⟨rfl, hnext⟩ := Prod.mk.inj hp
    cases next with
    | fall => cases hnext
    | finish v => cases hnext
    | jump l =>
      cases hnext
      rw [target_shift hplaced.seats]
      exact .image (hfollows.jump hn hq)
  | capture _ _ _ =>
    rw [donorCode_copy hplaced.seats] at hm
    cases hm
    cases hs
  | tail _ _ _ =>
    rw [donorCode_tail hplaced.seats] at hm
    cases hm
    obtain ⟨v, _, hp⟩ := map_eq_some_iff.mp hs
    cases hp

variable (hclosed : TailClosed record code) {v : Option V} {w : W}

include hclosed

/-- The donor goes only where the clean function leads it. -/
theorem follower_of_reaches (h : Reaches (record.donorCode convert code) s j u) :
    Follower record convert code s j u :=
  h.invariant (P := Follower record convert code s) (Follower.entry hfresh hclosed)
    (fun _ _ _ _ hfollower hm hs => hfollower.fall hplaced hfresh hcurrent hclosed hm hs)
    (fun _ _ _ _ _ hfollower hm hs => hfollower.jump hplaced hfresh hcurrent hm hs)

theorem CopyCurrent.reaches_donor (h : Follows record convert code s i t copy) :
    Reaches (record.donorCode convert code) s (record.shift code i) (t.set record.capture copy) :=
  h.reaches_donor hplaced hfresh hclosed fun i t copy n hfollows _ hn _ hread =>
    hcurrent s i t copy n hfresh hfollows hn (.inr hread)

theorem CopyCurrent.finishes (h : Finishes code s v w) :
    Finishes (record.donorCode convert code) s v w := by
  cases h with
  | @finish i t u n v hreach hn hs =>
    obtain ⟨copy, hfollows⟩ := exists_follows record convert hreach
    have hdonor := hcurrent.reaches_donor hplaced hfresh hclosed hfollows
    by_cases hbranch : n.start = record.branch.position
    · have hcopy := hcurrent s i t copy n hfresh hfollows hn (.inl hbranch)
      rw [step_return hplaced hn hbranch] at hs
      obtain ⟨x, hx, hp⟩ := map_eq_some_iff.mp hs
      cases hp
      have hstep := step_tailNode (L := L) record (t.set record.capture copy)
      rw [State.set_locals_same, hcopy, hx] at hstep
      rw [hcopy, hx] at hdonor
      exact (reaches_tail hplaced hn hbranch hdonor).finishes (donorCode_tail hplaced.seats)
        hstep rfl
    · have hstep := hfollows.step_current hplaced hfresh hcurrent hn hbranch
      rw [hs] at hstep
      exact hdonor.finishes (donorCode_node hplaced.seats hn) hstep rfl
  | @off i t hreach hn =>
    obtain ⟨copy, hfollows⟩ := exists_follows record convert hreach
    exact .off (t := t.set record.capture copy)
      (hcurrent.reaches_donor hplaced hfresh hclosed hfollows)
      ((donorCode_shift hplaced.seats i).trans (by rw [hn]; rfl))

theorem CopyCurrent.finishes_back (h : Finishes (record.donorCode convert code) s v w) :
    Finishes code s v w := by
  cases h with
  | @finish j t' u' m v hreach hm hs =>
    cases follower_of_reaches hplaced hfresh hcurrent hclosed hreach with
    | @image i t copy hfollows =>
      obtain ⟨n, hn, rfl⟩ := donor_image hplaced hm
      rcases hfollows.step_image hplaced hfresh hcurrent hn hs with
        ⟨_, hp⟩ | ⟨_, ⟨q, next⟩, hq, hp⟩
      · cases hp
      obtain ⟨rfl, hnext⟩ := Prod.mk.inj hp
      cases next with
      | fall => cases hnext
      | jump l => cases hnext
      | finish v =>
        cases hnext
        exact hfollows.reaches.finishes hn hq rfl
    | capture _ _ _ =>
      rw [donorCode_copy hplaced.seats] at hm
      cases hm
      cases hs
    | @tail i t copy n hfollows hn hbranch =>
      rw [donorCode_tail hplaced.seats] at hm
      cases hm
      rw [step_tailNode, State.set_locals_same,
        hcurrent s i t copy n hfresh hfollows hn (.inl hbranch)] at hs
      obtain ⟨x, hx, hp⟩ := map_eq_some_iff.mp hs
      cases hp
      have hstep := step_return hplaced hn hbranch t
      rw [hx] at hstep
      exact hfollows.reaches.finishes hn hstep rfl
  | @off j t' hreach hm =>
    cases follower_of_reaches hplaced hfresh hcurrent hclosed hreach with
    | @image i t copy hfollows =>
      rw [donorCode_shift hplaced.seats, map_eq_none_iff] at hm
      exact Finishes.off (t := t) hfollows.reaches hm
    | capture _ _ _ =>
      rw [donorCode_copy hplaced.seats] at hm
      cases hm
    | tail _ _ _ =>
      rw [donorCode_tail hplaced.seats] at hm
      cases hm

theorem CopyCurrent.goesWrong : GoesWrong code s ↔ GoesWrong (record.donorCode convert code) s := by
  constructor
  · rintro ⟨i, t, n, hreach, hn, hs⟩
    obtain ⟨copy, hfollows⟩ := exists_follows record convert hreach
    have hdonor := hcurrent.reaches_donor hplaced hfresh hclosed hfollows
    by_cases hbranch : n.start = record.branch.position
    · have hcopy := hcurrent s i t copy n hfresh hfollows hn (.inl hbranch)
      rw [step_return hplaced hn hbranch, map_eq_none_iff] at hs
      refine ⟨_, _, _, reaches_tail hplaced hn hbranch hdonor, donorCode_tail hplaced.seats, ?_⟩
      rw [step_tailNode, State.set_locals_same, hcopy, hs]
      rfl
    · have hstep := hfollows.step_current hplaced hfresh hcurrent hn hbranch
      rw [hs] at hstep
      exact ⟨_, _, _, hdonor, donorCode_node hplaced.seats hn, hstep⟩
  · rintro ⟨j, t', m, hreach, hm, hs⟩
    cases follower_of_reaches hplaced hfresh hcurrent hclosed hreach with
    | @image i t copy hfollows =>
      obtain ⟨n, hn, rfl⟩ := donor_image hplaced hm
      have hbranch : n.start ≠ record.branch.position := by
        intro hbranch
        have hdeed : (record.editNode n).deed = gotoDeed := if_pos hbranch
        rw [hdeed, step_gotoDeed] at hs
        cases hs
      rw [hfollows.step_current hplaced hfresh hcurrent hn hbranch, map_eq_none_iff] at hs
      exact ⟨i, t, n, hfollows.reaches, hn, hs⟩
    | capture _ _ _ =>
      rw [donorCode_copy hplaced.seats] at hm
      cases hm
      cases hs
    | @tail i t copy n hfollows hn hbranch =>
      rw [donorCode_tail hplaced.seats] at hm
      cases hm
      rw [step_tailNode, State.set_locals_same,
        hcurrent s i t copy n hfresh hfollows hn (.inl hbranch), map_eq_none_iff] at hs
      refine ⟨i, t, n, hfollows.reaches, hn, ?_⟩
      rw [step_return hplaced hn hbranch, hs]
      rfl

theorem CopyCurrent.visits (w : W) :
    Visits code s w ↔ Visits (record.donorCode convert code) s w := by
  constructor
  · rintro ⟨i, t, hreach, rfl⟩
    obtain ⟨copy, hfollows⟩ := exists_follows record convert hreach
    exact ⟨_, _, hcurrent.reaches_donor hplaced hfresh hclosed hfollows, rfl⟩
  · rintro ⟨j, t', hreach, rfl⟩
    cases follower_of_reaches hplaced hfresh hcurrent hclosed hreach with
    | image hfollows => exact ⟨_, _, hfollows.reaches, rfl⟩
    | capture _ _ hfollows => exact ⟨_, _, hfollows.reaches, rfl⟩
    | tail hfollows _ _ => exact ⟨_, _, hfollows.reaches, rfl⟩

theorem CopyCurrent.reads_source (h : Reaches (record.donorCode convert code) s j u)
    (hm : (record.donorCode convert code)[j]? = some m)
    (hread : (record.read.position, record.capture) ∈ readsOf m.deed) :
    u.locals record.capture = u.locals record.source := by
  cases follower_of_reaches hplaced hfresh hcurrent hclosed h with
  | @image i t copy hfollows =>
    obtain ⟨n, hn, rfl⟩ := donor_image hplaced hm
    have huses := usesCopy_of_read hread
    rw [State.set_locals_same, State.set_locals_ne t hplaced.source_ne]
    exact hcurrent s i t copy n hfresh hfollows hn huses
  | capture _ _ _ =>
    rw [donorCode_copy hplaced.seats] at hm
    cases hm
    cases hread
  | @tail i t copy n hfollows hn hbranch =>
    rw [State.set_locals_same, State.set_locals_ne t hplaced.source_ne]
    exact hcurrent s i t copy n hfresh hfollows hn (.inl hbranch)

end Runs

/-- In the donor of an equivalence the copy is current. -/
theorem IsEquivalence.current (hplaced : Placed record code)
    (h : IsEquivalence record convert code) : CopyCurrent record convert code := by
  intro s i t copy n hfresh hfollows hn huses
  have hcopy : ∀ i t copy n, Follows record convert code s i t copy ->
      Reaches (record.donorCode convert code) s (record.shift code i)
        (t.set record.capture copy) -> code[i]? = some n ->
      n.start ≠ record.branch.position ->
      (∃ r ∈ readsOf n.deed, r.1 = record.read.position) -> copy = t.locals record.source := by
    intro i t copy n hfollows hreach hn hbranch hread
    have hdonor := h.reads_source s _ _ _ hfresh hreach (donorCode_node hplaced.seats hn)
      (read_of_usesCopy hbranch hread)
    rwa [State.set_locals_same, State.set_locals_ne t hplaced.source_ne] at hdonor
  have hdonor := hfollows.reaches_donor hplaced hfresh h.closed hcopy
  by_cases hbranch : n.start = record.branch.position
  · have hagrees := h.agrees s hfresh
    have htail := reaches_tail hplaced hn hbranch hdonor
    have hclean := step_return hplaced hn hbranch t
    have hstep := step_tailNode (L := L) record (t.set record.capture copy)
    rw [State.set_locals_same] at hstep
    cases hsource : t.locals record.source with
    | none =>
      rw [hsource] at hclean
      have hwrong := hagrees.wrong.mp ⟨i, t, n, hfollows.reaches, hn, hclean⟩
      cases copy with
      | none => rfl
      | some y =>
        exact absurd hwrong (htail.finishes (donorCode_tail hplaced.seats) hstep rfl).not_goesWrong
    | some x =>
      rw [hsource] at hclean
      have hfinish := hfollows.reaches.finishes hn hclean rfl
      cases copy with
      | none =>
        exact absurd (hagrees.wrong.mpr ⟨_, _, _, htail, donorCode_tail hplaced.seats, hstep⟩)
          hfinish.not_goesWrong
      | some y =>
        exact (htail.finish_unique (donorCode_tail hplaced.seats) hstep
          ((hagrees.finishes _ _).mp hfinish)).symm
  · rcases huses with hstart | hread
    · exact absurd hstart hbranch
    · exact hcopy i t copy n hfollows hdonor hn hbranch hread

/-- An accepted captured return is an equivalence just if nothing changes the source between the
capture and its uses, control does not fall into the tail, and the copy is current there. -/
theorem isEquivalence_iff {sha256 : Text -> Text} {inputs : CaptureInputs} {record : CaptureRecord}
    {convert : V -> V} {code : Code L Text V W} (haccept : proveCapture sha256 inputs = .ok record)
    (hreading : Reading inputs.cleanTarget record code) :
    IsEquivalence record convert code ↔ CaptureCondition record convert code := by
  have hplaced := placed_of_accepted haccept hreading
  constructor
  · intro h
    exact ⟨h.quiet, h.closed, h.current hplaced⟩
  · rintro ⟨hquiet, hclosed, hcurrent⟩
    refine ⟨hquiet, hclosed, fun s hfresh => ⟨fun v w => ⟨?_, ?_⟩, ?_, ?_⟩, ?_⟩
    · exact hcurrent.finishes hplaced hfresh hclosed
    · exact hcurrent.finishes_back hplaced hfresh hclosed
    · exact hcurrent.goesWrong hplaced hfresh hclosed
    · exact hcurrent.visits hplaced hfresh hclosed
    · intro s j t m hfresh
      exact hcurrent.reads_source hplaced hfresh hclosed

section Sample

/-- `int f(int x) { x = 2; g(x); return x; }` -/
def sampleTarget : Text := "int f(int x)\n\x7b\n\tx = 2;\n\tg(x);\n\treturn x;\n\x7d\n".toList

/-- Its meaning: the world is the list of what `g` was called with. -/
def sampleCode : Code Empty Text Int (List Int) :=
  [⟨16, none, .act [] (some ['x']) [] fun _ world => ⟨some 2, fun _ => none, world, .fall⟩⟩,
    ⟨24, none, .act [(26, ['x'])] none [] fun values world => .going (world ++ values) .fall⟩,
    ⟨31, none, returnDeed 38 ['x']⟩]

def sampleDigest (_ : Text) : Text := []

def sampleGenerator (role : CaptureRole) (type source label indent : Option Text)
    (capture : Option Text) (nl : Option Bool) : CaptureGenerator :=
  ⟨"capture_tail".toList, role, type, capture, source, label, indent, nl, []⟩

def sampleDeclaration : CaptureGenerator :=
  sampleGenerator .captureDeclaration (some "int".toList) none none (some ['\t']) (some ['s']) none

def sampleAssignment : CaptureGenerator :=
  sampleGenerator .captureAssignment none (some ['x']) none (some ['\t']) (some ['s']) none

def sampleRead : CaptureGenerator :=
  sampleGenerator .readReseat none (some ['x']) none none (some ['s']) (some false)

def sampleBranch : CaptureGenerator :=
  sampleGenerator .returnToGoto none (some ['x']) (some ['o']) none none (some false)

def sampleTail : CaptureGenerator :=
  sampleGenerator .tailReturn none none (some ['o']) (some ['\t']) (some ['s']) none

def sampleOperations : List CaptureOperation :=
  [⟨['1'], "insert".toList, [sampleDeclaration], none⟩,
    ⟨['2'], "insert".toList, [sampleAssignment], none⟩,
    ⟨['3'], "replace".toList, [sampleRead], some ⟨[], 1⟩⟩,
    ⟨['4'], "replace".toList, [sampleBranch], some ⟨[], 9⟩⟩,
    ⟨['5'], "insert".toList, [sampleTail], none⟩]

def sampleRecord (place : Nat) : CaptureRecord where
  declaration := ⟨.captureDeclaration, sampleDeclaration, 15⟩
  assignment := ⟨.captureAssignment, sampleAssignment, place⟩
  read := ⟨.readReseat, sampleRead, 26⟩
  branch := ⟨.returnToGoto, sampleBranch, 31⟩
  tail := ⟨.tailReturn, sampleTail, 41⟩

def sampleInputs (place : Nat) : CaptureInputs where
  cleanTarget := sampleTarget
  donorTarget := if place = 15 then
      "int f(int x)\n\x7b\n\tint s;\n\ts = x;\n\tx = 2;\n\tg(s);\n\tgoto o;\n\no:\n\treturn s;\n\x7d\n".toList
    else
      "int f(int x)\n\x7b\n\tint s;\n\tx = 2;\n\ts = x;\n\tg(s);\n\tgoto o;\n\no:\n\treturn s;\n\x7d\n".toList
  cleanUnit := sampleTarget
  operations := sampleOperations
  cleanPositions := [(['1'], 15), (['2'], place), (['3'], 26), (['4'], 31), (['5'], 41)]

theorem sample_nodes {i : Nat} {n : Node Empty Text Int (List Int)} (hn : sampleCode[i]? = some n) :
    (i = 0 ∧ n = ⟨16, none, .act [] (some ['x']) [] fun _ world =>
      ⟨some 2, fun _ => none, world, .fall⟩⟩) ∨
    (i = 1 ∧ n = ⟨24, none, .act [(26, ['x'])] none [] fun values world =>
      .going (world ++ values) .fall⟩) ∨
    i = 2 ∧ n = ⟨31, none, returnDeed 38 ['x']⟩ := by
  obtain ⟨hi, rfl⟩ := List.getElem?_eq_some_iff.mp hn
  have hlength : sampleCode.length = 3 := rfl
  rcases i with _ | _ | _ | i
  · exact .inl ⟨rfl, rfl⟩
  · exact .inr (.inl ⟨rfl, rfl⟩)
  · exact .inr (.inr ⟨rfl, rfl⟩)
  · omega

theorem sample_reading (place : Nat) :
    Reading (sampleInputs place).cleanTarget (sampleRecord place) sampleCode where
  spelled := by
    have hx : ['x'] ∈ tokenText sampleTarget := by decide
    intro n hn x hname
    simp only [sampleCode, mem_cons, not_mem_nil, or_false] at hn
    rcases hn with rfl | rfl | rfl <;>
      · simp only [Deed.Names, returnDeed, mem_singleton, not_mem_nil, exists_eq_left,
          false_and, exists_false, reduceCtorEq, some.injEq, or_false, false_or] at hname
        rwa [<- hname]
  read_source := ⟨_, mem_cons_of_mem _ (mem_cons_self ..), mem_cons_self ..⟩
  read_only := by
    intro n hn r hr _
    simp only [sampleCode, mem_cons, not_mem_nil, or_false] at hn
    rcases hn with rfl | rfl | rfl <;> simp [readsOf, returnDeed] at hr <;> rw [hr] <;> rfl
  return_only := by
    intro n hn hstart
    simp only [sampleCode, mem_cons, not_mem_nil, or_false] at hn
    rcases hn with rfl | rfl | rfl
    · cases hstart
    · cases hstart
    · exact ⟨38, rfl⟩

/-- A call with one. -/
def sampleState : State Text Int (List Int) where
  locals y := if y = ['x'] then some 1 else none
  escaped := []
  world := []

/-- The capture in front of the assignment is accepted too, and the donor calls and returns with
the old value. -/
theorem earlyCapture_accepted :
    proveCapture sampleDigest (sampleInputs 15) = .ok (sampleRecord 15) ∧
      Reading (sampleInputs 15).cleanTarget (sampleRecord 15) sampleCode ∧
      Finishes sampleCode sampleState (some 2) [2] ∧
      Finishes ((sampleRecord 15).donorCode id sampleCode) sampleState (some 1) [1] ∧
      ¬IsEquivalence (sampleRecord 15) id sampleCode := by
  refine ⟨by decide, sample_reading 15, ?_, ?_, fun h => ?_⟩
  · have hassigned := (Reaches.entry (r := sampleCode) (s := sampleState)).fall rfl rfl
    have hcalled := hassigned.fall rfl rfl
    exact hcalled.finishes rfl (by rfl) (by rfl)
  · have hcopied := (Reaches.entry (r := (sampleRecord 15).donorCode id sampleCode)
      (s := sampleState)).fall rfl rfl
    have hassigned := hcopied.fall rfl rfl
    have hcalled := hassigned.fall rfl rfl
    have hjumped := hcalled.jump rfl rfl
    exact hjumped.finishes rfl (by rfl) (by rfl)
  · exact (h.quiet 0 _ rfl (Nat.zero_le _) (by decide)).1 rfl

theorem sample_current {s t : State Text Int (List Int)} {i : Nat} {copy : Option Int}
    (h : Follows (sampleRecord 23) id sampleCode s i t copy) (hi : 1 <= i) :
    copy = t.locals ['x'] := by
  have hseat : (sampleRecord 23).captureSeat sampleCode = 1 := by decide
  have hsource : (sampleRecord 23).source = ['x'] := rfl
  induction h with
  | entry => omega
  | @jump i t u copy n l => exact l.elim
  | @fall i t u copy n hfollows hn hs ih =>
    rw [hseat]
    rcases sample_nodes hn with ⟨rfl, rfl⟩ | ⟨rfl, rfl⟩ | ⟨rfl, rfl⟩
    · rw [if_pos rfl, hsource, Option.map_id]
      rfl
    · have hcopy := ih le_rfl
      obtain ⟨values, _, hp⟩ := Option.map_eq_some_iff.mp hs
      cases hp
      rw [if_neg (by decide), hcopy]
      simp [State.after, Outcome.going]
    · obtain ⟨values, _, hp⟩ := map_eq_some_iff.mp hs
      cases hp

/-- The capture behind the assignment is an equivalence. -/
theorem lateCapture_equivalent :
    proveCapture sampleDigest (sampleInputs 23) = .ok (sampleRecord 23) ∧
      IsEquivalence (sampleRecord 23) id sampleCode := by
  have haccept : proveCapture sampleDigest (sampleInputs 23) = .ok (sampleRecord 23) := by
    decide
  refine ⟨haccept, (isEquivalence_iff haccept (sample_reading 23)).mpr ⟨?_, ⟨by decide, ?_⟩, ?_⟩⟩
  · intro i n hn hi hstart
    have hseat : (sampleRecord 23).captureSeat sampleCode = 1 := by decide
    rcases sample_nodes hn with ⟨rfl, rfl⟩ | ⟨rfl, rfl⟩ | ⟨rfl, rfl⟩
    · omega
    · exact ⟨nofun, not_mem_nil⟩
    · exact ⟨nofun, not_mem_nil⟩
  · intro s i t u n _ _ hn hs hi
    have hseat : (sampleRecord 23).tailSeat sampleCode = 3 := by decide
    obtain rfl : i = 2 := by omega
    cases hn
    obtain ⟨values, _, hp⟩ := map_eq_some_iff.mp hs
    cases hp
  · intro s i t copy n _ hfollows hn huses
    refine sample_current hfollows ?_
    by_contra hi
    obtain rfl : i = 0 := by omega
    cases hn
    rcases huses with hstart | ⟨r, hr, _⟩
    · cases hstart
    · cases hr

end Sample

end Reprobit.Refactor

import Reprobit.Producer.Ownership

/-!
# Literal options of the producer tools

An option of a role's literal table passes the scans of an argument list and leaves
nothing behind, wherever it stands.  One pair of options is different: the scan for
edges reads `/force` as the option `/fo` with the output `rce` attached to it.
-/

namespace Reprobit.Producer

open List

open Linkage (lower)
open Machine

def literalOptions : ProducerRole -> List Text
  | .compiler => []
  | .resource => resourceLiteralOptions
  | .librarian => librarianLiteralOptions
  | .linker => linkerLiteralOptions

def forceOptions : List Text := ["/force", "-force"].map (·.toList)

section

variable (rt : Runtime)

/-- The files a linker takes by position, in order. -/
def linkerReferences : List Text -> Refusing (List Text)
  | [] => .ok []
  | value :: rest =>
    if startsWithAny ["/".toList, "-".toList] value then linkerReferences rest
    else
      let suffix := rt.casefold (suffixOf (portableText value))
      if suffix ∉ [".lib", ".obj", ".res"].map (·.toList) then linkerReferences rest
      else do
        let library : Bool := suffix = ".lib".toList
        let reference <- argumentReference rt false library library value
        let references <- linkerReferences rest
        pure (reference :: references)

def linkerInputSequence (node : ProducerNode) : Refusing (List Text) := do
  require (node.role = .linker) "linker input sequence is defined only for linker nodes"
  linkerReferences rt node.arguments

def resourceValueOptions : List Text := ["/i", "-i", "/fo", "-fo"].map (·.toList)

def separateOptions : List (List Text) := [separatePathOptions, resourceValueOptions]

def valueDue (options : List Text) (due : Bool) (before : List Text) : Bool :=
  before.foldl (fun due value => !due && rt.casefold value ∈ options) due

/-- A node is accepted in place of another, and tells the same. -/
structure Neutral (node changed : ProducerNode) : Prop where
  accepted : changed.validate rt = .ok ()
  inputs : changed.inputs = node.inputs
  outputs : changed.outputs = node.outputs
  sequence : linkerInputSequence rt changed = linkerInputSequence rt node

def ProducerNode.inserting (node : ProducerNode) (before : List Text) (option : Text)
    (after : List Text) : ProducerNode :=
  { node with arguments := before ++ option :: after }

/-- What begins like `/out:` or `/fo` names the output `rce`. -/
def OutputIsRce (arguments : List Text) : Prop :=
  ∀ value ∈ arguments, ∀ start ∈ requiredOutputStarts, start <+: rt.casefold value ->
    rt.casefold (buildReference (value.drop start.length)) = "build/rce".toList

end

section

variable {rt : Runtime}

def leavesNoEdge (option : Text) : Bool :=
  !startsWithAny (roleDirectoryOptions ++ roleDirectoryStarts ++ roleInputStarts ++
      roleOutputStarts) option && !isPathlike (portableText option) &&
    !markers.any (hasPart · option)

theorem literalOptions_table :
    ∀ option ∈ resourceLiteralOptions ++ librarianLiteralOptions ++ linkerLiteralOptions,
      ((∀ d ∈ option, d.toNat < 128) ∧ option.map lower = option) ∧
      option ∉ separatePathOptions ∧ validateLiteral option = .ok () ∧
      validateArgumentPath plainRuntime option = .ok () ∧
      startsWithAny ["/".toList, "-".toList] option = true ∧
      (option ∈ forceOptions ∨ leavesNoEdge option = true) := by
  decide +kernel

variable {option value : Text} {role : ProducerRole}

theorem mem_table (h : option ∈ literalOptions role) :
    option ∈ resourceLiteralOptions ++ librarianLiteralOptions ++ linkerLiteralOptions := by
  cases role <;> simp_all [literalOptions]

theorem casefold_literal (h : option ∈ literalOptions role) : rt.casefold option = option :=
  have hfold := (literalOptions_table option (mem_table h)).1
  rt.casefold_of_lower hfold.1 hfold.2

theorem validateArgumentPath_congr {rt' : Runtime} (h : rt.casefold value = rt'.casefold value) :
    validateArgumentPath rt value = validateArgumentPath rt' value := by
  unfold validateArgumentPath
  rw [h]

theorem argumentEdge_skip
    (hfold : rt.casefold option = option) (hswitch : option ∉ separatePathOptions)
    (h : leavesNoEdge option = true) : argumentEdge rt role option = .ok .skip := by
  simp only [leavesNoEdge, startsWithAny, any_append, Bool.and_eq_true, Bool.not_eq_true',
    Bool.or_eq_false_iff] at h
  obtain ⟨⟨⟨⟨⟨hdirectory, hlibpath⟩, hinput⟩, houtput⟩, hpath⟩, hmarker⟩ := h
  have hseparate := not_alone hswitch
  have hfind : ∀ starts : List Text, starts.any (·.isPrefixOf option) = false ->
      starts.find? (·.isPrefixOf option) = none := by
    intro starts hnone
    exact find?_eq_none.mpr fun start hstart => by
      simpa using any_eq_false.mp hnone start hstart
  simp only [argumentEdge, hfold, if_neg hseparate.1, if_neg hseparate.2, hfind _ hinput,
    hfind _ houtput, positionalEdge, hpath, hmarker]
  simp

def literalEdge (option : Text) : Edge :=
  if option ∈ forceOptions then .required "build/rce".toList else .skip

theorem argumentReference_rce :
    argumentReference rt true false false ['r', 'c', 'e'] = .ok "build/rce".toList := by
  rfl

theorem argumentEdge_literal (h : option ∈ literalOptions role) :
    argumentEdge rt role option = .ok (literalEdge option) := by
  obtain ⟨-, hswitch, -, -, -, hedge⟩ := literalOptions_table option (mem_table h)
  have hfold : rt.casefold option = option := casefold_literal h
  by_cases hforce : option ∈ forceOptions
  · rw [literalEdge, if_pos hforce]
    have hrce : rt.casefold "build/rce".toList = "build/rce".toList :=
      rt.casefold_of_lower (by decide) (by decide)
    obtain ⟨mark, rfl, hstart⟩ : ∃ mark, option = [mark, 'f', 'o'] ++ ['r', 'c', 'e'] ∧
        [mark, 'f', 'o'] ∈ roleOutputStarts ∧ [mark, 'f', 'o'] ∈ requiredOutputStarts := by
      simp only [forceOptions, map_cons, map_nil, mem_cons, not_mem_nil,
        or_false] at hforce
      rcases hforce with rfl | rfl
      · exact ⟨'/', by decide, by decide, by decide⟩
      · exact ⟨'-', by decide, by decide, by decide⟩
    have halone : rt.casefold ([mark, 'f', 'o'] ++ ['r', 'c', 'e']) ∉ separateOutputOptions := by
      rw [hfold]
      simp [separateOutputOptions]
    rw [argumentEdge_output hstart.1 hfold halone]
    simp only [length_cons, length_nil, cons_append, nil_append, List.drop,
      argumentReference_rce, if_pos hstart.2]
    exact congrArg (fun reference => Except.ok (Edge.required reference)) hrce
  · rw [literalEdge, if_neg hforce]
    exact argumentEdge_skip hfold hswitch (hedge.resolve_left hforce)

theorem valueDue_cons (options : List Text) (due : Bool) (value : Text) (rest : List Text) :
    valueDue rt options due (value :: rest) =
      valueDue rt options (!due && rt.casefold value ∈ options) rest := rfl

theorem mem_resourceValueOptions {folded : Text} : folded ∈ resourceValueOptions ↔
    folded ∈ roleDirectoryOptions ∨ folded ∈ separateOutputOptions :=
  mem_append (s := roleDirectoryOptions) (t := separateOutputOptions)

variable {before after arguments : List Text} {edge : Edge} {reference : Text}

theorem forall_mem_insert {p : Text -> Prop} : (∀ value ∈ before ++ option :: after, p value) ↔
      p option ∧ ∀ value ∈ before ++ after, p value := by
  simp only [mem_append]
  grind

theorem validateArgumentPaths_insert
    {pending : Option Text} (hplain : rt.casefold option ∉ separatePathOptions)
    (hpath : validateArgumentPath rt option = .ok ())
    (hdue : valueDue rt separatePathOptions pending.isSome before = false)
    (h : validateArgumentPaths rt pending (before ++ after) = .ok ()) :
    validateArgumentPaths rt pending (before ++ option :: after) = .ok () := by
  induction before generalizing pending with
  | nil =>
    obtain rfl : pending = none := by simpa [valueDue] using hdue
    simp only [nil_append, validateArgumentPaths, if_neg hplain, bind_eq_ok]
    exact ⟨(), hpath, h⟩
  | cons value rest ih =>
    rw [valueDue_cons] at hdue
    cases pending with
    | some _ =>
      simp only [cons_append, validateArgumentPaths, bind_eq_ok] at h ⊢
      obtain ⟨u, hbound, h⟩ := h
      exact ⟨u, hbound, ih hdue h⟩
    | none =>
      by_cases hvalue : rt.casefold value ∈ separatePathOptions
      · simp only [cons_append, validateArgumentPaths, if_pos hvalue] at h ⊢
        exact ih (by simpa [hvalue] using hdue) h
      · simp only [cons_append, validateArgumentPaths, if_neg hvalue, bind_eq_ok] at h ⊢
        obtain ⟨u, hpath, h⟩ := h
        exact ⟨u, hpath, ih (by simpa [hvalue] using hdue) h⟩

theorem validateResourceGrammar_insert {due : Bool}
    (hplain : rt.casefold option ∉ resourceValueOptions)
    (hadmits : admitsResourceArgument rt option = true)
    (hdue : valueDue rt resourceValueOptions due before = false)
    (h : validateResourceGrammar rt due (before ++ after) = .ok ()) :
    validateResourceGrammar rt due (before ++ option :: after) = .ok () := by
  induction before generalizing due with
  | nil =>
    obtain rfl : due = false := hdue
    refine (if_neg hplain).trans (require_bind_eq_ok.mpr ⟨hadmits, h⟩)
  | cons value rest ih =>
    rw [valueDue_cons] at hdue
    cases due with
    | true => exact ih hdue h
    | false =>
      by_cases hvalue : rt.casefold value ∈ resourceValueOptions
      · refine (if_pos hvalue).trans (ih (by simpa [hvalue] using hdue) ?_)
        exact (if_pos hvalue).symm.trans h
      · obtain ⟨hadmits, h⟩ := require_bind_eq_ok.mp ((if_neg hvalue).symm.trans h)
        refine (if_neg hvalue).trans (require_bind_eq_ok.mpr ⟨hadmits, ?_⟩)
        exact ih (by simpa [hvalue] using hdue) h

/-- Edges with one more edge among them that is no input. -/
structure Edges.Plus (edges : Edges) (edge : Edge) (more : Edges) : Prop where
  inputs : more.inputs = edges.inputs
  secondary : more.secondaryOutputs = edges.secondaryOutputs
  required : ∀ reference,
    reference ∈ more.requiredOutputs ↔ reference ∈ edges.requiredOutputs ∨
    edge = .required reference

theorem Edges.Plus.addTo {edges more : Edges} (h : edges.Plus edge more) (first : Edge) :
    Edges.Plus (first.addTo edges) edge (first.addTo more) := by
  obtain ⟨hinputs, hsecondary, hrequired⟩ := h
  cases first <;> constructor <;> simp [Edge.addTo, hinputs, hsecondary, hrequired, or_assoc]

theorem argumentEdge_due (h : argumentEdge rt role value = .ok edge) :
    decide (edge.next ≠ .nothing) =
      decide (rt.casefold value ∈ resourceValueOptions) := by
  by_cases hd : rt.casefold value ∈ roleDirectoryOptions
  · rw [argumentEdge_directory role hd] at h
    cases h
    simp [Edge.next, mem_resourceValueOptions, hd]
  · by_cases ho : rt.casefold value ∈ separateOutputOptions
    · rw [argumentEdge_separate role hd ho] at h
      cases h
      simp [Edge.next, mem_resourceValueOptions, ho]
    · simp [argumentEdge_next h hd ho, mem_resourceValueOptions, hd, ho]

theorem roleArgumentEdges_insert
    {expecting : Expecting} {edges : Edges} (hoption : option ∈ literalOptions role)
    (hdue : valueDue rt resourceValueOptions (decide (expecting ≠ .nothing)) before = false)
    (h : roleArgumentEdges rt role expecting (before ++ after) = .ok edges) :
    ∃ more, roleArgumentEdges rt role expecting (before ++ option :: after) = .ok more ∧
      edges.Plus (literalEdge option) more := by
  induction before generalizing expecting edges with
  | nil =>
    obtain rfl : expecting = .nothing := by simpa [valueDue] using hdue
    simp only [nil_append, roleArgumentEdges, argumentEdge_literal hoption, bind_eq_ok]
    refine ⟨_, ⟨_, rfl, edges, ?_, rfl⟩, ?_⟩
    · unfold literalEdge
      split <;> exact h
    · unfold literalEdge
      split <;> constructor <;> simp [Edge.addTo, eq_comm, or_comm]
  | cons value rest ih =>
    rw [valueDue_cons] at hdue
    cases expecting with
    | directory => exact ih hdue h
    | output =>
      simp only [cons_append, roleArgumentEdges, bind_eq_ok, pure_eq_ok] at h ⊢
      obtain ⟨reference, hreference, tail, htail, rfl⟩ := h
      obtain ⟨more, hmore, hplus⟩ := @ih .nothing tail hdue htail
      exact ⟨_, ⟨reference, hreference, more, hmore, rfl⟩, hplus.addTo _⟩
    | nothing =>
      simp only [cons_append, roleArgumentEdges, bind_eq_ok, pure_eq_ok] at h ⊢
      obtain ⟨edge, hedge, tail, htail, rfl⟩ := h
      obtain ⟨more, hmore, hplus⟩ := ih (by rw [argumentEdge_due hedge]; simpa using hdue) htail
      exact ⟨_, ⟨edge, hedge, more, hmore, rfl⟩, hplus.addTo _⟩

theorem grammar_insert (hoption : option ∈ literalOptions role)
    (hplain : rt.casefold option ∉ resourceValueOptions)
    (hdue : valueDue rt resourceValueOptions false before = false)
    (h : validateNoncompilerOptionGrammar rt role (before ++ after) = .ok ()) :
    validateNoncompilerOptionGrammar rt role (before ++ option :: after) = .ok () := by
  have hfold : rt.casefold option = option := casefold_literal hoption
  cases role with
  | compiler => rfl
  | resource =>
    refine validateResourceGrammar_insert hplain ?_ hdue h
    simp [admitsResourceArgument, hfold, show option ∈ resourceLiteralOptions from hoption]
  | librarian =>
    refine requireEach_eq_ok.mpr (forall_mem_insert.mpr ⟨?_, requireEach_eq_ok.mp h⟩)
    simp [admitsLibrarianArgument, hfold, show option ∈ librarianLiteralOptions from hoption]
  | linker =>
    refine requireEach_eq_ok.mpr (forall_mem_insert.mpr ⟨?_, requireEach_eq_ok.mp h⟩)
    simp [admitsLinkerArgument, hfold, show option ∈ linkerLiteralOptions from hoption]

theorem validateOutputEdges_congr {edges more : Edges} {declared : List Text}
    (hrequired : ∀ reference, reference ∈ more.requiredOutputs ↔ reference ∈ edges.requiredOutputs)
    (hsecondary : more.secondaryOutputs = edges.secondaryOutputs)
    (h : validateOutputEdges rt role edges declared = .ok ()) :
    validateOutputEdges rt role more declared = .ok () := by
  have hlength : more.requiredOutputs.dedup.length = edges.requiredOutputs.dedup.length := by
    rw [<- card_toFinset, <- card_toFinset]
    congr 1
    ext reference
    simp [hrequired]
  simp only [validateOutputEdges, subset_def] at h ⊢
  simp only [hrequired, hsecondary, hlength]
  exact h

theorem argumentEdge_required (h : argumentEdge rt role value = .ok (.required reference)) :
    ∃ start ∈ requiredOutputStarts, start <+: rt.casefold value ∧
      reference = rt.casefold (buildReference (value.drop start.length)) := by
  unfold argumentEdge at h
  simp only at h
  split at h
  · cases h
  split at h
  · cases h
  split at h
  · cases h
  split at h
  · cases h
  split at h
  · simp only [bind_eq_ok] at h
    obtain ⟨_, -, h⟩ := h
    cases h
  split at h
  · rename_i start hfind
    simp only [bind_eq_ok] at h
    obtain ⟨destination, hdestination, h⟩ := h
    split at h
    · rename_i hstart
      cases h
      refine ⟨start, hstart, ?_, by rw [argumentReference_output hdestination]⟩
      exact isPrefixOf_iff_prefix.mp (by simpa using find?_some hfind)
    · cases h
  · unfold positionalEdge at h
    simp only at h
    split at h
    · cases h
    · simp only [↓require_bind_eq_ok, bind_eq_ok] at h
      obtain ⟨-, _, -, h⟩ := h
      cases h

theorem roleArgumentEdges_required {edges : Edges}
    (h : roleArgumentEdges rt .linker .nothing arguments = .ok edges)
    (halone : ∀ value ∈ arguments, rt.casefold value ∉ roleDirectoryOptions ∧
      rt.casefold value ∉ separateOutputOptions) (hmem : reference ∈ edges.requiredOutputs) :
    ∃ value ∈ arguments, argumentEdge rt .linker value = .ok (.required reference) := by
  induction arguments generalizing edges with
  | nil =>
    cases h
    simp at hmem
  | cons first rest ih =>
    simp only [roleArgumentEdges, bind_eq_ok, pure_eq_ok] at h
    obtain ⟨edge, hedge, tail, htail, rfl⟩ := h
    obtain ⟨hdirectory, houtput⟩ := halone first (by simp)
    rw [argumentEdge_next hedge hdirectory houtput] at htail
    have hcases : edge = .required reference ∨ reference ∈ tail.requiredOutputs := by
      cases edge <;> simp_all [Edge.addTo, eq_comm]
    rcases hcases with rfl | hmem
    · exact ⟨first, by simp, hedge⟩
    · obtain ⟨value, hvalue, hrequired⟩ := ih htail (fun v hv => halone v (by simp [hv])) hmem
      exact ⟨value, by simp [hvalue], hrequired⟩

/-- `/force` is no new output exactly if `rce` is the output already. -/
theorem outputIsRce_iff {edges : Edges}
    (hgrammar : validateNoncompilerOptionGrammar rt .linker arguments = .ok ())
    (hfound : roleArgumentEdges rt .linker .nothing arguments = .ok edges) :
    OutputIsRce rt arguments ↔
      ∀ reference ∈ edges.requiredOutputs, reference = "build/rce".toList := by
  have halone := alone_of_grammar (.inr rfl) hgrammar
  constructor
  · intro h reference hmem
    obtain ⟨value, hvalue, hedge⟩ := roleArgumentEdges_required hfound halone hmem
    obtain ⟨start, hstart, hbegins, rfl⟩ := argumentEdge_required hedge
    exact h value hvalue start hstart hbegins
  · intro h value hvalue start hstart hbegins
    obtain ⟨rest, hrest⟩ := hbegins
    obtain ⟨edge, hedge, hin, -⟩ := roleArgumentEdges_mem hfound halone hvalue
    have houtput : start ∈ roleOutputStarts := by
      simp only [requiredOutputStarts, map_cons, map_nil, mem_cons,
        not_mem_nil, or_false] at hstart
      rcases hstart with rfl | rfl | rfl | rfl <;> simp [roleOutputStarts]
    rw [argumentEdge_output houtput hrest.symm (halone value hvalue).2] at hedge
    simp only [bind_eq_ok, pure_eq_ok, if_pos hstart] at hedge
    obtain ⟨destination, hdestination, rfl⟩ := hedge
    rw [<- argumentReference_output hdestination]
    exact h _ (hin _ rfl)

variable (rt) in
/-- The checks of a node that do not look at its arguments. -/
def ProducerNode.Framed (node : ProducerNode) : Prop :=
  (isIdentifier node.id ∧ ∀ target ∈ node.targetId, isIdentifier target) ∧
  validateInputs rt node.inputs = .ok () ∧
  validateDirectiveInputs rt node.directiveInputs = .ok () ∧
  validateOutputs rt node.outputs = .ok () ∧ validateDependencies rt node.dependsOn = .ok () ∧
  (node.role ≠ .linker -> node.targetId = none) ∧ (node.role = .linker -> node.targetId ≠ none) ∧
  (node.role ≠ .linker -> node.directiveInputs = []) ∧
  (∀ value ∈ node.inputs.map rt.casefold, value ∉ node.directiveInputs.map rt.casefold) ∧
  ∀ input ∈ node.inputs, validateInputKind rt node.role input = .ok ()

variable (rt) in
/-- The arguments pass the scans and have the declared edges. -/
structure ProducerNode.Argued (node : ProducerNode) (edges : Edges) : Prop where
  given : node.arguments ≠ []
  literal : ∀ value ∈ node.arguments, validateLiteral value = .ok ()
  paths : validateArgumentPaths rt none node.arguments = .ok ()
  grammar : validateNoncompilerOptionGrammar rt node.role node.arguments = .ok ()
  found : roleArgumentEdges rt node.role .nothing node.arguments = .ok edges
  inputs : edges.inputs.filter (· ∉ node.inputs.map rt.casefold) = [] ∧
    (node.inputs.map rt.casefold).filter (· ∉ edges.inputs) = []
  outputs : validateOutputEdges rt node.role edges (node.outputs.map rt.casefold) = .ok ()

theorem ProducerNode.validate_iff {node : ProducerNode} (hrole : node.role ≠ .compiler) :
    node.validate rt = .ok () ↔ node.Framed rt ∧ ∃ edges, node.Argued rt edges := by
  simp only [validate, validateArguments, validateRoleShape, if_neg hrole, validateEdges,
    bind_eq_ok, checkEach_eq_ok, require_eq_ok, Unique.exists_iff]
  constructor
  · rintro ⟨hid, ⟨hne, hliteral, hpaths⟩, hinputs, hdirective, houtputs, hdepends, htarget,
      htarget',
      honly, hapart, hgrammar, edges, hedges, hmatch, hedged, hkinds⟩
    exact ⟨⟨hid, hinputs, hdirective, houtputs, hdepends, htarget, htarget', honly, hapart, hkinds⟩,
      edges, hne, hliteral, hpaths, hgrammar, hedges, hmatch, hedged⟩
  · rintro ⟨⟨hid, hinputs, hdirective, houtputs, hdepends, htarget, htarget', honly, hapart,
      hkinds⟩,
      edges, hne, hliteral, hpaths, hgrammar, hedges, hmatch, hedged⟩
    exact ⟨hid, ⟨hne, hliteral, hpaths⟩, hinputs, hdirective, houtputs, hdepends, htarget,
      htarget', honly, hapart, hgrammar, edges, hedges, hmatch, hedged, hkinds⟩

theorem linkerReferences_insert
    (h : startsWithAny ["/".toList, "-".toList] option = true) (before after : List Text) :
    linkerReferences rt (before ++ option :: after) = linkerReferences rt (before ++ after) := by
  induction before with
  | nil =>
    rw [nil_append, linkerReferences, if_pos h]
    rfl
  | cons value rest ih => simp only [cons_append, linkerReferences, ih]

end

theorem linker_of_force (h : option ∈ literalOptions role)
    (hforce : option ∈ forceOptions) : role = .linker := by
  have hothers : ∀ option ∈ forceOptions,
      option ∉ resourceLiteralOptions ∧ option ∉ librarianLiteralOptions := by
    simp [forceOptions, resourceLiteralOptions, librarianLiteralOptions]
  cases role with
  | compiler => simp [literalOptions] at h
  | resource => exact absurd h (hothers option hforce).1
  | librarian => exact absurd h (hothers option hforce).2
  | linker => rfl

theorem eq_of_dedup {references : List Text} {a b : Text} (h : references.dedup.length = 1)
    (ha : a ∈ references) (hb : b ∈ references) : a = b := by
  obtain ⟨c, hc⟩ := length_eq_one_iff.mp h
  rw [<- mem_dedup, hc, mem_singleton] at ha hb
  rw [ha, hb]

/-- An option of a role's literal table is neutral wherever no value is due, except that
`/force` needs the output `rce`. -/
theorem literal_neutral_iff (rt : Runtime) (node : ProducerNode) (before after : List Text)
    (option : Text) (h : node.validate rt = .ok ()) (hsplit : node.arguments = before ++ after)
    (hoption : option ∈ literalOptions node.role)
    (hdue : ∀ options ∈ separateOptions, valueDue rt options false before = false) :
    Neutral rt node (node.inserting before option after) ↔
      (option ∈ forceOptions -> OutputIsRce rt node.arguments) := by
  have hrole : node.role ≠ .compiler := by
    intro hrole
    simp [hrole, literalOptions] at hoption
  have hrole' : (node.inserting before option after).role ≠ .compiler := hrole
  obtain ⟨hframed, edges, hargued⟩ := (ProducerNode.validate_iff hrole).mp h
  have hrce : option ∈ forceOptions -> (OutputIsRce rt node.arguments ↔
      ∀ reference ∈ edges.requiredOutputs, reference = "build/rce".toList) := by
    intro hforce
    have hlinker := linker_of_force hoption hforce
    exact outputIsRce_iff (hlinker ▸ hargued.grammar) (hlinker ▸ hargued.found)
  obtain ⟨-, hswitch, hliteral, hpath, hstart, -⟩ :=
    literalOptions_table option (mem_table hoption)
  have hfold : rt.casefold option = option := casefold_literal hoption
  have hplain : rt.casefold option ∉ resourceValueOptions := by
    rw [hfold, mem_resourceValueOptions, not_or]
    exact not_alone hswitch
  have hdue' := hdue _ (by simp [separateOptions] : resourceValueOptions ∈ _)
  obtain ⟨given, literal, paths, grammar, found, inputs, outputs⟩ := hargued
  rw [hsplit] at literal paths grammar found
  obtain ⟨more, hmore, hplus⟩ := roleArgumentEdges_insert hoption hdue' found
  constructor
  · rintro ⟨haccepted, -, -, -⟩ hforce
    obtain ⟨-, more', hmore'⟩ := (ProducerNode.validate_iff hrole').mp haccepted
    obtain rfl : more' = more := by
      have hsame : Except.ok more' = Except.ok more := hmore'.found.symm.trans hmore
      cases hsame
      rfl
    have houtputs := hmore'.outputs
    have hlinker : (node.inserting before option after).role = .linker :=
      linker_of_force hoption hforce
    simp only [validateOutputEdges, hlinker, if_true, ↓require_bind_eq_ok] at houtputs
    refine (hrce hforce).mpr fun reference hmem => ?_
    refine eq_of_dedup houtputs.1.1 ((hplus.required _).mpr (.inl hmem)) ?_
    exact (hplus.required _).mpr (.inr (if_pos hforce))
  · intro hforce
    have hrequired : ∀ reference,
        reference ∈ more.requiredOutputs ↔ reference ∈ edges.requiredOutputs := by
      intro reference
      rw [hplus.required, literalEdge]
      by_cases hmem : option ∈ forceOptions
      · rw [if_pos hmem]
        have houtputs := outputs
        simp only [validateOutputEdges, linker_of_force hoption hmem, if_true,
          ↓require_bind_eq_ok] at houtputs
        obtain ⟨a, ha⟩ := length_eq_one_iff.mp houtputs.1.1
        have hin : a ∈ edges.requiredOutputs := by rw [<- mem_dedup, ha]; simp
        refine ⟨fun h => h.elim id fun heq => ?_, .inl⟩
        cases heq
        exact (hrce hmem).mp (hforce hmem) a hin ▸ hin
      · rw [if_neg hmem]
        simp
    refine ⟨(ProducerNode.validate_iff hrole').mpr ⟨hframed, more, ?_⟩, rfl, rfl, ?_⟩
    · have hpath' : validateArgumentPath rt option = .ok () := by
        rw [validateArgumentPath_congr (hfold.trans (casefold_literal hoption).symm)]
        exact hpath
      refine ⟨by simp [ProducerNode.inserting], forall_mem_insert.mpr ⟨hliteral, literal⟩, ?_,
        grammar_insert hoption hplain hdue' grammar, hmore, ?_, ?_⟩
      · exact validateArgumentPaths_insert (hfold.symm ▸ hswitch) hpath'
          (hdue _ (by simp [separateOptions])) paths
      · rw [hplus.inputs]
        exact inputs
      · exact validateOutputEdges_congr hrequired hplus.secondary outputs
    · rw [linkerInputSequence, linkerInputSequence, hsplit]
      exact congrArg (require _ _ >>= fun _ => ·) (linkerReferences_insert hstart before after)

def gameLink : ProducerNode := linkNode "game" ["build/game.exe".toList]

theorem debug_neutral : gameLink.validate plainRuntime = .ok () ∧
      Neutral plainRuntime gameLink (gameLink.inserting [] "/debug".toList gameLink.arguments) := by
  have h : gameLink.validate plainRuntime = .ok () := by decide +kernel
  exact ⟨h, (literal_neutral_iff plainRuntime gameLink [] gameLink.arguments "/debug".toList h rfl
    (by decide) fun _ _ => rfl).mpr fun hforce => absurd hforce (by decide)⟩

/-- `/force` is an option of the table, and the linker with it is refused. -/
theorem force_refused : gameLink.validate plainRuntime = .ok () ∧
      "/force".toList ∈ literalOptions gameLink.role ∧
      (gameLink.inserting [] "/force".toList gameLink.arguments).validate plainRuntime =
        .error "linker /out edge differs from declared outputs" := by
  decide +kernel

end Reprobit.Producer

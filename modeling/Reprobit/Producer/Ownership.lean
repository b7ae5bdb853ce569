import Reprobit.Producer.Graph
import Mathlib.Tactic.IntervalCases

/-!
# Ownership of producer outputs

What the arguments of a tool tell it to write, compared with the outputs its node
declares.  The document checks ownership on declared outputs only, and the import
library, program database and map file of the linker need not be declared: the argument
view and the declared view coincide exactly where these are declared as well.
-/

namespace Reprobit.Producer

open List

open Linkage (lower switchValue)
open Machine

def attachedValue (name value : Text) : Option Text :=
  match value with
  | [] => none
  | c :: rest =>
    if (c = '/' ∨ c = '-') ∧ (rest.take name.length).map lower = name then
      some (rest.drop name.length)
    else none

/-- The output behind `/fo`; behind a lone `/i` is a directory. -/
def resourceTold : List Text -> List Text
  | [] => []
  | [value] =>
    if attachedValue ['f', 'o'] value = some [] then []
    else (attachedValue ['f', 'o'] value).toList
  | value :: operand :: rest =>
    if attachedValue ['i'] value = some [] then resourceTold rest
    else if attachedValue ['f', 'o'] value = some [] then operand :: resourceTold rest
    else (attachedValue ['f', 'o'] value).toList ++ resourceTold (operand :: rest)

/-- The import library, program database and map file of a linker. -/
def secondaryTold (arguments : List Text) : List Text :=
  ["implib".toList, "pdb".toList, "map".toList].flatMap fun name =>
    arguments.filterMap (switchValue name)

def told : ProducerRole -> List Text -> List Text
  | .compiler, _ => []
  | .resource, arguments => resourceTold arguments
  | .librarian, arguments => arguments.filterMap (switchValue "out".toList)
  | .linker, arguments => arguments.filterMap (switchValue "out".toList) ++ secondaryTold arguments

def buildReference (path : Text) : Text :=
  "build/".toList ++
    if (buildMarker ++ ['/']).isPrefixOf path then path.drop (buildMarker.length + 1) else path

section

variable (rt : Runtime)

def ProducerNode.toldOutputs (node : ProducerNode) : List Text :=
  (told node.role node.arguments).map fun path => rt.casefold (buildReference path)

def ProducerNode.Writes (node : ProducerNode) (reference : Text) : Prop :=
  reference ∈ node.outputs.map rt.casefold ∨ reference ∈ node.toldOutputs rt

/-- Every output of an argument list has one owner. -/
structure OneOwner (nodes : List ProducerNode) : Prop where
  declared : ∀ node ∈ nodes, ∀ reference ∈ node.toldOutputs rt,
    reference ∈ node.outputs.map rt.casefold
  apart : ∀ node ∈ nodes, ∀ other ∈ nodes, node ≠ other -> ∀ reference,
    node.Writes rt reference -> ¬ other.Writes rt reference
  depends : ∀ node ∈ nodes, ∀ other ∈ nodes, node ≠ other -> ∀ reference ∈ node.toldOutputs rt,
    reference ∈ other.inputs.map rt.casefold -> node.id ∈ other.dependsOn

/-- Import library, program database and map file are declared. -/
def SecondaryDeclared (nodes : List ProducerNode) : Prop :=
  ∀ node ∈ nodes, node.role = .linker -> ∀ path ∈ secondaryTold node.arguments,
    rt.casefold (buildReference path) ∈ node.outputs.map rt.casefold

end

/-! ## Case folding -/

theorem ascii_of_lower {c d : Char} (hd : d.toNat < 128) (h : lower c = d) : c.toNat < 128 := by
  subst h
  unfold lower at hd
  split at hd
  · rename_i hc
    have hz : c.toNat <= 90 := hc.2
    omega
  · exact hd

theorem eq_of_lower {c d : Char} (h : lower c = d) (hd : d.isLower = false) : c = d := by
  unfold lower at h
  split at h
  · rename_i hc
    have h1 : 65 <= c.toNat := hc.1
    have h2 : c.toNat <= 90 := hc.2
    have hlower : (Char.ofNat (c.toNat + 32)).isLower = true := by
      generalize c.toNat = n at h1 h2
      interval_cases n <;> rfl
    rw [h, hd] at hlower
    exact absurd hlower (by simp)
  · exact h

section

variable {rt : Runtime}

@[simp] theorem Runtime.casefold_nil : rt.casefold [] = [] := rfl

@[simp] theorem Runtime.casefold_cons (c : Char) (rest : Text) :
    rt.casefold (c :: rest) = rt.fold c ++ rt.casefold rest := rfl

theorem Runtime.casefold_append (a b : Text) :
    rt.casefold (a ++ b) = rt.casefold a ++ rt.casefold b := flatMap_append

variable {c d : Char} {value folded name path reference id : Text} {role : ProducerRole}
  {arguments : List Text}
  {edges : Edges} {node : ProducerNode} {owners owners' : Owners} {nodes : List ProducerNode}
  {edge : Edge}

theorem Runtime.fold_of_lower (hd : d.toNat < 128) (h : lower c = d) : rt.fold c = [d] := by
  rw [rt.ascii c (ascii_of_lower hd h), h]

theorem Runtime.casefold_of_lower (hfolded : ∀ d ∈ folded, d.toNat < 128)
    (h : value.map lower = folded) : rt.casefold value = folded := by
  induction value generalizing folded with
  | nil => simpa using h
  | cons c rest ih =>
    subst h
    rw [casefold_cons, rt.fold_of_lower (hfolded _ (by simp)) rfl,
      ih (fun d hd => hfolded d (by simp only [map_cons, mem_cons]; exact .inr hd)) rfl]
    rfl

theorem Runtime.fold_ne_nil (c : Char) : rt.fold c ≠ [] := by
  intro h
  by_cases hc : c.toNat < 128
  · rw [rt.ascii c hc] at h
    exact absurd h (by simp)
  · have := rt.foreign c (by omega) (by simp [h])
    rw [h] at this
    exact absurd this (by decide)

theorem Runtime.eq_of_mark (h : d ∈ rt.fold c) (hd : d.toNat < 128) (hmark : d.isLower = false) :
    c = d := by
  by_cases hc : c.toNat < 128
  · rw [rt.ascii c hc, mem_singleton] at h
    exact eq_of_lower h.symm hmark
  · have := rt.letters c (by omega) d h hd
    rw [hmark] at this
    exact absurd this (by simp)

theorem Runtime.mark_mem (hd : d.toNat < 128) (hmark : lower d = d) (h : d ∈ value) :
    d ∈ rt.casefold value :=
  mem_flatMap.mpr ⟨d, h, by rw [rt.fold_of_lower hd hmark]; simp⟩

/-- The folds of characters outside ASCII do not occur in a text. -/
def NoForeigners (folded : Text) : Prop :=
  (∀ d ∈ folded, d.toNat < 128) ∧ ∀ rest ∈ folded.tails, ∀ f ∈ foldedForeigners, ¬ f <+: rest

instance (folded : Text) : Decidable (NoForeigners folded) :=
  inferInstanceAs (Decidable (_ ∧ _))

theorem NoForeigners.of_append {a b : Text} (h : NoForeigners (a ++ b)) : NoForeigners b :=
  ⟨fun d hd => h.1 d (by simp [hd]), fun rest hrest =>
    h.2 rest (by
      rw [mem_tails] at hrest ⊢
      exact hrest.trans (suffix_append a b))⟩

theorem Runtime.lower_of_casefold (hfolded : NoForeigners folded) (h : rt.casefold value = folded) :
    value.map lower = folded := by
  induction value generalizing folded with
  | nil => simpa using h
  | cons c rest ih =>
    rw [casefold_cons] at h
    subst h
    have hrest := ih hfolded.of_append rfl
    by_cases hc : c.toNat < 128
    · rw [map_cons, hrest, rt.ascii c hc]
      rfl
    · have hforeign := rt.foreign c (by omega) fun d hd => hfolded.1 d (by simp [hd])
      exact absurd (prefix_append (rt.fold c) (rt.casefold rest))
        (hfolded.2 _ (by simp) _ hforeign)

/-! ## One argument -/

theorem attachedValue_eq_some : attachedValue name value = some path ↔
      ∃ c spelling, (c = '/' ∨ c = '-') ∧ spelling.map lower = name ∧
        value = c :: spelling ++ path := by
  cases value with
  | nil => simp [attachedValue]
  | cons c rest =>
    simp only [attachedValue, Option.ite_none_right_eq_some, Option.some.injEq]
    constructor
    · rintro ⟨⟨hc, hname⟩, hpath⟩
      exact ⟨c, rest.take name.length, hc, hname, by rw [<- hpath]; simp⟩
    · rintro ⟨c', spelling, hc, rfl, heq⟩
      cases heq
      simp [hc]

variable (rt) in
theorem casefold_of_attachedValue (hname : ∀ d ∈ name, d.toNat < 128)
    (h : attachedValue name value = some path) :
    ∃ c, (c = '/' ∨ c = '-') ∧ rt.casefold value = c :: name ++ rt.casefold path ∧
      value.drop (name.length + 1) = path := by
  obtain ⟨c, spelling, hc, hspelling, rfl⟩ := attachedValue_eq_some.mp h
  have hlength : spelling.length = name.length := by rw [<- hspelling, length_map]
  have hfold : rt.fold c = [c] := by
    rcases hc with rfl | rfl <;> exact rt.fold_of_lower (by decide) (by decide)
  refine ⟨c, hc, ?_, by simp [<- hlength]⟩
  rw [cons_append, Runtime.casefold_cons, Runtime.casefold_append, hfold,
    rt.casefold_of_lower hname hspelling]
  rfl

variable (rt) in
theorem attachedValue_eq_nil (hslash : NoForeigners ('/' :: name))
    (hdash : NoForeigners ('-' :: name)) : attachedValue name value = some [] ↔
      rt.casefold value = '/' :: name ∨ rt.casefold value = '-' :: name := by
  constructor
  · intro h
    obtain ⟨c, hc, hfold, -⟩ := casefold_of_attachedValue rt
      (fun d hd => hslash.1 d (mem_cons_of_mem _ hd)) h
    rcases hc with rfl | rfl
    · exact .inl (by simpa using hfold)
    · exact .inr (by simpa using hfold)
  · have key : ∀ mark : Char, mark = '/' ∨ mark = '-' -> mark.isLower = false ->
        value.map lower = mark :: name -> attachedValue name value = some [] := by
      intro mark hmark hlower h
      obtain ⟨c, spelling, rfl, hc, hspelling⟩ := map_eq_cons_iff.mp h
      obtain rfl := eq_of_lower hc hlower
      exact attachedValue_eq_some.mpr ⟨c, spelling, hmark, hspelling, by simp⟩
    rintro (h | h)
    · exact key _ (.inl rfl) (by decide) (rt.lower_of_casefold hslash h)
    · exact key _ (.inr rfl) (by decide) (rt.lower_of_casefold hdash h)

theorem attachedValue_of_switchValue (h : switchValue name value = some path) :
    attachedValue (name ++ [':']) value = some path := by
  cases value with
  | nil => simp [switchValue] at h
  | cons c rest =>
    simp only [switchValue, Option.ite_none_right_eq_some] at h
    obtain ⟨⟨hc, hname⟩, h⟩ := h
    split at h
    · rename_i behind hdrop
      cases h
      refine attachedValue_eq_some.mpr ⟨c, rest.take name.length ++ [':'], hc, ?_, ?_⟩
      · rw [map_append, hname]
        rfl
      · have hrest := take_append_drop name.length rest
        rw [hdrop] at hrest
        rw [cons_append, append_assoc, singleton_append, hrest]
    · simp at h

theorem argumentEdge_output {start rest : Text} (hstart : start ∈ roleOutputStarts)
    (hfold : rt.casefold value = start ++ rest) (halone : rt.casefold value ∉ separateOutputOptions)
    : argumentEdge rt role value =
      argumentReference rt true false false (value.drop start.length) >>= fun destination =>
        pure (if start ∈ requiredOutputStarts then .required (rt.casefold destination)
          else .secondary (rt.casefold destination)) := by
  unfold argumentEdge
  rw [hfold] at halone
  simp only [hfold, halone, if_false, roleDirectoryOptions, roleDirectoryStarts,
    noDirectoryStarts, roleInputStarts, roleOutputStarts, map_cons, map_nil,
    String.reduceToList, mem_cons, not_mem_nil, or_false] at hstart ⊢
  rcases hstart with rfl | rfl | rfl | rfl | rfl | rfl | rfl | rfl | rfl | rfl <;>
    simp [startsWithAny]

theorem argumentEdge_next (h : argumentEdge rt role value = .ok edge)
    (hdirectory : rt.casefold value ∉ roleDirectoryOptions)
    (houtput : rt.casefold value ∉ separateOutputOptions) : edge.next = .nothing := by
  simp only [argumentEdge, if_neg hdirectory, if_neg houtput] at h
  split at h
  · cases h; rfl
  · split at h
    · cases h; rfl
    · split at h
      · simp only [bind_eq_ok, pure_eq_ok] at h
        obtain ⟨reference, -, rfl⟩ := h
        rfl
      · split at h
        · simp only [bind_eq_ok, pure_eq_ok] at h
          obtain ⟨destination, -, rfl⟩ := h
          split <;> rfl
        · unfold positionalEdge at h
          simp only at h
          split at h
          · cases h; rfl
          · simp only [↓require_bind_eq_ok, bind_eq_ok, pure_eq_ok] at h
            obtain ⟨-, reference, -, rfl⟩ := h
            rfl

/-- The edges of a list contain those of its tail. -/
theorem Edge.subset_addTo (edge : Edge) (edges : Edges) :
    edges.requiredOutputs ⊆ (edge.addTo edges).requiredOutputs ∧
      edges.secondaryOutputs ⊆ (edge.addTo edges).secondaryOutputs := by
  cases edge <;> simp [Edge.addTo]

/-- Without lone switches every argument stands for itself. -/
theorem roleArgumentEdges_mem (h : roleArgumentEdges rt role .nothing arguments = .ok edges)
    (halone : ∀ value ∈ arguments, rt.casefold value ∉ roleDirectoryOptions ∧
      rt.casefold value ∉ separateOutputOptions) (hmem : value ∈ arguments) :
    ∃ edge, argumentEdge rt role value = .ok edge ∧
      (∀ reference, edge = .required reference -> reference ∈ edges.requiredOutputs) ∧
      ∀ reference, edge = .secondary reference -> reference ∈ edges.secondaryOutputs := by
  induction arguments generalizing edges with
  | nil => simp at hmem
  | cons first rest ih =>
    simp only [roleArgumentEdges, bind_eq_ok, pure_eq_ok] at h
    obtain ⟨edge, hedge, tail, htail, rfl⟩ := h
    obtain ⟨hdirectory, houtput⟩ := halone first (by simp)
    rw [argumentEdge_next hedge hdirectory houtput] at htail
    rcases mem_cons.mp hmem with rfl | hmem
    · refine ⟨edge, hedge, ?_, ?_⟩ <;> rintro reference rfl <;> simp [Edge.addTo]
    · obtain ⟨edge', hedge', hrequired, hsecondary⟩ :=
        ih htail (fun v hv => halone v (by simp [hv])) hmem
      obtain ⟨hr, hs⟩ := edge.subset_addTo tail
      exact ⟨edge', hedge', fun r hr' => hr (hrequired r hr'), fun r hr' => hs (hsecondary r hr')⟩

theorem referenceKind_append {kind : Text} (hkind : '/' ∉ kind) :
    referenceKind (kind ++ '/' :: path) = kind := by
  unfold referenceKind
  rw [takeWhile_append_of_pos]
  · simp
  · intro c hc
    simpa using fun h : c = '/' => hkind (h ▸ hc)

theorem validateGraphReference_output (h : validateGraphReference rt true value = .ok reference) :
    reference = value ∧ referenceKind value = "build".toList := by
  simp only [validateGraphReference, bind_eq_ok, require_eq_ok, pure_eq_ok] at h
  obtain ⟨_, -, _, -, _, hkind, _, -, rfl⟩ := h
  exact ⟨rfl, hkind trivial⟩

theorem buildReference_unseated (h : ¬ buildMarker <+: path) :
    buildReference path = "build/".toList ++ path := by
  refine congrArg ("build/".toList ++ ·) (if_neg ?_)
  intro hstart
  exact h ((prefix_append _ _).trans ( isPrefixOf_iff_prefix.mp hstart))

theorem argumentReference_output (h : argumentReference rt true false false value = .ok reference) :
    reference = buildReference value := by
  unfold argumentReference at h
  split at h
  · rename_i marker hfind
    have hmarker := mem_of_find?_eq_some hfind
    have hstart : marker.isPrefixOf value = true := by simpa using find?_some hfind
    obtain ⟨suffix, rfl⟩ := isPrefixOf_iff_prefix.mp hstart
    simp only [seatedReference, ↓require_bind_eq_ok] at h
    obtain ⟨hslash, h⟩ := h
    obtain ⟨rest, rfl⟩ : ∃ rest, suffix = '/' :: rest := by
      cases suffix with
      | nil => simp at hslash
      | cons c rest => exact ⟨rest, by simpa using hslash⟩
    simp only [Bool.false_eq_true, false_and, and_false, if_false] at h
    obtain ⟨rfl, hkind⟩ := validateGraphReference_output h
    have hslashless : '/' ∉ seatKind marker := by
      unfold seatKind
      split
      · simp
      · split <;> simp
    rw [referenceKind_append hslashless] at hkind
    obtain rfl : marker = buildMarker := by
      simp only [markers, mem_cons, not_mem_nil, or_false] at hmarker
      rcases hmarker with rfl | rfl | rfl
      · exact absurd hkind (by decide)
      · rfl
      · exact absurd hkind (by decide)
    rfl
  · rename_i hnone
    simp only [↓require_bind_eq_ok, unseatedReference, if_true, bind_eq_ok, relative,
      pure_eq_ok] at h
    obtain ⟨-, _, ⟨-, -, rfl⟩, h⟩ := h
    obtain ⟨rfl, -⟩ := validateGraphReference_output h
    refine (buildReference_unseated fun hstart => ?_).symm
    exact find?_eq_none.mp hnone buildMarker (by simp [markers])
      ( isPrefixOf_iff_prefix.mpr hstart)

/-! ## Argument lists -/

theorem not_alone (h : folded ∉ separatePathOptions) :
    folded ∉ roleDirectoryOptions ∧ folded ∉ separateOutputOptions :=
  have hdirectory : roleDirectoryOptions ⊆ separatePathOptions := by decide
  have houtput : separateOutputOptions ⊆ separatePathOptions := by decide
  ⟨fun hmem => h (hdirectory hmem), fun hmem => h (houtput hmem)⟩

/-- What holds of no lone switch tells an argument apart from them. -/
theorem not_mem_separate {p : Text -> Prop} (hp : ∀ folded ∈ separatePathOptions, ¬ p folded)
    (h : p folded) : folded ∉ separatePathOptions := fun hmem => hp _ hmem h

/-- A caseless pattern reads only four foreign characters as letters. -/
theorem lower_of_reLower (h : reLower c = d) (hd : d ∉ ['i', 's', 'k']) : lower c = d := by
  unfold reLower at h
  split at h
  · exact absurd h (by rintro rfl; simp at hd)
  · split at h
    · exact absurd h (by rintro rfl; simp at hd)
    · split at h
      · exact absurd h (by rintro rfl; simp at hd)
      · exact h

theorem colon_of_option {name scalar : RegularExpression Char}
    (h : Pattern.fullmatch (Pattern.option name scalar) value = true) : ':' ∈ value := by
  simp only [Pattern.fullmatch, Pattern.option, Pattern.switch,
    RegularExpression.mul_rmatch_iff, RegularExpression.char_rmatch_iff] at h
  obtain ⟨_, _, heq, -, _, _, rfl, -, _, _, rfl, rfl, -⟩ := h
  have hcolon : ':' ∈ value.map reLower := by rw [heq]; simp
  obtain ⟨c, hc, hlower⟩ := mem_map.mp hcolon
  exact eq_of_lower (lower_of_reLower hlower (by decide)) (by decide) ▸ hc

theorem not_alone_of_option {name scalar : RegularExpression Char}
    (h : Pattern.fullmatch (Pattern.option name scalar) value = true) :
    rt.casefold value ∉ separatePathOptions :=
  not_mem_separate (p := (':' ∈ ·)) (by simp [separatePathOptions])
    (rt.mark_mem (by decide) (by decide) (colon_of_option h))

theorem head_of_casefold {mark : Char} (hascii : mark.toNat < 128) (hmark : mark.isLower = false)
    (h : (rt.casefold value).head? = some mark) : value.head? = some mark := by
  cases value with
  | nil => simp at h
  | cons c tail =>
    obtain ⟨d, ds, hd⟩ := exists_cons_of_ne_nil (rt.fold_ne_nil c)
    rw [Runtime.casefold_cons, hd] at h
    simp only [cons_append, head?_cons, Option.some.injEq] at h
    have : c = mark := rt.eq_of_mark (by rw [hd, h]; simp) hascii hmark
    simp [this]

theorem not_alone_of_positional {suffixes : List Text}
    (h : isPositionalFile rt suffixes value = true) : rt.casefold value ∉ separatePathOptions := by
  intro hmem
  have hheads : ∀ folded ∈ separatePathOptions,
      folded.head? = some '/' ∨ folded.head? = some '-' := by
    simp [separatePathOptions]
  have hhead : value.head? = some '/' ∨ value.head? = some '-' :=
    (hheads _ hmem).imp (head_of_casefold (by decide) (by decide))
      (head_of_casefold (by decide) (by decide))
  simp only [isPositionalFile, decide_eq_true_eq] at h
  refine h.1 ?_
  cases value with
  | nil => simp at hhead
  | cons c rest =>
    simp only [head?_cons, Option.some.injEq] at hhead
    rcases hhead with rfl | rfl <;> simp [startsWithAny]

theorem not_alone_of_librarian (h : admitsLibrarianArgument rt value = true) :
    rt.casefold value ∉ separatePathOptions := by
  simp only [admitsLibrarianArgument, Bool.or_eq_true, decide_eq_true_eq] at h
  rcases h with ((h | h) | h) | h
  · exact not_mem_separate (by simp [separatePathOptions, librarianLiteralOptions]) h
  · exact not_mem_separate (p := (startsWithAny _ · = true))
      (by simp [separatePathOptions, startsWithAny]) h
  · exact not_alone_of_option h
  · exact not_alone_of_positional h

theorem not_alone_of_linker (h : admitsLinkerArgument rt value = true) :
    rt.casefold value ∉ separatePathOptions := by
  simp only [admitsLinkerArgument, Bool.or_eq_true, decide_eq_true_eq] at h
  rcases h with (((h | h) | h) | h) | h
  · exact not_mem_separate (by simp [separatePathOptions, linkerLiteralOptions]) h
  · exact not_mem_separate (p := (startsWithAny _ · = true))
      (by simp [separatePathOptions, startsWithAny, linkerPathStarts]) h
  · simp only [isLinkerScalar, any_eq_true] at h
    obtain ⟨_, -, h⟩ := h
    exact not_alone_of_option h
  · intro hmem
    have : ∀ folded ∈ separatePathOptions,
        linkerSymbolOptionStarts.find? (·.isPrefixOf folded) = none := by
      simp [separatePathOptions, linkerSymbolOptionStarts]
    simp [isSymbolOption, this _ hmem] at h
  · exact not_alone_of_positional h

theorem alone_of_grammar (hrole : role = .librarian ∨ role = .linker)
    (h : validateNoncompilerOptionGrammar rt role arguments = .ok ()) :
    ∀ value ∈ arguments, rt.casefold value ∉ roleDirectoryOptions ∧
      rt.casefold value ∉ separateOutputOptions := by
  intro value hmem
  refine not_alone ?_
  rcases hrole with rfl | rfl
  · exact not_alone_of_librarian (requireEach_eq_ok.mp h value hmem)
  · exact not_alone_of_linker (requireEach_eq_ok.mp h value hmem)

theorem roleArgumentEdges_option (h : roleArgumentEdges rt role .nothing arguments = .ok edges)
    (halone : ∀ value ∈ arguments, rt.casefold value ∉ roleDirectoryOptions ∧
      rt.casefold value ∉ separateOutputOptions) (required : Bool)
    (hascii : ∀ d ∈ name, d.toNat < 128)
    (hname : ∀ mark ∈ ['/', '-'], mark :: (name ++ [':']) ∈ roleOutputStarts ∧
      decide (mark :: (name ++ [':']) ∈ requiredOutputStarts) = required)
    (hpath : path ∈ arguments.filterMap (switchValue name)) : rt.casefold (buildReference path) ∈
      if required then edges.requiredOutputs else edges.secondaryOutputs := by
  obtain ⟨value, hmem, hvalue⟩ := mem_filterMap.mp hpath
  have hascii' : ∀ d ∈ name ++ [':'], d.toNat < 128 := by
    intro d hd
    rcases mem_append.mp hd with hd | hd
    · exact hascii d hd
    · rw [mem_singleton.mp hd]; decide
  obtain ⟨mark, hmark, hfold, hdrop⟩ :=
    casefold_of_attachedValue rt hascii' (attachedValue_of_switchValue hvalue)
  obtain ⟨hstart, hrequired⟩ := hname mark (by simpa using hmark)
  obtain ⟨edge, hedge, hin, hout⟩ := roleArgumentEdges_mem h halone hmem
  rw [argumentEdge_output hstart hfold (halone value hmem).2] at hedge
  simp only [bind_eq_ok, pure_eq_ok] at hedge
  obtain ⟨destination, hdestination, rfl⟩ := hedge
  rw [length_cons, hdrop] at hdestination
  rw [<- argumentReference_output hdestination]
  cases required with
  | true => exact hin _ (if_pos (of_decide_eq_true hrequired))
  | false => exact hout _ (if_neg (of_decide_eq_false hrequired))

variable (rt) in
theorem directorySwitch_iff :
    attachedValue ['i'] value = some [] ↔ rt.casefold value ∈ roleDirectoryOptions := by
  rw [attachedValue_eq_nil rt (by decide) (by decide), roleDirectoryOptions]
  simp

variable (rt) in
theorem outputSwitch_iff :
    attachedValue ['f', 'o'] value = some [] ↔ rt.casefold value ∈ separateOutputOptions := by
  rw [attachedValue_eq_nil rt (by decide) (by decide), separateOutputOptions]
  simp

theorem argumentEdge_directory (role : ProducerRole) (h : rt.casefold value ∈ roleDirectoryOptions)
    : argumentEdge rt role value = .ok .directory := by
  simp only [argumentEdge, if_pos h]

theorem argumentEdge_separate (role : ProducerRole)
    (hdirectory : rt.casefold value ∉ roleDirectoryOptions)
    (h : rt.casefold value ∈ separateOutputOptions) : argumentEdge rt role value = .ok .output := by
  simp only [argumentEdge, if_neg hdirectory, if_pos h]

theorem argumentEdge_attached (h : argumentEdge rt role value = .ok edge)
    (halone : rt.casefold value ∉ separateOutputOptions)
    (hvalue : attachedValue ['f', 'o'] value = some path) :
    edge = .required (rt.casefold (buildReference path)) := by
  obtain ⟨mark, hmark, hfold, hdrop⟩ := casefold_of_attachedValue rt (by decide) hvalue
  have hstart : [mark, 'f', 'o'] ∈ roleOutputStarts ∧ [mark, 'f', 'o'] ∈ requiredOutputStarts := by
    rcases hmark with rfl | rfl <;> simp [roleOutputStarts, requiredOutputStarts]
  rw [argumentEdge_output hstart.1 hfold halone] at h
  simp only [bind_eq_ok, pure_eq_ok, if_pos hstart.2] at h
  obtain ⟨destination, hdestination, rfl⟩ := h
  rw [<- argumentReference_output (hdrop ▸ hdestination)]

theorem roleArgumentEdges_resource
    (h : roleArgumentEdges rt .resource .nothing arguments = .ok edges) :
    ∀ path ∈ resourceTold arguments, rt.casefold (buildReference path) ∈ edges.requiredOutputs := by
  -- an argument that is no lone switch, from what holds of the arguments behind it
  have key : ∀ (value : Text) (rest told : List Text) (edges : Edges),
      attachedValue ['i'] value ≠ some [] -> attachedValue ['f', 'o'] value ≠ some [] ->
      roleArgumentEdges rt .resource .nothing (value :: rest) = .ok edges ->
      (∀ edges, roleArgumentEdges rt .resource .nothing rest = .ok edges -> ∀ path ∈ told,
        rt.casefold (buildReference path) ∈ edges.requiredOutputs) ->
      ∀ path ∈ (attachedValue ['f', 'o'] value).toList ++ told,
        rt.casefold (buildReference path) ∈ edges.requiredOutputs := by
    intro value rest told edges hdirectory houtput h ih path hpath
    rw [ne_eq, directorySwitch_iff rt] at hdirectory
    rw [ne_eq, outputSwitch_iff rt] at houtput
    simp only [roleArgumentEdges, bind_eq_ok, pure_eq_ok] at h
    obtain ⟨edge, hedge, tail, htail, rfl⟩ := h
    rw [argumentEdge_next hedge hdirectory houtput] at htail
    rcases mem_append.mp hpath with hpath | hpath
    · obtain rfl := argumentEdge_attached hedge houtput (by simpa using hpath)
      simp [Edge.addTo]
    · exact (edge.subset_addTo tail).1 (ih tail htail path hpath)
  induction arguments using resourceTold.induct generalizing edges with
  | case1 => simp [resourceTold]
  | case2 value halone => simp [resourceTold, halone]
  | case3 value halone =>
    have hdirectory : attachedValue ['i'] value ≠ some [] := by
      intro hdirectory
      have hedge := argumentEdge_directory .resource ((directorySwitch_iff rt).mp hdirectory)
      simp [roleArgumentEdges, hedge, Edge.next, bind_eq_ok] at h
    simp only [resourceTold, if_neg halone]
    simpa using key value [] [] edges hdirectory halone h (by simp)
  | case4 value operand rest hdirectory ih =>
    have hedge := argumentEdge_directory .resource ((directorySwitch_iff rt).mp hdirectory)
    simp only [roleArgumentEdges, hedge, bind_eq_ok, pure_eq_ok] at h
    obtain ⟨_, ⟨⟩, tail, htail, rfl⟩ := h
    simp only [resourceTold, if_pos hdirectory]
    exact ih htail
  | case5 value operand rest hdirectory houtput ih =>
    have hedge := argumentEdge_separate .resource
      (mt (directorySwitch_iff rt).mpr hdirectory) ((outputSwitch_iff rt).mp houtput)
    simp only [roleArgumentEdges, hedge, bind_eq_ok, pure_eq_ok] at h
    obtain ⟨_, ⟨⟩, _, hnext, rfl⟩ := h
    simp only [Edge.next, roleArgumentEdges, bind_eq_ok, pure_eq_ok] at hnext
    obtain ⟨reference, hreference, tail, htail, rfl⟩ := hnext
    simp only [resourceTold, if_neg hdirectory, if_pos houtput, mem_cons]
    rintro path (rfl | hpath)
    · rw [<- argumentReference_output hreference]
      simp [Edge.addTo]
    · exact mem_cons_of_mem _ (ih htail path hpath)
  | case6 value operand rest hdirectory houtput ih =>
    simp only [resourceTold, if_neg hdirectory, if_neg houtput]
    exact key value (operand :: rest) _ edges hdirectory houtput h fun edges h => ih h

theorem ProducerNode.validate_edges (h : node.validate rt = .ok ()) (hrole : node.role ≠ .compiler)
    : ∃ edges, validateNoncompilerOptionGrammar rt node.role node.arguments = .ok () ∧
      roleArgumentEdges rt node.role .nothing node.arguments = .ok edges ∧
      validateOutputEdges rt node.role edges (node.outputs.map rt.casefold) = .ok () := by
  simp only [validate, bind_eq_ok, validateRoleShape, if_neg hrole, validateEdges] at h
  obtain ⟨_, -, _, -, _, -, _, -, _, -, _, -, _, -, _, -, _, -, _, -, ⟨⟩, hgrammar, edges, hedges,
    _, -,
    ⟨⟩, houtputs, -⟩ := h
  exact ⟨edges, hgrammar, hedges, houtputs⟩

theorem ProducerNode.told_declared (h : node.validate rt = .ok ())
    (hpath : path ∈ told node.role node.arguments) :
    rt.casefold (buildReference path) ∈ node.outputs.map rt.casefold ∨
      node.role = .linker ∧ path ∈ secondaryTold node.arguments := by
  cases hrole : node.role with
  | compiler => simp [hrole, told] at hpath
  | resource =>
    obtain ⟨edges, -, hedges, houtputs⟩ := node.validate_edges h (by simp [hrole])
    rw [hrole] at hpath hedges houtputs
    simp only [validateOutputEdges, reduceCtorEq, if_false, require_eq_ok] at houtputs
    exact .inl (houtputs.1.1 (roleArgumentEdges_resource hedges path hpath))
  | librarian =>
    obtain ⟨edges, hgrammar, hedges, houtputs⟩ := node.validate_edges h (by simp [hrole])
    rw [hrole] at hpath hgrammar hedges houtputs
    simp only [validateOutputEdges, reduceCtorEq, if_false, require_eq_ok] at houtputs
    exact .inl (houtputs.1.1 (roleArgumentEdges_option hedges
      (alone_of_grammar (.inl rfl) hgrammar) true (by simp)
        (by simp [roleOutputStarts, requiredOutputStarts]) hpath))
  | linker =>
    obtain ⟨edges, hgrammar, hedges, houtputs⟩ := node.validate_edges h (by simp [hrole])
    rw [hrole] at hpath hgrammar hedges houtputs
    simp only [validateOutputEdges, if_true, ↓require_bind_eq_ok] at houtputs
    rcases mem_append.mp hpath with hpath | hpath
    · exact .inl (houtputs.1.2 (roleArgumentEdges_option hedges
        (alone_of_grammar (.inr rfl) hgrammar) true (by simp)
        (by simp [roleOutputStarts, requiredOutputStarts]) hpath))
    · exact .inr ⟨rfl, hpath⟩

/-! ## Whole graphs -/

/-- The claims stand that are made. -/
def Owners.Grows (owners owners' : Owners) : Prop :=
  ∀ k v, owners.lookup k = some v -> owners'.lookup k = some v

theorem claimOutput_spec {output : Text} (h : claimOutput rt owners id output = .ok owners') :
    owners.Grows owners' ∧ owners'.lookup (rt.casefold output) = some id := by
  unfold claimOutput at h
  split at h
  · rename_i hnone
    cases h
    constructor
    · intro k v hk
      rw [lookup_append, hk]
      rfl
    · rw [lookup_append, hnone]
      simp
  · rename_i previous hsome
    simp only [↓require_bind_eq_ok, pure_eq_ok] at h
    obtain ⟨rfl, rfl⟩ := h
    exact ⟨fun _ _ hk => hk, hsome⟩

theorem claimOutputs_spec {outputs : List Text}
    (h : claimOutputs rt id owners outputs = .ok owners') :
    owners.Grows owners' ∧ ∀ output ∈ outputs, owners'.lookup (rt.casefold output) = some id := by
  induction outputs generalizing owners with
  | nil =>
    cases h
    exact ⟨fun _ _ hk => hk, by simp⟩
  | cons first rest ih =>
    simp only [claimOutputs, bind_eq_ok] at h
    obtain ⟨next, hfirst, hrest⟩ := h
    obtain ⟨hgrow, hmade⟩ := claimOutput_spec hfirst
    obtain ⟨hgrow', hmade'⟩ := ih hrest
    refine ⟨fun k v hk => hgrow' k v (hgrow k v hk), fun output hmem => ?_⟩
    rcases mem_cons.mp hmem with rfl | hmem
    · exact hgrow' _ _ hmade
    · exact hmade' output hmem

theorem claimGraph_spec {ids : List Text} (h : claimGraph rt ids owners nodes = .ok owners') :
    owners.Grows owners' ∧ ∀ node ∈ nodes, ∀ output ∈ node.outputs,
        owners'.lookup (rt.casefold output) = some node.id := by
  induction nodes generalizing owners with
  | nil =>
    cases h
    exact ⟨fun _ _ hk => hk, by simp⟩
  | cons first rest ih =>
    simp only [claimGraph, bind_eq_ok] at h
    obtain ⟨_, -, next, hfirst, hrest⟩ := h
    obtain ⟨hgrow, hmade⟩ := claimOutputs_spec hfirst
    obtain ⟨hgrow', hmade'⟩ := ih hrest
    refine ⟨fun k v hk => hgrow' k v (hgrow k v hk), fun node hmem output houtput => ?_⟩
    rcases mem_cons.mp hmem with rfl | hmem
    · exact hgrow' _ _ (hmade output houtput)
    · exact hmade' node hmem output houtput

theorem reference_eq (hslash : '/' ∈ value) :
    value = referenceKind value ++ '/' :: referencePath value := by
  induction value with
  | nil => simp at hslash
  | cons c rest ih =>
    by_cases hc : c = '/'
    · simp [referenceKind, referencePath, hc]
    · have hrest : '/' ∈ rest := by simpa [Ne.symm hc] using hslash
      have hkind : referenceKind (c :: rest) = c :: referenceKind rest := by
        simp [referenceKind, hc]
      have hpath : referencePath (c :: rest) = referencePath rest := by
        simp [referencePath, hc]
      rw [hkind, hpath, cons_append, <- ih hrest]

theorem build_of_casefold (hkind : referenceKind value ∈ referenceKinds) (hslash : '/' ∈ value)
    (h : rt.casefold value = rt.casefold ("build/".toList ++ path)) :
    "build/".toList.isPrefixOf value = true := by
  have hfixed : ∀ kind ∈ referenceKinds, '/' ∉ kind ∧ rt.casefold kind = kind := by
    intro kind hmem
    have hplain : ∀ kind ∈ referenceKinds, '/' ∉ kind ∧ (∀ d ∈ kind, d.toNat < 128) ∧
        kind.map lower = kind := by
      simp [referenceKinds, lower]
    obtain ⟨h1, h2, h3⟩ := hplain kind hmem
    exact ⟨h1, rt.casefold_of_lower h2 h3⟩
  have hmark : rt.fold '/' = ['/'] := rt.fold_of_lower (by decide) (by decide)
  have hbuild : "build/".toList ++ path = "build".toList ++ '/' :: path := rfl
  rw [reference_eq hslash, hbuild, Runtime.casefold_append, Runtime.casefold_append,
    Runtime.casefold_cons, Runtime.casefold_cons, hmark, (hfixed _ hkind).2,
    (hfixed "build".toList (by simp [referenceKinds])).2] at h
  have hsame := congrArg referenceKind h
  simp only [singleton_append] at hsame
  rw [referenceKind_append (hfixed _ hkind).1,
    referenceKind_append (hfixed "build".toList (by simp [referenceKinds])).1] at hsame
  rw [ isPrefixOf_iff_prefix, reference_eq hslash, hsame]
  exact ⟨referencePath value, rfl⟩

/-- What an accepted graph guarantees of declared outputs and inputs. -/
structure Checked (rt : Runtime) (nodes : List ProducerNode) : Prop where
  valid : ∀ node ∈ nodes, node.validate rt = .ok ()
  ids : ∀ node ∈ nodes, ∀ other ∈ nodes, node.id = other.id -> node = other
  owners : ∀ node ∈ nodes, ∀ other ∈ nodes, ∀ reference ∈ node.outputs.map rt.casefold,
    reference ∈ other.outputs.map rt.casefold -> node.id = other.id
  inputs : ∀ node ∈ nodes, ∀ other ∈ nodes, ∀ output ∈ node.outputs, ∀ input ∈ other.inputs,
    "build/".toList.isPrefixOf input = true -> rt.casefold input = rt.casefold output ->
      node.id ∈ other.dependsOn

theorem checked (h : producerGraphDocument rt nodes = .ok ()) : Checked rt nodes := by
  simp only [producerGraphDocument, validateGraph, bind_eq_ok, require_eq_ok,
    checkEach_eq_ok] at h
  obtain ⟨_, -, _, hvalid, _, ⟨-, hnodup⟩, owners, hclaims, _, -, _, hinputs, -⟩ := h
  obtain ⟨-, howners⟩ := claimGraph_spec hclaims
  refine ⟨hvalid, fun node hnode other hother hid => ?_, ?_, ?_⟩
  · exact inj_on_of_nodup_map hnodup hnode hother hid
  · intro node hnode other hother reference hreference hreference'
    obtain ⟨output, houtput, rfl⟩ := mem_map.mp hreference
    obtain ⟨output', houtput', heq⟩ := mem_map.mp hreference'
    have h1 := howners node hnode output houtput
    have h2 := howners other hother output' houtput'
    rw [heq, h1] at h2
    exact Option.some.inj h2
  · intro node hnode other hother output houtput input hinput hbuild hfold
    have hchecked := hinputs other hother input hinput
    simp only [validateBuildInput, if_pos hbuild, hfold, howners node hnode output houtput,
      require_eq_ok] at hchecked
    exact hchecked

theorem ProducerNode.validate_input (h : node.validate rt = .ok ()) {input : Text}
    (hinput : input ∈ node.inputs) : '/' ∈ input ∧ referenceKind input ∈ referenceKinds := by
  simp only [validate, bind_eq_ok, validateInputs, validateReferences, checkEach_eq_ok] at h
  obtain ⟨_, -, _, -, _, ⟨_, hinputs, -⟩, -⟩ := h
  have hreference := hinputs input hinput
  simp only [validateGraphReference, bind_eq_ok, require_eq_ok] at hreference
  obtain ⟨_, ⟨_, ⟨-, hslash⟩, _, hkind, -⟩, -⟩ := hreference
  exact ⟨hslash, hkind⟩

/-- In an accepted graph every output of an argument list has one owner exactly where
every linker declares its import library, program database and map file. -/
theorem oneOwner_iff (rt : Runtime) (nodes : List ProducerNode)
    (haccept : producerGraphDocument rt nodes = .ok ()) :
    OneOwner rt nodes ↔ SecondaryDeclared rt nodes := by
  have hchecked := checked haccept
  constructor
  · intro howner node hnode hrole path hpath
    refine howner.declared node hnode _ (mem_map.mpr ⟨path, ?_, rfl⟩)
    rw [hrole]
    exact mem_append_right _ hpath
  · intro hsecondary
    have hdeclared : ∀ node ∈ nodes, ∀ reference ∈ node.toldOutputs rt,
        reference ∈ node.outputs.map rt.casefold := by
      intro node hnode reference hreference
      obtain ⟨path, hpath, rfl⟩ := mem_map.mp hreference
      rcases node.told_declared (hchecked.valid node hnode) hpath with h | ⟨hrole, h⟩
      · exact h
      · exact hsecondary node hnode hrole path h
    have hwrites : ∀ node ∈ nodes, ∀ reference, node.Writes rt reference ->
        reference ∈ node.outputs.map rt.casefold :=
      fun node hnode reference h => h.elim id (hdeclared node hnode reference)
    refine ⟨hdeclared, ?_, ?_⟩
    · intro node hnode other hother hne reference hwrite hwrite'
      exact hne (hchecked.ids node hnode other hother
        (hchecked.owners node hnode other hother reference (hwrites node hnode reference hwrite)
          (hwrites other hother reference hwrite')))
    · intro node hnode other hother _ reference htold hinput
      obtain ⟨output, houtput, hfold⟩ := mem_map.mp (hdeclared node hnode reference htold)
      obtain ⟨path, -, hpath⟩ := mem_map.mp htold
      obtain ⟨input, hinput, hfold'⟩ := mem_map.mp hinput
      obtain ⟨hslash, hkind⟩ := other.validate_input (hchecked.valid other hother) hinput
      have hbuild := build_of_casefold hkind hslash (hfold'.trans hpath.symm)
      exact hchecked.inputs node hnode other hother output houtput input hinput hbuild
        (hfold'.trans hfold.symm)

end

def plainRuntime : Runtime where
  fold c := if c.toNat < 128 then [lower c] else [c]
  setOrder := List.dedup
  ascii c hc := if_pos hc
  letters c hc d hd hlow := by
    rw [if_neg (by omega), List.mem_singleton] at hd
    subst hd
    omega
  foreign c hc hall := by
    rw [if_neg (by omega)] at hall
    exact absurd (hall c (by simp)) (by omega)
  setOrder_perm _ := .refl _

def compileNode : ProducerNode where
  id := "main".toList
  role := .compiler
  targetId := none
  arguments := ["/c".toList, "$\x7bSOURCE\x7d/a.cpp".toList]
  inputs := ["source/a.cpp".toList]
  directiveInputs := []
  outputs := ["build/a.obj".toList]
  dependsOn := []

/-- A linker that writes the program database `x.pdb`. -/
def linkNode (name : String) (outputs : List Text) : ProducerNode where
  id := name.toList
  role := .linker
  targetId := some name.toList
  arguments :=
    [("/OUT:" ++ name ++ ".exe").toList, "/pdb:x.pdb".toList, "$\x7bBUILD\x7d/a.obj".toList]
  inputs := ["build/a.obj".toList]
  directiveInputs := []
  outputs := outputs
  dependsOn := ["main".toList]

/-- Two linkers write one program database that neither declares. -/
def sharedDatabase : List ProducerNode :=
  [linkNode "editor" ["build/editor.exe".toList], linkNode "game" ["build/game.exe".toList],
    compileNode]

theorem sharedDatabase_clobbered : producerGraphDocument plainRuntime sharedDatabase = .ok () ∧
      ¬ OneOwner plainRuntime sharedDatabase := by
  refine ⟨by decide, fun h => ?_⟩
  exact h.apart (linkNode "game" ["build/game.exe".toList]) (by decide)
    (linkNode "editor" ["build/editor.exe".toList]) (by decide) (by decide)
    "build/x.pdb".toList (.inr (by decide)) (.inr (by decide))

/-- One linker that declares its program database. -/
def ownedDatabase : List ProducerNode :=
  [linkNode "game" ["build/game.exe".toList, "build/x.pdb".toList], compileNode]

theorem ownedDatabase_owned : producerGraphDocument plainRuntime ownedDatabase = .ok () ∧
      OneOwner plainRuntime ownedDatabase :=
  ⟨by decide, (oneOwner_iff plainRuntime ownedDatabase (by decide)).mpr (by
    unfold SecondaryDeclared
    decide)⟩

end Reprobit.Producer

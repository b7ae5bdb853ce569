import Reprobit.Register.Accounting
import Reprobit.Register.Liveness
import Reprobit.Machine.Sweep

/-!
# Decoded bodies and their runs

A decoded body tiles its code with instructions the machine parses and executes
the same way.  The linked program of a body is the body at some load address
with its relocations resolved.
-/

namespace Reprobit

open Machine

/-- An instruction and what the machine makes of its bytes. -/
structure Resolves (relocations : RelocationMap) (code : List Byte) (item : Instruction)
    (raw : Raw) (form : BijectionForm) (f : Form) (t : Touched) : Prop where
  wf : raw.WellFormed isaMap
  bytes : ∃ r, code.drop item.offset = raw.encode ++ r
  decodes : Decodes relocations item.offset raw form t item
  modrm : form.modrm = raw.modrm.isSome
  machine : raw.form = some f
  agrees : Agrees (opcodeKey raw.opcode) form (widthOf raw form) raw.digit.toNat (raw.mode == 3#2) f

variable {relocations : RelocationMap} {context : String} {code : List Byte}

theorem decode_resolves {offset : Nat} {item : Instruction}
    (h : decodeIa32BijectionInstruction code offset context relocations = .ok item) :
    item.offset = offset ∧ ∃ raw form f t, Resolves relocations code item raw form f t := by
  obtain ⟨raw, r, form, t, hwf, hbytes, hdec⟩ := decode_cases h
  obtain ⟨f, hf, hagree⟩ := hdec.agrees hwf
  obtain ⟨hisa, hmodrm⟩ := wellFormed_isa hdec.form_eq hwf
  have hoff := hdec.offset_eq
  subst hoff
  exact ⟨rfl, raw, form, f, t, hisa, ⟨r, hbytes⟩, hdec, hmodrm, hf, formAgrees_iff hagree⟩

/-- The instructions stand one behind the other from `start` to `stop`. -/
abbrev Tiles (start : Nat) (items : List Instruction) (stop : Nat) : Prop :=
  Tiled Instruction.offset Instruction.length start items stop

theorem decodeFrom_loops : Loops code (fun offset =>
      decodeIa32BijectionInstruction code offset (context ++ " at " ++ toString offset) relocations)
    Instruction.length (decodeFrom code context relocations) := ⟨fun _ => rfl, fun _ _ => rfl⟩

theorem decodeFrom_spec {items : List Instruction}
    (h : decodeFrom code context relocations code.length 0 = .ok items) :
    Tiles 0 items code.length ∧ ∀ item ∈ items, ∃ raw form f t,
      Resolves relocations code item raw form f t := by
  obtain ⟨hswept, htiled⟩ := decodeFrom_loops.sweeps (m := lengthMap)
    (R := fun offset raw item => item.offset = offset ∧ item.length = raw.length ∧
      ∃ raw form f t, Resolves relocations code item raw form f t)
    (fun offset item hread => by
      obtain ⟨raw, r, form, t, hwf, hdrop, hdec⟩ := decode_cases hread
      obtain ⟨hoff, hresolves⟩ := decode_resolves hread
      exact ⟨raw, r, parse_eq_some.mpr ⟨hwf, hdrop⟩, hoff, hdec.length_eq, hresolves⟩)
    (fun _ _ _ hR => ⟨hR.1, hR.2.1⟩) h
  refine ⟨htiled (by omega) (by omega), fun item hitem => ?_⟩
  obtain ⟨entry, -, -, -, hresolves⟩ := forall₂_mem hswept.flip hitem
  exact hresolves

/-- What an accepted body consists of. -/
structure BodyDecoded (body : List Byte) (relocations : RelocationMap)
    (instructions : List Instruction) (limit : Nat) : Prop where
  limit_pos : 0 < limit
  limit_le : limit <= body.length
  tiles : Tiles 0 instructions limit
  resolves : ∀ item ∈ instructions, ∃ raw form f t,
    Resolves relocations (body.take limit) item raw form f t
  tail : limit < body.length -> ∀ item, instructions.getLast? = some item ->
    item.flow = .ret ∨ item.flow = .jmp ∨ item.flow = .exit
  targets : ∀ item ∈ instructions, ∀ target, item.target = some target ->
    ∃ other ∈ instructions, (other.offset : Int) = target

theorem decodeBody_spec {body : List Byte}
    {codeLength : Option Nat} {instructions : List Instruction}
    (h : decodeIa32BijectionBody body context relocations codeLength = .ok instructions) :
    BodyDecoded body relocations instructions (codeLength.getD body.length) := by
  replace h := after_require h
  obtain ⟨⟨hpos, hle⟩, h⟩ := require_bind_eq_ok.mp h
  obtain ⟨items, hitems, h⟩ := bind_eq_ok.mp h
  replace h := after_require h
  obtain ⟨htail, h⟩ := require_bind_eq_ok.mp h
  obtain ⟨_, htargets, h⟩ := bind_eq_ok.mp h
  cases h
  rw [requireEach_eq_ok] at htargets
  have hlen : (body.take (codeLength.getD body.length)).length = codeLength.getD body.length := by
    rw [List.length_take]; omega
  obtain ⟨htiles, hresolves⟩ := decodeFrom_spec hitems
  rw [hlen] at htiles
  refine ⟨hpos, hle, htiles, hresolves, fun hlt item hlast => ?_,
    fun item hitem target ht => ?_⟩
  · have := htail hlt
    simpa [hlast] using this
  · have := htargets item hitem
    rw [ht] at this
    simpa using this

def linkedProgram (body : List Byte) (relocations : RelocationMap) (origin : Word)
    (value : String -> Word) (landings : Finset Nat) : Program where
  code := body
  origin := origin
  reloc offset := (relocations.get offset).map fun row => ⟨row.width, value row.target⟩
  landings := landings

theorem linkedProgram_relocated (body : List Byte) (relocations : RelocationMap) (origin : Word)
    (value : String -> Word) (landings : Finset Nat) (offset size : Nat) :
    (linkedProgram body relocations origin value landings).relocated offset size =
      (relocations.get offset).any fun row => row.width = size := by
  unfold Program.relocated linkedProgram
  cases h : relocations.get offset with
  | none => simp [h]
  | some row => simp [h, beq_eq_decide]

variable {X : Type} {relocations : RelocationMap} {body : List Byte} {limit : Nat}
  {item : Instruction} {raw : Raw} {form : BijectionForm} {f : Form} {t : Touched}

/-- The encoding stands in the whole body, data tail included. -/
theorem Resolves.body_bytes (h : Resolves relocations (body.take limit) item raw form f t) :
    item.offset < body.length ∧ ∃ r, body.drop item.offset = raw.encode ++ r := by
  obtain ⟨r, hbytes⟩ := h.bytes
  have hpos : 0 < raw.encode.length := raw.length_pos
  have hlen := congrArg List.length hbytes
  rw [List.length_append, List.length_drop, List.length_take] at hlen
  refine ⟨by omega, r ++ body.drop limit, ?_⟩
  rw [<- List.append_assoc, <- hbytes]
  conv_lhs => rw [<- List.take_append_drop limit body]
  rw [List.drop_append_of_le_length (by rw [List.length_take]; omega)]

theorem step_resolved {P : Program} (E : Env X) (s : State X)
    (h : Resolves relocations (P.code.take limit) item raw form f t) :
    step P E item.offset s =
      let a := instrAction P E item.offset raw f
      let r := transfer P E item.offset raw (a.effect s).ctl (a.exec s)
      (storeEvents (a.updates s) ++ r.1, r.2) := by
  obtain ⟨hlt, r, hdrop⟩ := h.body_bytes
  have hparse : parse isaMap (P.code.drop item.offset) = some (raw, r) := by
    rw [hdrop]; exact parse_encode h.wf _
  unfold step
  rw [if_neg (by omega), hparse]
  simp only [h.machine]

end Reprobit

import Mathlib.Algebra.GroupWithZero.Nat
import Mathlib.Algebra.Order.Group.Nat
import Mathlib.Algebra.Ring.Int.Defs
import Mathlib.Data.Char
import Mathlib.Data.List.Lex
import Mathlib.Data.Option.Basic

/-!
# Instances

A quantifier over the members of a list or an option is decided along its members,
also where the type itself can be searched (all characters, say).  Texts, bytes and
the eight registers of a file are used often enough to have their instances named.
-/

namespace Reprobit.Machine

instance lawfulBEqText : LawfulBEq (List Char) := List.instLawfulBEq

instance neZeroEight : NeZero 8 := ⟨by decide⟩

instance lawfulBEqByte : LawfulBEq (BitVec 8) := instLawfulBEq

variable {α : Type*} (p : α -> Prop) [DecidablePred p]

instance (priority := 1100) decidableAllOfList (l : List α) : Decidable (∀ x, x ∈ l -> p x) :=
  List.decidableBAll p l

instance (priority := 1100) decidableSomeOfList (l : List α) : Decidable (∃ x, x ∈ l ∧ p x) :=
  List.decidableBEx p l

instance (priority := 1100) decidableAllOfOption (o : Option α) : Decidable (∀ x ∈ o, p x) :=
  Option.decidableForallMem o

instance (priority := 1100) decidableSomeOfOption (o : Option α) : Decidable (∃ x ∈ o, p x) :=
  Option.decidableExistsMem o

end Reprobit.Machine

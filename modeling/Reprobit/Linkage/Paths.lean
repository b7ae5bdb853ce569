import Reprobit.Foundation

/-!
# Paths and switches

Names of files and values of command-line switches, as character lists.
-/

namespace Reprobit.Linkage

def pathName (path : List Char) : List Char :=
  ((path.splitOn '/').filter fun part => part ≠ [] ∧ part ≠ ['.']).getLastD []

/-- From the last dot, if that is neither first nor last. -/
def pathSuffix (name : List Char) : List Char :=
  let stem := name.length - 1 - (name.reverse.takeWhile (· ≠ '.')).length
  if 0 < stem ∧ stem < name.length - 1 ∧ '.' ∈ name then name.drop stem else []

def lower (c : Char) : Char := if 'A' <= c ∧ c <= 'Z' then Char.ofNat (c.toNat + 32) else c

/-- The value of a switch `/name:value` or `-name:value`. -/
def switchValue (name token : List Char) : Option (List Char) :=
  match token with
  | [] => none
  | c :: rest =>
    if (c = '/' ∨ c = '-') ∧ (rest.take name.length).map lower = name then
      match rest.drop name.length with
      | ':' :: value => some value
      | _ => none
    else none

end Reprobit.Linkage

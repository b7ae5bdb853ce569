import Reprobit.Machine.Bounded
import Mathlib.Data.List.SplitBy

/-!
# Path names

Paths as the repository writes them in records and include lines: POSIX path names, read
without a file system.
-/

namespace Reprobit

/-- A text, one character for each byte or code point. -/
abbrev Text := List Char

structure PurePosixPath where
  root : Text
  parts : List Text

namespace PurePosixPath

def parse (t : Text) : PurePosixPath where
  root :=
    if "//".toList.isPrefixOf t ∧ ¬"///".toList.isPrefixOf t then "//".toList
    else if ['/'].isPrefixOf t then ['/']
    else []
  parts := (t.splitOnP (· = '/')).filter fun part => part ≠ [] ∧ part ≠ ['.']

def name (p : PurePosixPath) : Text := p.parts.getLast?.getD []

def parent (p : PurePosixPath) : PurePosixPath := { p with parts := p.parts.dropLast }

def joined (p q : PurePosixPath) : PurePosixPath :=
  if q.root ≠ [] then q else { p with parts := p.parts ++ q.parts }

def asPosix (p : PurePosixPath) : Text :=
  match p.root ++ List.intercalate ['/'] p.parts with
  | [] => ['.']
  | text => text

end PurePosixPath

end Reprobit

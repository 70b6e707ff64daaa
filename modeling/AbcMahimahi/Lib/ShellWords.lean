/-
The words of a simple command by the quoting rules of the POSIX shell: a backslash, single quotes and
double quotes. A byte that means something else than itself where it stands makes the command
unreadable here, since no expansion is modelled.
-/
import AbcMahimahi.Lib.Bytes

namespace ShellWords

open Bytes

inductive Quoting where
  | unquoted
  | escaped
  | single
  | double
  | doubleEscaped
  deriving DecidableEq, Repr

/-- The words that are done, and what has been read of the next one. -/
structure Reader where
  quoting : Quoting := .unquoted
  word : Option Bytes := none
  done : List Bytes := []
  deriving DecidableEq, Repr

/-- The bytes that stand for themselves only when they are quoted, blanks and quotes apart. -/
def isSpecial (b : UInt8) : Bool := b = 10 || b = 96 || (ascii "|&;<>()$*?[#~=%").contains b

/-- The bytes that a backslash quotes between double quotes. -/
def isDoubleSpecial (b : UInt8) : Bool := b = 36 || b = 96 || b = 34 || b = 92

namespace Reader

/-- A byte that stands for itself. -/
def add (s : Reader) (quoting : Quoting) (bs : Bytes) : Reader :=
  { s with quoting := quoting, word := some (s.word.getD [] ++ bs) }

/-- The end of a word, if there is one. -/
def blank (s : Reader) : Reader := { s with word := none, done := s.done ++ s.word.toList }

def unquoted (s : Reader) (b : UInt8) : Option Reader :=
  if b = 92 then some { s with quoting := .escaped }
  else if b = 39 then some (s.add .single [])
  else if b = 34 then some (s.add .double [])
  else if b = 32 ∨ b = 9 then some s.blank
  else if isSpecial b then none
  else some (s.add .unquoted [b])

def double (s : Reader) (b : UInt8) : Option Reader :=
  if b = 34 then some { s with quoting := .unquoted }
  else if b = 92 then some { s with quoting := .doubleEscaped }
  else if isDoubleSpecial b then none
  else some (s.add .double [b])

/-- One byte. A backslash before a line end joins two lines. -/
def byte (s : Reader) (b : UInt8) : Option Reader :=
  match s.quoting with
  | .unquoted => s.unquoted b
  | .escaped => some (if b = 10 then { s with quoting := .unquoted } else s.add .unquoted [b])
  | .single => some (if b = 39 then { s with quoting := .unquoted } else s.add .single [b])
  | .double => s.double b
  | .doubleEscaped =>
    some (if b = 10 then { s with quoting := .double }
      else if isDoubleSpecial b then s.add .double [b]
      else s.add .double [92, b])

def bytes (s : Reader) (bs : Bytes) : Option Reader := bs.foldlM byte s

def finish (s : Reader) : Option (List Bytes) := if s.quoting = .unquoted then some s.blank.done else none

theorem bytes_append (s : Reader) (bs cs : Bytes) : s.bytes (bs ++ cs) = (s.bytes bs).bind fun s' => s'.bytes cs :=
  List.foldlM_append

theorem bytes_cons (s : Reader) (b : UInt8) (bs : Bytes) : s.bytes (b :: bs) = (s.byte b).bind fun s' => s'.bytes bs :=
  List.foldlM_cons

theorem byte_quoted {s : Reader} {b : UInt8} (h : s.quoting = .single) (hb : b ≠ 39) : s.byte b = some (s.add .single [b]) := by
  unfold byte
  rw [h]
  dsimp only
  rw [if_neg hb]

end Reader

/-- The words of a command. -/
def read (command : Bytes) : Option (List Bytes) := (Reader.bytes {} command).bind Reader.finish

/-- A dollar sign between double quotes, and a line end that a backslash takes away. -/
example : read (ascii "a\\\n\\ b \"c\\$ \\d\" 'e f'") = some [ascii "a b", ascii "c$ \\d", ascii "e f"] := by decide

end ShellWords

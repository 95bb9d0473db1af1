/-
LendingClaw.Lib.CodeUnits — texts as JavaScript has them: sequences of
16-bit code units, written as numbers.

A lone half of a surrogate pair is a text too. The patterns here are the
parts that regular expressions without the flag `u` are made of; the flag
`i` is followed for the letters of ASCII and those listed in
`extraLetters`.

Nothing here names a program.
-/
import Mathlib.Data.List.DropRight
import LendingClaw.Lib.Matcher

namespace LendingClaw.Lib

/-- A literal without characters beyond U+FFFF. -/
def units (s : String) : List Nat := s.toList.map Char.toNat

def isSpaceUnit (n : Nat) : Bool :=
  (9 ≤ n && n ≤ 13) || n == 32 || n == 160 || n == 5760 || (8192 ≤ n && n ≤ 8202) || n == 8232
    || n == 8233 || n == 8239 || n == 8287 || n == 12288 || n == 65279

def isDigitUnit (n : Nat) : Bool := 48 ≤ n && n ≤ 57

/-- `\w`. -/
def isWordUnit (n : Nat) : Bool :=
  isDigitUnit n || (65 ≤ n && n ≤ 90) || (97 ≤ n && n ≤ 122) || n == 95

/-- `trim`. -/
def trimUnits (s : List Nat) : List Nat := (s.dropWhile isSpaceUnit).rdropWhile isSpaceUnit

/-- `includes`. -/
def includesUnits (s word : List Nat) : Bool := s.tails.any fun t => word.isPrefixOf t

/-- `toLowerCase` on a unit of ASCII. -/
def lowerUnit (n : Nat) : Nat := if 65 ≤ n ∧ n ≤ 90 then n + 32 else n

/-- Letters beyond ASCII, small and capital. -/
def extraLetters : List (Nat × Nat) :=
  [(0xE2, 0xC2), (0x111, 0x110), (0x1A1, 0x1A0), (0x1EA3, 0x1EA2), (0x1ED3, 0x1ED2), (0x1EDD, 0x1EDC)]

/-- A letter of a pattern with the flag `i`, and a letter of the text. -/
def sameLetter (a b : Nat) : Bool := lowerUnit a == lowerUnit b || extraLetters.contains (a, b)

/-! ## Code points -/

inductive RangeError where
  | invalidCodePoint (code : Nat)
  deriving DecidableEq

/-- `String.fromCodePoint`. -/
def fromCodePoint (code : Nat) : Except RangeError (List Nat) :=
  if code < 0x10000 then .ok [code]
  else if code ≤ 0x10FFFF then
    .ok [0xD800 + (code - 0x10000) / 0x400, 0xDC00 + (code - 0x10000) % 0x400]
  else .error (.invalidCodePoint code)

/-- The number that digits stand for. -/
def numberOf (base : Nat) (digits : List Nat) : Nat :=
  digits.foldl
    (fun value d => base * value + (if isDigitUnit d then d - 48 else lowerUnit d - 87)) 0

/-! ## Patterns -/

/-- A literal. -/
def exactly (s : String) : Regex Nat := .word ((units s).map fun a b => a == b)

/-- A literal, with the flag `i`. -/
def letters (s : String) : Regex Nat := .word ((units s).map sameLetter)

/-- `\s*`. -/
def spaces : Regex Nat := .star true (.cls isSpaceUnit)

/-- `\s+`. -/
def someSpaces : Regex Nat := .atLeast 1 (.cls isSpaceUnit)

/-- `[\s\S]*?`. -/
def lazyAny : Regex Nat := .star false (.cls fun _ => true)

/-- `\b` behind a word character. -/
def wordEnd : Matcher Nat Unit := fun s => if s.head?.any isWordUnit then [] else [((), s)]

/-- `$`. -/
def textEnd : Matcher Nat Unit := fun s => if s = [] then [((), [])] else []

end LendingClaw.Lib

/-
LendingClaw.Lib.JsText — texts as the user interface handles them:
`trim`, `startsWith` and a buffer that is split at line ends.

Nothing here names a program.
-/
import Mathlib.Data.List.DropRight

namespace LendingClaw.Lib

/-- White space and line ends of the language standard. -/
def isJsSpace (c : Char) : Bool :=
  let n := c.toNat
  (9 ≤ n && n ≤ 13) || n == 32 || n == 160 || n == 5760 || (8192 ≤ n && n ≤ 8202) || n == 8232
    || n == 8233 || n == 8239 || n == 8287 || n == 12288 || n == 65279

def jsTrim (text : List Char) : List Char := (text.dropWhile isJsSpace).rdropWhile isJsSpace

/-- `jsTrim` of a string. -/
def trimJs (s : String) : String := String.ofList (jsTrim s.toList)

/-! ## Lines -/

/-- The complete lines of a text and what follows the last line end. -/
def splitLines : List Char → List (List Char) × List Char
  | [] => ([], [])
  | c :: text =>
    let r := splitLines text
    if c = '\n' then ([] :: r.1, r.2)
    else
      match r.1 with
      | [] => ([], c :: r.2)
      | line :: lines => ((c :: line) :: lines, r.2)

@[simp] theorem splitLines_nil : splitLines [] = ([], []) := rfl

/-- A line, and the lines after it. -/
theorem splitLines_line {line : List Char} (h : '\n' ∉ line) (text : List Char) :
    splitLines (line ++ '\n' :: text) = (line :: (splitLines text).1, (splitLines text).2) := by
  induction line with
  | nil => rfl
  | cons c line ih =>
    have hc : c ≠ '\n' := fun hc => h (hc ▸ List.mem_cons_self)
    have hline : '\n' ∉ line := fun hmem => h (List.mem_cons_of_mem c hmem)
    rw [List.cons_append, splitLines, ih hline, if_neg hc]

/-- Splitting what is left over together with more text gives the lines
of the whole text. -/
theorem splitLines_append (a b : List Char) :
    splitLines (a ++ b)
      = ((splitLines a).1 ++ (splitLines ((splitLines a).2 ++ b)).1,
        (splitLines ((splitLines a).2 ++ b)).2) := by
  induction a with
  | nil => rfl
  | cons c a ih =>
    rw [List.cons_append, splitLines, ih, splitLines]
    by_cases hc : c = '\n'
    · rw [if_pos hc, if_pos hc]
      rfl
    · rw [if_neg hc, if_neg hc]
      cases hlines : (splitLines a).1 with
      | nil =>
        simp only [List.nil_append, List.cons_append]
        rw [splitLines, if_neg hc]
      | cons line lines => rfl

end LendingClaw.Lib

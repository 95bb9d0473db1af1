/-
LendingClaw.Agent.InputGuard — the scan of a user message for prompt
injections (`internal/agent/input_guard.go`).

The patterns are written with the constructors of `Lib.Regex`, in the
order of the source; none of them has an anchor, so what they find does
not depend on what stands around it.
-/
import LendingClaw.Tools.Scrub

namespace LendingClaw.Agent

open LendingClaw.Lib LendingClaw.Lib.Regex LendingClaw.Tools.Scrub

structure GuardPattern where
  name : String
  pattern : Regex Char

/-- `\s+`. -/
def someBlanks : Regex Char := atLeast 1 (cls isBlank)

/-- `(?i)a|b|c`, of plain words. -/
def oneOf (words : List String) : Regex Char := choice (words.map litFold)

/-- `(?i)</?`, one of the words, and `>`. -/
def tagOf (name : Regex Char) : Regex Char :=
  seq (litFold "<") (seq (opt (litFold "/")) (seq name (litFold ">")))

/-- `(?i)words?`. -/
def plural (word : String) : Regex Char := seq (litFold word) (opt (litFold "s"))

def defaultGuardPatterns : List GuardPattern :=
  [{ name := "ignore_instructions"
     pattern := seq (litFold "ignore") (seq someBlanks
       (seq (opt (seq (litFold "all") someBlanks))
         (seq (oneOf ["previous", "prior", "above", "earlier", "preceding"]) (seq someBlanks
           (choice [plural "instruction", plural "rule", plural "prompt", plural "directive",
             plural "guideline"]))))) },
   { name := "role_override"
     pattern := seq (oneOf ["you are now", "from now on you are", "pretend you are",
       "act as if you are", "imagine you are"]) someBlanks },
   { name := "system_tags"
     pattern := choice [tagOf (litFold "system"), litFold "[SYSTEM]", litFold "[INST]",
       litFold "<<SYS>>", litFold "<|im_start|>system"] },
   { name := "instruction_injection"
     pattern := choice [seq (plural "new instruction") (litFold ":"), litFold "override:",
       litFold "system prompt:", litFold "<|system|>"] },
   { name := "null_bytes", pattern := lit "\x00" },
   { name := "delimiter_escape"
     pattern := choice [litFold "end of system", litFold "begin user input",
       tagOf (choice [plural "instruction", litFold "rules", litFold "prompt",
         litFold "context"])] }]

/-- `InputGuard.Scan`: the names of the patterns that are found. -/
def scan (message : List Char) : List String :=
  if message = [] then []
  else (defaultGuardPatterns.filter fun gp => gp.pattern.found message).map GuardPattern.name

/-- A text that one of the patterns is about. -/
def Injection (fragment : List Char) : Prop :=
  ∃ gp ∈ defaultGuardPatterns, fragment ∈ gp.pattern.language

/-- No pattern matches nothing. -/
theorem not_found_nil {gp : GuardPattern} (h : gp ∈ defaultGuardPatterns) :
    gp.pattern.found [] = false := by
  have hall : defaultGuardPatterns.all (fun gp => 0 < gp.pattern.least) = true := by decide
  have hpos := of_decide_eq_true (List.all_eq_true.mp hall gp h)
  rw [Bool.eq_false_iff]
  intro hfound
  obtain ⟨u, hu, hin⟩ := found_iff.mp hfound
  exact ne_nil_of_mem hpos hu (List.eq_nil_of_infix_nil hin)

/-- The scan is silent exactly if no injection stands in the message. -/
theorem scan_ne_nil_iff (message : List Char) :
    scan message ≠ [] ↔ ∃ fragment, Injection fragment ∧ fragment <:+: message := by
  have hfilter : scan message ≠ [] ↔ ∃ gp ∈ defaultGuardPatterns, gp.pattern.found message = true := by
    rw [scan]
    split
    · rename_i hnil
      subst hnil
      simp only [ne_eq, not_true_eq_false, false_iff, not_exists, not_and, Bool.not_eq_true]
      exact fun gp h => not_found_nil h
    · simp [List.filter_eq_nil_iff]
  rw [hfilter]
  constructor
  · intro h
    obtain ⟨gp, hgp, hfound⟩ := h
    obtain ⟨u, hu, hin⟩ := found_iff.mp hfound
    exact ⟨u, ⟨gp, hgp, hu⟩, hin⟩
  · intro h
    obtain ⟨u, ⟨gp, hgp, hu⟩, hin⟩ := h
    exact ⟨gp, hgp, found_iff.mpr ⟨u, hu, hin⟩⟩

end LendingClaw.Agent

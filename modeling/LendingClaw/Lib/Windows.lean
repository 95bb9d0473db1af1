/-
LendingClaw.Lib.Windows — logs in which an event comes back in time.

A log grows at its end, one entry a round. `EveryWindow p n` says that
among any `n` consecutive entries there is one with `p`; `sinceLast`
counts the entries after the last such one. The rule `EveryWindow.snoc`
is what a step of a system has to show: the count stays under `n`.

Nothing here names a program.
-/
import Mathlib.Data.List.Basic

namespace LendingClaw.Lib

universe u

variable {α : Type u} {p : α → Prop} {n : Nat} {log : List α}

/-- Among any `n` consecutive entries there is one with `p`. -/
def EveryWindow (p : α → Prop) (n : Nat) (log : List α) : Prop :=
  ∀ pre window post, log = pre ++ window ++ post → window.length = n → ∃ a ∈ window, p a

/-- How many entries there are after the last one with `p`. -/
def sinceLast (p : α → Prop) [DecidablePred p] (log : List α) : Nat :=
  (log.reverse.takeWhile (fun a => ¬ p a)).length

variable [DecidablePred p]

@[simp] theorem sinceLast_nil : sinceLast p ([] : List α) = 0 := rfl

@[simp] theorem sinceLast_snoc (log : List α) (a : α) :
    sinceLast p (log ++ [a]) = if p a then 0 else sinceLast p log + 1 := by
  by_cases ha : p a
  · simp [sinceLast, ha]
  · simp [sinceLast, ha]

/-- Entries without `p` at the end of a log are all counted. -/
theorem length_le_sinceLast (pre window : List α) (h : ∀ a ∈ window, ¬ p a) :
    window.length ≤ sinceLast p (pre ++ window) := by
  have hall : ∀ a ∈ window.reverse, decide (¬ p a) = true := by
    intro a ha
    simpa using h a (List.mem_reverse.mp ha)
  rw [sinceLast, List.reverse_append, List.takeWhile_append_of_pos hall]
  simp

theorem everyWindow_nil (hn : 0 < n) : EveryWindow p n ([] : List α) := by
  intro pre window post hlog hlen
  obtain ⟨hfront, -⟩ := List.append_eq_nil_iff.mp hlog.symm
  obtain ⟨-, rfl⟩ := List.append_eq_nil_iff.mp hfront
  simp at hlen
  omega

/-- The step rule. -/
theorem EveryWindow.snoc (h : EveryWindow p n log) {a : α}
    (hgap : sinceLast p (log ++ [a]) < n) : EveryWindow p n (log ++ [a]) := by
  intro pre window post hlog hlen
  rcases List.eq_nil_or_concat post with rfl | ⟨post', b, rfl⟩
  · -- the window is at the end of the log
    by_contra hnone
    have hle := length_le_sinceLast pre window (fun b hb hp => hnone ⟨b, hb, hp⟩)
    rw [List.append_nil] at hlog
    rw [← hlog] at hle
    omega
  · have hlog' : log ++ [a] = (pre ++ window ++ post') ++ [b] := by simpa using hlog
    exact h pre window post' (List.append_inj' hlog' rfl).1 hlen

end LendingClaw.Lib

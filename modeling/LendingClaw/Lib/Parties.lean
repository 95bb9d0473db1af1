/-
LendingClaw.Lib.Parties — parties in a list, known by their index.

The steps are two: the party with an index goes on, which is `List.set`,
or a new one comes in at the end.

Nothing here names a program.
-/
import Mathlib.Data.List.Basic

namespace LendingClaw.Lib

universe u

variable {α : Type u} {parties : List α} {i : Nat} {a : α}

/-- A party stays where it is when another one comes in. -/
theorem getElem?_append_of_some (h : parties[i]? = some a) (more : List α) :
    (parties ++ more)[i]? = some a := by
  obtain ⟨hlt, -⟩ := List.getElem?_eq_some_iff.mp h
  exact (List.getElem?_append_left hlt).trans h

section
variable (h : parties[i]? = some a)
include h

theorem getElem?_set_of_some (b : α) (j : Nat) :
    (parties.set i b)[j]? = if j = i then some b else parties[j]? := by
  obtain ⟨hlt, -⟩ := List.getElem?_eq_some_iff.mp h
  by_cases hj : j = i
  · rw [if_pos hj, hj, List.getElem?_set_self hlt]
  · rw [if_neg hj, List.getElem?_set_ne (Ne.symm hj)]

theorem mem_set_of_some (b : α) : b ∈ parties.set i b := by
  refine List.mem_of_getElem? (i := i) ?_
  rw [getElem?_set_of_some h, if_pos rfl]

/-- Who is there after a step: who took it, or one of the others. -/
theorem cases_of_mem_set {b x : α} (hx : x ∈ parties.set i b) :
    x = b ∨ ∃ j, j ≠ i ∧ parties[j]? = some x := by
  obtain ⟨j, hj⟩ := List.getElem?_of_mem hx
  rw [getElem?_set_of_some h] at hj
  by_cases hji : j = i
  · rw [if_pos hji] at hj
    exact Or.inl (Option.some.inj hj).symm
  · rw [if_neg hji] at hj
    exact Or.inr ⟨j, hji, hj⟩

/-- A party unlike the one that takes the step is there afterwards. -/
theorem mem_set_of_ne {x : α} (hx : x ∈ parties) (hne : x ≠ a) (b : α) : x ∈ parties.set i b := by
  obtain ⟨j, hj⟩ := List.getElem?_of_mem hx
  have hji : j ≠ i := by
    intro he
    rw [he] at hj
    exact hne (Option.some.inj (hj.symm.trans h))
  refine List.mem_of_getElem? (i := j) ?_
  rw [getElem?_set_of_some h, if_neg hji, hj]

/-- What holds of any two parties is kept by a step that keeps it of the
one that takes it and any other. -/
theorem pairs_set {R : α → α → Prop} (hsymm : ∀ x y, R x y → R y x)
    (hpairs : ∀ (j k : Nat) (x y : α), j ≠ k → parties[j]? = some x → parties[k]? = some y → R x y)
    {b : α} (hstep : ∀ x, R a x → R b x) (j k : Nat) (x y : α) (hjk : j ≠ k)
    (hx : (parties.set i b)[j]? = some x) (hy : (parties.set i b)[k]? = some y) : R x y := by
  rw [getElem?_set_of_some h] at hx hy
  by_cases hj : j = i
  · have hk : k ≠ i := fun hk => hjk (hj.trans hk.symm)
    rw [if_pos hj] at hx
    rw [if_neg hk] at hy
    obtain rfl := Option.some.inj hx
    exact hstep y (hpairs i k a y hk.symm h hy)
  · rw [if_neg hj] at hx
    by_cases hk : k = i
    · rw [if_pos hk] at hy
      obtain rfl := Option.some.inj hy
      exact hsymm _ _ (hstep x (hpairs i j a x (Ne.symm hj) h hx))
    · rw [if_neg hk] at hy
      exact hpairs j k x y hjk hx hy

end

end LendingClaw.Lib

/-
LendingClaw.Lib.Forest — the walk down a forest, the children of a node
in order and what is below a child before the next one.

* `mem_walk` — the walk from a node meets what is below it,
* `nodup_walk` — nothing twice,
* `walk_order` — and what is above another node before it.
* `prune` — a forest that is cut at some nodes, and whose walk leaves
  nodes out of the whole walk and changes nothing else (`walk_prune`).

Nothing here names a program.
-/
import Mathlib.Data.List.Nodup
import Mathlib.Logic.Relation

namespace LendingClaw.Lib

universe u

/-- Every node is a child of one node at most, and heights fall. -/
structure Forest (ι : Type u) where
  kids : ι → List ι
  height : ι → Nat
  lower : ∀ i, ∀ j ∈ kids i, height j < height i
  distinct : ∀ i, (kids i).Nodup
  parent : ∀ {i j k : ι}, k ∈ kids i → k ∈ kids j → i = j

namespace Forest

variable {ι : Type u} (f : Forest ι)

def Kid (i j : ι) : Prop := j ∈ f.kids i

def Below : ι → ι → Prop := Relation.TransGen f.Kid

/-- The walk down to a depth. -/
def walk : Nat → ι → List ι
  | 0, _ => []
  | n + 1, i => (f.kids i).flatMap fun j => j :: walk n j

variable {f}

theorem Below.height_lt {i j : ι} (h : f.Below i j) : f.height j < f.height i := by
  induction h with
  | single h => exact f.lower _ _ h
  | tail _ h ih => exact Nat.lt_trans (f.lower _ _ h) ih

theorem below_iff {i k : ι} : f.Below i k ↔ ∃ j ∈ f.kids i, k = j ∨ f.Below j k := by
  constructor
  · intro h
    obtain ⟨j, hj, hjk⟩ := Relation.TransGen.head'_iff.mp h
    exact ⟨j, hj, (Relation.reflTransGen_iff_eq_or_transGen.mp hjk).imp_left fun h => h⟩
  · rintro ⟨j, hj, rfl | hjk⟩
    · exact .single hj
    · exact .head hj hjk

/-- Two nodes above a third are one above the other, or one. -/
theorem comparable {i j k : ι} (hi : Relation.ReflTransGen f.Kid i k) (hj : Relation.ReflTransGen f.Kid j k) :
    Relation.ReflTransGen f.Kid i j ∨ Relation.ReflTransGen f.Kid j i := by
  have hunique : Relator.RightUnique (Function.swap f.Kid) := fun _ _ _ h h' => f.parent h h'
  have h := Relation.ReflTransGen.total_of_right_unique hunique (Relation.reflTransGen_swap.mpr hi)
    (Relation.reflTransGen_swap.mpr hj)
  exact h.symm.imp Relation.reflTransGen_swap.mp Relation.reflTransGen_swap.mp

/-- What is above a child is its parent, or above it. -/
theorem eq_or_below_of_kid {i j k : ι} (hkid : f.Kid j k) (h : f.Below i k) : i = j ∨ f.Below i j := by
  obtain ⟨b, hib, hbk⟩ := Relation.TransGen.tail'_iff.mp h
  obtain rfl := f.parent hkid hbk
  exact (Relation.reflTransGen_iff_eq_or_transGen.mp hib).imp_left Eq.symm

/-- A child of a node is not below another child of it. -/
theorem not_below_sibling {i a b : ι} (ha : a ∈ f.kids i) (hb : b ∈ f.kids i) : ¬ f.Below a b := by
  intro h
  have hlower := f.lower _ _ ha
  rcases eq_or_below_of_kid hb h with rfl | hbelow
  · exact Nat.lt_irrefl _ hlower
  · exact Nat.lt_asymm hlower hbelow.height_lt

/-- What is under one child is not under another. -/
theorem eq_of_under {i a b k : ι} (ha : a ∈ f.kids i) (hb : b ∈ f.kids i)
    (hak : Relation.ReflTransGen f.Kid a k) (hbk : Relation.ReflTransGen f.Kid b k) : a = b := by
  rcases comparable hak hbk with h | h
  · rcases Relation.reflTransGen_iff_eq_or_transGen.mp h with heq | hbelow
    · exact heq.symm
    · exact absurd hbelow (not_below_sibling ha hb)
  · rcases Relation.reflTransGen_iff_eq_or_transGen.mp h with heq | hbelow
    · exact heq
    · exact absurd hbelow (not_below_sibling hb ha)

/-- What a walk meets is below its start. -/
theorem below_of_mem_walk {n : Nat} {i k : ι} (h : k ∈ f.walk n i) : f.Below i k := by
  induction n generalizing i with
  | zero => cases h
  | succ n ih =>
    obtain ⟨j, hj, hk⟩ := List.mem_flatMap.mp h
    exact below_iff.mpr ⟨j, hj, (List.mem_cons.mp hk).imp_right ih⟩

/-- A walk that is deep enough meets all that is below. -/
theorem mem_walk {n : Nat} {i k : ι} (hn : f.height i < n) : k ∈ f.walk n i ↔ f.Below i k := by
  refine ⟨below_of_mem_walk, fun h => ?_⟩
  induction n generalizing i with
  | zero => omega
  | succ n ih =>
    obtain ⟨j, hj, hjk⟩ := below_iff.mp h
    have hlower := f.lower i j hj
    exact List.mem_flatMap.mpr ⟨j, hj, List.mem_cons.mpr (hjk.imp_right (ih (by omega)))⟩

/-- Deeper than the forest, a walk meets nothing more. -/
theorem walk_eq {n m : Nat} {i : ι} (hn : f.height i < n) (hm : f.height i < m) : f.walk n i = f.walk m i := by
  induction n generalizing m i with
  | zero => omega
  | succ n ih =>
    obtain ⟨m, rfl⟩ : ∃ k, m = k + 1 := ⟨m - 1, by omega⟩
    rw [walk, walk, List.flatMap_def, List.flatMap_def]
    refine congrArg List.flatten (List.map_congr_left fun j hj => ?_)
    have hlower := f.lower i j hj
    rw [ih (m := m) (by omega) (by omega)]

theorem under_of_mem {n : Nat} {j k : ι} (h : k ∈ j :: f.walk n j) : Relation.ReflTransGen f.Kid j k := by
  rcases List.mem_cons.mp h with rfl | h
  · exact .refl
  · exact (below_of_mem_walk h).to_reflTransGen

/-- Nothing comes twice, and nothing before what is above it. -/
theorem walk_ordered (n : Nat) (i : ι) : (f.walk n i).Pairwise fun a b => a ≠ b ∧ ¬ f.Below b a := by
  induction n generalizing i with
  | zero => exact .nil
  | succ n ih =>
    rw [walk, List.pairwise_flatMap]
    refine ⟨fun j _ => List.pairwise_cons.mpr ⟨fun k hk => ?_, ih j⟩, ?_⟩
    · have hlt := (below_of_mem_walk hk).height_lt
      refine ⟨?_, fun h => ?_⟩
      · rintro rfl
        exact Nat.lt_irrefl _ hlt
      · exact Nat.lt_asymm hlt h.height_lt
    · refine (f.distinct i).imp_of_mem fun {j j'} hj hj' hne a ha b hb => ⟨?_, fun h => ?_⟩
      · rintro rfl
        exact hne (eq_of_under hj hj' (under_of_mem ha) (under_of_mem hb))
      · exact hne (eq_of_under hj hj' (under_of_mem ha) ((under_of_mem hb).trans h.to_reflTransGen))

theorem nodup_walk (n : Nat) (i : ι) : (f.walk n i).Nodup := (walk_ordered n i).imp And.left

/-! ## Forests that are cut -/

/-- Nodes that are not open lose their children, others those that are
not kept. -/
def prune (f : Forest ι) (isOpen keep : ι → Bool) : Forest ι where
  kids i := if isOpen i then (f.kids i).filter keep else []
  height := f.height
  lower i j hj := by
    split at hj
    · exact f.lower i j (List.mem_of_mem_filter hj)
    · cases hj
  distinct i := by
    split
    · exact (f.distinct i).filter _
    · exact List.nodup_nil
  parent {i j k} hi hj := by
    split at hi <;> split at hj
    · exact f.parent (List.mem_of_mem_filter hi) (List.mem_of_mem_filter hj)
    · cases hj
    · cases hi
    · cases hi

theorem kids_prune (isOpen keep : ι → Bool) (i : ι) :
    (f.prune isOpen keep).kids i = if isOpen i then (f.kids i).filter keep else [] := rfl

/-- Below a node that is not open nothing is left. -/
theorem walk_prune_closed {isOpen keep : ι → Bool} {i : ι} (h : isOpen i = false) (n : Nat) :
    (f.prune isOpen keep).walk n i = [] := by
  cases n with
  | zero => rfl
  | succ n => simp [walk, kids_prune, h]

theorem kid_prune {isOpen keep : ι → Bool} {i j : ι} :
    (f.prune isOpen keep).Kid i j ↔ f.Kid i j ∧ isOpen i = true ∧ keep j = true := by
  unfold Kid
  rw [kids_prune]
  by_cases hopen : isOpen i = true
  · simp [hopen]
  · simp [hopen]

/-- A node is left below another if it is kept, and every node between
them is kept and open. -/
theorem below_prune {isOpen keep : ι → Bool} {i k : ι} :
    (f.prune isOpen keep).Below i k ↔ f.Below i k ∧ isOpen i = true ∧ keep k = true
      ∧ ∀ j, f.Below i j → f.Below j k → isOpen j = true ∧ keep j = true := by
  constructor
  · intro h
    induction h with
    | single h =>
      obtain ⟨hkid, hopen, hkeep⟩ := kid_prune.mp h
      exact ⟨.single hkid, hopen, hkeep, fun j hij hjk => absurd hjk (by
        intro hjk
        rcases eq_or_below_of_kid hkid hjk with rfl | hji
        · exact Nat.lt_irrefl _ (Below.height_lt hij)
        · exact Nat.lt_asymm (Below.height_lt hij) (Below.height_lt hji))⟩
    | @tail j k _ h ih =>
      obtain ⟨hkid, hopen, hkeep⟩ := kid_prune.mp h
      obtain ⟨hbelow, hopeni, hkeepj, hbetween⟩ := ih
      refine ⟨hbelow.tail hkid, hopeni, hkeep, fun b hib hbk => ?_⟩
      rcases eq_or_below_of_kid hkid hbk with rfl | hbj
      · exact ⟨hopen, hkeepj⟩
      · exact hbetween b hib hbj
  · rintro ⟨hbelow, hopen, hkeep, hbetween⟩
    induction hbelow with
    | single h => exact .single (kid_prune.mpr ⟨h, hopen, hkeep⟩)
    | @tail j k hij h ih =>
      obtain ⟨hopenj, hkeepj⟩ := hbetween j hij (.single h)
      exact (ih hkeepj fun b hib hbj => hbetween b hib (hbj.tail h)).tail (kid_prune.mpr ⟨h, hopenj, hkeep⟩)

/-- The walk of what is left is the whole walk without what was cut. -/
theorem walk_prune (isOpen keep : ι → Bool) (n : Nat) (i : ι) :
    ((f.prune isOpen keep).walk n i).Sublist (f.walk n i) := by
  induction n generalizing i with
  | zero => exact .refl _
  | succ n ih =>
    have hkids : ∀ kids : List ι, ((kids.filter keep).flatMap fun j => j :: (f.prune isOpen keep).walk n j).Sublist
        (kids.flatMap fun j => j :: f.walk n j) := by
      intro kids
      induction kids with
      | nil => exact .refl _
      | cons j kids ihkids =>
        by_cases hkeep : keep j = true
        · rw [List.filter_cons_of_pos hkeep, List.flatMap_cons, List.flatMap_cons]
          exact ((ih j).cons_cons j).append ihkids
        · rw [List.filter_cons_of_neg hkeep, List.flatMap_cons]
          exact ihkids.trans (List.sublist_append_right _ _)
    rw [walk, walk]
    rw [kids_prune]
    split
    · exact hkids _
    · exact List.nil_sublist _

end Forest

end LendingClaw.Lib

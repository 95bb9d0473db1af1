/-
LendingClaw.Lib.Ranking — an insertion sort by falling keys that works
from the end of the sorted part, and the first elements of what it
sorts.

The sort permutes, orders, and leaves elements of one key in the order
they came in; so of the elements of one key the first ones are taken.
The best of several lists are among the best of each (`best_merge`).
Nothing here names a program.
-/
import Mathlib.Data.List.DropRight
import Mathlib.Order.Lattice

namespace LendingClaw.Lib

section
variable {α β : Type} [LinearOrder β] (key : α → β)

/-- An element goes behind the last one whose key is not less. -/
def insertRanked (sorted : List α) (x : α) : List α :=
  sorted.rdropWhile (fun a => key a < key x) ++ x :: sorted.rtakeWhile (fun a => key a < key x)

def rank (l : List α) : List α := l.foldl (insertRanked key) []

/-- Falling keys. -/
def Ranked (l : List α) : Prop := l.Pairwise fun a b => key b ≤ key a

variable {key}

theorem insertRanked_perm (sorted : List α) (x : α) :
    (insertRanked key sorted x).Perm (sorted ++ [x]) := by
  have hsplit := List.rdropWhile_append_rtakeWhile (p := fun a => decide (key a < key x)) (l := sorted)
  calc (insertRanked key sorted x).Perm _ := List.perm_middle
    _ = x :: sorted := congrArg _ hsplit
    List.Perm _ _ := (List.perm_append_singleton x sorted).symm

/-- What stays in front of an element has a key that is not less. -/
theorem le_of_mem_rdropWhile {sorted : List α} (h : Ranked key sorted) {x a : α}
    (ha : a ∈ sorted.rdropWhile (fun a => key a < key x)) : key x ≤ key a := by
  have hne := List.ne_nil_of_mem ha
  have hlast := List.rdropWhile_last_not (fun a => decide (key a < key x)) sorted hne
  rw [decide_eq_true_eq, not_lt] at hlast
  have hranked : Ranked key (sorted.rdropWhile fun a => key a < key x) :=
    h.sublist (List.rdropWhile_prefix _ _).sublist
  rw [← List.dropLast_append_getLast hne] at ha hranked
  rcases List.mem_append.mp ha with ha | ha
  · exact hlast.trans ((List.pairwise_append.mp hranked).2.2 a ha _ List.mem_cons_self)
  · rw [List.mem_singleton.mp ha]
    exact hlast

theorem lt_of_mem_rtakeWhile {sorted : List α} {x a : α}
    (ha : a ∈ sorted.rtakeWhile (fun a => key a < key x)) : key a < key x := by
  have h := List.mem_rtakeWhile_imp ha
  exact of_decide_eq_true h

theorem Ranked.insertRanked {sorted : List α} (h : Ranked key sorted) (x : α) :
    Ranked key (insertRanked key sorted x) := by
  have hdrop : Ranked key (sorted.rdropWhile fun a => key a < key x) :=
    h.sublist (List.rdropWhile_prefix _ _).sublist
  have htake : Ranked key (sorted.rtakeWhile fun a => key a < key x) :=
    h.sublist (List.rtakeWhile_suffix _ _).sublist
  have hless : ∀ a ∈ sorted.rtakeWhile (fun a => key a < key x), key a < key x :=
    fun a ha => lt_of_mem_rtakeWhile ha
  refine List.pairwise_append.mpr ⟨hdrop, List.pairwise_cons.mpr ⟨fun a ha => (hless a ha).le, htake⟩, ?_⟩
  intro a ha b hb
  have hxa := le_of_mem_rdropWhile h ha
  rcases List.mem_cons.mp hb with rfl | hb
  · exact hxa
  · exact (hless b hb).le.trans hxa

/-- Among elements of one key the new one comes last. -/
theorem filter_insertRanked (sorted : List α) (x : α) (v : β) :
    (insertRanked key sorted x).filter (fun a => key a = v) = (sorted ++ [x]).filter fun a => key a = v := by
  have hsplit := List.rdropWhile_append_rtakeWhile (p := fun a => decide (key a < key x)) (l := sorted)
  have hsorted : (sorted.rdropWhile fun a => key a < key x).filter (fun a => decide (key a = v))
      ++ (sorted.rtakeWhile fun a => key a < key x).filter (fun a => decide (key a = v))
      = sorted.filter fun a => key a = v := by
    rw [← List.filter_append, hsplit]
  rw [insertRanked, List.filter_append, List.filter_cons, List.filter_append]
  by_cases hv : key x = v
  · have hnone : (sorted.rtakeWhile fun a => key a < key x).filter (fun a => decide (key a = v)) = [] := by
      rw [List.filter_eq_nil_iff]
      intro a ha
      have hlt := lt_of_mem_rtakeWhile ha
      rw [decide_eq_true_eq]
      exact fun heq => (heq.trans hv.symm ▸ hlt).ne rfl
    rw [hnone, List.append_nil] at hsorted
    rw [hnone, hsorted, if_pos (decide_eq_true hv), List.filter_singleton, decide_eq_true hv]
    rfl
  · rw [if_neg (by simpa using hv), hsorted, List.filter_singleton, decide_eq_false hv]
    simp

variable (key)

theorem rank_concat (l : List α) (x : α) : rank key (l ++ [x]) = insertRanked key (rank key l) x := by
  rw [rank, List.foldl_append]
  rfl

theorem rank_perm (l : List α) : (rank key l).Perm l := by
  induction l using List.reverseRecOn with
  | nil => exact .nil
  | append_singleton l x ih =>
    rw [rank_concat key]
    exact (insertRanked_perm _ x).trans (ih.append_right [x])

theorem ranked_rank (l : List α) : Ranked key (rank key l) := by
  induction l using List.reverseRecOn with
  | nil => exact .nil
  | append_singleton l x ih =>
    rw [rank_concat key]
    exact ih.insertRanked x

/-- Elements of one key keep their order. -/
theorem filter_rank (l : List α) (v : β) :
    (rank key l).filter (fun a => key a = v) = l.filter fun a => key a = v := by
  induction l using List.reverseRecOn with
  | nil => rfl
  | append_singleton l x ih => rw [rank_concat key, filter_insertRanked, List.filter_append, ih, List.filter_append]

/-- What is taken from a ranking, and what is left. -/
structure Top (n : Nat) (l top : List α) : Prop where
  length : top.length = min n l.length
  ranked : Ranked key top
  mem : ∀ a ∈ top, a ∈ l
  best : ∀ a ∈ top, ∀ b ∈ l, b ∉ top → key b ≤ key a
  first : ∀ v, (top.filter fun a => key a = v) <+: l.filter fun a => key a = v

theorem top_rank (n : Nat) (l : List α) : Top key n l ((rank key l).take n) := by
  have hsplit := List.take_append_drop n (rank key l)
  have hranked := ranked_rank key l
  refine ⟨?_, hranked.sublist (List.take_sublist n _), ?_, ?_, ?_⟩
  · rw [List.length_take, (rank_perm key l).length_eq]
  · exact fun a ha => (rank_perm key l).mem_iff.mp (List.mem_of_mem_take ha)
  · intro a ha b hb hnot
    have hb' := (rank_perm key l).mem_iff.mpr hb
    rw [← hsplit] at hb' hranked
    rcases List.mem_append.mp hb' with hb' | hb'
    · exact absurd hb' hnot
    · exact (List.pairwise_append.mp hranked).2.2 a ha b hb'
  · intro v
    rw [← filter_rank key l v]
    exact (List.take_prefix n _).filter _

/-! ## The best of several lists -/

/-- Some elements in order of rank, and none that is left out is better.
Which of the elements of one key are taken is open. -/
structure Best (n : Nat) (l top : List α) : Prop where
  length : top.length = min n l.length
  ranked : Ranked key top
  rest : ∃ rest, (top ++ rest).Perm l ∧ ∀ a ∈ top, ∀ b ∈ rest, key b ≤ key a

variable {key}

/-- In a ranking the elements from a key on come first. -/
theorem Ranked.length_takeWhile {l : List α} (h : Ranked key l) (v : β) :
    (l.takeWhile fun a => v ≤ key a).length = l.countP fun a => v ≤ key a := by
  induction l with
  | nil => rfl
  | cons a l ih =>
    have hl := List.pairwise_cons.mp h
    by_cases hv : v ≤ key a
    · simp [hv, ih hl.2]
    · have hnone : l.countP (fun a => v ≤ key a) = 0 := by
        rw [List.countP_eq_zero]
        intro b hb hvb
        exact hv ((of_decide_eq_true hvb).trans (hl.1 b hb))
      simp [hv, hnone]

/-- So the first ones have it, if that many do. -/
theorem Ranked.le_of_mem_take {l : List α} (h : Ranked key l) {n : Nat} {v : β}
    (hn : n ≤ l.countP fun a => v ≤ key a) {a : α} (ha : a ∈ l.take n) : v ≤ key a := by
  rw [← h.length_takeWhile] at hn
  have hstart := List.prefix_of_prefix_length_le (List.take_prefix n l)
    (List.takeWhile_prefix fun a => decide (v ≤ key a)) ((List.length_take_le n l).trans hn)
  have hreached := List.mem_takeWhile_imp (hstart.subset ha)
  exact of_decide_eq_true hreached

/-- What the best of each list leave out has enough better elements among
them. -/
theorem exists_rest {n : Nat} {lists tops : List (List α)} (h : List.Forall₂ (Best key n) lists tops) :
    ∃ rest, (tops.flatten ++ rest).Perm lists.flatten
      ∧ ∀ b ∈ rest, n ≤ tops.flatten.countP fun a => key b ≤ key a := by
  induction h with
  | nil => exact ⟨[], .nil, nofun⟩
  | @cons l top lists tops hfirst _ ih =>
    obtain ⟨rest, hperm, hbetter⟩ := hfirst.rest
    obtain ⟨rests, hperms, hrests⟩ := ih
    refine ⟨rest ++ rests, ?_, ?_⟩
    · calc top ++ tops.flatten ++ (rest ++ rests)
          _ = top ++ (tops.flatten ++ rest ++ rests) := by simp
          List.Perm _ (top ++ (rest ++ tops.flatten ++ rests)) :=
            (List.perm_append_comm.append_right rests).append_left top
          _ = (top ++ rest) ++ (tops.flatten ++ rests) := by simp
          List.Perm _ (l ++ lists.flatten) := hperm.append hperms
    · intro b hb
      rw [List.flatten_cons, List.countP_append]
      rcases List.mem_append.mp hb with hb | hb
      · have hall : top.countP (fun a => key b ≤ key a) = top.length := by
          rw [List.countP_eq_length]
          exact fun a ha => decide_eq_true (hbetter a ha b hb)
        have hlength := hperm.length_eq
        have hpos := List.length_pos_of_mem hb
        have hmin := hfirst.length
        rw [List.length_append] at hlength
        omega
      · exact (hrests b hb).trans (Nat.le_add_left _ _)

/-- The best of all lists are the best of those that are best in one. -/
theorem best_merge {n : Nat} {lists tops : List (List α)} (h : List.Forall₂ (Best key n) lists tops) :
    Best key n lists.flatten ((rank key tops.flatten).take n) := by
  obtain ⟨rest, hperm, hrest⟩ := exists_rest h
  have hrank := rank_perm key tops.flatten
  have hranked := ranked_rank key tops.flatten
  have hsplit := List.take_append_drop n (rank key tops.flatten)
  refine { length := ?_, ranked := hranked.sublist (List.take_sublist n _), rest := ?_ }
  · have hlength := hperm.length_eq
    rw [List.length_append] at hlength
    rw [List.length_take, hrank.length_eq]
    cases hcases : rest with
    | nil =>
      rw [hcases, List.length_nil] at hlength
      omega
    | cons b rest =>
      have henough := hrest b (hcases ▸ List.mem_cons_self)
      have hcount := List.countP_le_length (p := fun a => decide (key b ≤ key a)) (l := tops.flatten)
      omega
  · refine ⟨(rank key tops.flatten).drop n ++ rest, ?_, ?_⟩
    · rw [← List.append_assoc, hsplit]
      exact (hrank.append_right rest).trans hperm
    · intro a ha b hb
      rcases List.mem_append.mp hb with hb | hb
      · rw [← hsplit] at hranked
        exact (List.pairwise_append.mp hranked).2.2 a ha b hb
      · refine hranked.le_of_mem_take ?_ ha
        rw [hrank.countP_eq]
        exact hrest b hb

/-- A map that keeps the keys keeps what is best. -/
theorem Best.map {γ : Type} {key' : γ → β} {f : α → γ} (hf : ∀ a, key' (f a) = key a) {n : Nat}
    {l top : List α} (h : Best key n l top) : Best key' n (l.map f) (top.map f) where
  length := by simp [h.length]
  ranked := by simpa [Ranked, List.pairwise_map, hf] using h.ranked
  rest := by
    obtain ⟨rest, hperm, hbetter⟩ := h.rest
    refine ⟨rest.map f, ?_, ?_⟩
    · rw [← List.map_append]
      exact hperm.map f
    · simpa [hf] using hbetter

theorem best_rank (n : Nat) (l : List α) : Best key n l ((rank key l).take n) where
  length := (top_rank key n l).length
  ranked := (top_rank key n l).ranked
  rest := by
    have hranked := ranked_rank key l
    refine ⟨(rank key l).drop n, ?_, ?_⟩
    · rw [List.take_append_drop]
      exact rank_perm key l
    · rw [← List.take_append_drop n (rank key l)] at hranked
      exact (List.pairwise_append.mp hranked).2.2

theorem best_zero (l : List α) : Best key 0 l [] where
  length := by simp
  ranked := .nil
  rest := ⟨l, .refl _, nofun⟩

end

end LendingClaw.Lib

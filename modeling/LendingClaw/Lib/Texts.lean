/-
LendingClaw.Lib.Texts — slices, searches and replacements of the package
`strings`, on the characters of a text.

A slice out of range is a panic: `slice` answers `none` then.

Nothing here names a program.
-/
import LendingClaw.Lib.Strings

namespace LendingClaw.Lib

/-! ## Slices -/

section
variable {α : Type}

/-- `s[i:j]`. -/
def slice (s : List α) (i j : Nat) : Option (List α) :=
  if i ≤ j ∧ j ≤ s.length then some ((s.take j).drop i) else none

theorem slice_take {s : List α} {j : Nat} (h : j ≤ s.length) : slice s 0 j = some (s.take j) := by
  rw [slice, if_pos ⟨Nat.zero_le j, h⟩, List.drop_zero]

theorem slice_drop {s : List α} {i : Nat} (h : i ≤ s.length) :
    slice s i s.length = some (s.drop i) := by
  rw [slice, if_pos ⟨h, Nat.le_refl _⟩, List.take_length]

theorem slice_append_left (a b : List α) : slice (a ++ b) 0 a.length = some a := by
  rw [slice_take (by simp), List.take_left]

theorem slice_append_right (a b : List α) :
    slice (a ++ b) a.length (a ++ b).length = some b := by
  rw [slice_drop (by simp), List.drop_left]

end

/-! ## The first of a character -/

section
variable {α : Type} [BEq α] [LawfulBEq α]

theorem idxOf?_lt {s : List α} {c : α} {i : Nat} (h : s.idxOf? c = some i) : i < s.length := by
  rw [List.idxOf?_eq_some_iff] at h
  exact h.1

theorem idxOf?_append_cons {a : List α} {c : α} (h : c ∉ a) (b : List α) :
    (a ++ c :: b).idxOf? c = some a.length := by
  induction a with
  | nil => simp [List.idxOf?_cons]
  | cons d a ih =>
    obtain ⟨hd, ha⟩ := not_or.mp (fun hmem => h (List.mem_cons.mpr hmem))
    rw [List.cons_append, List.idxOf?_cons, if_neg (by simpa using Ne.symm hd), ih ha]
    rfl

end

/-! ## Texts without blanks at their ends -/

structure Trimmed (s : List Char) : Prop where
  head : ∀ c ∈ s.head?, isSpace c = false
  last : ∀ c ∈ s.getLast?, isSpace c = false

theorem trimmed_iff {s : List Char} : Trimmed s ↔ trimChars s = s := by
  constructor
  · intro h
    have hleft : trimLeft s = s := by
      cases s with
      | nil => rfl
      | cons c s => rw [trimLeft, List.dropWhile_cons_of_neg (by simp [h.head c rfl])]
    rw [trimChars, hleft, List.rdropWhile_eq_self_iff]
    intro hne
    rw [h.last _ (List.getLast?_eq_some_getLast hne)]
    exact Bool.false_ne_true
  · intro h
    constructor
    · intro c hc
      have hleft := trimLeft_of_trimChars h
      rw [trimLeft, List.dropWhile_eq_self_iff] at hleft
      cases s with
      | nil => cases hc
      | cons d s =>
        cases hc
        exact Bool.eq_false_iff.mpr (hleft (Nat.zero_lt_succ _))
    · intro c hc
      rw [trimChars, trimLeft_of_trimChars h, List.rdropWhile_eq_self_iff] at h
      obtain ⟨hne, rfl⟩ := List.mem_getLast?_eq_getLast hc
      exact Bool.eq_false_iff.mpr (h hne)

theorem trimmed_trimChars (s : List Char) : Trimmed (trimChars s) :=
  trimmed_iff.mpr (trimChars_trimChars s)

/-- A text is trimmed if its ends are. -/
theorem Trimmed.append {a b : List Char} (ha : Trimmed a) (hane : a ≠ []) (hb : Trimmed b)
    (hbne : b ≠ []) (mid : List Char) : Trimmed (a ++ mid ++ b) where
  head := by
    intro c hc
    rw [List.append_assoc, List.head?_append_of_ne_nil a hane] at hc
    exact ha.head c hc
  last := by
    intro c hc
    rw [List.getLast?_append_of_ne_nil _ hbne] at hc
    exact hb.last c hc

theorem trimChars_eq_nil_iff {s : List Char} :
    trimChars s = [] ↔ ∀ c ∈ s, isSpace c = true := by
  rw [trimChars, List.rdropWhile_eq_nil_iff]
  constructor
  · intro h c hc
    rw [← List.takeWhile_append_dropWhile (p := isSpace) (l := s)] at hc
    rcases List.mem_append.mp hc with hc | hc
    · exact List.mem_takeWhile_imp hc
    · exact h c hc
  · intro h c hc
    exact h c ((List.dropWhile_suffix _).subset hc)

theorem trimChars_cons_space {c : Char} (hc : isSpace c = true) (s : List Char) :
    trimChars (c :: s) = trimChars s := by
  rw [trimChars, trimLeft, List.dropWhile_cons_of_pos hc]
  rfl

/-- Blanks before a text are trimmed away. -/
theorem trimChars_append_blank {a : List Char} (ha : ∀ c ∈ a, isSpace c = true) (s : List Char) :
    trimChars (a ++ s) = trimChars s := by
  induction a with
  | nil => rfl
  | cons c a ih =>
    rw [List.cons_append, trimChars_cons_space (ha c List.mem_cons_self),
      ih fun d hd => ha d (List.mem_cons_of_mem c hd)]

/-! ## Replacing -/

section
variable {α : Type} [DecidableEq α]

/-- The rest of `strings.ReplaceAll`, with `skip` characters of a match
still to pass over. -/
def replaceFrom (old new : List α) : (skip : Nat) → List α → List α
  | _, [] => []
  | skip + 1, _ :: s => replaceFrom old new skip s
  | 0, c :: s =>
    if old.isPrefixOf (c :: s) then new ++ replaceFrom old new (old.length - 1) s
    else c :: replaceFrom old new 0 s

/-- `strings.ReplaceAll`, for an `old` that is not empty. -/
def replaceAll (s old new : List α) : List α := replaceFrom old new 0 s

/-- Nothing is replaced in a text that lacks a character of `old`. -/
theorem replaceAll_of_not_mem {s old new : List α} {c : α} (hc : c ∈ old) (h : c ∉ s) :
    replaceAll s old new = s := by
  unfold replaceAll
  induction s with
  | nil => rfl
  | cons d s ih =>
    have hfront : ¬ old.isPrefixOf (d :: s) = true := by
      intro hpre
      exact h ((List.isPrefixOf_iff_prefix.mp hpre).subset hc)
    rw [replaceFrom, if_neg hfront, ih (fun hmem => h (List.mem_cons_of_mem d hmem))]

/-- Characters that are none of `old` stay. -/
theorem mem_replaceFrom {old new : List α} (hold : old ≠ []) {c : α} (hc : c ∉ old) {skip : Nat}
    {s : List α} (h : c ∈ s.drop skip) : c ∈ replaceFrom old new skip s := by
  induction s generalizing skip with
  | nil =>
    rw [List.drop_nil] at h
    cases h
  | cons d s ih =>
    cases skip with
    | succ skip => exact ih h
    | zero =>
      rw [replaceFrom]
      by_cases hpre : old.isPrefixOf (d :: s) = true
      · rw [if_pos hpre]
        obtain ⟨rest, hrest⟩ := List.isPrefixOf_iff_prefix.mp hpre
        have hin : c ∈ rest := by
          rw [List.drop_zero, ← hrest] at h
          exact (List.mem_append.mp h).resolve_left hc
        have hdrop : s.drop (old.length - 1) = rest := by
          have hlen := List.length_pos_of_ne_nil hold
          have hall : (d :: s).drop old.length = rest := by rw [← hrest, List.drop_left]
          rw [← hall, show old.length = old.length - 1 + 1 from by omega, List.drop_succ_cons]
          simp
        exact List.mem_append_right new (ih (hdrop ▸ hin))
      · rw [if_neg hpre]
        rcases List.mem_cons.mp h with rfl | h
        · exact List.mem_cons_self
        · exact List.mem_cons_of_mem d (ih h)

theorem mem_replaceAll {s old new : List α} (hold : old ≠ []) {c : α} (hc : c ∉ old) (h : c ∈ s) :
    c ∈ replaceAll s old new :=
  mem_replaceFrom hold hc h

/-- A single character is replaced wherever it is. -/
theorem replaceAll_singleton (s : List α) (c : α) (new : List α) :
    replaceAll s [c] new = s.flatMap fun d => if d = c then new else [d] := by
  unfold replaceAll
  induction s with
  | nil => rfl
  | cons d s ih =>
    rw [replaceFrom, List.flatMap_cons]
    by_cases hd : d = c
    · rw [if_pos (by simp [hd]), if_pos hd]
      exact congrArg (new ++ ·) ih
    · rw [if_neg (by simpa using Ne.symm hd), if_neg hd, ih]
      rfl

end

end LendingClaw.Lib

/-
LendingClaw.Lib.Table — a table with a primary key.

`Table ρ κ key` is a list of rows, in insertion order, whose keys are
pairwise different; the uniqueness is a field, so every statement below
that builds a table also proves it. The statements are the ones SQL
offers on one table: select, delete, update by key, insert (refused on
a duplicate key) and insert-or-update.

Each statement has two kinds of lemma: what `find` answers afterwards,
and which rows there are. Nothing here names a program.
-/
import Mathlib.Data.List.Nodup

namespace LendingClaw.Lib

structure Table (ρ κ : Type) (key : ρ → κ) where
  rows : List ρ
  unique : (rows.map key).Nodup

namespace Table

variable {ρ κ : Type} {key : ρ → κ}

def empty : Table ρ κ key := { rows := [], unique := List.nodup_nil }

/-- `SELECT … WHERE p`, in insertion order. -/
def select (t : Table ρ κ key) (p : ρ → Bool) : List ρ := t.rows.filter p

/-- `DELETE … WHERE p`. -/
def delete (t : Table ρ κ key) (p : ρ → Bool) : Table ρ κ key :=
  { rows := t.rows.filter (fun r => !p r)
    unique := t.unique.sublist (List.filter_sublist.map key) }

/-- The row of a key. -/
def find [DecidableEq κ] (t : Table ρ κ key) (k : κ) : Option ρ :=
  t.rows.find? (fun r => key r == k)

/-- `UPDATE … WHERE key = k`, for an assignment that leaves the key alone. -/
def update [DecidableEq κ] (t : Table ρ κ key) (k : κ) (f : ρ → ρ)
    (hf : ∀ r, key (f r) = key r) : Table ρ κ key :=
  { rows := t.rows.map (fun r => if key r = k then f r else r)
    unique := by
      have hkey : key ∘ (fun r => if key r = k then f r else r) = key := by
        funext r
        simp only [Function.comp]
        split
        · exact hf r
        · rfl
      rw [List.map_map, hkey]
      exact t.unique }

/-- `INSERT`; `none` is the duplicate-key error. -/
def insert [DecidableEq κ] (t : Table ρ κ key) (r : ρ) : Option (Table ρ κ key) :=
  if h : key r ∈ t.rows.map key then none
  else
    some
      { rows := t.rows ++ [r]
        unique := by
          rw [List.map_append]
          refine t.unique.append (List.nodup_singleton _) ?_
          simpa using h }

/-- `INSERT … ON DUPLICATE KEY UPDATE`. -/
def upsert [DecidableEq κ] (t : Table ρ κ key) (r : ρ) (f : ρ → ρ)
    (hf : ∀ r, key (f r) = key r) : Table ρ κ key :=
  match t.insert r with
  | some t' => t'
  | none => t.update (key r) f hf

/-- A write that takes the place of the row of its key. -/
def put [DecidableEq κ] (t : Table ρ κ key) (r : ρ) : Table ρ κ key :=
  { rows := t.rows.filter (fun r₀ => key r₀ ≠ key r) ++ [r]
    unique := by
      rw [List.map_append]
      refine (t.unique.sublist (List.filter_sublist.map key)).append (List.nodup_singleton _) ?_
      simp }

/-- A batch of such writes. -/
def putAll [DecidableEq κ] (t : Table ρ κ key) (rs : List ρ) : Table ρ κ key :=
  rs.foldl put t

/-! ## Rows -/

theorem eq_of_key (t : Table ρ κ key) {r r' : ρ} (hr : r ∈ t.rows) (hr' : r' ∈ t.rows)
    (h : key r = key r') : r = r' :=
  List.inj_on_of_nodup_map t.unique hr hr' h

@[simp] theorem mem_delete {t : Table ρ κ key} {p : ρ → Bool} {r : ρ} :
    r ∈ (t.delete p).rows ↔ r ∈ t.rows ∧ p r = false := by
  simp [delete]

section
variable [DecidableEq κ]

theorem mem_update {t : Table ρ κ key} {k : κ} {f : ρ → ρ} {hf : ∀ r, key (f r) = key r}
    {r : ρ} :
    r ∈ (t.update k f hf).rows ↔
      r ∈ t.rows ∧ key r ≠ k ∨ ∃ r₀ ∈ t.rows, key r₀ = k ∧ r = f r₀ := by
  simp only [update, List.mem_map]
  constructor
  · rintro ⟨r₀, hr₀, rfl⟩
    by_cases hk : key r₀ = k
    · exact Or.inr ⟨r₀, hr₀, hk, if_pos hk⟩
    · rw [if_neg hk]
      exact Or.inl ⟨hr₀, hk⟩
  · rintro (⟨hr, hk⟩ | ⟨r₀, hr₀, hk, rfl⟩)
    · exact ⟨r, hr, if_neg hk⟩
    · exact ⟨r₀, hr₀, if_pos hk⟩

/-- Rows of other keys are what they were. -/
theorem mem_update_other {t : Table ρ κ key} {k : κ} {f : ρ → ρ}
    {hf : ∀ r, key (f r) = key r} {r : ρ} (hr : key r ≠ k) :
    r ∈ (t.update k f hf).rows ↔ r ∈ t.rows := by
  rw [mem_update]
  constructor
  · rintro (⟨h, -⟩ | ⟨r₀, -, hk, rfl⟩)
    · exact h
    · exact absurd ((hf r₀).trans hk) hr
  · exact fun h => Or.inl ⟨h, hr⟩

theorem insert_rows {t t' : Table ρ κ key} {r : ρ} (h : t.insert r = some t') :
    key r ∉ t.rows.map key ∧ t'.rows = t.rows ++ [r] := by
  unfold insert at h
  split at h
  · cases h
  · rename_i hk
    cases h
    exact ⟨hk, rfl⟩

theorem insert_eq_none {t : Table ρ κ key} {r : ρ} :
    t.insert r = none ↔ ∃ r₀ ∈ t.rows, key r₀ = key r := by
  unfold insert
  split
  · rename_i hk
    simpa using hk
  · rename_i hk
    simpa using hk

/-- Rows of other keys survive an upsert as they are. -/
theorem mem_upsert_other {t : Table ρ κ key} {r₁ : ρ} {f : ρ → ρ}
    {hf : ∀ r, key (f r) = key r} {r : ρ} (hr : key r ≠ key r₁) :
    r ∈ (t.upsert r₁ f hf).rows ↔ r ∈ t.rows := by
  unfold upsert
  cases h : t.insert r₁ with
  | none => exact mem_update_other hr
  | some t' =>
    rw [(insert_rows h).2, List.mem_append, List.mem_singleton]
    exact or_iff_left fun hc => hr (hc ▸ rfl)

/-- An upsert keeps every row, up to the assignment. -/
theorem mem_upsert_of_mem {t : Table ρ κ key} {r₁ : ρ} {f : ρ → ρ}
    {hf : ∀ r, key (f r) = key r} {r : ρ} (hr : r ∈ t.rows) :
    r ∈ (t.upsert r₁ f hf).rows ∨ f r ∈ (t.upsert r₁ f hf).rows := by
  by_cases hk : key r = key r₁
  · have hnone : t.insert r₁ = none := insert_eq_none.mpr ⟨r, hr, hk⟩
    rw [upsert, hnone]
    exact Or.inr (mem_update.mpr (Or.inr ⟨r, hr, hk, rfl⟩))
  · exact Or.inl ((mem_upsert_other hk).mpr hr)

theorem mem_put {t : Table ρ κ key} {r₁ r : ρ} :
    r ∈ (t.put r₁).rows ↔ r = r₁ ∨ (r ∈ t.rows ∧ key r ≠ key r₁) := by
  simp only [put, List.mem_append, List.mem_filter, decide_eq_true_eq, List.mem_singleton]
  exact or_comm

/-- A batch with different keys: its rows, and those of other keys. -/
theorem mem_putAll {rs : List ρ} (hrs : (rs.map key).Nodup) {t : Table ρ κ key} {r : ρ} :
    r ∈ (t.putAll rs).rows ↔ r ∈ rs ∨ (r ∈ t.rows ∧ key r ∉ rs.map key) := by
  induction rs generalizing t with
  | nil => simp [putAll]
  | cons r₁ rs ih =>
    rw [List.map_cons, List.nodup_cons] at hrs
    have hstep : t.putAll (r₁ :: rs) = (t.put r₁).putAll rs := rfl
    rw [hstep, ih hrs.2, mem_put, List.mem_cons, List.map_cons, List.mem_cons]
    constructor
    · rintro (h | ⟨rfl | ⟨h, hne⟩, hnot⟩)
      · exact Or.inl (Or.inr h)
      · exact Or.inl (Or.inl rfl)
      · exact Or.inr ⟨h, not_or.mpr ⟨hne, hnot⟩⟩
    · rintro ((rfl | h) | ⟨h, hnot⟩)
      · exact Or.inr ⟨Or.inl rfl, hrs.1⟩
      · exact Or.inl h
      · exact Or.inr ⟨Or.inr ⟨h, (not_or.mp hnot).1⟩, (not_or.mp hnot).2⟩

/-! ## Look-up -/

theorem find_eq_some_iff {t : Table ρ κ key} {k : κ} {r : ρ} :
    t.find k = some r ↔ r ∈ t.rows ∧ key r = k := by
  constructor
  · intro h
    have hbeq := List.find?_some h
    exact ⟨List.mem_of_find?_eq_some h, by simpa using hbeq⟩
  · rintro ⟨hr, hk⟩
    have hsome : (t.find k).isSome :=
      List.find?_isSome.mpr ⟨r, hr, beq_iff_eq.mpr hk⟩
    obtain ⟨r', hr'⟩ := Option.isSome_iff_exists.mp hsome
    have hbeq := List.find?_some hr'
    have hk' : key r' = k := by simpa using hbeq
    rw [hr', t.eq_of_key (List.mem_of_find?_eq_some hr') hr (hk'.trans hk.symm)]

theorem find_key {t : Table ρ κ key} {k : κ} {r : ρ} (h : t.find k = some r) : key r = k :=
  (find_eq_some_iff.mp h).2

theorem find_eq_none_iff {t : Table ρ κ key} {k : κ} :
    t.find k = none ↔ ∀ r ∈ t.rows, key r ≠ k := by
  simp [find]

@[simp] theorem find_empty (k : κ) : (empty : Table ρ κ key).find k = none := rfl

theorem find_update {t : Table ρ κ key} {k k' : κ} {f : ρ → ρ}
    {hf : ∀ r, key (f r) = key r} :
    (t.update k f hf).find k' = if k' = k then (t.find k).map f else t.find k' := by
  ext r
  rw [find_eq_some_iff, mem_update]
  by_cases hk : k' = k
  · subst hk
    rw [if_pos rfl, Option.map_eq_some_iff]
    constructor
    · rintro ⟨⟨-, hne⟩ | ⟨r₀, hr₀, hk₀, rfl⟩, hrk⟩
      · exact absurd hrk hne
      · exact ⟨r₀, find_eq_some_iff.mpr ⟨hr₀, hk₀⟩, rfl⟩
    · rintro ⟨r₀, hfind, rfl⟩
      obtain ⟨hr₀, hk₀⟩ := find_eq_some_iff.mp hfind
      exact ⟨Or.inr ⟨r₀, hr₀, hk₀, rfl⟩, (hf r₀).trans hk₀⟩
  · rw [if_neg hk, find_eq_some_iff]
    constructor
    · rintro ⟨⟨hr, -⟩ | ⟨r₀, -, hk₀, rfl⟩, hrk⟩
      · exact ⟨hr, hrk⟩
      · exact absurd (hrk.symm.trans ((hf r₀).trans hk₀)) hk
    · rintro ⟨hr, hrk⟩
      exact ⟨Or.inl ⟨hr, fun hc => hk (hrk.symm.trans hc)⟩, hrk⟩

theorem insert_eq_none_iff {t : Table ρ κ key} {r : ρ} :
    t.insert r = none ↔ t.find (key r) ≠ none := by
  rw [insert_eq_none, Ne, find_eq_none_iff]
  simp

theorem find_insert {t t' : Table ρ κ key} {r : ρ} (h : t.insert r = some t') (k : κ) :
    t'.find k = if k = key r then some r else t.find k := by
  obtain ⟨hnew, hrows⟩ := insert_rows h
  ext r'
  rw [find_eq_some_iff, hrows, List.mem_append, List.mem_singleton]
  by_cases hk : k = key r
  · subst hk
    rw [if_pos rfl, Option.some.injEq]
    constructor
    · rintro ⟨hr | rfl, hrk⟩
      · exact absurd (List.mem_map.mpr ⟨r', hr, hrk⟩) hnew
      · rfl
    · rintro rfl
      exact ⟨Or.inr rfl, rfl⟩
  · rw [if_neg hk, find_eq_some_iff]
    refine and_congr_left fun hrk => or_iff_left ?_
    rintro rfl
    exact hk hrk.symm

theorem find_upsert {t : Table ρ κ key} {r : ρ} {f : ρ → ρ} {hf : ∀ r, key (f r) = key r}
    (k : κ) :
    (t.upsert r f hf).find k
      = if k = key r then some ((t.find k).elim r f) else t.find k := by
  unfold upsert
  cases h : t.insert r with
  | none =>
    obtain ⟨r₀, hr₀⟩ := Option.ne_none_iff_exists'.mp (insert_eq_none_iff.mp h)
    simp only [find_update]
    split
    · rename_i hk
      subst hk
      simp [hr₀]
    · rfl
  | some t' =>
    simp only [find_insert h]
    split
    · rename_i hk
      subst hk
      have hnone : t.find (key r) = none := by
        by_contra hc
        rw [insert_eq_none_iff.mpr hc] at h
        cases h
      simp [hnone]
    · rfl

theorem find_delete {t : Table ρ κ key} {p : ρ → Bool} {k : κ} :
    (t.delete p).find k = (t.find k).filter (fun r => !p r) := by
  ext r
  rw [find_eq_some_iff, mem_delete, Option.filter_eq_some_iff, find_eq_some_iff]
  constructor
  · rintro ⟨⟨hr, hp⟩, hk⟩
    exact ⟨⟨hr, hk⟩, by simp [hp]⟩
  · rintro ⟨⟨hr, hk⟩, hp⟩
    exact ⟨⟨hr, by simpa using hp⟩, hk⟩

/-! ## Batches -/

/-- A list in batches of `n`, as a loop from 0 by steps of `n` cuts it. -/
def batches {α : Type} (n : Nat) : (fuel : Nat) → List α → List (List α)
  | 0, _ => []
  | _, [] => []
  | fuel + 1, l => l.take n :: batches n fuel (l.drop n)

theorem batches_flatten {α : Type} {n : Nat} (hn : 0 < n) :
    ∀ (fuel : Nat) (l : List α), l.length ≤ fuel → (batches n fuel l).flatten = l := by
  intro fuel
  induction fuel with
  | zero =>
    intro l hl
    rw [List.length_eq_zero_iff.mp (Nat.le_zero.mp hl)]
    rfl
  | succ fuel ih =>
    intro l hl
    cases l with
    | nil => rfl
    | cons a l =>
      have hstep : batches n (fuel + 1) (a :: l)
          = (a :: l).take n :: batches n fuel ((a :: l).drop n) := rfl
      have hdrop : ((a :: l).drop n).length ≤ fuel := by
        rw [List.length_drop]
        omega
      rw [hstep, List.flatten_cons, ih _ hdrop, List.take_append_drop]

/-- No batch is empty, or larger than the others may be. -/
theorem length_of_mem_batches {α : Type} {n : Nat} (hn : 0 < n) {fuel : Nat} {l batch : List α}
    (h : batch ∈ batches n fuel l) : 0 < batch.length ∧ batch.length ≤ n := by
  induction fuel generalizing l with
  | zero => cases h
  | succ fuel ih =>
    cases l with
    | nil => cases h
    | cons a l =>
      rcases List.mem_cons.mp h with rfl | h
      · rw [List.length_take, List.length_cons]
        omega
      · exact ih h

/-- Writing batch after batch writes all there is. -/
theorem foldl_putAll (t : Table ρ κ key) (bs : List (List ρ)) :
    bs.foldl putAll t = t.putAll bs.flatten := by
  induction bs generalizing t with
  | nil => rfl
  | cons b bs ih =>
    rw [List.foldl_cons, ih, List.flatten_cons]
    simp [putAll, List.foldl_append]

end

end Table

end LendingClaw.Lib

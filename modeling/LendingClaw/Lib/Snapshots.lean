/-
LendingClaw.Lib.Snapshots — copies of a changing value, written to one
place some time after they were taken.

A writer takes a ticket and a copy of the value (`take`), and later its
write is served (`write`) or refused (`fail`). Tickets are given in the
order of the copies; writes may come in any order. `shown` is the copy
the place holds.

* `Tickets` — the invariant: tickets are distinct, and the newest copy is
  still to be written, was refused, or is the one shown.
* `Tickets.settled` — with no write outstanding and none refused, the
  place holds the newest copy.

The invariant survives a write exactly when no newer copy was written
before (`InOrder`).

Nothing here names a program.
-/
import Mathlib.Data.List.Nodup

namespace LendingClaw.Lib

universe u

variable {δ : Type u}

structure Snapshots (δ : Type u) where
  next : Nat := 0
  pending : List (Nat × δ) := []
  latest : Option δ := none
  shown : Option (Nat × δ) := none
  failed : Bool := false

namespace Snapshots

/-- A copy is taken. -/
def take (s : Snapshots δ) (d : δ) : Snapshots δ :=
  { s with next := s.next + 1, pending := s.pending ++ [(s.next, d)], latest := some d }

/-- The copy a ticket stands for, while its write is outstanding. -/
def copy (s : Snapshots δ) (ticket : Nat) : Option δ :=
  (s.pending.find? (fun p => p.1 == ticket)).map Prod.snd

def without (s : Snapshots δ) (ticket : Nat) : List (Nat × δ) :=
  s.pending.filter (fun p => p.1 != ticket)

/-- The write of a ticket is served. -/
def write (s : Snapshots δ) (ticket : Nat) (d : δ) : Snapshots δ :=
  { s with pending := s.without ticket, shown := some (ticket, d) }

/-- The write of a ticket is refused. -/
def fail (s : Snapshots δ) (ticket : Nat) : Snapshots δ :=
  { s with pending := s.without ticket, failed := true }

/-- No copy newer than this one has been written. -/
def InOrder (s : Snapshots δ) (ticket : Nat) : Prop :=
  ∀ t d, s.shown = some (t, d) → t ≤ ticket

/-- Every write has been served. -/
def Settled (s : Snapshots δ) : Prop := s.pending = [] ∧ s.failed = false

/-- The invariant. -/
structure Tickets (s : Snapshots δ) : Prop where
  distinct : (s.pending.map Prod.fst).Nodup
  bound : ∀ p ∈ s.pending, p.1 < s.next
  shown_bound : ∀ t d, s.shown = some (t, d) → t < s.next
  shown_done : ∀ t d, s.shown = some (t, d) → ∀ p ∈ s.pending, p.1 ≠ t
  newest : ∀ d, s.latest = some d → 0 < s.next
    ∧ ((s.next - 1, d) ∈ s.pending ∨ s.failed = true ∨ s.shown = some (s.next - 1, d))

theorem tickets_init : Tickets ({} : Snapshots δ) where
  distinct := List.nodup_nil
  bound := by simp
  shown_bound := by simp
  shown_done := by simp
  newest := by simp

theorem copy_mem {s : Snapshots δ} {ticket : Nat} {d : δ} (h : s.copy ticket = some d) :
    (ticket, d) ∈ s.pending := by
  unfold copy at h
  rw [Option.map_eq_some_iff] at h
  obtain ⟨p, hp, rfl⟩ := h
  have ht := List.find?_some hp
  rw [beq_iff_eq] at ht
  subst ht
  exact List.mem_of_find?_eq_some hp

theorem Tickets.take {s : Snapshots δ} (h : Tickets s) (d : δ) : Tickets (s.take d) where
  distinct := by
    simp only [Snapshots.take, List.map_append, List.map_cons, List.map_nil]
    rw [List.nodup_append]
    refine ⟨h.distinct, by simp, ?_⟩
    intro t ht t' ht'
    simp only [List.mem_singleton] at ht'
    obtain ⟨p, hp, rfl⟩ := List.mem_map.mp ht
    have hlt := h.bound p hp
    omega
  bound := by
    intro p hp
    simp only [Snapshots.take, List.mem_append, List.mem_singleton] at hp ⊢
    rcases hp with hp | rfl
    · have hlt := h.bound p hp
      omega
    · exact Nat.lt_succ_self _
  shown_bound := by
    intro t e hs
    exact Nat.lt_succ_of_lt (h.shown_bound t e hs)
  shown_done := by
    intro t e hs p hp
    simp only [Snapshots.take, List.mem_append, List.mem_singleton] at hp
    rcases hp with hp | rfl
    · exact h.shown_done t e hs p hp
    · have hlt := h.shown_bound t e hs
      simp only
      omega
  newest := by
    intro e he
    simp only [Snapshots.take, Option.some.injEq] at he
    subst he
    exact ⟨Nat.succ_pos _, Or.inl (by simp [Snapshots.take])⟩

theorem without_distinct {s : Snapshots δ} (h : Tickets s) (ticket : Nat) :
    ((s.without ticket).map Prod.fst).Nodup :=
  h.distinct.sublist (List.filter_sublist.map _)

theorem without_bound {s : Snapshots δ} (h : Tickets s) (ticket : Nat) :
    ∀ p ∈ s.without ticket, p.1 < s.next :=
  fun p hp => h.bound p (List.mem_filter.mp hp).1

theorem mem_without {s : Snapshots δ} {ticket : Nat} {p : Nat × δ} :
    p ∈ s.without ticket ↔ p ∈ s.pending ∧ p.1 ≠ ticket := by
  simp [without]

/-- Two copies of one ticket are the same copy. -/
theorem Tickets.copy_unique {s : Snapshots δ} (h : Tickets s) {t : Nat} {d e : δ}
    (hd : (t, d) ∈ s.pending) (he : (t, e) ∈ s.pending) : d = e := by
  have heq := List.inj_on_of_nodup_map h.distinct hd he rfl
  exact (Prod.mk.inj heq).2

/-- A write in order keeps the invariant. -/
theorem Tickets.write {s : Snapshots δ} (h : Tickets s) {ticket : Nat} {d : δ}
    (hcopy : s.copy ticket = some d) (horder : s.InOrder ticket) :
    Tickets (s.write ticket d) where
  distinct := without_distinct h ticket
  bound := without_bound h ticket
  shown_bound := by
    intro t e hs
    simp only [Snapshots.write, Option.some.injEq, Prod.mk.injEq] at hs
    obtain ⟨rfl, rfl⟩ := hs
    exact h.bound _ (copy_mem hcopy)
  shown_done := by
    intro t e hs p hp
    simp only [Snapshots.write, Option.some.injEq, Prod.mk.injEq] at hs
    obtain ⟨rfl, rfl⟩ := hs
    exact (mem_without.mp hp).2
  newest := by
    intro e he
    obtain ⟨hpos, hnew⟩ := h.newest e he
    have hlt : ticket < s.next := h.bound _ (copy_mem hcopy)
    refine ⟨hpos, ?_⟩
    simp only [Snapshots.write, mem_without]
    by_cases ht : ticket = s.next - 1
    · -- the newest copy itself is written now
      subst ht
      rcases hnew with hnew | hnew | hnew
      · rw [h.copy_unique hnew (copy_mem hcopy)]
        exact Or.inr (Or.inr rfl)
      · exact Or.inr (Or.inl hnew)
      · exact absurd rfl (h.shown_done _ _ hnew _ (copy_mem hcopy))
    · rcases hnew with hnew | hnew | hnew
      · exact Or.inl ⟨hnew, fun hn => ht hn.symm⟩
      · exact Or.inr (Or.inl hnew)
      · have hle := horder _ _ hnew
        omega

theorem Tickets.fail {s : Snapshots δ} (h : Tickets s) (ticket : Nat) :
    Tickets (s.fail ticket) where
  distinct := without_distinct h ticket
  bound := without_bound h ticket
  shown_bound := h.shown_bound
  shown_done := fun t e hs p hp => h.shown_done t e hs p (mem_without.mp hp).1
  newest := fun e he => ⟨(h.newest e he).1, Or.inr (Or.inl rfl)⟩

/-- When all writes have been served, the place holds the newest copy. -/
theorem Tickets.settled {s : Snapshots δ} (h : Tickets s) (hs : s.Settled) {d : δ}
    (hd : s.latest = some d) : ∃ t, s.shown = some (t, d) := by
  obtain ⟨-, hnew⟩ := h.newest d hd
  rcases hnew with hnew | hnew | hnew
  · rw [hs.1] at hnew
    simp at hnew
  · rw [hs.2] at hnew
    cases hnew
  · exact ⟨_, hnew⟩

end Snapshots

end LendingClaw.Lib

/-
LendingClaw.Lib.Merge — one finite map written over another.

`mergeInto f m acc` is the loop over the entries of `m` that writes into
`acc`, under its own key, what `f` makes of each entry, and skips the
entries `f` drops. A map has one entry for a key, so the order of the
loop does not matter: `lookup_mergeInto` reads the result key by key.

Nothing here names a program.
-/
import Mathlib.Data.List.AList

namespace LendingClaw.Lib

universe u v w

variable {α : Type u} {β : Type v} {γ : Type w} [DecidableEq α]

/-- What `f` keeps of the entries of `m`, written over `acc`. -/
def mergeInto (f : α → β → Option γ) (m : AList (fun _ : α => β))
    (acc : AList (fun _ : α => γ)) : AList (fun _ : α => γ) :=
  m.entries.foldl
    (fun acc p =>
      match f p.1 p.2 with
      | some v => acc.insert p.1 v
      | none => acc)
    acc

/-- The loop over a list of entries without repeated keys. -/
theorem lookup_foldl_merge (f : α → β → Option γ) (k : α) :
    ∀ (entries : List (Sigma fun _ : α => β)), entries.NodupKeys →
      ∀ acc : AList (fun _ : α => γ),
        AList.lookup k (entries.foldl
          (fun acc p =>
            match f p.1 p.2 with
            | some v => acc.insert p.1 v
            | none => acc)
          acc) = ((entries.dlookup k).bind (f k)).or (acc.lookup k) := by
  intro entries
  induction entries with
  | nil =>
    intro _ acc
    rfl
  | cons p entries ih =>
    intro hnodup acc
    obtain ⟨key, v⟩ := p
    obtain ⟨hkey, hrest⟩ := List.nodupKeys_cons.mp hnodup
    rw [List.foldl_cons, ih hrest]
    by_cases hk : k = key
    · subst hk
      have hnone : entries.dlookup k = none := List.dlookup_eq_none.mpr hkey
      rw [hnone, List.dlookup_cons_eq]
      cases hf : f k v with
      | none => simp [hf]
      | some v' => simp [hf]
    · rw [List.dlookup_cons_ne _ _ hk]
      cases hf : f key v with
      | none => simp
      | some v' => simp [AList.lookup_insert_ne hk]

/-- A key reads what `f` keeps of its entry, and what was there where
there is no entry or `f` drops it. -/
theorem lookup_mergeInto (f : α → β → Option γ) (m : AList (fun _ : α => β))
    (acc : AList (fun _ : α => γ)) (k : α) :
    (mergeInto f m acc).lookup k = ((m.lookup k).bind (f k)).or (acc.lookup k) :=
  lookup_foldl_merge f k m.entries m.nodupKeys acc

end LendingClaw.Lib

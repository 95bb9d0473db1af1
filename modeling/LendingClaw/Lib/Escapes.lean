/-
LendingClaw.Lib.Escapes — escapes that are undone one after the other.

A table gives words for some characters; each word begins with a mark
that stands nowhere else in it. Escaping replaces the characters in one
pass. Undoing goes through the text once for every word, and takes any
variant of it. What the pass for one word makes of an escaped text is the
escape, by the rest of the table, of what it makes of the text itself
(`replaceAll_escape`): nothing is undone that the text did not hold, and
what the text held is undone as well.

Nothing here names a program.
-/
import LendingClaw.Lib.RegexReplace

namespace LendingClaw.Lib

variable {α : Type}

/-! ## Replacing matches by less -/

namespace Regex

theorem preferred_word {ps : List (α → Bool)} {s rest : List α} :
    preferred (word ps) s = some rest
      ↔ ∃ u, List.Forall₂ (fun p c => p c = true) ps u ∧ s = u ++ rest := by
  have hwords : ∀ rest, rest ∈ ends (word ps) s
      ↔ ∃ u, List.Forall₂ (fun p c => p c = true) ps u ∧ s = u ++ rest := by
    intro rest
    rw [mem_ends]
    exact exists_congr fun u => and_congr mem_word eq_comm
  constructor
  · intro h
    exact (hwords rest).mp (List.mem_of_head? h)
  · intro ⟨u, hu, hs⟩
    have hne := preferred_ne_none (mem_word.mpr hu) rest
    rw [← hs] at hne
    obtain ⟨rest', hrest'⟩ := Option.ne_none_iff_exists'.mp hne
    obtain ⟨u', hu', hs'⟩ := (hwords rest').mp (List.mem_of_head? hrest')
    have hlength : u.length = u'.length := hu.length_eq.symm.trans hu'.length_eq
    obtain ⟨-, rfl⟩ := List.append_inj (hs.symm.trans hs') hlength
    exact hrest'

theorem replaceAll_eq_self {r : Regex α} {s : List α} (new : List α)
    (h : ∀ t, t <:+ s → preferred r t = none) : replaceAll r new s = s := by
  induction s with
  | nil => rfl
  | cons c s ih =>
    rw [replaceAll_keep (h _ List.suffix_rfl), ih fun t ht => h t (ht.trans (List.suffix_cons c s))]

/-- A text with a match gets shorter, any other does not get longer. -/
theorem length_replaceAll {r : Regex α} {new : List α} (hnew : new.length < r.least) (s : List α) :
    (replaceAll r new s).length ≤ s.length
      ∧ ((replaceAll r new s).length = s.length → ∀ t, t <:+ s → preferred r t = none) := by
  have hpos : 0 < r.least := by omega
  induction hn : s.length using Nat.strongRecOn generalizing s with
  | _ n ih =>
    cases s with
    | nil =>
      refine ⟨by simp, fun _ t ht => ?_⟩
      rw [List.suffix_nil.mp ht]
      rcases preferred_cases hpos ([] : List α) with hnone | ⟨m, rest, hs, -, hm⟩
      · exact hnone
      · exact absurd (List.append_eq_nil_iff.mp hs.symm).1 hm
    | cons c s =>
      rw [List.length_cons] at hn
      rcases preferred_cases hpos (c :: s) with hnone | ⟨m, rest, hs, hsome, hm⟩
      · obtain ⟨hle, heq⟩ := ih s.length (by omega) s rfl
        rw [replaceAll_keep hnone, List.length_cons]
        refine ⟨by omega, fun h t ht => ?_⟩
        rcases List.suffix_cons_iff.mp ht with rfl | ht
        · exact hnone
        · exact heq (by omega) t ht
      · obtain ⟨u, hu, hrest⟩ := of_preferred hsome
        rw [hs] at hrest hsome
        obtain rfl := List.append_cancel_right hrest
        have hleast := least_le_length hu
        have hlength := congrArg List.length hs
        rw [List.length_cons, List.length_append] at hlength
        have hle := (ih rest.length (by omega) rest rfl).1
        rw [hs, replaceAll_cut hsome hm, List.length_append]
        exact ⟨by omega, fun h => by omega⟩

/-- One pass after the other, each with a replacement shorter than its
matches, changes a text exactly if one of them has a match in it. -/
theorem passes_eq_self_iff {passes : List (Regex α × List α)}
    (hnew : ∀ p ∈ passes, p.2.length < p.1.least) (s : List α) :
    (passes.foldl (fun s p => p.1.replaceAll p.2 s) s).length ≤ s.length
      ∧ ((passes.foldl (fun s p => p.1.replaceAll p.2 s) s).length = s.length →
        ∀ p ∈ passes, ∀ t, t <:+ s → preferred p.1 t = none)
      ∧ ((∀ p ∈ passes, ∀ t, t <:+ s → preferred p.1 t = none) →
        passes.foldl (fun s p => p.1.replaceAll p.2 s) s = s) := by
  induction passes generalizing s with
  | nil => exact ⟨Nat.le_refl _, fun _ p hp => (nomatch hp), fun _ => rfl⟩
  | cons p passes ih =>
    obtain ⟨hp, hrest⟩ := List.forall_mem_cons.mp hnew
    obtain ⟨hle, heq⟩ := length_replaceAll hp s
    obtain ⟨hle', heq', hself'⟩ := ih hrest (p.1.replaceAll p.2 s)
    rw [List.foldl_cons]
    refine ⟨hle'.trans hle, fun h => ?_, fun h => ?_⟩
    · have hnone := heq (by omega)
      rw [replaceAll_eq_self p.2 hnone] at h heq'
      exact List.forall_mem_cons.mpr ⟨hnone, heq' h⟩
    · obtain ⟨hnone, hnones⟩ := List.forall_mem_cons.mp h
      rw [replaceAll_eq_self p.2 hnone] at hself' ⊢
      exact hself' hnones

/-- Characters that no match begins with are passed over. -/
theorem replaceAll_append {r : Regex α} {new u : List α} (s : List α)
    (h : ∀ c ∈ u, ∀ t, preferred r (c :: t) = none) :
    replaceAll r new (u ++ s) = u ++ replaceAll r new s := by
  induction u with
  | nil => rfl
  | cons c u ih =>
    rw [List.cons_append, replaceAll_keep (h c List.mem_cons_self _),
      ih fun d hd => h d (List.mem_cons_of_mem c hd), List.cons_append]

end Regex

/-! ## Escaping -/

open Regex

/-- A pattern for the variants of a word. -/
def variants (same : α → α → Bool) (word : List α) : Regex α := .word (word.map same)

theorem preferred_variants {same : α → α → Bool} {word s rest : List α} :
    preferred (variants same word) s = some rest
      ↔ ∃ u, List.Forall₂ (fun a b => same a b = true) word u ∧ s = u ++ rest := by
  unfold variants
  rw [preferred_word]
  simp only [List.forall₂_map_left_iff]

/-- The word for a character, or the character itself. -/
def escapeWith [DecidableEq α] (table : List (α × List α)) (c : α) : List α :=
  (table.lookup c).getD [c]

section

variable {same : α → α → Bool} {mark : α} {table : List (α × List α)}

/-- Words that begin with the mark and go on without it. -/
def Marked (mark : α) (table : List (α × List α)) : Prop :=
  ∀ entry ∈ table, ∃ tail, entry.2 = mark :: tail ∧ mark ∉ tail

theorem escapeWith_cases [DecidableEq α] (hmarked : Marked mark table) (c : α) :
    (c ∉ table.map Prod.fst ∧ escapeWith table c = [c])
      ∨ ∃ tail, (c, mark :: tail) ∈ table ∧ escapeWith table c = mark :: tail ∧ mark ∉ tail := by
  unfold escapeWith
  cases hlookup : table.lookup c with
  | none =>
    refine .inl ⟨fun hmem => ?_, rfl⟩
    obtain ⟨entry, hentry, rfl⟩ := List.mem_map.mp hmem
    have hne := List.lookup_eq_none_iff.mp hlookup entry hentry
    simp at hne
  | some word =>
    have hmem : (c, word) ∈ table := by
      obtain ⟨front, back, rfl, -⟩ := List.lookup_eq_some_iff.mp hlookup
      simp
    obtain ⟨tail, rfl, htail⟩ := hmarked _ hmem
    exact .inr ⟨tail, hmem, rfl, htail⟩

theorem escapeWith_of_not_mem [DecidableEq α] {c : α} (hc : c ∉ table.map Prod.fst) :
    escapeWith table c = [c] := by
  have hnone : table.lookup c = none := by
    refine List.lookup_eq_none_iff.mpr fun entry hentry => ?_
    simpa using fun heq : c = entry.1 => hc (heq ▸ List.mem_map_of_mem hentry)
  rw [escapeWith, hnone]
  rfl

/-- What an escaped text begins with, up to the next mark, the text
begins with. -/
theorem of_flatMap_escapeWith [DecidableEq α] (hmarked : Marked mark table) {u z t : List α}
    (hu : mark ∉ u) (h : t.flatMap (escapeWith table) = u ++ z) :
    ∃ t', t = u ++ t' ∧ z = t'.flatMap (escapeWith table) := by
  induction u generalizing t with
  | nil => exact ⟨t, rfl, h.symm⟩
  | cons b u ih =>
    cases t with
    | nil => cases h
    | cons c t =>
      rw [List.flatMap_cons] at h
      rcases escapeWith_cases hmarked c with ⟨-, hplain⟩ | ⟨tail, -, hword, -⟩
      · rw [hplain] at h
        obtain ⟨rfl, hrest⟩ := List.cons.inj h
        obtain ⟨t', rfl, hz⟩ := ih (fun hmem => hu (List.mem_cons_of_mem _ hmem)) hrest
        exact ⟨t', rfl, hz⟩
      · rw [hword] at h
        obtain ⟨rfl, -⟩ := List.cons.inj h
        exact absurd List.mem_cons_self hu

theorem exists_of_mem_variant {word u : List α} {b : α}
    (h : List.Forall₂ (fun a b => same a b = true) word u) (hb : b ∈ u) :
    ∃ a ∈ word, same a b = true := by
  induction h with
  | nil => cases hb
  | @cons a c word u hac _ ih =>
    rcases List.mem_cons.mp hb with rfl | hb
    · exact ⟨a, List.mem_cons_self, hac⟩
    · obtain ⟨a', ha', hsame⟩ := ih hb
      exact ⟨a', List.mem_cons_of_mem a ha', hsame⟩

/-- A word that is told from those of a table: each of its variants begins
with the mark and goes on without it, and it differs from the other words
in the character behind the mark. -/
structure Separate (same : α → α → Bool) (mark : α) (word : List α) (table : List (α × List α)) :
    Prop where
  word_eq : ∃ tail, word = mark :: tail ∧ mark ∉ tail
  refl : ∀ a ∈ word, same a a = true
  sameMark : ∀ b, same mark b = true → b = mark
  unmarked : ∀ a ∈ word.tail, ∀ b, same a b = true → b ≠ mark
  differs : ∀ entry ∈ table, ∃ a ∈ word.tail.head?, ∃ b ∈ entry.2.tail.head?, same a b = false
  marked : Marked mark table

namespace Separate

variable {word : List α} (h : Separate same mark word table)

include h

theorem variant {u : List α} (hu : List.Forall₂ (fun a b => same a b = true) word u) :
    ∃ tail, u = mark :: tail ∧ mark ∉ tail ∧ ∀ b ∈ tail, ∃ a ∈ word.tail, same a b = true := by
  obtain ⟨tail, hword, -⟩ := h.word_eq
  have hunmarked := h.unmarked
  rw [hword] at hu hunmarked ⊢
  obtain ⟨b, u', hb, hu', rfl⟩ := List.forall₂_cons_left_iff.mp hu
  obtain rfl := h.sameMark b hb
  refine ⟨u', rfl, fun hmem => ?_, fun c hc => exists_of_mem_variant hu' hc⟩
  obtain ⟨a, ha, hab⟩ := exists_of_mem_variant hu' hmem
  exact hunmarked a ha b hab rfl

theorem preferred_of_ne_mark {c : α} (hc : c ≠ mark) (s : List α) :
    preferred (variants same word) (c :: s) = none := by
  by_contra hsome
  obtain ⟨rest, hrest⟩ := Option.ne_none_iff_exists'.mp hsome
  obtain ⟨u, hu, hs⟩ := preferred_variants.mp hrest
  obtain ⟨tail, rfl, -⟩ := h.variant hu
  exact hc (List.cons.inj hs).1

/-- No match begins at another word. -/
theorem preferred_other {y : α} {tail : List α} (hmem : (y, mark :: tail) ∈ table) (s : List α) :
    preferred (variants same word) (mark :: tail ++ s) = none := by
  by_contra hsome
  obtain ⟨rest, hrest⟩ := Option.ne_none_iff_exists'.mp hsome
  obtain ⟨u, hu, hs⟩ := preferred_variants.mp hrest
  obtain ⟨a, ha, b, hb, hdiffer⟩ := h.differs _ hmem
  obtain ⟨wordTail, hword, -⟩ := h.word_eq
  rw [hword] at hu ha
  obtain ⟨c, u', -, hu', rfl⟩ := List.forall₂_cons_left_iff.mp hu
  obtain ⟨wordTail', rfl⟩ := List.head?_eq_some_iff.mp (Option.mem_def.mp ha)
  obtain ⟨tail', hb'⟩ := List.head?_eq_some_iff.mp (Option.mem_def.mp hb)
  obtain ⟨d, u'', hd, -, rfl⟩ := List.forall₂_cons_left_iff.mp hu'
  simp only [List.tail_cons] at hb'
  subst hb'
  obtain ⟨-, hrest⟩ := List.cons.inj hs
  obtain ⟨rfl, -⟩ := List.cons.inj hrest
  rw [hdiffer] at hd
  cases hd

/-- Other words are passed over. -/
theorem pass_word {y : α} {tail new : List α} (hmem : (y, mark :: tail) ∈ table) (htail : mark ∉ tail)
    (s : List α) :
    replaceAll (variants same word) new (mark :: tail ++ s)
      = mark :: tail ++ replaceAll (variants same word) new s := by
  have hkeep : ∀ d ∈ tail, ∀ s, preferred (variants same word) (d :: s) = none := by
    intro d hd s
    refine h.preferred_of_ne_mark (fun heq => htail ?_) s
    rwa [← heq]
  have hmark : replaceAll (variants same word) new (mark :: (tail ++ s))
      = mark :: replaceAll (variants same word) new (tail ++ s) :=
    replaceAll_keep (h.preferred_other hmem s)
  rw [List.cons_append, hmark, replaceAll_append s hkeep, List.cons_append]

theorem preferred_self (s : List α) : preferred (variants same word) (word ++ s) = some s := by
  refine preferred_variants.mpr ⟨word, ?_, rfl⟩
  rw [List.forall₂_same]
  exact h.refl

/-- A character is passed over as it is escaped, unless it is the mark. -/
theorem pass_escape [DecidableEq α] {c : α} (hc : c ≠ mark ∨ mark ∈ table.map Prod.fst) (new s : List α) :
    replaceAll (variants same word) new (escapeWith table c ++ s)
      = escapeWith table c ++ replaceAll (variants same word) new s := by
  rcases escapeWith_cases h.marked c with ⟨hkey, hself⟩ | ⟨tail, hmem, hself, htail⟩
  · have hmark : c ≠ mark := by
      rcases hc with hc | hc
      · exact hc
      · exact fun heq => hkey (heq ▸ hc)
    rw [hself, List.singleton_append, replaceAll_keep (h.preferred_of_ne_mark hmark s),
      List.singleton_append]
  · rw [hself, h.pass_word hmem htail]

/-- Where the mark is escaped as well, a word that is not in the table
stands nowhere. -/
theorem replaceAll_absent [DecidableEq α] (hmark : mark ∈ table.map Prod.fst) (new t : List α) :
    replaceAll (variants same word) new (t.flatMap (escapeWith table)) = t.flatMap (escapeWith table) := by
  induction t with
  | nil => rfl
  | cons c t ih => rw [List.flatMap_cons, h.pass_escape (.inr hmark), ih]

/-- Undoing the word for the mark itself. -/
theorem replaceAll_mark [DecidableEq α] (hmark : mark ∉ table.map Prod.fst) (t : List α) :
    replaceAll (variants same word) [mark] (t.flatMap (escapeWith ((mark, word) :: table)))
      = t.flatMap (escapeWith table) := by
  induction t with
  | nil => rfl
  | cons c t ih =>
    rw [List.flatMap_cons, List.flatMap_cons]
    by_cases hc : c = mark
    · subst hc
      have hhead : escapeWith ((c, word) :: table) c = word := by simp [escapeWith]
      obtain ⟨tail, hword, -⟩ := h.word_eq
      rw [hhead, replaceAll_cut (h.preferred_self _) (by simp [hword]), ih, escapeWith_of_not_mem hmark]
    · have hbeq : (c == mark) = false := beq_false_of_ne hc
      have hsame : escapeWith ((mark, word) :: table) c = escapeWith table c := by
        simp [escapeWith, List.lookup_cons, hbeq]
      rw [hsame, h.pass_escape (.inl hc), ih]

end Separate

/-- A table that can be undone from the front: neither the mark nor any
character of a variant of its first word is escaped. -/
structure Undoable (same : α → α → Bool) (mark x : α) (word : List α) (table : List (α × List α)) :
    Prop extends Separate same mark word table where
  fresh : x ∉ table.map Prod.fst
  markPlain : mark ∉ ((x, word) :: table).map Prod.fst
  tailPlain : ∀ a ∈ word.tail, ∀ b, same a b = true → b ∉ ((x, word) :: table).map Prod.fst

namespace Undoable

variable {x : α} {word : List α} (h : Undoable same mark x word table)

include h

theorem x_ne_mark : x ≠ mark := fun heq => h.markPlain (by simp [heq])

theorem markedAll : Marked mark ((x, word) :: table) := by
  intro entry hentry
  rcases List.mem_cons.mp hentry with rfl | hentry
  · exact h.word_eq
  · exact h.marked entry hentry

variable [DecidableEq α]

/-- Escaping leaves a variant as it is. -/
theorem flatMap_variant {u : List α} (hu : List.Forall₂ (fun a b => same a b = true) word u) :
    u.flatMap (escapeWith ((x, word) :: table)) = u := by
  obtain ⟨tail, rfl, -, hsame⟩ := h.variant hu
  rw [List.flatMap_congr fun b hb => escapeWith_of_not_mem ?_]
  · exact List.flatMap_singleton' _
  · rcases List.mem_cons.mp hb with rfl | hb
    · exact h.markPlain
    · obtain ⟨a, ha, hab⟩ := hsame b hb
      exact h.tailPlain a ha b hab

/-- Where no variant begins at a mark, escaping what follows makes none. -/
theorem preferred_escape {t : List α} (hnone : preferred (variants same word) (mark :: t) = none) :
    preferred (variants same word) (mark :: t.flatMap (escapeWith ((x, word) :: table))) = none := by
  by_contra hsome
  obtain ⟨rest, hfound⟩ := Option.ne_none_iff_exists'.mp hsome
  obtain ⟨u, hu, hs⟩ := preferred_variants.mp hfound
  obtain ⟨tail, rfl, htail, -⟩ := h.variant hu
  obtain ⟨t', ht', -⟩ := of_flatMap_escapeWith h.markedAll htail (List.cons.inj hs).2
  have hpref := preferred_variants.mpr ⟨mark :: tail, hu, congrArg (mark :: ·) ht'⟩
  rw [hnone] at hpref
  cases hpref

end Undoable

/-- Undoing the first word. -/
theorem replaceAll_escape [DecidableEq α] {x : α} {word : List α} (h : Undoable same mark x word table)
    (t : List α) :
    replaceAll (variants same word) [x] (t.flatMap (escapeWith ((x, word) :: table)))
      = (replaceAll (variants same word) [x] t).flatMap (escapeWith table) := by
  obtain ⟨wordTail, hword, -⟩ := h.word_eq
  have hrest : ∀ c, c ≠ x → escapeWith ((x, word) :: table) c = escapeWith table c := by
    intro c hc
    have hbeq : (c == x) = false := beq_false_of_ne hc
    simp [escapeWith, List.lookup_cons, hbeq]
  induction hn : t.length using Nat.strongRecOn generalizing t with
  | _ n ih =>
    cases t with
    | nil => rfl
    | cons c t =>
      rw [List.length_cons] at hn
      have hmore := ih t.length (by omega) t rfl
      by_cases hcx : c = x
      · -- an escaped `x`
        subst hcx
        have hhead : escapeWith ((c, word) :: table) c = word := by simp [escapeWith]
        rw [List.flatMap_cons, hhead, replaceAll_cut (h.preferred_self _) (by simp [hword]), hmore,
          replaceAll_keep (h.preferred_of_ne_mark h.x_ne_mark t), List.flatMap_cons, escapeWith_of_not_mem h.fresh]
      by_cases hmark : c = mark
      · subst hmark
        have hself := escapeWith_of_not_mem h.markPlain
        cases hown : preferred (variants same word) (c :: t) with
        | none =>
          rw [List.flatMap_cons, hself, List.singleton_append, replaceAll_keep (h.preferred_escape hown),
            replaceAll_keep hown, hmore, List.flatMap_cons, ← hrest c hcx, hself, List.singleton_append]
        | some rest =>
          -- a variant in the text itself
          obtain ⟨u, hu, hs⟩ := preferred_variants.mp hown
          have hne : u ≠ [] := by
            obtain ⟨tail, rfl, -⟩ := h.variant hu
            exact List.cons_ne_nil _ _
          have hshort : rest.length < n := by
            have hlength := congrArg List.length hs
            rw [List.length_cons, List.length_append] at hlength
            have hpos := List.length_pos_iff.mpr hne
            omega
          have hfound := preferred_variants.mpr
            ⟨u, hu, (rfl : u ++ rest.flatMap (escapeWith ((x, word) :: table)) = _)⟩
          rw [hs] at hown ⊢
          rw [List.flatMap_append, h.flatMap_variant hu, replaceAll_cut hfound hne,
            ih rest.length hshort rest rfl, replaceAll_cut hown hne, List.flatMap_append]
          simp [escapeWith_of_not_mem h.fresh]
      · rw [List.flatMap_cons, hrest c hcx, h.pass_escape (.inl hmark), hmore,
          replaceAll_keep (h.preferred_of_ne_mark hmark t), List.flatMap_cons]

end

end LendingClaw.Lib

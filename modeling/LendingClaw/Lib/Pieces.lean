/-
LendingClaw.Lib.Pieces — texts that are split at a separator and put
together again without some of their pieces, or without the matches of a
pattern.

What is left is a sublist of the text. A word without the separator that
occurs in what is joined occurs in one of the pieces, and a word without
blanks at its ends survives the trimming of the text around it.

Nothing here names a program.
-/
import LendingClaw.Lib.RegexReplace
import LendingClaw.Lib.Texts

namespace LendingClaw.Lib

/-! ## Joining -/

section
variable {α : Type}

/-- Pieces left out are text left out. -/
theorem intercalate_sublist (sep : List α) {l l' : List (List α)} (h : l.Sublist l') :
    (sep.intercalate l).Sublist (sep.intercalate l') := by
  induction h with
  | slnil => exact List.Sublist.refl _
  | @cons l l' p _ ih =>
    cases l' with
    | nil =>
      rw [List.intercalate_nil] at ih
      rw [List.sublist_nil.mp ih]
      exact List.nil_sublist _
    | cons q l' =>
      rw [List.intercalate_cons_cons]
      exact ih.trans (List.sublist_append_right _ _)
  | @cons_cons l l' p h ih =>
    cases l with
    | nil =>
      rw [List.intercalate_singleton]
      cases l' with
      | nil => simp
      | cons q l' =>
        rw [List.intercalate_cons_cons, List.append_assoc]
        exact List.sublist_append_left _ _
    | cons q l =>
      obtain ⟨q', l', rfl⟩ : ∃ q' k, l' = q' :: k := by
        cases l' with
        | nil => exact absurd (List.sublist_nil.mp h) (by simp)
        | cons q' k => exact ⟨q', k, rfl⟩
      rw [List.intercalate_cons_cons, List.intercalate_cons_cons]
      exact (List.Sublist.refl _).append ih

/-- A word without the separator lies in one piece. -/
theorem infix_of_infix_intercalate {z : α} {w : List α} (hz : z ∉ w) (hw : w ≠ [])
    {l : List (List α)} (h : w <:+: [z].intercalate l) : ∃ p ∈ l, w <:+: p := by
  induction l with
  | nil => exact absurd (List.infix_nil.mp h) hw
  | cons p l ih =>
    cases l with
    | nil => exact ⟨p, List.mem_cons_self, by rwa [List.intercalate_singleton] at h⟩
    | cons q l =>
      rw [List.intercalate_cons_cons, List.append_assoc, List.singleton_append] at h
      rcases Regex.infix_of_infix_separated hz h with h | h
      · exact ⟨p, List.mem_cons_self, h⟩
      · obtain ⟨p', hp', hin⟩ := ih h
        exact ⟨p', List.mem_cons_of_mem _ hp', hin⟩

end

/-! ## Splitting at a doubled character -/

section
variable {α : Type} [DecidableEq α]

/-- `strings.Split(s, sep)` where `sep` is `z` twice. -/
def splitTwice (z : α) : List α → List (List α)
  | [] => [[]]
  | [a] => [[a]]
  | a :: b :: s =>
    if a = z ∧ b = z then [] :: splitTwice z s
    else
      match splitTwice z (b :: s) with
      | [] => [[a]]
      | p :: ps => (a :: p) :: ps

theorem splitTwice_ne_nil (z : α) (s : List α) : splitTwice z s ≠ [] := by
  fun_cases splitTwice z s <;> simp

theorem intercalate_splitTwice (z : α) (s : List α) : [z, z].intercalate (splitTwice z s) = s := by
  induction s using splitTwice.induct z with
  | case1 => rfl
  | case2 a => simp [splitTwice]
  | case3 a b s hz ih =>
    obtain ⟨rfl, rfl⟩ := hz
    obtain ⟨p, ps, hsplit⟩ := List.exists_cons_of_ne_nil (splitTwice_ne_nil _ s)
    rw [hsplit] at ih
    rw [splitTwice, if_pos ⟨rfl, rfl⟩, hsplit, List.intercalate_cons_cons, ih]
    rfl
  | case4 a b s hz hsplit ih => exact absurd hsplit (splitTwice_ne_nil z _)
  | case5 a b s hz p ps hsplit ih =>
    rw [hsplit] at ih
    rw [splitTwice, if_neg hz, hsplit]
    cases ps with
    | nil =>
      rw [List.intercalate_singleton] at ih ⊢
      rw [ih]
    | cons q ps =>
      rw [List.intercalate_cons_cons] at ih ⊢
      simpa using ih

end

/-! ## Cutting matches out -/

theorem Regex.replaceFrom_sublist {α : Type} (r : Regex α) (skip : Nat) (s : List α) :
    (Regex.replaceFrom r [] skip s).Sublist s := by
  induction s generalizing skip with
  | nil => cases skip <;> exact List.Sublist.refl _
  | cons c s ih =>
    cases skip with
    | succ skip => exact (ih skip).cons c
    | zero =>
      rw [Regex.replaceFrom]
      cases Regex.preferred r (c :: s) with
      | none => exact (ih 0).cons_cons c
      | some v => exact (ih _).cons c

theorem Regex.replaceAll_sublist {α : Type} (r : Regex α) (s : List α) :
    (Regex.replaceAll r [] s).Sublist s :=
  Regex.replaceFrom_sublist r 0 s

/-- Nothing is replaced where no match starts. -/
theorem Regex.replaceAll_of_none {α : Type} {r : Regex α} {new s : List α}
    (h : ∀ t, t <:+ s → t ≠ [] → Regex.preferred r t = none) : Regex.replaceAll r new s = s := by
  induction s with
  | nil => rfl
  | cons c s ih =>
    rw [Regex.replaceAll_keep (h _ List.suffix_rfl (List.cons_ne_nil c s)),
      ih fun t ht => h t (ht.trans (List.suffix_cons c s))]

/-- The rest after a match is an end of the text. -/
theorem Regex.preferred_suffix {α : Type} {r : Regex α} {s v : List α}
    (h : Regex.preferred r s = some v) : v <:+ s := by
  obtain ⟨u, -, rfl⟩ := Regex.of_preferred h
  exact List.suffix_append u v

/-- `(?s).*?` goes on one character after the other. -/
theorem Regex.ends_lazy {α : Type} (s : List α) :
    Regex.ends (.star false (.cls fun _ => true)) s = s.tails := by
  unfold Regex.ends
  induction s with
  | nil => rfl
  | cons c s ih => simpa [Regex.iter, Regex.ends] using ih

/-- The first result of a search along the ends of a text. -/
theorem head?_tails_flatMap {α β : Type} {f : List α → List β} {b t : List α}
    (hnone : ∀ y, y <:+ b → y ≠ [] → f (y ++ t) = []) (hsome : f t ≠ []) :
    ((b ++ t).tails.flatMap f).head? = (f t).head? := by
  induction b with
  | nil =>
    obtain ⟨first, rest, hf⟩ := List.exists_cons_of_ne_nil hsome
    cases t with
    | nil => simp [hf]
    | cons c t => simp [hf]
  | cons c b ih =>
    have hc := hnone (c :: b) List.suffix_rfl (List.cons_ne_nil c b)
    rw [List.cons_append] at hc
    rw [List.cons_append, List.tails_cons, List.flatMap_cons, hc, List.nil_append]
    exact ih fun y hy hne => hnone y (hy.trans (List.suffix_cons c b)) hne

/-- An end of two texts is one of the second, or goes over both. -/
theorem suffix_append_cases {α : Type} {y a b : List α} (h : y <:+ a ++ b) :
    y <:+ b ∨ ∃ z, z ≠ [] ∧ z <:+ a ∧ y = z ++ b := by
  obtain ⟨x, hx⟩ := h
  rcases List.append_eq_append_iff.mp hx with ⟨z, rfl, rfl⟩ | ⟨z, rfl, rfl⟩
  · cases z with
    | nil => exact .inl (by simp)
    | cons c z => exact .inr ⟨c :: z, List.cons_ne_nil c z, List.suffix_append x _, rfl⟩
  · exact .inl (List.suffix_append z y)

/-! ## Trimming around a word -/

/-- A word whose first letter is kept is kept. -/
theorem infix_dropWhile {α : Type} {p : α → Bool} {w s : List α} (hw : w ≠ [])
    (hhead : ∀ c ∈ w.head?, p c = false) (h : w <:+: s) : w <:+: s.dropWhile p := by
  obtain ⟨x, y, rfl⟩ := h
  obtain ⟨c, w, rfl⟩ := List.exists_cons_of_ne_nil hw
  have hc : p c = false := hhead c rfl
  rw [List.append_assoc, List.dropWhile_append]
  cases (x.dropWhile p).isEmpty with
  | true => simp [hc, List.infix_cons_iff, List.prefix_append]
  | false => exact ⟨x.dropWhile p, y, by simp⟩

/-- Trimming leaves a word alone that starts and ends with no blank. -/
theorem infix_trimChars {w s : List Char} (hw : w ≠ []) (ht : Trimmed w) (h : w <:+: s) :
    w <:+: trimChars s := by
  have hleft : w <:+: trimLeft s := infix_dropWhile hw ht.head h
  rw [trimChars, List.rdropWhile, ← List.reverse_infix, List.reverse_reverse]
  refine infix_dropWhile (by simpa using hw) (fun c hc => ht.last c ?_) (List.reverse_infix.mpr hleft)
  rwa [List.head?_reverse] at hc

theorem trimChars_within (s : List Char) : trimChars s <:+: s :=
  (List.rdropWhile_prefix _ _).isInfix.trans (List.dropWhile_suffix _).isInfix

end LendingClaw.Lib

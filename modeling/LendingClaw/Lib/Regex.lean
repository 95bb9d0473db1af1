/-
LendingClaw.Lib.Regex — regular expressions, and which match the
leftmost-first semantics prefers.

`ends r s` lists what can be left of `s` after a match of `r` at its
start, in the order of preference: the first branch of an alternative
and the longest repetition of a greedy one come first. `language r` is
what `r` denotes, and `mem_ends` says that the two agree. The facts that
a verification needs of a pattern are read off its syntax: the
characters its matches are made of (`Within`), their least length
(`least`), and that its preferred match runs on to the end of a class of
characters (`RunsOut`).

Nothing here names a program.
-/
import Mathlib.Computability.Language

namespace LendingClaw.Lib

inductive Regex (α : Type) where
  | eps
  /-- One character of a class. -/
  | cls (p : α → Bool)
  | seq (a b : Regex α)
  /-- `a|b`; `a` is preferred. -/
  | alt (a b : Regex α)
  /-- `a*` if greedy, else `a*?`. -/
  | star (greedy : Bool) (a : Regex α)

namespace Regex

variable {α : Type}

/-! ## Derived forms -/

/-- `a?`. -/
def opt (a : Regex α) : Regex α := alt a eps

/-- `a{n}`. -/
def times (a : Regex α) : Nat → Regex α
  | 0 => eps
  | n + 1 => seq a (times a n)

/-- `a{n,}`. -/
def atLeast (n : Nat) (a : Regex α) : Regex α := seq (times a n) (star true a)

/-- One character after the other, each of its class. -/
def word : List (α → Bool) → Regex α
  | [] => eps
  | p :: ps => seq (cls p) (word ps)

/-- `a|b|c`, and so on. -/
def choice : List (Regex α) → Regex α
  | [] => cls fun _ => false
  | r :: rs => alt r (choice rs)

/-! ## Matching -/

/-- The rests after some number of matches of `f`, none of them empty. -/
def iter (f : List α → List (List α)) (greedy : Bool) : (fuel : Nat) → List α → List (List α)
  | 0, s => [s]
  | fuel + 1, s =>
    let more := ((f s).filter fun v => v.length < s.length).flatMap (iter f greedy fuel)
    if greedy then more ++ [s] else s :: more

/-- What can be left of the text after a match at its start, the
preferred match first. -/
def ends : Regex α → List α → List (List α)
  | eps, s => [s]
  | cls _, [] => []
  | cls p, c :: s => if p c then [s] else []
  | seq a b, s => (ends a s).flatMap (ends b)
  | alt a b, s => ends a s ++ ends b s
  | star greedy a, s => iter (ends a) greedy s.length s

/-- What is left of the text after the preferred match at its start. -/
def preferred (r : Regex α) (s : List α) : Option (List α) := (ends r s).head?

/-! ## What a pattern denotes -/

open Computability in
def language : Regex α → Language α
  | eps => 1
  | cls p => fun w => ∃ c, p c = true ∧ w = [c]
  | seq a b => language a * language b
  | alt a b => language a + language b
  | star _ a => (language a)∗

@[simp] theorem mem_language_eps {w : List α} : w ∈ (eps : Regex α).language ↔ w = [] := Iff.rfl

@[simp] theorem mem_language_cls {p : α → Bool} {w : List α} :
    w ∈ (cls p).language ↔ ∃ c, p c = true ∧ w = [c] := Iff.rfl

@[simp] theorem mem_language_seq {a b : Regex α} {w : List α} :
    w ∈ (seq a b).language ↔ ∃ u ∈ a.language, ∃ v ∈ b.language, u ++ v = w :=
  Language.mem_mul

@[simp] theorem mem_language_alt {a b : Regex α} {w : List α} :
    w ∈ (alt a b).language ↔ w ∈ a.language ∨ w ∈ b.language := Iff.rfl

open Computability in
theorem mem_language_star {g : Bool} {a : Regex α} {w : List α} :
    w ∈ (star g a).language ↔ ∃ S : List (List α), w = S.flatten ∧ ∀ y ∈ S, y ∈ a.language :=
  Language.mem_kstar

theorem nil_mem_star {g : Bool} {a : Regex α} : [] ∈ (star g a).language :=
  Language.nil_mem_kstar _

theorem append_mem_star {g : Bool} {a : Regex α} {u w : List α} (hu : u ∈ a.language)
    (hw : w ∈ (star g a).language) : u ++ w ∈ (star g a).language := by
  obtain ⟨S, rfl, hS⟩ := mem_language_star.mp hw
  refine mem_language_star.mpr ⟨u :: S, rfl, fun y hy => ?_⟩
  rcases List.mem_cons.mp hy with rfl | hy
  · exact hu
  · exact hS y hy

/-- A repetition is empty, or starts with a match that is not. -/
theorem star_cases {g : Bool} {a : Regex α} {w : List α} (h : w ∈ (star g a).language) :
    w = [] ∨ ∃ u ∈ a.language, u ≠ [] ∧ ∃ v ∈ (star g a).language, w = u ++ v := by
  obtain ⟨S, rfl, hS⟩ := Language.mem_kstar_iff_exists_nonempty.mp h
  cases S with
  | nil => exact .inl rfl
  | cons u S =>
    obtain ⟨hu, hne⟩ := hS u List.mem_cons_self
    exact .inr ⟨u, hu, hne, S.flatten,
      mem_language_star.mpr ⟨S, rfl, fun y hy => (hS y (List.mem_cons_of_mem _ hy)).1⟩, rfl⟩

/-- The rests of a repetition are those of its words, if the fuel lasts. -/
theorem mem_iter {g : Bool} {a : Regex α} {f : List α → List (List α)}
    (hf : ∀ s v, v ∈ f s ↔ ∃ u ∈ a.language, u ++ v = s) {fuel : Nat} {s v : List α}
    (hfuel : s.length ≤ fuel) :
    v ∈ iter f g fuel s ↔ ∃ u ∈ (star g a).language, u ++ v = s := by
  induction fuel generalizing s with
  | zero =>
    have hs : s = [] := List.length_eq_zero_iff.mp (Nat.le_zero.mp hfuel)
    subst hs
    rw [iter, List.mem_singleton]
    constructor
    · rintro rfl
      exact ⟨[], nil_mem_star, rfl⟩
    · rintro ⟨u, -, huv⟩
      exact (List.append_eq_nil_iff.mp huv).2
  | succ fuel ih =>
    have hmore : v ∈ ((f s).filter fun t => t.length < s.length).flatMap (iter f g fuel)
        ↔ ∃ u ∈ a.language, u ≠ [] ∧ ∃ w ∈ (star g a).language, u ++ (w ++ v) = s := by
      simp only [List.mem_flatMap, List.mem_filter, decide_eq_true_eq, hf]
      constructor
      · rintro ⟨t, ⟨⟨u, hu, rfl⟩, hlt⟩, hv⟩
        simp only [List.length_append] at hlt hfuel
        obtain ⟨w, hw, rfl⟩ := (ih (by omega)).mp hv
        exact ⟨u, hu, List.ne_nil_of_length_pos (by omega), w, hw, rfl⟩
      · rintro ⟨u, hu, hne, w, hw, rfl⟩
        have hpos := List.length_pos_of_ne_nil hne
        simp only [List.length_append] at hfuel
        refine ⟨w ++ v, ⟨⟨u, hu, rfl⟩, by simp only [List.length_append]; omega⟩, ?_⟩
        exact (ih (by simp only [List.length_append]; omega)).mpr ⟨w, hw, rfl⟩
    have hsplit : v ∈ iter f g (fuel + 1) s
        ↔ v = s ∨ v ∈ ((f s).filter fun t => t.length < s.length).flatMap (iter f g fuel) := by
      rw [iter]
      cases g with
      | true => simp [or_comm]
      | false => simp
    rw [hsplit, hmore]
    constructor
    · rintro (rfl | ⟨u, hu, -, w, hw, rfl⟩)
      · exact ⟨[], nil_mem_star, rfl⟩
      · exact ⟨u ++ w, append_mem_star hu hw, by rw [List.append_assoc]⟩
    · rintro ⟨x, hx, rfl⟩
      rcases star_cases hx with rfl | ⟨u, hu, hne, w, hw, rfl⟩
      · exact .inl rfl
      · exact .inr ⟨u, hu, hne, w, hw, by rw [List.append_assoc]⟩

/-- The matcher finds the matches that the pattern denotes. -/
theorem mem_ends {r : Regex α} {s v : List α} :
    v ∈ ends r s ↔ ∃ u ∈ r.language, u ++ v = s := by
  induction r generalizing s v with
  | eps => simp [ends, eq_comm]
  | cls p =>
    cases s with
    | nil => simp [ends]
    | cons c s =>
      simp only [ends, mem_language_cls]
      constructor
      · intro h
        split at h
        · rename_i hc
          exact ⟨[c], ⟨c, hc, rfl⟩, by rw [List.mem_singleton.mp h]; rfl⟩
        · cases h
      · rintro ⟨u, ⟨d, hd, rfl⟩, huv⟩
        obtain ⟨rfl, rfl⟩ := List.cons.inj huv
        rw [if_pos hd]
        exact List.mem_singleton_self _
  | seq a b iha ihb =>
    simp only [ends, List.mem_flatMap, iha, ihb, mem_language_seq]
    constructor
    · rintro ⟨t, ⟨u, hu, rfl⟩, w, hw, rfl⟩
      exact ⟨u ++ w, ⟨u, hu, w, hw, rfl⟩, by rw [List.append_assoc]⟩
    · rintro ⟨x, ⟨u, hu, w, hw, rfl⟩, rfl⟩
      exact ⟨w ++ v, ⟨u, hu, by rw [List.append_assoc]⟩, w, hw, rfl⟩
  | alt a b iha ihb =>
    simp only [ends, List.mem_append, iha, ihb, mem_language_alt, or_and_right, exists_or]
  | star g a ih => exact mem_iter (fun _ _ => ih) (Nat.le_refl _)

/-- The preferred match is one that the pattern denotes. -/
theorem of_preferred {r : Regex α} {s v : List α} (h : preferred r s = some v) :
    ∃ u ∈ r.language, u ++ v = s :=
  mem_ends.mp (List.mem_of_head? h)

/-- Where the text starts with a match there is a preferred one. -/
theorem preferred_ne_none {r : Regex α} {u : List α} (hu : u ∈ r.language) (v : List α) :
    preferred r (u ++ v) ≠ none := by
  intro h
  have hmem : v ∈ ends r (u ++ v) := mem_ends.mpr ⟨u, hu, rfl⟩
  rw [List.head?_eq_none_iff.mp h] at hmem
  cases hmem

theorem mem_word {ps : List (α → Bool)} {w : List α} :
    w ∈ (word ps).language ↔ List.Forall₂ (fun p c => p c = true) ps w := by
  induction ps generalizing w with
  | nil => simp [word]
  | cons p ps ih =>
    simp only [word, mem_language_seq, mem_language_cls, ih]
    constructor
    · rintro ⟨u, ⟨c, hc, rfl⟩, v, hv, rfl⟩
      exact .cons hc hv
    · rintro (_ | ⟨hc, hv⟩)
      exact ⟨[_], ⟨_, hc, rfl⟩, _, hv, rfl⟩

theorem mem_choice {rs : List (Regex α)} {w : List α} :
    w ∈ (choice rs).language ↔ ∃ r ∈ rs, w ∈ r.language := by
  induction rs with
  | nil => simp [choice]
  | cons r rs ih => simp [choice, ih]

theorem mem_star_cls {g : Bool} {p : α → Bool} {w : List α} (h : ∀ c ∈ w, p c = true) :
    w ∈ (star g (cls p)).language := by
  induction w with
  | nil => exact nil_mem_star
  | cons c w ih =>
    exact append_mem_star (mem_language_cls.mpr ⟨c, h c List.mem_cons_self, rfl⟩)
      (ih fun d hd => h d (List.mem_cons_of_mem c hd))

theorem mem_times_cls {p : α → Bool} {n : Nat} {w : List α} (hlen : w.length = n)
    (h : ∀ c ∈ w, p c = true) : w ∈ (times (cls p) n).language := by
  induction n generalizing w with
  | zero => simpa [times] using hlen
  | succ n ih =>
    cases w with
    | nil => cases hlen
    | cons c w =>
      exact mem_language_seq.mpr ⟨[c], ⟨c, h c List.mem_cons_self, rfl⟩, w,
        ih (Nat.succ.inj hlen) fun d hd => h d (List.mem_cons_of_mem c hd), rfl⟩

/-- Enough characters of a class are a match of their repetition. -/
theorem mem_atLeast_cls {p : α → Bool} {n : Nat} {w : List α} (hlen : n ≤ w.length)
    (h : ∀ c ∈ w, p c = true) : w ∈ (atLeast n (cls p)).language := by
  refine mem_language_seq.mpr ⟨w.take n, ?_, w.drop n, ?_, List.take_append_drop n w⟩
  · exact mem_times_cls (by simpa using hlen) fun c hc => h c (List.mem_of_mem_take hc)
  · exact mem_star_cls fun c hc => h c (List.mem_of_mem_drop hc)

/-! ## What the matches of a pattern are made of -/

/-- Every class of the pattern is inside `p`. -/
def Within (p : α → Bool) : Regex α → Prop
  | eps => True
  | cls q => ∀ c, q c = true → p c = true
  | seq a b => a.Within p ∧ b.Within p
  | alt a b => a.Within p ∧ b.Within p
  | star _ a => a.Within p

theorem within_cls {p q : α → Bool} (h : ∀ c, q c = true → p c = true) : (cls q).Within p := h

theorem Within.of_mem {p : α → Bool} {r : Regex α} (h : r.Within p) {w : List α}
    (hw : w ∈ r.language) : ∀ c ∈ w, p c = true := by
  induction r generalizing w with
  | eps => simp_all
  | cls q =>
    obtain ⟨c, hc, rfl⟩ := hw
    simpa using h c hc
  | seq a b iha ihb =>
    obtain ⟨u, hu, v, hv, rfl⟩ := mem_language_seq.mp hw
    intro c hc
    rcases List.mem_append.mp hc with hc | hc
    · exact iha h.1 hu c hc
    · exact ihb h.2 hv c hc
  | alt a b iha ihb =>
    rcases hw with hw | hw
    · exact iha h.1 hw
    · exact ihb h.2 hw
  | star g a ih =>
    obtain ⟨S, rfl, hS⟩ := mem_language_star.mp hw
    intro c hc
    obtain ⟨y, hy, hcy⟩ := List.mem_flatten.mp hc
    exact ih h (hS y hy) c hcy

theorem Within.mono {p q : α → Bool} {r : Regex α} (h : r.Within p)
    (hpq : ∀ c, p c = true → q c = true) : r.Within q := by
  induction r with
  | eps => trivial
  | cls _ => exact fun c hc => hpq c (h c hc)
  | seq a b iha ihb => exact ⟨iha h.1, ihb h.2⟩
  | alt a b iha ihb => exact ⟨iha h.1, ihb h.2⟩
  | star g a ih => exact ih h

theorem Within.times {p : α → Bool} {a : Regex α} (h : a.Within p) (n : Nat) :
    (times a n).Within p := by
  induction n with
  | zero => trivial
  | succ n ih => exact ⟨h, ih⟩

theorem Within.atLeast {p : α → Bool} {a : Regex α} (h : a.Within p) (n : Nat) :
    (atLeast n a).Within p :=
  ⟨h.times n, h⟩

theorem within_word {p : α → Bool} {ps : List (α → Bool)}
    (h : ∀ q ∈ ps, ∀ c, q c = true → p c = true) : (word ps).Within p := by
  induction ps with
  | nil => trivial
  | cons q ps ih =>
    exact ⟨h q List.mem_cons_self, ih fun q' hq' => h q' (List.mem_cons_of_mem q hq')⟩

theorem within_choice {p : α → Bool} {rs : List (Regex α)} (h : ∀ r ∈ rs, r.Within p) :
    (choice rs).Within p := by
  induction rs with
  | nil => exact nofun
  | cons r rs ih =>
    exact ⟨h r List.mem_cons_self, ih fun r' hr' => h r' (List.mem_cons_of_mem r hr')⟩

/-- The length of the shortest match, or less. -/
def least : Regex α → Nat
  | eps => 0
  | cls _ => 1
  | seq a b => a.least + b.least
  | alt a b => min a.least b.least
  | star _ _ => 0

theorem least_le_length {r : Regex α} {w : List α} (hw : w ∈ r.language) :
    r.least ≤ w.length := by
  induction r generalizing w with
  | eps => exact Nat.zero_le _
  | cls p =>
    obtain ⟨c, -, rfl⟩ := hw
    exact Nat.le_refl 1
  | seq a b iha ihb =>
    obtain ⟨u, hu, v, hv, rfl⟩ := mem_language_seq.mp hw
    rw [List.length_append]
    exact Nat.add_le_add (iha hu) (ihb hv)
  | alt a b iha ihb =>
    rcases hw with hw | hw
    · exact (Nat.min_le_left _ _).trans (iha hw)
    · exact (Nat.min_le_right _ _).trans (ihb hw)
  | star g a _ => exact Nat.zero_le _

theorem ne_nil_of_mem {r : Regex α} (h : 0 < r.least) {w : List α} (hw : w ∈ r.language) :
    w ≠ [] :=
  List.ne_nil_of_length_pos (Nat.lt_of_lt_of_le h (least_le_length hw))

/-- The last character of every match is in `p`. -/
def EndsIn (p : α → Bool) (r : Regex α) : Prop :=
  ∀ w ∈ r.language, ∀ c ∈ w.getLast?, p c = true

theorem Within.endsIn {p : α → Bool} {r : Regex α} (h : r.Within p) : r.EndsIn p :=
  fun _ hw c hc => h.of_mem hw c (List.mem_of_getLast? hc)

theorem EndsIn.seq {p : α → Bool} {b : Regex α} (h : b.EndsIn p) (hpos : 0 < b.least)
    (a : Regex α) : (seq a b).EndsIn p := by
  intro w hw c hc
  obtain ⟨u, -, v, hv, rfl⟩ := mem_language_seq.mp hw
  rw [List.getLast?_append_of_ne_nil _ (ne_nil_of_mem hpos hv)] at hc
  exact h v hv c hc

/-! ## How far the preferred match goes -/

/-- After the preferred match no character of `p` is left. -/
def RunsOut (p : α → Bool) (r : Regex α) : Prop :=
  ∀ s v, preferred r s = some v → ∀ c ∈ v.head?, p c = false

theorem RunsOut.seq {p : α → Bool} {b : Regex α} (h : b.RunsOut p) (a : Regex α) :
    (seq a b).RunsOut p := by
  intro s v hv
  rw [preferred, ends, List.head?_flatMap] at hv
  obtain ⟨t, -, ht⟩ := List.exists_of_findSome?_eq_some hv
  exact h t v ht

theorem head?_iter_cls {p : α → Bool} {fuel : Nat} {s : List α} (hfuel : s.length ≤ fuel) :
    (iter (ends (cls p)) true fuel s).head? = some (s.dropWhile p) := by
  induction fuel generalizing s with
  | zero => simp [List.length_eq_zero_iff.mp (Nat.le_zero.mp hfuel), iter]
  | succ fuel ih =>
    cases s with
    | nil => simp [iter, ends]
    | cons c s =>
      by_cases hc : p c = true
      · simp [iter, ends, hc, ih (Nat.le_of_succ_le_succ hfuel)]
      · simp [iter, ends, hc]

theorem runsOut_star (p : α → Bool) : (star true (cls p)).RunsOut p := by
  intro s v hv c hc
  rw [preferred, ends, head?_iter_cls (Nat.le_refl _)] at hv
  cases hv
  have hnot := List.head?_dropWhile_not p s
  rw [hc] at hnot
  simpa using hnot

theorem runsOut_atLeast (p : α → Bool) (n : Nat) : (atLeast n (cls p)).RunsOut p :=
  (runsOut_star p).seq _

/-- An optional character of the same class finds nothing more. -/
theorem RunsOut.opt {p q : α → Bool} {a : Regex α} (h : a.RunsOut p)
    (hq : ∀ c, q c = true → p c = true) : (Regex.seq a (Regex.opt (cls q))).RunsOut p := by
  intro s v hv
  rw [preferred, ends, List.head?_flatMap] at hv
  cases hends : ends a s with
  | nil =>
    rw [hends] at hv
    cases hv
  | cons t ts =>
    have hout : ∀ c ∈ t.head?, p c = false := h s t (by rw [preferred, hends]; rfl)
    have hstay : (ends (Regex.opt (cls q)) t).head? = some t := by
      cases t with
      | nil => rfl
      | cons c t =>
        have hc : ¬ q c = true := fun hqc => by simpa [hout c rfl] using hq c hqc
        simp [Regex.opt, ends, hc]
    rw [hends, List.findSome?_cons, hstay] at hv
    cases hv
    exact hout

/-! ## Searching -/

/-- `r` matches somewhere in the text. -/
def found (r : Regex α) (s : List α) : Bool := s.tails.any fun t => (preferred r t).isSome

theorem found_iff {r : Regex α} {s : List α} :
    r.found s = true ↔ ∃ u ∈ r.language, u <:+: s := by
  simp only [found, List.any_eq_true, List.mem_tails, Option.isSome_iff_exists]
  constructor
  · intro h
    obtain ⟨t, ⟨a, rfl⟩, v, hv⟩ := h
    obtain ⟨u, hu, rfl⟩ := of_preferred hv
    exact ⟨u, hu, a, v, by rw [List.append_assoc]⟩
  · intro h
    obtain ⟨u, hu, a, v, rfl⟩ := h
    have hmatch := preferred_ne_none hu v
    rw [List.append_assoc]
    exact ⟨u ++ v, List.suffix_append a _, Option.ne_none_iff_exists'.mp hmatch⟩

/-- What is found stays found in any longer text. -/
theorem found_of_infix {r : Regex α} {s t : List α} (h : s <:+: t) (hs : r.found s = true) :
    r.found t = true := by
  obtain ⟨u, hu, hin⟩ := found_iff.mp hs
  exact found_iff.mpr ⟨u, hu, hin.trans h⟩

end Regex

end LendingClaw.Lib

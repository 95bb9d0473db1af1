/-
LendingClaw.Lib.RegexReplace — replacing every match of a pattern.

`replaceAll` goes through the text once, from left to right: a preferred
match is written as the replacement and passed over, any other character
is copied. `Scan` is the state of that run: what has been read and what
has been written up to the last match, the characters copied since, and
the rest. A word that is not entangled with the replacement (`Clear`)
can stand in the result only where it was copied (`exists_scan`); the
rules of the last section say what a match before it can have taken of
the text that leads to it.

Nothing here names a program.
-/
import LendingClaw.Lib.Regex

namespace LendingClaw.Lib.Regex

variable {α : Type}

/-- The rest of `replaceAll`, with `skip` characters of a match still to
pass over. -/
def replaceFrom (r : Regex α) (new : List α) : (skip : Nat) → List α → List α
  | _, [] => []
  | skip + 1, _ :: s => replaceFrom r new skip s
  | 0, c :: s =>
    match preferred r (c :: s) with
    | some v => new ++ replaceFrom r new (s.length - v.length) s
    | none => c :: replaceFrom r new 0 s

/-- Every match replaced, for a pattern without empty matches. -/
def replaceAll (r : Regex α) (new s : List α) : List α := replaceFrom r new 0 s

theorem replaceFrom_eq_drop (r : Regex α) (new : List α) (skip : Nat) (s : List α) :
    replaceFrom r new skip s = replaceAll r new (s.drop skip) := by
  induction s generalizing skip with
  | nil => cases skip <;> rfl
  | cons c s ih =>
    cases skip with
    | zero => rfl
    | succ skip => exact ih skip

@[simp] theorem replaceAll_nil (r : Regex α) (new : List α) : replaceAll r new [] = [] := rfl

theorem replaceAll_keep {r : Regex α} {new s : List α} {c : α}
    (h : preferred r (c :: s) = none) : replaceAll r new (c :: s) = c :: replaceAll r new s := by
  rw [replaceAll, replaceFrom, h]
  rfl

theorem replaceAll_cut {r : Regex α} {new m s : List α} (h : preferred r (m ++ s) = some s)
    (hm : m ≠ []) : replaceAll r new (m ++ s) = new ++ replaceAll r new s := by
  obtain ⟨c, m, rfl⟩ := List.exists_cons_of_ne_nil hm
  rw [List.cons_append] at h ⊢
  rw [replaceAll, replaceFrom, h]
  simp only [replaceFrom_eq_drop]
  rw [List.length_append, Nat.add_sub_cancel, List.drop_left]

/-- What the preferred match takes, where none is empty. -/
theorem preferred_cases {r : Regex α} (hpos : 0 < r.least) (s : List α) :
    preferred r s = none ∨ ∃ m t, s = m ++ t ∧ preferred r s = some t ∧ m ≠ [] := by
  cases h : preferred r s with
  | none => exact .inl rfl
  | some t =>
    obtain ⟨m, hm, rfl⟩ := of_preferred h
    exact .inr ⟨m, t, rfl, rfl, ne_nil_of_mem hpos hm⟩

/-! ## The state of a run -/

/-- `replaceAll` on the way through `s`: `done` is what it has read and
`out` what it has written up to the end of the last match; then it has
copied `gap`, and `rest` is left. -/
inductive Scan (r : Regex α) (new s : List α) : (done out gap rest : List α) → Prop
  | start : Scan r new s [] [] [] s
  | keep {done out gap rest : List α} {c : α} (h : Scan r new s done out gap (c :: rest))
      (hnone : preferred r (c :: rest) = none) : Scan r new s done out (gap ++ [c]) rest
  | cut {done out gap m rest : List α} (h : Scan r new s done out gap (m ++ rest))
      (hsome : preferred r (m ++ rest) = some rest) :
      Scan r new s (done ++ gap ++ m) (out ++ gap ++ new) [] rest

namespace Scan

variable {r : Regex α} {new s done out gap rest : List α}

theorem text (h : Scan r new s done out gap rest) : s = done ++ gap ++ rest := by
  induction h with
  | start => rfl
  | keep _ _ ih => simpa using ih
  | cut _ _ ih => simpa using ih

/-- No match starts at a copied character. -/
theorem unmatched (h : Scan r new s done out gap rest) {a b : List α} (hgap : gap = a ++ b)
    (hb : b ≠ []) : preferred r (b ++ rest) = none := by
  induction h generalizing b with
  | start => simp_all
  | cut => simp_all
  | @keep done out gap rest c h hnone ih =>
    obtain rfl | ⟨b, d, rfl⟩ := List.eq_nil_or_concat b
    · contradiction
    · rw [List.concat_eq_append, ← List.append_assoc] at hgap
      obtain ⟨hrest, hcd⟩ := List.append_inj' hgap rfl
      obtain rfl := List.singleton_inj.mp hcd
      by_cases hbnil : b = []
      · simpa [hbnil] using hnone
      · simpa using ih hrest hbnil

/-- The state before the last characters were copied. -/
theorem of_append {w : List α} (h : Scan r new s done out (gap ++ w) rest) :
    Scan r new s done out gap (w ++ rest) := by
  induction w using List.reverseRecOn generalizing rest with
  | nil => rwa [List.append_nil] at h
  | append_singleton w c ih =>
    rw [← List.append_assoc] at h
    generalize hg : gap ++ w ++ [c] = g at h
    cases h with
    | start => simp at hg
    | cut => simp at hg
    | keep h hnone =>
      obtain ⟨rfl, hcd⟩ := List.append_inj' hg rfl
      obtain rfl := List.singleton_inj.mp hcd
      simpa using ih h

/-- What has been read ends with the last match. -/
theorem last_match (h : Scan r new s done out gap rest) :
    (done = [] ∧ out = []) ∨ ∃ front m, done = front ++ m ∧ m ∈ r.language
      ∧ preferred r (m ++ (gap ++ rest)) = some (gap ++ rest) := by
  induction h with
  | start => exact .inl ⟨rfl, rfl⟩
  | keep _ _ ih => simpa using ih
  | @cut done out gap m rest _ hsome _ =>
    obtain ⟨u, hu, hum⟩ := of_preferred hsome
    obtain rfl := List.append_cancel_right hum
    exact .inr ⟨done ++ gap, u, rfl, hu, hsome⟩

end Scan

/-! ## Words of the result -/

/-- A word without the separator stands on one side of it. -/
theorem infix_of_infix_separated {u a b : List α} {z : α} (hz : z ∉ u) (h : u <:+: a ++ z :: b) :
    u <:+: a ∨ u <:+: b := by
  obtain ⟨x, y, h⟩ := h
  rcases List.append_eq_append_iff.mp h with ⟨t, rfl, -⟩ | ⟨t, hxu, hb⟩
  · exact .inl ⟨x, t, rfl⟩
  · cases t with
    | nil => exact .inl ⟨x, [], by simpa using hxu⟩
    | cons c t =>
      obtain ⟨rfl, rfl⟩ := List.cons.inj hb
      rcases List.append_eq_append_iff.mp hxu with ⟨v, -, rfl⟩ | ⟨v, -, hv⟩
      · simp at hz
      · cases v with
        | nil =>
          rw [List.nil_append] at hv
          simp [← hv] at hz
        | cons d v =>
          obtain ⟨rfl, rfl⟩ := List.cons.inj hv
          exact .inr ⟨v, y, rfl⟩

/-- `w` and `new` cannot overlap. -/
structure Clear (w new : List α) : Prop where
  ne_nil : w ≠ []
  inside : ¬ w <:+: new
  outside : ¬ new <:+: w
  /-- No end of `new` is a start of `w`. -/
  front : ∀ u, u ≠ [] → u <:+ new → ¬ u <+: w
  /-- No start of `new` is an end of `w`. -/
  back : ∀ u, u ≠ [] → u <+: new → ¬ u <:+ w

/-- A longer word without the ends of the replacement is clear of it. -/
theorem clear_of_not_mem {w : List α} (mid : List α) {a b : α} (ha : a ∉ w) (hb : b ∉ w)
    (hlen : mid.length + 2 < w.length) : Clear w (a :: (mid ++ [b])) where
  ne_nil := List.ne_nil_of_length_pos (by omega)
  inside := by
    intro h
    have hle := h.length_le
    simp only [List.length_cons, List.length_append, List.length_nil] at hle
    omega
  outside h := ha (h.subset List.mem_cons_self)
  front := by
    rintro u hu ⟨v, huv⟩ hw
    obtain rfl | ⟨u, c, rfl⟩ := List.eq_nil_or_concat u
    · contradiction
    · rw [List.concat_eq_append, ← List.append_assoc, ← List.cons_append] at huv
      obtain ⟨-, hc⟩ := List.append_inj' huv rfl
      obtain rfl := List.singleton_inj.mp hc
      exact hb (hw.subset (by simp))
  back := by
    rintro u hu ⟨v, huv⟩ hw
    obtain ⟨c, u, rfl⟩ := List.exists_cons_of_ne_nil hu
    obtain rfl := (List.cons.inj huv).1
    exact ha (hw.subset List.mem_cons_self)

/-- A word at the start of what is still to be written is copied. -/
theorem Scan.copies {r : Regex α} {new s done out gap rest w y : List α} (hpos : 0 < r.least)
    (h : Scan r new s done out gap rest) (hout : replaceAll r new rest = w ++ y)
    (houtside : ¬ new <:+: w) (hback : ∀ u, u ≠ [] → u <+: new → ¬ u <:+ w) :
    ∃ rest', Scan r new s done out (gap ++ w) rest' := by
  induction w generalizing gap rest with
  | nil => exact ⟨rest, by rwa [List.append_nil]⟩
  | cons c w ih =>
    rcases preferred_cases hpos rest with hnone | ⟨m, t, rfl, hsome, hm⟩
    · cases rest with
      | nil => cases hout
      | cons d rest =>
        rw [replaceAll_keep hnone, List.cons_append] at hout
        obtain ⟨rfl, hrest⟩ := List.cons.inj hout
        obtain ⟨rest', h'⟩ := ih (h.keep hnone) hrest
          (fun hin => houtside (hin.trans (List.suffix_cons d w).isInfix))
          (fun u hne hu hsuf => hback u hne hu (hsuf.trans (List.suffix_cons d w)))
        exact ⟨rest', by simpa using h'⟩
    · rw [replaceAll_cut hsome hm] at hout
      rcases List.append_eq_append_iff.mp hout with ⟨u, hw, -⟩ | ⟨u, hnew, -⟩
      · exact absurd ⟨[], u, by simpa using hw.symm⟩ houtside
      · exact absurd (List.suffix_refl _) (hback _ (List.cons_ne_nil c w) ⟨u, hnew.symm⟩)

theorem Scan.exists_copy {r : Regex α} {new s done out gap rest x w y : List α}
    (hpos : 0 < r.least) (hw : Clear w new) (h : Scan r new s done out gap rest)
    (hout : replaceAll r new rest = x ++ (w ++ y)) :
    ∃ done' out' gap' rest', out ++ gap ++ x = out' ++ gap'
      ∧ Scan r new s done' out' (gap' ++ w) rest' := by
  induction hn : rest.length using Nat.strong_induction_on generalizing done out gap rest x with
  | _ n ih =>
    rcases preferred_cases hpos rest with hnone | ⟨m, t, rfl, hsome, hm⟩
    · cases x with
      | nil =>
        obtain ⟨rest', h'⟩ := h.copies (w := w) hpos hout hw.outside hw.back
        exact ⟨done, out, gap, rest', by rw [List.append_nil], h'⟩
      | cons c x =>
        cases rest with
        | nil => cases hout
        | cons d rest =>
          rw [replaceAll_keep hnone, List.cons_append] at hout
          obtain ⟨rfl, hrest⟩ := List.cons.inj hout
          obtain ⟨done', out', gap', rest', heq, h'⟩ :=
            ih rest.length (by rw [← hn]; exact Nat.lt_succ_self _) (h.keep hnone) hrest rfl
          exact ⟨done', out', gap', rest', by simpa using heq, h'⟩
    · rw [replaceAll_cut hsome hm] at hout
      have hpast : ∀ x', x = new ++ x' → replaceAll r new t = x' ++ (w ++ y) →
          ∃ done' out' gap' rest', out ++ gap ++ x = out' ++ gap'
            ∧ Scan r new s done' out' (gap' ++ w) rest' := by
        rintro x' rfl hrest
        have hlt : t.length < n := by
          have := List.length_pos_of_ne_nil hm
          rw [← hn, List.length_append]
          omega
        obtain ⟨done', out', gap', rest', heq, h'⟩ := ih t.length hlt (h.cut hsome) hrest rfl
        exact ⟨done', out', gap', rest', by simpa using heq, h'⟩
      rcases List.append_eq_append_iff.mp hout with ⟨x', hx, hrest⟩ | ⟨u, hnew, hu⟩
      · exact hpast x' hx hrest
      · by_cases hnil : u = []
        · subst hnil
          exact hpast [] (by simpa using hnew.symm) (by simpa using hu.symm)
        · -- the word would start inside of the replacement
          rcases List.append_eq_append_iff.mp hu.symm with ⟨v, hw', -⟩ | ⟨v, hu', -⟩
          · exact absurd ⟨v, hw'.symm⟩ (hw.front u hnil ⟨x, hnew.symm⟩)
          · exact absurd ⟨x, v, by rw [List.append_assoc, ← hu', hnew]⟩ hw.inside

/-- Where a word of the result was copied from. -/
theorem exists_scan {r : Regex α} {new s x w y : List α} (hpos : 0 < r.least) (hw : Clear w new)
    (hout : replaceAll r new s = x ++ (w ++ y)) :
    ∃ done out gap rest, x = out ++ gap ∧ Scan r new s done out (gap ++ w) rest := by
  simpa using Scan.start.exists_copy hpos hw hout

/-- A clear word that does not occur is not made by a replacement. -/
theorem absent_of_absent {r : Regex α} {new s w : List α} (hpos : 0 < r.least)
    (hw : Clear w new) (h : ¬ w <:+: s) : ¬ w <:+: replaceAll r new s := by
  rintro ⟨x, y, hout⟩
  obtain ⟨done, out, gap, rest, -, hscan⟩ :=
    exists_scan hpos hw (by rw [← hout, List.append_assoc])
  exact h ⟨done ++ gap, rest, by rw [hscan.text]; simp⟩

/-- A word that holds a match is never copied. -/
theorem not_infix_replaceAll {r : Regex α} {new s w u : List α} (hpos : 0 < r.least)
    (hw : Clear w new) (hu : u ∈ r.language) (huw : u <:+: w) : ¬ w <:+: replaceAll r new s := by
  rintro ⟨x, y, hout⟩
  obtain ⟨a, b, rfl⟩ := huw
  obtain ⟨done, out, gap, rest, -, h⟩ :=
    exists_scan hpos hw (by rw [← hout, List.append_assoc])
  have hne : u ++ b ≠ [] := List.append_ne_nil_of_left_ne_nil (ne_nil_of_mem hpos hu) b
  have hnone := h.unmatched (a := gap ++ a) (b := u ++ b) (by simp) hne
  rw [List.append_assoc] at hnone
  exact preferred_ne_none hu _ hnone

/-! ## What leads to a copied word -/

/-- Nothing stands before, or a character of `p`. -/
def Delimited (p : α → Bool) (front : List α) : Prop := ∀ c ∈ front.getLast?, p c = true

/-- The text ends with a delimited lead of `L`. -/
def Behind (p : α → Bool) (L : List α → Prop) (x : List α) : Prop :=
  ∃ front lead, x = front ++ lead ∧ Delimited p front ∧ L lead

/-- Every occurrence of `w` in the text stands behind a text of `G`. -/
def Guarded (G : List α → Prop) (w s : List α) : Prop := ∀ x y, s = x ++ (w ++ y) → G x

theorem Guarded.mono {G G' : List α → Prop} {w s : List α} (h : Guarded G w s)
    (hG : ∀ x, G x → G' x) : Guarded G' w s :=
  fun x y hs => hG x (h x y hs)

/-- A word behind nothing does not occur. -/
theorem Guarded.absent {w s : List α} (h : Guarded (fun _ => False) w s) : ¬ w <:+: s := by
  rintro ⟨x, y, hs⟩
  exact h x y (by rw [← hs, List.append_assoc])

/-- What a guard becomes under a replacement, from what it becomes where
the word is copied. -/
theorem Guarded.replaceAll {r : Regex α} {new w s : List α} {G G' : List α → Prop}
    (hpos : 0 < r.least) (hw : Clear w new) (h : Guarded G w s)
    (hstep : ∀ done out gap rest, Scan r new s done out (gap ++ w) rest →
      G (done ++ gap) → G' (out ++ gap)) :
    Guarded G' w (Regex.replaceAll r new s) := by
  intro x y hout
  obtain ⟨done, out, gap, rest, rfl, hscan⟩ := exists_scan hpos hw hout
  exact hstep done out gap rest hscan (h _ rest (by rw [hscan.text]; simp))

namespace Scan

variable {r : Regex α} {new s done out gap w rest front lead : List α} {p : α → Bool}

/-- A pattern that runs out of `p` takes nothing of a lead in `p` and
leaves the word after it. -/
theorem lead_of_runsOut (h : Scan r new s done out (gap ++ w) rest) (hr : r.RunsOut p)
    (heq : done ++ gap = front ++ lead) (hlead : ∀ c ∈ lead, p c = true)
    (hw : ∃ c ∈ w.head?, p c = true) : ∃ mid, gap = mid ++ lead ∧ front = done ++ mid := by
  rcases List.append_eq_append_iff.mp heq with ⟨mid, rfl, rfl⟩ | ⟨b, rfl, rfl⟩
  · exact ⟨mid, rfl, rfl⟩
  · rcases h.last_match with ⟨hnil, -⟩ | ⟨x, m, hdone, -, hm⟩
    · obtain ⟨rfl, rfl⟩ := List.append_eq_nil_iff.mp hnil
      exact ⟨[], rfl, rfl⟩
    · exfalso
      have hout := hr _ _ hm
      cases gap with
      | nil =>
        obtain ⟨c, hc, hpc⟩ := hw
        obtain ⟨w, rfl⟩ := List.head?_eq_some_iff.mp hc
        have hfalse := hout c rfl
        rw [hpc] at hfalse
        cases hfalse
      | cons c gap =>
        have hfalse := hout c rfl
        rw [hlead c (by simp)] at hfalse
        cases hfalse

/-- A pattern without delimiters takes nothing of a delimited lead that
holds no match. -/
theorem lead_of_within (h : Scan r new s done out gap rest) (hr : r.Within fun c => !p c)
    (heq : done ++ gap = front ++ lead) (hfront : Delimited p front)
    (hlead : ∀ u ∈ r.language, ¬ u <:+: lead) : ∃ mid, gap = mid ++ lead ∧ front = done ++ mid := by
  rcases List.append_eq_append_iff.mp heq with ⟨mid, rfl, rfl⟩ | ⟨b, rfl, rfl⟩
  · exact ⟨mid, rfl, rfl⟩
  · rcases h.last_match with ⟨hnil, -⟩ | ⟨x, m, hdone, hm, -⟩
    · obtain ⟨rfl, rfl⟩ := List.append_eq_nil_iff.mp hnil
      exact ⟨[], rfl, rfl⟩
    · rcases List.append_eq_append_iff.mp hdone with ⟨b', -, rfl⟩ | ⟨z, rfl, rfl⟩
      · exact absurd ⟨b', gap, rfl⟩ (hlead m hm)
      · by_cases hz : z = []
        · subst hz
          exact absurd ⟨[], gap, rfl⟩ (hlead b hm)
        · -- the match would hold the delimiter
          exfalso
          obtain ⟨c, hc⟩ := Option.ne_none_iff_exists'.mp (mt List.getLast?_eq_none_iff.mp hz)
          have hin := hr.of_mem hm c (List.mem_append_left _ (List.mem_of_getLast? hc))
          have hnot := hfront c (by rw [List.getLast?_append_of_ne_nil _ hz]; exact hc)
          simp [hnot] at hin

/-- What stands before a copied character stays delimited. -/
theorem delimited (h : Scan r new s done out gap rest)
    (hr : r.EndsIn fun c => !p c) (hpos : 0 < r.least)
    (hfront : Delimited p (done ++ gap)) : Delimited p (out ++ gap) := by
  intro c hc
  by_cases hgap : gap = []
  · subst hgap
    rcases h.last_match with ⟨-, rfl⟩ | ⟨x, m, rfl, hm, -⟩
    · cases hc
    · exfalso
      obtain ⟨d, hd⟩ :=
        Option.ne_none_iff_exists'.mp (mt List.getLast?_eq_none_iff.mp (ne_nil_of_mem hpos hm))
      have hend := hr m hm d hd
      have hin := hfront d (by
        rw [List.append_nil, List.getLast?_append_of_ne_nil _ (ne_nil_of_mem hpos hm)]
        exact hd)
      simp [hin] at hend
  · rw [List.getLast?_append_of_ne_nil _ hgap] at hc
    exact hfront c (by rw [List.getLast?_append_of_ne_nil _ hgap]; exact hc)

/-- A delimited lead stays before a pattern without delimiters that
matches nothing in it. -/
theorem behind_of_within (h : Scan r new s done out gap rest) (hpos : 0 < r.least)
    (hr : r.Within fun c => !p c) {L : List α → Prop}
    (hL : ∀ lead, L lead → ∀ u ∈ r.language, ¬ u <:+: lead) (hb : Behind p L (done ++ gap)) :
    Behind p L (out ++ gap) := by
  obtain ⟨front, lead, heq, hfront, hlead⟩ := hb
  obtain ⟨mid, rfl, rfl⟩ := h.lead_of_within hr heq hfront (hL lead hlead)
  refine ⟨out ++ mid, lead, by rw [List.append_assoc], ?_, hlead⟩
  exact h.of_append.delimited hr.endsIn hpos hfront

/-- A delimited lead stays before a pattern that runs out of a class it
is made of. -/
theorem behind_of_runsOut (h : Scan r new s done out (gap ++ w) rest) (hpos : 0 < r.least)
    (hend : r.EndsIn fun c => !p c) {q : α → Bool} (hr : r.RunsOut q) {L : List α → Prop}
    (hL : ∀ lead, L lead → ∀ c ∈ lead, q c = true) (hw : ∃ c ∈ w.head?, q c = true)
    (hb : Behind p L (done ++ gap)) : Behind p L (out ++ gap) := by
  obtain ⟨front, lead, heq, hfront, hlead⟩ := hb
  obtain ⟨mid, rfl, rfl⟩ := h.lead_of_runsOut hr heq (hL lead hlead) hw
  refine ⟨out ++ mid, lead, by rw [List.append_assoc], ?_, hlead⟩
  exact h.of_append.of_append.delimited hend hpos hfront

/-- A word is not copied behind a lead that matches together with it. -/
theorem not_behind (h : Scan r new s done out (gap ++ w) rest) (hpos : 0 < r.least)
    {q : α → Bool} (hr : r.RunsOut q) {L : List α → Prop}
    (hL : ∀ lead, L lead → ∀ c ∈ lead, q c = true) (hw : ∃ c ∈ w.head?, q c = true)
    (hmatch : ∀ lead, L lead → ∃ u ∈ r.language, u <:+: lead ++ w) :
    ¬ Behind p L (done ++ gap) := by
  rintro ⟨front, lead, heq, -, hlead⟩
  obtain ⟨mid, rfl, -⟩ := h.lead_of_runsOut hr heq (hL lead hlead) hw
  obtain ⟨u, hu, a, b, huw⟩ := hmatch lead hlead
  have hne : u ++ b ≠ [] := List.append_ne_nil_of_left_ne_nil (ne_nil_of_mem hpos hu) b
  have hnone := h.unmatched (a := mid ++ a) (b := u ++ b) (by simp [← huw]) hne
  rw [List.append_assoc] at hnone
  exact preferred_ne_none hu _ hnone

/-- A pattern of `a` that takes nothing of a delimited head takes parts
of what follows it only: the head stays, behind a delimiter. -/
theorem head_kept (h : Scan r new s done out gap rest) (ok : α → Bool) {a : α → Bool} {z : α}
    (hr : r.Within a) (hpos : 0 < r.least) (hap : ∀ c, a c = true → p c = false)
    (hz : a z = false) (hlead : ∀ u ∈ r.language, ¬ u <:+: lead ++ [z])
    (hnew : ∀ c ∈ new, ok c = true) {tail : List α} (htail : ∀ c ∈ tail, ok c = true)
    (heq : done ++ gap = front ++ (lead ++ [z]) ++ tail) (hfront : Delimited p front) :
    ∃ front' tail', out ++ gap = front' ++ (lead ++ [z]) ++ tail' ∧ Delimited p front'
      ∧ ∀ c ∈ tail', ok c = true := by
  have hnot : r.Within fun c => !p c := hr.mono fun c hc => by simp [hap c hc]
  induction h generalizing tail with
  | start => simp at heq
  | @keep done out gap rest c h hnone ih =>
    obtain rfl | ⟨tail, d, rfl⟩ := List.eq_nil_or_concat tail
    · rw [List.append_nil] at heq
      obtain ⟨mid, hmid, rfl⟩ := (h.keep hnone).lead_of_within hnot heq hfront hlead
      refine ⟨out ++ mid, [], ?_, ?_, nofun⟩
      · rw [hmid]
        simp
      · exact (hmid ▸ h.keep hnone).of_append.delimited hnot.endsIn hpos hfront
    · rw [List.concat_eq_append, ← List.append_assoc, ← List.append_assoc] at heq
      obtain ⟨hrest, hcd⟩ := List.append_inj' heq rfl
      obtain rfl := List.singleton_inj.mp hcd
      obtain ⟨front', tail', hout, hfront', htail'⟩ :=
        ih (fun e he => htail e (by simp [he])) hrest
      refine ⟨front', tail' ++ [c], ?_, hfront', ?_⟩
      · rw [← List.append_assoc, hout, List.append_assoc]
      · intro e he
        rcases List.mem_append.mp he with he | he
        · exact htail' e he
        · exact htail e (by simp [List.mem_singleton.mp he])
  | @cut done out gap m rest h hsome ih =>
    have hback : ∀ tail, (∀ c ∈ tail, ok c = true) → done ++ gap = front ++ (lead ++ [z]) ++ tail →
        ∃ front' tail', out ++ gap ++ new ++ [] = front' ++ (lead ++ [z]) ++ tail'
          ∧ Delimited p front' ∧ ∀ c ∈ tail', ok c = true := by
      intro tail htail heq
      obtain ⟨front', tail', hout, hfront', htail'⟩ := ih htail heq
      refine ⟨front', tail' ++ new, by rw [hout]; simp, hfront', ?_⟩
      intro e he
      rcases List.mem_append.mp he with he | he
      · exact htail' e he
      · exact hnew e he
    rw [List.append_nil] at heq
    rcases List.append_eq_append_iff.mp heq with ⟨b, hb, hm⟩ | ⟨c', hfull, htl⟩
    · by_cases hnil : b = []
      · subst hnil
        exact hback [] nofun (by simpa using hb.symm)
      · -- the match would hold the end of the head
        exfalso
        obtain ⟨u, hu, hum⟩ := of_preferred hsome
        obtain rfl := List.append_cancel_right hum
        have hlast := congrArg List.getLast? hb
        rw [List.getLast?_append_of_ne_nil _ hnil] at hlast
        have hzb : z ∈ b := List.mem_of_getLast? (by rw [← hlast]; simp)
        have hin := hr.of_mem hu z (by rw [hm]; exact List.mem_append_left _ hzb)
        rw [hz] at hin
        cases hin
    · exact hback c' (fun e he => htail e (by simp [htl, he])) hfull

end Scan

end LendingClaw.Lib.Regex

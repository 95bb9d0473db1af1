/-
LendingClaw.Lib.Matcher — patterns with groups, and the search for their
matches.

A matcher lists the matches at the start of a text, the preferred one
first, each with what it captures and what it leaves; groups of a regular
expression are put together with `do`. `exec` finds the leftmost match and
`scan` all of them, one after the other, as a loop over a global pattern
does; `scan_text` says that the text is made of what was found and of
what stands between.

Nothing here names a program.
-/
import LendingClaw.Lib.Regex

namespace LendingClaw.Lib

/-- The matches at the start of a text: what each one captures, and what
it leaves. -/
def Matcher (α β : Type) : Type := List α → List (β × List α)

namespace Matcher

variable {α β γ : Type}

instance : Monad (Matcher α) where
  pure b := fun s => [(b, s)]
  bind m f := fun s => (m s).flatMap fun found => f found.1 found.2

/-- What a regular expression matches, captured. -/
def group (r : Regex α) : Matcher α (List α) := fun s =>
  (r.ends s).map fun rest => (s.take (s.length - rest.length), rest)

theorem mem_pure {b c : β} {s rest : List α} :
    (c, rest) ∈ (pure b : Matcher α β) s ↔ c = b ∧ rest = s := by
  have hpure : (pure b : Matcher α β) s = [(b, s)] := rfl
  simp [hpure]

theorem mem_bind {m : Matcher α β} {f : β → Matcher α γ} {s rest : List α} {c : γ} :
    (c, rest) ∈ (m >>= f) s ↔ ∃ b mid, (b, mid) ∈ m s ∧ (c, rest) ∈ f b mid := by
  have hbind : (m >>= f) s = (m s).flatMap fun found => f found.1 found.2 := rfl
  simp [hbind]

/-- A group is a word of its expression in front of what is left. -/
theorem mem_group {r : Regex α} {s w rest : List α} :
    (w, rest) ∈ group r s ↔ w ∈ r.language ∧ w ++ rest = s := by
  unfold group
  rw [List.mem_map]
  constructor
  · intro ⟨v, hv, heq⟩
    obtain ⟨rfl, rfl⟩ := Prod.mk.inj heq
    obtain ⟨u, hu, rfl⟩ := Regex.mem_ends.mp hv
    simp [hu]
  · intro ⟨hw, heq⟩
    refine ⟨rest, Regex.mem_ends.mpr ⟨w, hw, heq⟩, ?_⟩
    simp [← heq]

/-! ## The leftmost match -/

/-- A match, and what stands before and after it. -/
structure Found (α β : Type) where
  before : List α
  value : β
  rest : List α

def exec (m : Matcher α β) : List α → Option (Found α β)
  | [] => (m []).head?.map fun found => { before := [], value := found.1, rest := found.2 }
  | c :: s =>
    match (m (c :: s)).head? with
    | some found => some { before := [], value := found.1, rest := found.2 }
    | none => (exec m s).map fun found => { found with before := c :: found.before }

theorem exec_some {m : Matcher α β} {s : List α} {found : Found α β} (h : exec m s = some found) :
    ∃ t, s = found.before ++ t ∧ (m t).head? = some (found.value, found.rest) := by
  induction s generalizing found with
  | nil =>
    obtain ⟨r, hr, rfl⟩ := Option.map_eq_some_iff.mp h
    exact ⟨[], rfl, hr⟩
  | cons c s ih =>
    unfold exec at h
    split at h
    · rename_i r hr
      obtain rfl := Option.some.inj h
      exact ⟨c :: s, rfl, hr⟩
    · obtain ⟨found', hfound, rfl⟩ := Option.map_eq_some_iff.mp h
      obtain ⟨t, rfl, ht⟩ := ih hfound
      exact ⟨t, rfl, ht⟩

/-- Where nothing is found, nothing matches. -/
theorem eq_nil_of_exec {m : Matcher α β} {s : List α} (h : exec m s = none) {t : List α}
    (ht : t <:+ s) : m t = [] := by
  induction s with
  | nil =>
    rw [List.suffix_nil.mp ht]
    simpa [exec] using h
  | cons c s ih =>
    unfold exec at h
    split at h
    · cases h
    · rename_i hnone
      rcases List.suffix_cons_iff.mp ht with rfl | ht
      · exact List.head?_eq_none_iff.mp hnone
      · exact ih (Option.map_eq_none_iff.mp h) ht

theorem exec_eq_none {m : Matcher α β} {s : List α} (h : ∀ t, t <:+ s → m t = []) :
    exec m s = none := by
  induction s with
  | nil => simp [exec, h [] List.suffix_rfl]
  | cons c s ih =>
    simp [exec, h _ List.suffix_rfl, ih fun t ht => h t (ht.trans (List.suffix_cons c s))]

/-! ## All matches -/

/-- Every match takes something. -/
def Consuming (m : Matcher α β) : Prop := ∀ s b rest, (b, rest) ∈ m s → rest.length < s.length

/-- Every match is what it captures, in front of what is left. -/
def Reads (m : Matcher α β) (text : β → List α) : Prop :=
  ∀ s b rest, (b, rest) ∈ m s → s = text b ++ rest

def scanFrom (m : Matcher α β) : (fuel : Nat) → List α → List (List α × β) × List α
  | 0, s => ([], s)
  | fuel + 1, s =>
    match exec m s with
    | none => ([], s)
    | some found =>
      let more := scanFrom m fuel found.rest
      ((found.before, found.value) :: more.1, more.2)

/-- The matches, each with what stands between it and the one before, and
what is left. -/
def scan (m : Matcher α β) (s : List α) : List (List α × β) × List α := scanFrom m (s.length + 1) s

theorem length_of_exec {m : Matcher α β} (hm : Consuming m) {s : List α} {found : Found α β}
    (h : exec m s = some found) : found.rest.length < s.length := by
  obtain ⟨t, rfl, ht⟩ := exec_some h
  have hlt := hm t _ _ (List.mem_of_head? ht)
  rw [List.length_append]
  omega

theorem exec_scanFrom {m : Matcher α β} (hm : Consuming m) {fuel : Nat} {s : List α}
    (hfuel : s.length < fuel) : exec m (scanFrom m fuel s).2 = none := by
  induction fuel generalizing s with
  | zero => cases hfuel
  | succ fuel ih =>
    unfold scanFrom
    split
    · assumption
    · rename_i found hfound
      have hlt := length_of_exec hm hfound
      exact ih (by omega)

/-- Nothing is found in what is left. -/
theorem exec_scan {m : Matcher α β} (hm : Consuming m) (s : List α) : exec m (scan m s).2 = none :=
  exec_scanFrom hm (Nat.lt_succ_self _)

/-- The matches and what stands between them make up the text. -/
theorem scan_text {m : Matcher α β} {text : β → List α} (hm : Reads m text) (s : List α) :
    (scan m s).1.flatMap (fun found => found.1 ++ text found.2) ++ (scan m s).2 = s := by
  unfold scan
  induction s.length + 1 generalizing s with
  | zero => rfl
  | succ fuel ih =>
    unfold scanFrom
    split
    · rfl
    · rename_i found hfound
      obtain ⟨t, hs, ht⟩ := exec_some hfound
      have hread := hm t _ _ (List.mem_of_head? ht)
      have hmore := ih found.rest
      rw [List.flatMap_cons, List.append_assoc, hmore, List.append_assoc, ← hread, ← hs]

theorem mem_scan {m : Matcher α β} {s : List α} {p : List α × β} (h : p ∈ (scan m s).1) :
    ∃ t rest, (p.2, rest) ∈ m t := by
  unfold scan at h
  generalize s.length + 1 = fuel at h
  induction fuel generalizing s with
  | zero => cases h
  | succ fuel ih =>
    unfold scanFrom at h
    split at h
    · cases h
    · rename_i found hfound
      rcases List.mem_cons.mp h with rfl | h
      · obtain ⟨t, -, ht⟩ := exec_some hfound
        exact ⟨t, found.rest, List.mem_of_head? ht⟩
      · exact ih h

/-- What is found stands in the text. -/
theorem infix_of_mem_scan {m : Matcher α β} {text : β → List α} (hm : Reads m text) {s : List α}
    {p : List α × β} (h : p ∈ (scan m s).1) : text p.2 <:+: s := by
  obtain ⟨front, back, hsplit⟩ := List.append_of_mem h
  have htext := scan_text hm s
  rw [hsplit, List.flatMap_append, List.flatMap_cons] at htext
  refine ⟨front.flatMap (fun p => p.1 ++ text p.2) ++ p.1,
    back.flatMap (fun p => p.1 ++ text p.2) ++ (scan m s).2, ?_⟩
  simpa using htext

/-- Matches that begin with a mark, go on without it, and can be read in
one way only. -/
structure Marked (m : Matcher α β) (mark : α) (text : β → List α) : Prop where
  reads : Reads m text
  text_eq : ∀ s b rest, (b, rest) ∈ m s → ∃ tail, text b = mark :: tail ∧ mark ∉ tail
  unique : ∀ s b rest c rest', (b, rest) ∈ m s → (c, rest') ∈ m s → b = c ∧ rest = rest'

/-- The leftmost match does not begin behind another one. -/
theorem exec_of_match {m : Matcher α β} {t : List α} {found : Found α β} (ht : m t ≠ []) (a : List α)
    (h : exec m (a ++ t) = some found) : found.before.length ≤ a.length := by
  induction a generalizing found with
  | nil =>
    obtain ⟨r, rs, hr⟩ := List.exists_cons_of_ne_nil ht
    have hhead : (m t).head? = some r := by rw [hr]; rfl
    rw [List.nil_append] at h
    cases t with
    | nil =>
      rw [exec, hhead] at h
      rw [← Option.some.inj h]
    | cons c t =>
      rw [exec, hhead] at h
      rw [← Option.some.inj h]
  | cons c a ih =>
    rw [List.cons_append] at h
    unfold exec at h
    split at h
    · rw [← Option.some.inj h]
      exact Nat.zero_le _
    · obtain ⟨found', hfound', rfl⟩ := Option.map_eq_some_iff.mp h
      exact Nat.succ_le_succ (ih hfound')

/-- Every place of the text that matches is found. -/
theorem Marked.mem_scan {m : Matcher α β} {mark : α} {text : β → List α} (hm : Marked m mark text)
    {a t rest : List α} {b : β} (ht : (b, rest) ∈ m t) :
    b ∈ (scan m (a ++ t)).1.map Prod.snd := by
  unfold scan
  have hfuel : (a ++ t).length < (a ++ t).length + 1 := Nat.lt_succ_self _
  generalize (a ++ t).length + 1 = fuel at hfuel ⊢
  induction fuel generalizing a with
  | zero => cases hfuel
  | succ fuel ih =>
    have hne : m t ≠ [] := List.ne_nil_of_mem ht
    unfold scanFrom
    split
    · rename_i hnone
      exact absurd (eq_nil_of_exec hnone (List.suffix_append a t)) hne
    · rename_i found hfound
      have hle := exec_of_match hne a hfound
      obtain ⟨t', hsplit, ht'⟩ := exec_some hfound
      have hmatch := List.mem_of_head? ht'
      obtain ⟨tail, htext, htail⟩ := hm.text_eq _ _ _ hmatch
      obtain ⟨tail', htext', -⟩ := hm.text_eq _ _ _ ht
      have hread := hm.reads _ _ _ hmatch
      have hread' := hm.reads _ _ _ ht
      obtain ⟨gap, rfl, hgap⟩ : ∃ gap, a = found.before ++ gap ∧ t' = gap ++ t := by
        rcases List.append_eq_append_iff.mp hsplit with ⟨gap, hbefore, ht''⟩ | ⟨gap, ha, ht''⟩
        · have hlength := congrArg List.length hbefore
          rw [List.length_append] at hlength
          obtain rfl := List.length_eq_zero_iff.mp (show gap.length = 0 by omega)
          exact ⟨[], by simpa using hbefore.symm, by simpa using ht''.symm⟩
        · exact ⟨gap, ha, ht''⟩
      rw [List.map_cons]
      cases gap with
      | nil =>
        rw [List.nil_append] at hgap
        subst hgap
        exact List.mem_cons.mpr (.inl (hm.unique _ _ _ _ _ ht hmatch).1)
      | cons c gap =>
        -- the mark of `t` is behind the match that was found
        have hbehind : ∃ gap', found.rest = gap' ++ t := by
          rcases List.append_eq_append_iff.mp (hgap.symm.trans hread) with ⟨u, hv, hu⟩ | ⟨u, -, hu⟩
          · cases u with
            | nil => exact ⟨[], by simpa using hu.symm⟩
            | cons d u =>
              rw [hread', htext'] at hu
              obtain ⟨rfl, -⟩ := List.cons.inj hu
              rw [htext] at hv
              obtain ⟨-, rfl⟩ := List.cons.inj hv
              exact absurd (by simp) htail
          · exact ⟨u, hu⟩
        obtain ⟨gap', hrest⟩ := hbehind
        have hshort : found.rest.length < fuel := by
          have hlength := congrArg List.length (hsplit.trans (by rw [hread]))
          rw [htext, List.length_append, List.length_append] at hlength
          simp only [List.length_append, List.length_cons] at hlength hfuel
          omega
        rw [hrest] at hshort ⊢
        exact List.mem_cons_of_mem _ (ih hshort)

/-! ## Replacing -/

/-- Every match replaced by what `f` makes of it, unless it fails. -/
def replaceWith {ε : Type} (m : Matcher α β) (f : β → Except ε (List α)) (s : List α) :
    Except ε (List α) := do
  let found := scan m s
  let pieces ← found.1.mapM fun p => do
    let new ← f p.2
    return p.1 ++ new
  return pieces.flatten ++ found.2

section

variable {ε : Type}

/-- A loop that may fail comes to an end where every round does. -/
theorem mapM_eq_ok {f : β → Except ε γ} {bs : List β} {cs : List γ} :
    bs.mapM f = .ok cs ↔ List.Forall₂ (fun b c => f b = .ok c) bs cs := by
  induction bs generalizing cs with
  | nil =>
    rw [List.mapM_nil, List.forall₂_nil_left_iff]
    exact ⟨fun h => (Except.ok.inj h).symm, fun h => by rw [h]; rfl⟩
  | cons b bs ih =>
    rw [List.mapM_cons, List.forall₂_cons_left_iff]
    cases hb : f b with
    | error e =>
      exact iff_of_false (fun h => nomatch h) fun ⟨c, _, hc, _⟩ => nomatch hc
    | ok c =>
      cases hbs : bs.mapM f with
      | error e =>
        refine iff_of_false (fun h => nomatch h) fun ⟨c', cs', _, hcs', _⟩ => ?_
        rw [ih.mpr hcs'] at hbs
        cases hbs
      | ok cs' =>
        constructor
        · intro h
          exact ⟨c, cs', rfl, ih.mp hbs, (Except.ok.inj h).symm⟩
        · intro ⟨c'', cs'', hc, hcs, heq⟩
          obtain rfl := Except.ok.inj hc
          rw [ih.mpr hcs] at hbs
          obtain rfl := Except.ok.inj hbs
          rw [heq]
          rfl

theorem exists_mapM_ok {f : β → Except ε γ} {bs : List β} :
    (∃ cs, bs.mapM f = .ok cs) ↔ ∀ b ∈ bs, ∃ c, f b = .ok c := by
  simp only [mapM_eq_ok]
  induction bs with
  | nil => simp
  | cons b bs ih =>
    rw [List.forall_mem_cons, ← ih]
    constructor
    · intro ⟨cs, h⟩
      obtain ⟨c, cs', hc, hcs, -⟩ := List.forall₂_cons_left_iff.mp h
      exact ⟨⟨c, hc⟩, cs', hcs⟩
    · intro ⟨⟨c, hc⟩, cs, hcs⟩
      exact ⟨c :: cs, .cons hc hcs⟩

/-- A step that may fail, and what follows it. -/
theorem bind_eq_ok {x : Except ε β} {f : β → Except ε γ} {c : γ} :
    (x >>= f) = .ok c ↔ ∃ b, x = .ok b ∧ f b = .ok c := by
  cases x with
  | error e => exact iff_of_false (fun h => nomatch h) fun ⟨_, h, _⟩ => nomatch h
  | ok b =>
    constructor
    · intro h
      exact ⟨b, rfl, h⟩
    · intro ⟨b', hb, h⟩
      obtain rfl := Except.ok.inj hb
      exact h

/-- What follows a step does not matter if it cannot fail. -/
theorem exists_bind_ok {x : Except ε β} {f : β → Except ε γ} (hf : ∀ b, ∃ c, f b = .ok c) :
    (∃ c, (x >>= f) = .ok c) ↔ ∃ b, x = .ok b := by
  simp only [bind_eq_ok]
  constructor
  · intro ⟨c, b, hb, _⟩
    exact ⟨b, hb⟩
  · intro ⟨b, hb⟩
    obtain ⟨c, hc⟩ := hf b
    exact ⟨c, b, hb, hc⟩

theorem exists_bind_pure {x : Except ε β} {g : β → γ} :
    (∃ c, (do let b ← x; return g b : Except ε γ) = .ok c) ↔ ∃ b, x = .ok b :=
  exists_bind_ok fun _ => ⟨_, rfl⟩

theorem pure_eq_ok {a c : γ} : (pure a : Except ε γ) = .ok c ↔ c = a := by
  constructor
  · intro h
    exact (Except.ok.inj h).symm
  · intro h
    rw [h]
    rfl

variable {m : Matcher α β} {f : β → Except ε (List α)} {s : List α}

theorem replaceWith_eq_self (h : exec m s = none) : replaceWith m f s = .ok s := by
  have hscan : scan m s = ([], s) := by rw [scan, scanFrom, h]
  unfold replaceWith
  simp only [hscan]
  rfl

/-- What comes out, piece by piece. -/
theorem replaceWith_ok {out : List α} :
    replaceWith m f s = .ok out
      ↔ ∃ pieces, List.Forall₂ (fun p piece => ∃ new, f p.2 = .ok new ∧ piece = p.1 ++ new)
          (scan m s).1 pieces ∧ out = pieces.flatten ++ (scan m s).2 := by
  simp only [replaceWith, bind_eq_ok, mapM_eq_ok, pure_eq_ok]

/-- It fails only where a replacement does. -/
theorem exists_replaceWith_ok :
    (∃ out, replaceWith m f s = .ok out) ↔ ∀ p ∈ (scan m s).1, ∃ new, f p.2 = .ok new := by
  have hpieces : (∃ out, replaceWith m f s = .ok out)
      ↔ ∃ pieces, (scan m s).1.mapM (fun p => do
          let new ← f p.2
          return p.1 ++ new : List α × β → Except ε (List α)) = .ok pieces := by
    simp only [replaceWith, bind_eq_ok, pure_eq_ok]
    exact ⟨fun ⟨_, pieces, h, _⟩ => ⟨pieces, h⟩, fun ⟨pieces, h⟩ => ⟨_, pieces, h, rfl⟩⟩
  rw [hpieces, exists_mapM_ok]
  simp only [bind_eq_ok, pure_eq_ok]
  exact forall₂_congr fun p _ => ⟨fun ⟨_, new, h, _⟩ => ⟨new, h⟩, fun ⟨new, h⟩ => ⟨_, new, h, rfl⟩⟩

/-- Replacing by less: a text with a match gets shorter, any other does
not get longer. -/
theorem length_replaceWith {text : β → List α} (hm : Reads m text)
    (hf : ∀ t b rest new, (b, rest) ∈ m t → f b = .ok new → new.length < (text b).length) {out : List α}
    (h : replaceWith m f s = .ok out) :
    out.length ≤ s.length ∧ (out.length = s.length → exec m s = none) := by
  obtain ⟨pieces, hpieces, rfl⟩ := replaceWith_ok.mp h
  have htext := congrArg List.length (scan_text hm s)
  rw [List.length_append] at htext
  rw [List.length_append, ← htext]
  have hle : pieces.flatten.length + (scan m s).1.length
      ≤ ((scan m s).1.flatMap fun p => p.1 ++ text p.2).length := by
    have hmem : ∀ p ∈ (scan m s).1, ∃ t rest, (p.2, rest) ∈ m t := fun p => mem_scan
    clear htext h
    generalize (scan m s).1 = found at hpieces hmem ⊢
    induction hpieces with
    | nil => simp
    | @cons p piece found pieces hp _ ih =>
      obtain ⟨⟨t, rest, hmatch⟩, hrest⟩ := List.forall_mem_cons.mp hmem
      obtain ⟨new, hnew, rfl⟩ := hp
      have hlt := hf _ _ _ _ hmatch hnew
      have hle := ih hrest
      simp only [List.flatten_cons, List.flatMap_cons, List.length_append, List.length_cons]
      omega
  refine ⟨by omega, fun heq => ?_⟩
  have hnone : (scan m s).1 = [] := List.length_eq_zero_iff.mp (by omega)
  cases hexec : exec m s with
  | none => rfl
  | some found =>
    rw [scan, scanFrom, hexec] at hnone
    cases hnone

end

/-! ## The preferred match -/

section
variable {s mid : List α} {b : β} {r : γ × List α}

/-- The first way to go on is taken if it leads to a match. -/
theorem head?_bind {m : Matcher α β} {f : β → Matcher α γ} (hm : (m s).head? = some (b, mid))
    (hf : (f b mid).head? = some r) : ((m >>= f) s).head? = some r := by
  obtain ⟨rest, hrest⟩ : ∃ rest, m s = (b, mid) :: rest := List.head?_eq_some_iff.mp hm
  have hbind : (m >>= f) s = (m s).flatMap fun found => f found.1 found.2 := rfl
  rw [hbind, hrest, List.flatMap_cons, List.head?_append, hf]
  rfl

theorem bind_of_singleton {m : Matcher α β} {f : β → Matcher α γ} (hm : m s = [(b, mid)]) :
    (m >>= f) s = f b mid := by
  have hbind : (m >>= f) s = (m s).flatMap fun found => f found.1 found.2 := rfl
  simp [hbind, hm]

theorem bind_of_nil {m : Matcher α β} {f : β → Matcher α γ} (hm : m s = []) : (m >>= f) s = [] := by
  have hbind : (m >>= f) s = (m s).flatMap fun found => f found.1 found.2 := rfl
  simp [hbind, hm]

end

theorem exec_of_first {m : Matcher α β} {a t rest : List α} {v : β}
    (hnone : ∀ y, y <:+ a → y ≠ [] → m (y ++ t) = []) (hsome : (m t).head? = some (v, rest)) :
    exec m (a ++ t) = some { before := a, value := v, rest := rest } := by
  induction a with
  | nil =>
    cases t with
    | nil => simp [exec, hsome]
    | cons c t => simp [exec, hsome]
  | cons c a ih =>
    have hrest := ih fun y hy hne => hnone y (hy.trans (List.suffix_cons c a)) hne
    have hc := hnone (c :: a) List.suffix_rfl (List.cons_ne_nil c a)
    rw [List.cons_append] at hc ⊢
    rw [exec, hc, hrest]
    rfl

/-- Blanks in front of a text that starts with none. -/
theorem ends_blank {p : α → Bool} {c : α} (hc : p c = true) {t : List α}
    (ht : ∀ d ∈ t.head?, p d = false) :
    (Regex.star true (.cls p)).ends (c :: t) = [t, c :: t] := by
  have hnone : (Regex.cls p).ends t = [] := by
    cases t with
    | nil => rfl
    | cons d t => simp [Regex.ends, ht d rfl]
  have hstop : ∀ fuel, Regex.iter (Regex.cls p).ends true fuel t = [t] := by
    intro fuel
    cases fuel with
    | zero => rfl
    | succ fuel => simp [Regex.iter, hnone]
  have hone : (Regex.cls p).ends (c :: t) = [t] := by simp [Regex.ends, hc]
  unfold Regex.ends
  simp [Regex.iter, hone, hstop]

theorem group_opt {q : α → Bool} {s : List α} (hs : ∀ d ∈ s.head?, q d = false) :
    group (.opt (.cls q)) s = [([], s)] := by
  cases s with
  | nil => simp [group, Regex.opt, Regex.ends]
  | cons d s => simp [group, Regex.opt, Regex.ends, hs d rfl]

section
variable [BEq α] [LawfulBEq α]

/-- The characters of `w`, one after the other. -/
def literal (w : List α) : Matcher α (List α) := group (.word (w.map fun t c => c == t))

theorem mem_literal {w u : List α} : u ∈ (Regex.word (w.map fun t c => c == t)).language ↔ u = w := by
  have heq : (fun t c : α => (c == t) = true) = fun t c => t = c := by
    funext t c
    rw [beq_iff_eq]
    exact propext eq_comm
  rw [Regex.mem_word, List.forall₂_map_left_iff, heq, List.forall₂_eq_eq_eq]
  exact eq_comm

theorem literal_append (w s : List α) : literal w (w ++ s) = [(w, s)] := by
  have hends : (Regex.word (w.map fun t c => c == t)).ends (w ++ s) = [s] := by
    induction w with
    | nil => simp [Regex.word, Regex.ends]
    | cons c w ih => simp [Regex.word, Regex.ends, ih]
  rw [literal, group, hends]
  simp

theorem literal_eq_nil {w s : List α} (h : ¬ w <+: s) : literal w s = [] := by
  rw [List.eq_nil_iff_forall_not_mem]
  intro found hfound
  obtain ⟨hmem, htext⟩ := mem_group.mp hfound
  rw [mem_literal] at hmem
  exact h ⟨found.2, by rw [← hmem, htext]⟩

end

end Matcher

end LendingClaw.Lib

/-
LendingClaw.Lib.Strings — the string operations of the source language's
standard library that the model uses, on the character list of a string.

`strings.HasPrefix`, `TrimPrefix`, `Contains`, `TrimSpace`, `Fields` and
`unicode.IsSpace` are written out here on `List Char` (the library
versions of this toolchain do not reduce in the kernel), and the one
fact about separator-joined keys that three components rely on is
proved once: joining with a separator that the first part does not
contain is injective (`append_sep_inj`).

Nothing here names a program.
-/
import Mathlib.Data.List.DropRight
import Mathlib.Data.List.Infix

namespace LendingClaw.Lib

/-- A check of every element, as it evaluates. -/
theorem forall_mem_of_all {α : Type} {p : α → Prop} [DecidablePred p] {l : List α}
    (h : l.all (fun a => p a) = true) : ∀ a ∈ l, p a := by
  intro a ha
  exact of_decide_eq_true (List.all_eq_true.mp h a ha)

/-! ## Prefixes -/

/-- `strings.HasPrefix`. -/
def hasPrefix (s pre : String) : Bool := pre.toList.isPrefixOf s.toList

/-- `strings.TrimPrefix`. -/
def trimPrefix (s pre : String) : String :=
  if hasPrefix s pre then String.ofList (s.toList.drop pre.toList.length) else s

theorem hasPrefix_append (pre s : String) : hasPrefix (pre ++ s) pre = true := by
  simp [hasPrefix, String.toList_append]

theorem hasPrefix_iff {s pre : String} : hasPrefix s pre = true ↔ ∃ u, s = pre ++ u := by
  rw [hasPrefix, List.isPrefixOf_iff_prefix]
  constructor
  · rintro ⟨u, hu⟩
    refine ⟨String.ofList u, String.toList_inj.mp ?_⟩
    rw [String.toList_append, String.toList_ofList, hu]
  · rintro ⟨u, rfl⟩
    rw [String.toList_append]
    exact List.prefix_append _ _

theorem trimPrefix_append (pre s : String) : trimPrefix (pre ++ s) pre = s := by
  rw [trimPrefix, if_pos (hasPrefix_append pre s)]
  simp [String.toList_append]

/-- `strings.Contains`. -/
def containsSub (s sub : String) : Bool :=
  s.toList.tails.any (fun t => sub.toList.isPrefixOf t)

/-! ## White space -/

/-- `unicode.IsSpace`: the White_Space property. -/
def isSpace (c : Char) : Bool :=
  (0x09 ≤ c.toNat && c.toNat ≤ 0x0D) || c.toNat == 0x20 || c.toNat == 0x85
    || c.toNat == 0xA0 || c.toNat == 0x1680 || (0x2000 ≤ c.toNat && c.toNat ≤ 0x200A)
    || c.toNat == 0x2028 || c.toNat == 0x2029 || c.toNat == 0x202F || c.toNat == 0x205F
    || c.toNat == 0x3000

/-- `strings.TrimLeftFunc(s, unicode.IsSpace)` on characters. -/
def trimLeft (cs : List Char) : List Char := cs.dropWhile isSpace

/-- `strings.Fields` on characters. -/
def fields (cs : List Char) : List (List Char) :=
  (cs.splitOnP isSpace).filter (fun word => word ≠ [])

/-- `strings.TrimSpace` on characters. -/
def trimChars (cs : List Char) : List Char := (trimLeft cs).rdropWhile isSpace

/-- `strings.TrimSpace`. -/
def trimSpace (s : String) : String := String.ofList (trimChars s.toList)

theorem trimLeft_length_le (cs : List Char) : (trimLeft cs).length ≤ cs.length :=
  (List.dropWhile_suffix _).length_le

theorem trimChars_sublist (cs : List Char) : (trimChars cs).Sublist cs :=
  (List.rdropWhile_prefix _ _).sublist.trans (List.dropWhile_suffix _).sublist

/-- A list that trimming leaves alone does not start with a blank. -/
theorem trimLeft_of_trimChars {cs : List Char} (h : trimChars cs = cs) :
    trimLeft cs = cs := by
  apply (List.dropWhile_suffix _).eq_of_length_le
  calc cs.length = (trimChars cs).length := by rw [h]
    _ ≤ (trimLeft cs).length := (List.rdropWhile_prefix _ _).length_le

/-- A list that keeps its first character keeps all of them. -/
theorem trimLeft_prefix {as bs : List Char} (h : as <+: bs) (hb : trimLeft bs = bs) :
    trimLeft as = as := by
  obtain ⟨t, rfl⟩ := h
  cases as with
  | nil => rfl
  | cons c as =>
    cases hs : isSpace c with
    | true =>
      have hlen := congrArg List.length hb
      have hle := trimLeft_length_le (as ++ t)
      simp only [trimLeft, List.cons_append, List.dropWhile_cons, hs, if_true,
        List.length_cons] at hlen hle
      omega
    | false => simp [trimLeft, hs]

/-- Trimming twice is trimming once. -/
theorem trimChars_trimChars (cs : List Char) : trimChars (trimChars cs) = trimChars cs := by
  have hleft : trimLeft (trimChars cs) = trimChars cs :=
    trimLeft_prefix (List.rdropWhile_prefix _ _) (List.dropWhile_idempotent _ _)
  rw [trimChars, hleft]
  exact List.rdropWhile_idempotent _ _

/-! ## Separator-joined keys -/

/-- Two lists joined at a separator: equal part by part, or one of the
first parts continues the other over a separator. -/
theorem append_sep_eq_iff {α : Type} {sep : α} {a b x y : List α} :
    a ++ sep :: x = b ++ sep :: y
      ↔ (a = b ∧ x = y) ∨ (∃ t, b = a ++ sep :: t ∧ x = t ++ sep :: y)
        ∨ ∃ t, a = b ++ sep :: t ∧ y = t ++ sep :: x := by
  constructor
  · intro h
    rcases List.append_eq_append_iff.mp h with ⟨t, hb, hx⟩ | ⟨t, ha, hy⟩
    · cases t with
      | nil =>
        refine Or.inl ⟨?_, ?_⟩
        · simpa using hb.symm
        · simpa using hx
      | cons c t =>
        simp only [List.cons_append, List.cons.injEq] at hx
        obtain ⟨rfl, rfl⟩ := hx
        exact Or.inr (Or.inl ⟨t, hb, rfl⟩)
    · cases t with
      | nil =>
        refine Or.inl ⟨?_, ?_⟩
        · simpa using ha
        · simpa using hy.symm
      | cons c t =>
        simp only [List.cons_append, List.cons.injEq] at hy
        obtain ⟨rfl, rfl⟩ := hy
        exact Or.inr (Or.inr ⟨t, ha, rfl⟩)
  · rintro (⟨rfl, rfl⟩ | ⟨t, rfl, rfl⟩ | ⟨t, rfl, rfl⟩)
    · rfl
    · simp
    · simp

/-- Two lists joined at a separator that neither first part contains are
equal only part by part. -/
theorem append_sep_inj {α : Type} {sep : α} {a b x y : List α} (ha : sep ∉ a)
    (hb : sep ∉ b) (h : a ++ sep :: x = b ++ sep :: y) : a = b ∧ x = y := by
  rcases append_sep_eq_iff.mp h with heq | ⟨t, rfl, -⟩ | ⟨t, rfl, -⟩
  · exact heq
  · exact absurd (by simp) hb
  · exact absurd (by simp) ha

/-- Vectors that tell nothing apart. -/
def unitVectors (texts : List String) : List Unit := texts.map (fun _ => ())

theorem unitVectors_length (texts : List String) : (unitVectors texts).length = texts.length :=
  List.length_map _

/-- A text behind a number in unary, for names that evaluate. -/
def unaryKey (a : String) (i : Nat) : String :=
  String.ofList (List.replicate i 'i' ++ '#' :: a.toList)

theorem unaryKey_inj {a b : String} {i j : Nat} (h : unaryKey a i = unaryKey b j) :
    a = b ∧ i = j := by
  have hnone : ∀ n, '#' ∉ List.replicate n 'i' := by
    intro n hmem
    exact absurd (List.eq_of_mem_replicate hmem) (by decide)
  have hlists : List.replicate i 'i' ++ '#' :: a.toList = List.replicate j 'i' ++ '#' :: b.toList :=
    String.ofList_inj.mp h
  obtain ⟨hi, ha⟩ := append_sep_inj (hnone i) (hnone j) hlists
  exact ⟨String.toList_inj.mp ha, by simpa using congrArg List.length hi⟩

/-- `a ++ "\x00" ++ b`, the shape of every composite map key. -/
def nulKey (a b : String) : String := a ++ "\x00" ++ b

theorem nulKey_toList (a b : String) :
    (nulKey a b).toList = a.toList ++ '\x00' :: b.toList := by
  simp [nulKey, String.toList_append]

theorem nulKey_inj {a b x y : String} (ha : '\x00' ∉ a.toList) (hb : '\x00' ∉ b.toList)
    (h : nulKey a x = nulKey b y) : a = b ∧ x = y := by
  have h' := congrArg String.toList h
  rw [nulKey_toList, nulKey_toList] at h'
  obtain ⟨h1, h2⟩ := append_sep_inj ha hb h'
  exact ⟨String.toList_inj.mp h1, String.toList_inj.mp h2⟩

end LendingClaw.Lib

/-
LendingClaw.Skills.FrontmatterRoundTrip — what `BuildFrontmatter` writes
is read back by `ParseFrontmatter`, and no document makes the reader look
out of range.
-/
import LendingClaw.Skills.Frontmatter
import Mathlib.Logic.Relation

namespace LendingClaw.Skills

open LendingClaw.Lib

/-! ## No access out of range -/

/-- The fence is found in the text, if at all. -/
theorem closingFenceFrom_spec {s : List Char} {offset : Nat} (h : offset ≤ s.length) :
    ∃ fence, closingFenceFrom s offset = some fence ∧ ∀ e ∈ fence, e ≤ s.length := by
  rw [closingFenceFrom, slice_drop h]
  dsimp only
  cases hnl : (s.drop offset).idxOf? '\n' with
  | none =>
    dsimp only
    split
    · exact ⟨_, rfl, fun e he => Option.some.inj he ▸ h⟩
    · exact ⟨_, rfl, nofun⟩
  | some nl =>
    dsimp only
    rw [slice_take (Nat.le_of_lt (idxOf?_lt hnl))]
    dsimp only
    split
    · exact ⟨_, rfl, fun e he => Option.some.inj he ▸ h⟩
    · split
      · exact ⟨_, rfl, nofun⟩
      · rename_i hshort
        exact closingFenceFrom_spec (Nat.le_of_lt (Nat.lt_of_not_le hshort))
termination_by s.length - offset
decreasing_by omega

theorem unquoteYAML_ne_none (v : List Char) : unquoteYAML v ≠ none := by
  rw [unquoteYAML]
  by_cases hshort : v.length < 2
  · rw [if_pos hshort]
    exact Option.some_ne_none _
  · rw [if_neg hshort, List.getElem?_eq_getElem (by omega), List.getElem?_eq_getElem (by omega)]
    dsimp only
    split
    · split
      · exact Option.some_ne_none _
      · exact Option.some_ne_none _
    · split
      · exact Option.some_ne_none _
      · exact Option.some_ne_none _

theorem parseLine_ne_none (raw : List Char) (out : Fields) : parseLine raw out ≠ none := by
  unfold parseLine
  dsimp only
  split
  · exact Option.some_ne_none _
  split
  · exact Option.some_ne_none _
  cases hcolon : (trimChars (trimCR raw)).idxOf? ':' with
  | none => exact Option.some_ne_none _
  | some colon =>
    have hlt := idxOf?_lt hcolon
    dsimp only
    rw [slice_take (Nat.le_of_lt hlt), slice_drop hlt]
    dsimp only
    split
    · exact Option.some_ne_none _
    · rename_i hnone
      exact absurd hnone (unquoteYAML_ne_none _)

theorem parseLines_ne_none (lines : List (List Char)) (out : Fields) :
    parseLines lines out ≠ none := by
  induction lines generalizing out with
  | nil => exact Option.some_ne_none _
  | cons raw lines ih =>
    rw [parseLines]
    split
    · exact ih _
    · rename_i hnone
      exact absurd hnone (parseLine_ne_none raw out)

theorem frontmatterFields_ne_none (content : List Char) : frontmatterFields content ≠ none := by
  unfold frontmatterFields
  dsimp only
  split
  · exact Option.some_ne_none _
  rename_i hopen
  rw [not_not, List.isPrefixOf_iff_prefix] at hopen
  have hdashes : 3 ≤ content.length := hopen.length_le
  rw [slice_drop hdashes]
  dsimp only
  split
  · exact Option.some_ne_none _
  rename_i hline
  rw [not_not, List.isPrefixOf_iff_prefix] at hline
  have hnewline : 1 ≤ ((content.drop 3).dropWhile (· = '\r')).length := hline.length_le
  rw [slice_drop hnewline]
  dsimp only
  obtain ⟨fence, hfence, hle⟩ := closingFenceFrom_spec
    (Nat.zero_le (((content.drop 3).dropWhile (· = '\r')).drop 1).length)
  rw [indexClosingFence, hfence]
  cases fence with
  | none => exact Option.some_ne_none _
  | some e =>
    dsimp only
    rw [slice_take (hle e rfl), slice_drop (hle e rfl)]
    dsimp only
    split
    · exact Option.some_ne_none _
    · rename_i hnone
      exact absurd hnone (parseLines_ne_none _ _)

theorem parseFrontmatter_ne_none (content : List Char) : parseFrontmatter content ≠ none := by
  rw [parseFrontmatter]
  split
  · rename_i hnone
    exact absurd hnone (frontmatterFields_ne_none content)
  · exact Option.some_ne_none _
  · exact Option.some_ne_none _

/-! ## Lines -/

theorem trimCR_of_trimmed {s : List Char} (h : Trimmed s) : trimCR s = s := by
  rw [trimCR, List.rdropWhile_eq_self_iff]
  intro hne hcr
  have hlast := h.last _ (List.getLast?_eq_some_getLast hne)
  rw [of_decide_eq_true hcr] at hlast
  cases hlast

/-- The loop passes over a line that is no fence. -/
theorem closingFenceFrom_line (before : List Char) {line tail : List Char} (hline : '\n' ∉ line)
    (hfence : ¬ "---".toList <+: trimCR line) (htail : tail ≠ []) :
    closingFenceFrom (before ++ (line ++ '\n' :: tail)) before.length
      = closingFenceFrom ((before ++ line ++ ['\n']) ++ tail) (before ++ line ++ ['\n']).length := by
  have hpos := List.length_pos_of_ne_nil htail
  rw [closingFenceFrom, slice_append_right]
  dsimp only
  rw [idxOf?_append_cons hline]
  dsimp only
  rw [slice_append_left]
  dsimp only
  rw [if_neg (fun h => hfence (List.isPrefixOf_iff_prefix.mp h)), if_neg (by simp; omega)]
  congr 1
  · simp
  · simp
    omega

/-- The loop stops at a line that is one. -/
theorem closingFenceFrom_fence (before tail : List Char) {line : List Char}
    (hline : '\n' ∉ line) (hfence : "---".toList <+: trimCR line) :
    closingFenceFrom (before ++ (line ++ '\n' :: tail)) before.length
      = some (some before.length) := by
  rw [closingFenceFrom, slice_append_right]
  dsimp only
  rw [idxOf?_append_cons hline]
  dsimp only
  rw [slice_append_left]
  dsimp only
  rw [if_pos (List.isPrefixOf_iff_prefix.mpr hfence)]

/-- A line with a field. -/
theorem parseLine_field (key : List Char) {scalar : List Char} {value : Bytes} (hkey : Trimmed key)
    (hne : key ≠ []) (hcolon : ':' ∉ key) (hcomment : '#' ∉ key) (hscalar : Trimmed scalar)
    (hscalarne : scalar ≠ []) (hvalue : unquoteYAML scalar = some value) (out : Fields) :
    parseLine (key ++ ": ".toList ++ scalar) out = some ((key, value) :: out) := by
  have hline := hkey.append hne hscalar hscalarne ": ".toList
  have hfirst : ¬ ['#'].isPrefixOf (key ++ ": ".toList ++ scalar) = true := by
    intro hpre
    cases key with
    | nil => exact hne rfl
    | cons c key =>
      rw [List.isPrefixOf_iff_prefix] at hpre
      exact hcomment (List.mem_cons.mpr (Or.inl (List.cons_prefix_cons.mp hpre).1))
  have hnonempty : key ++ ": ".toList ++ scalar ≠ [] := List.append_ne_nil_of_right_ne_nil _ hscalarne
  have hsplit : key ++ ": ".toList ++ scalar = key ++ ':' :: ' ' :: scalar := by simp
  unfold parseLine
  dsimp only
  rw [trimCR_of_trimmed hline, trimmed_iff.mp hline, if_neg (not_or.mpr ⟨hnonempty, hfirst⟩),
    if_neg (fun h => h rfl), hsplit, idxOf?_append_cons hcolon]
  dsimp only
  rw [slice_append_left, slice_drop (by simp), List.drop_append]
  simp only [List.drop_eq_nil_of_le (Nat.le_succ _), Nat.add_sub_cancel_left, List.nil_append,
    List.drop_succ_cons, List.drop_zero]
  rw [trimChars_cons_space rfl, trimmed_iff.mp hscalar, hvalue, trimmed_iff.mp hkey]

/-! ## Scalars -/

theorem unquoteYAML_plain {v : List Char} (h : ∀ c ∈ v.head?, c ≠ '\x22' ∧ c ≠ '\x27') :
    unquoteYAML v = some (utf8 v) := by
  rw [unquoteYAML]
  by_cases hshort : v.length < 2
  · rw [if_pos hshort]
  · have hfirst : v[0]? = some v[0] := List.getElem?_eq_getElem (by omega)
    obtain ⟨hdouble, hsingle⟩ := h v[0] (by rw [List.head?_eq_getElem?]; exact hfirst)
    rw [if_neg hshort, hfirst, List.getElem?_eq_getElem (by omega)]
    dsimp only
    rw [if_neg (fun hq => hdouble hq.1), if_neg (fun hq => hsingle hq.1)]

theorem unquoteYAML_quote {isPrint : Char → Bool} (hline : isPrint '\n' = false)
    (desc : List Char) : unquoteYAML (quote isPrint desc) = some (utf8 desc) := by
  have hlength : (quote isPrint desc).length
      = (desc.flatMap (escapeRune isPrint)).length + 2 := by
    simp [quote]
  have hlast : (quote isPrint desc)[(quote isPrint desc).length - 1]? = some '\x22' := by
    rw [← List.getLast?_eq_getElem?, quote, ← List.cons_append, List.getLast?_concat]
  have hfirst : (quote isPrint desc)[0]? = some '\x22' := rfl
  rw [unquoteYAML, if_neg (by omega), hfirst, hlast]
  dsimp only
  rw [if_pos ⟨rfl, rfl⟩, unquote_quote hline]

/-- A scalar of one line that is read as `value`. -/
structure ReadsAs (scalar : List Char) (value : Bytes) : Prop where
  trimmed : Trimmed scalar
  nonempty : scalar ≠ []
  line : '\n' ∉ scalar
  read : unquoteYAML scalar = some value

theorem yamlScalar_reads {isPrint : Char → Bool} (hline : isPrint '\n' = false) {desc : List Char}
    (htrimmed : Trimmed desc) (hne : desc ≠ []) (hdesc : '\n' ∉ desc) :
    ReadsAs (yamlScalar isPrint desc) (utf8 desc) := by
  rw [yamlScalar]
  by_cases hquote : needsYAMLQuote desc = true
  · rw [if_pos hquote]
    constructor
    · constructor
      · intro c hc
        cases hc
        rfl
      · intro c hc
        rw [quote, ← List.cons_append, List.getLast?_concat] at hc
        cases hc
        rfl
    · exact List.cons_ne_nil _ _
    · exact newline_not_mem_quote hline desc
    · exact unquoteYAML_quote hline desc
  · rw [if_neg hquote]
    refine ⟨htrimmed, hne, hdesc, unquoteYAML_plain ?_⟩
    intro c hc
    have hplain : ¬ desc.any (fun c => ['\n', '\x22', '\x27', '#'].contains c) = true := by
      intro hany
      rw [needsYAMLQuote, if_pos hany, ite_self] at hquote
      exact hquote rfl
    have hmem := List.mem_of_mem_head? hc
    constructor
    · rintro rfl
      exact hplain (List.any_eq_true.mpr ⟨_, hmem, by decide⟩)
    · rintro rfl
      exact hplain (List.any_eq_true.mpr ⟨_, hmem, by decide⟩)

/-- A name that `ValidateMetadata` accepts, with some description. -/
def AcceptedName (name : List Char) : Prop :=
  ∃ description, validateMetadata name description = .ok ()

theorem AcceptedName.chars {name : List Char} (h : AcceptedName name) :
    name ≠ [] ∧ ∀ c ∈ name, isNameAlnum c = true ∨ c = '-' := by
  obtain ⟨description, h⟩ := h
  rw [validateMetadata] at h
  by_cases hempty : name = []
  · rw [if_pos hempty] at h
    cases h
  rw [if_neg hempty] at h
  by_cases hlong : (utf8 name).length > maxSkillNameLen
  · rw [if_pos hlong] at h
    cases h
  rw [if_neg hlong] at h
  by_cases hre : skillNameRe name = true
  · refine ⟨hempty, fun c hc => ?_⟩
    rw [skillNameRe, Bool.and_eq_true, Bool.and_eq_true, List.all_eq_true] at hre
    have hchar := hre.1.1 c hc
    rwa [Bool.or_eq_true, beq_iff_eq] at hchar
  · rw [if_pos hre] at h
    cases h

/-- The characters of a name are none that the reader looks for. -/
theorem nameChar_plain {c : Char} (h : isNameAlnum c = true ∨ c = '-') :
    isSpace c = false ∧ c ≠ '\n' ∧ c ≠ '\x22' ∧ c ≠ '\x27' := by
  have hrange : (97 ≤ c.toNat ∧ c.toNat ≤ 122) ∨ (48 ≤ c.toNat ∧ c.toNat ≤ 57) ∨ c.toNat = 45 := by
    rcases h with h | rfl
    · rw [isNameAlnum, Bool.or_eq_true, Bool.and_eq_true, Bool.and_eq_true, decide_eq_true_iff,
        decide_eq_true_iff, decide_eq_true_iff, decide_eq_true_iff] at h
      rcases h with h | h
      · exact Or.inl h
      · exact Or.inr (Or.inl h)
    · exact Or.inr (Or.inr rfl)
  have hne : ∀ d : Char, d.toNat < 45 → c ≠ d := by
    rintro d hd rfl
    omega
  refine ⟨?_, hne _ (by decide), hne _ (by decide), hne _ (by decide)⟩
  simp only [isSpace, Bool.or_eq_false_iff, Bool.and_eq_false_iff, decide_eq_false_iff_not,
    beq_eq_false_iff_ne]
  omega

theorem name_reads {name : List Char} (h : AcceptedName name) : ReadsAs name (utf8 name) := by
  obtain ⟨hne, hchars⟩ := h.chars
  have hplain := fun c hc => nameChar_plain (hchars c hc)
  constructor
  · constructor
    · exact fun c hc => (hplain c (List.mem_of_mem_head? hc)).1
    · exact fun c hc => (hplain c (List.mem_of_mem_getLast? hc)).1
  · exact hne
  · exact fun hmem => (hplain _ hmem).2.1 rfl
  · exact unquoteYAML_plain fun c hc => (hplain c (List.mem_of_mem_head? hc)).2.2

/-! ## Descriptions -/

/-- A text with a blank for each line break, `\n` or `\r\n`. -/
def breaksToSpaces : List Char → List Char
  | [] => []
  | c :: s =>
    if c = '\n' then ' ' :: breaksToSpaces s
    else if c = '\r' ∧ s.head? = some '\n' then breaksToSpaces s
    else c :: breaksToSpaces s

theorem oneLine_eq (s : List Char) : oneLine s = trimChars (breaksToSpaces s) := by
  have hbreaks : replaceAll (replaceAll s ['\r', '\n'] [' ']) ['\n'] [' '] = breaksToSpaces s := by
    rw [replaceAll_singleton]
    unfold replaceAll
    induction s with
    | nil => rfl
    | cons c s ih =>
      rw [replaceFrom, breaksToSpaces]
      by_cases hnewline : c = '\n'
      · rw [if_neg (by rw [hnewline]; exact Bool.false_ne_true), if_pos hnewline,
          List.flatMap_cons, if_pos hnewline, ih]
        rfl
      rw [if_neg hnewline]
      by_cases hcrlf : c = '\r' ∧ s.head? = some '\n'
      · rw [if_pos hcrlf, ← ih]
        obtain ⟨rfl, hhead⟩ := hcrlf
        cases s with
        | nil => cases hhead
        | cons d s =>
          cases hhead
          rfl
      · have hpre : ¬ ['\r', '\n'].isPrefixOf (c :: s) = true := by
          intro hpre
          cases s with
          | nil => simp at hpre
          | cons d s =>
            obtain ⟨rfl, hd⟩ := List.cons_prefix_cons.mp (List.isPrefixOf_iff_prefix.mp hpre)
            obtain ⟨rfl, -⟩ := List.cons_prefix_cons.mp hd
            exact hcrlf ⟨rfl, rfl⟩
        rw [if_neg hcrlf, if_neg hpre, List.flatMap_cons, if_neg hnewline, ih]
        rfl
  rw [oneLine, hbreaks]

theorem newline_not_mem_oneLine (s : List Char) : '\n' ∉ oneLine s := by
  intro hmem
  have hin := (trimChars_sublist _).subset hmem
  rw [replaceAll_singleton] at hin
  obtain ⟨c, -, hc⟩ := List.mem_flatMap.mp hin
  split at hc
  · cases List.mem_singleton.mp hc
  · rename_i hne
    exact hne (List.mem_singleton.mp hc).symm

theorem oneLine_ne_nil {s : List Char} (h : trimChars s ≠ []) : oneLine s ≠ [] := by
  rw [oneLine, ne_eq, trimChars_eq_nil_iff]
  rw [ne_eq, trimChars_eq_nil_iff] at h
  push Not at h
  obtain ⟨c, hc, hspace⟩ := h
  have hold : ∀ old : List Char, (old.all isSpace = true) → c ∉ old := by
    intro old hall hmem
    exact hspace (List.all_eq_true.mp hall c hmem)
  intro hblank
  apply hspace
  apply hblank
  apply mem_replaceAll (List.cons_ne_nil _ _) (hold _ rfl)
  exact mem_replaceAll (List.cons_ne_nil _ _) (hold _ rfl) hc

/-- A description on one line is its own. -/
theorem oneLine_oneLine (s : List Char) : oneLine (oneLine s) = oneLine s := by
  have hline := newline_not_mem_oneLine s
  rw [oneLine, replaceAll_of_not_mem (List.mem_cons_of_mem _ List.mem_cons_self) hline,
    replaceAll_of_not_mem List.mem_cons_self hline]
  exact trimChars_trimChars _

/-! ## The round trip -/

/-- The document of `BuildFrontmatter` by its lines. -/
theorem buildFrontmatter_lines (isPrint : Char → Bool) (name description body : List Char) :
    buildFrontmatter isPrint name description body
      = "---".toList ++ '\n' :: (("name: ".toList ++ name) ++ '\n'
        :: (("description: ".toList ++ yamlScalar isPrint (oneLine description)) ++ '\n'
        :: ("---".toList ++ '\n' :: '\n' :: trimNewlines body))) := by
  have hopen : "---\nname: ".toList = "---".toList ++ '\n' :: "name: ".toList := by decide
  have hnext : "\ndescription: ".toList = '\n' :: "description: ".toList := by decide
  have hclose : "\n---\n\n".toList = '\n' :: ("---".toList ++ ['\n', '\n']) := by decide
  have hjoin : ∀ a b c d e f : List Char,
      (a ++ '\n' :: b) ++ c ++ ('\n' :: d) ++ e ++ ('\n' :: (a ++ ['\n', '\n'])) ++ f
        = a ++ '\n' :: ((b ++ c) ++ '\n' :: ((d ++ e) ++ '\n' :: (a ++ '\n' :: '\n' :: f))) := by
    intro a b c d e f
    simp only [List.append_assoc, List.cons_append, List.nil_append]
  unfold buildFrontmatter
  rw [hopen, hnext, hclose]
  exact hjoin _ _ _ _ _ _

/-- Where the fence of such a document is. -/
theorem indexClosingFence_fields {first second : List Char} (tail : List Char)
    (hfirst : '\n' ∉ first) (hsecond : '\n' ∉ second) (hname : ¬ "---".toList <+: trimCR first)
    (hdesc : ¬ "---".toList <+: trimCR second) :
    indexClosingFence (first ++ '\n' :: (second ++ '\n' :: ("---".toList ++ '\n' :: tail)))
      = some (some (first ++ '\n' :: (second ++ ['\n'])).length) := by
  have hdashes : '\n' ∉ ['-', '-', '-'] := by decide
  have hfence := closingFenceFrom_fence (first ++ ['\n'] ++ second ++ ['\n']) tail hdashes
    (by decide)
  have hone := closingFenceFrom_line [] hfirst hname (List.append_ne_nil_of_right_ne_nil second
    (List.cons_ne_nil '\n' (['-', '-', '-'] ++ '\n' :: tail)))
  have htwo := closingFenceFrom_line (first ++ ['\n']) hsecond hdesc
    (List.cons_ne_nil '-' ('-' :: '-' :: '\n' :: tail))
  calc indexClosingFence (first ++ '\n' :: (second ++ '\n' :: ("---".toList ++ '\n' :: tail)))
    _ = _ := hone
    _ = _ := htwo
    _ = some (some (first ++ ['\n'] ++ second ++ ['\n']).length) := hfence
    _ = _ := by simp

/-- A line that starts with a letter is no fence. -/
theorem not_fence {c : Char} (hdash : c ≠ '-') (line : List Char) :
    ¬ "---".toList <+: trimCR (c :: line) := by
  intro hpre
  have hsub : trimCR (c :: line) <+: c :: line := List.rdropWhile_prefix _ _
  have hdashes := hpre.trans hsub
  exact hdash (List.cons_prefix_cons.mp hdashes).1.symm

/-- A document with a fence behind its fields. -/
theorem frontmatterFields_fenced {fm tail : List Char} {fields : Fields}
    (hfence : indexClosingFence (fm ++ ("---".toList ++ '\n' :: tail)) = some (some fm.length))
    (hfields : parseSimpleYAML fm = some fields) :
    frontmatterFields ("---".toList ++ '\n' :: (fm ++ ("---".toList ++ '\n' :: tail)))
      = some { fields := some fields, body := tail } := by
  have hdashes : ∀ s, "---".toList.isPrefixOf ("---".toList ++ s) = true :=
    fun s => List.isPrefixOf_iff_prefix.mpr (List.prefix_append _ s)
  have hnewline : ∀ s, ['\n'].isPrefixOf ('\n' :: s) = true := fun s => rfl
  have hcr : ∀ s, ('\n' :: s).dropWhile (· = '\r') = '\n' :: s := fun s => rfl
  have hopen : ∀ s, slice ("---".toList ++ s) 3 ("---".toList ++ s).length = some s :=
    slice_append_right "---".toList
  have hline : ∀ s, slice ('\n' :: s) 1 ('\n' :: s).length = some s := slice_append_right ['\n']
  have hdrop : ∀ s, ("---".toList ++ s).drop 3 = s := fun s => rfl
  unfold frontmatterFields
  dsimp only
  rw [if_neg (not_not.mpr (hdashes _)), hopen]
  dsimp only
  rw [hcr, if_neg (not_not.mpr (hnewline _)), hline]
  dsimp only
  rw [hfence]
  dsimp only
  rw [slice_append_left, slice_append_right]
  dsimp only
  rw [if_pos (hdashes _), hdrop, hcr, if_pos (hnewline _), hfields]
  rfl

theorem frontmatterFields_build {isPrint : Char → Bool} {name description : List Char}
    {nameValue descValue : Bytes} (hname : ReadsAs name nameValue)
    (hdesc : ReadsAs (yamlScalar isPrint (oneLine description)) descValue) (body : List Char) :
    frontmatterFields (buildFrontmatter isPrint name description body)
      = some { fields := some [("description".toList, descValue), ("name".toList, nameValue)]
               body := '\n' :: trimNewlines body } := by
  have hnameLine : '\n' ∉ "name: ".toList ++ name := by
    intro hmem
    rcases List.mem_append.mp hmem with hmem | hmem
    · exact absurd hmem (by decide)
    · exact hname.line hmem
  have hdescLine : '\n' ∉ "description: ".toList ++ yamlScalar isPrint (oneLine description) := by
    intro hmem
    rcases List.mem_append.mp hmem with hmem | hmem
    · exact absurd hmem (by decide)
    · exact hdesc.line hmem
  have hfields : parseSimpleYAML (("name: ".toList ++ name) ++ '\n'
      :: (("description: ".toList ++ yamlScalar isPrint (oneLine description)) ++ ['\n']))
      = some [("description".toList, descValue), ("name".toList, nameValue)] := by
    have hfirst := parseLine_field "name".toList (trimmed_iff.mpr (by decide)) (by decide)
      (by decide) (by decide) hname.trimmed hname.nonempty hname.read []
    have hsecond := parseLine_field "description".toList (trimmed_iff.mpr (by decide))
      (by decide) (by decide) (by decide) hdesc.trimmed hdesc.nonempty hdesc.read
      [("name".toList, nameValue)]
    have hkey : "name".toList ++ ": ".toList = "name: ".toList := by decide
    have hkey' : "description".toList ++ ": ".toList = "description: ".toList := by decide
    rw [hkey] at hfirst
    rw [hkey'] at hsecond
    rw [parseSimpleYAML, List.splitOn_append_cons_self_of_not_mem hnameLine,
      List.splitOn_append_cons_self_of_not_mem hdescLine, List.splitOn_nil, parseLines, hfirst]
    dsimp only
    rw [parseLines, hsecond]
    rfl
  have hfence := indexClosingFence_fields ('\n' :: trimNewlines body) hnameLine hdescLine
    (not_fence (by decide) _) (not_fence (by decide) _)
  have hsplit : ∀ a b c : List Char, a ++ '\n' :: (b ++ '\n' :: c) = (a ++ '\n' :: (b ++ ['\n'])) ++ c := by
    simp
  rw [hsplit] at hfence
  rw [buildFrontmatter_lines, hsplit ("name: ".toList ++ name)]
  exact frontmatterFields_fenced hfence hfields

theorem parseFrontmatter_build {isPrint : Char → Bool} {name description : List Char}
    {nameValue descValue : Bytes} (hname : ReadsAs name nameValue)
    (hdesc : ReadsAs (yamlScalar isPrint (oneLine description)) descValue) (body : List Char) :
    parseFrontmatter (buildFrontmatter isPrint name description body)
      = some { name := nameValue, description := descValue, body := '\n' :: trimNewlines body
               ok := true } := by
  rw [parseFrontmatter, frontmatterFields_build hname hdesc]
  rfl

theorem trimNewlines_trimNewlines (body : List Char) :
    trimNewlines ('\n' :: trimNewlines body) = trimNewlines body :=
  List.dropWhile_idempotent _ _

/-- A document is parsed and built again, as the backfill of the skills
does. -/
def Rebuilt (isPrint : Char → Bool) (doc doc' : List Char) : Prop :=
  ∃ name description body,
    parseFrontmatter doc
        = some { name := utf8 name, description := utf8 description, body := body, ok := true }
      ∧ doc' = buildFrontmatter isPrint name description body

/-- What is built is read back, and built again it is the same. -/
structure RoundTrips (isPrint : Char → Bool) (name description body : List Char) : Prop where
  parsed : ∃ body',
    parseFrontmatter (buildFrontmatter isPrint name description body)
        = some { name := utf8 name, description := utf8 (trimChars (breaksToSpaces description))
                 body := body', ok := true }
      ∧ trimNewlines body' = trimNewlines body
  rebuilt : Rebuilt isPrint (buildFrontmatter isPrint name description body)
    (buildFrontmatter isPrint name description body)
  stable : ∀ doc, Relation.ReflTransGen (Rebuilt isPrint)
      (buildFrontmatter isPrint name description body) doc →
    doc = buildFrontmatter isPrint name description body

theorem buildFrontmatter_again (isPrint : Char → Bool) (name description body : List Char) :
    buildFrontmatter isPrint name (oneLine description) ('\n' :: trimNewlines body)
      = buildFrontmatter isPrint name description body := by
  unfold buildFrontmatter
  rw [oneLine_oneLine, trimNewlines_trimNewlines]

/-- Skill frontmatter survives the round trip, and no document at all makes
the reader look out of range. -/
theorem frontmatter_round_trips {isPrint : Char → Bool} (hline : isPrint '\n' = false) :
    (∀ name description body, AcceptedName name → trimChars description ≠ [] →
        RoundTrips isPrint name description body)
      ∧ ∀ content, ∃ parsed, parseFrontmatter content = some parsed := by
  refine ⟨fun name description body hname hblank => ?_, fun content => ?_⟩
  · have hdesc : ReadsAs (yamlScalar isPrint (oneLine description)) (utf8 (oneLine description)) :=
      yamlScalar_reads hline (trimmed_trimChars _) (oneLine_ne_nil hblank)
        (newline_not_mem_oneLine description)
    have hparsed := parseFrontmatter_build (name_reads hname) hdesc body
    have hagain := buildFrontmatter_again isPrint name description body
    have honly : ∀ doc, Rebuilt isPrint (buildFrontmatter isPrint name description body) doc →
        doc = buildFrontmatter isPrint name description body := by
      rintro doc ⟨name', description', body', hread, rfl⟩
      rw [hparsed] at hread
      obtain ⟨hname', hdescription', hbody', -⟩ := Parsed.mk.inj (Option.some.inj hread)
      rw [← utf8_injective hname', ← utf8_injective hdescription', ← hbody', hagain]
    constructor
    · refine ⟨_, ?_, trimNewlines_trimNewlines body⟩
      rw [hparsed, oneLine_eq]
    · exact ⟨name, oneLine description, _, hparsed, hagain.symm⟩
    · intro doc hdoc
      induction hdoc with
      | refl => rfl
      | tail _ hstep ih =>
        subst ih
        exact honly _ hstep
  · exact Option.ne_none_iff_exists'.mp (parseFrontmatter_ne_none content)

/-- The printable characters of ASCII. -/
def asciiPrint (c : Char) : Bool := 32 ≤ c.toNat && c.toNat < 127

theorem frontmatter_round_trips_quoted :
    RoundTrips asciiPrint "loan-report".toList "Use when: \"loan\"\r\nis #1".toList "# Steps".toList :=
  (@frontmatter_round_trips asciiPrint (by decide)).1 _ _ _
    ⟨"x".toList, by decide +kernel⟩ (by decide +kernel)

end LendingClaw.Skills

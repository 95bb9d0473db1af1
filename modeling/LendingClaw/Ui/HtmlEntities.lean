/-
LendingClaw.Ui.HtmlEntities — character references of an HTML answer
(`decodeHtmlEntities` and `htmlToReportSpec` of
`ui/web/src/lib/html-report-spec.ts`).

The replacement of `&amp;` comes before the others, so what an escaped
text shows as a reference is decoded as well: escaping is undone exactly
if the text holds none (`decodesEscape_iff`). The numbers of references
are not checked: an answer is shown exactly if none of the texts that are
decoded for it holds one beyond the code points (`returns_iff`).
-/
import LendingClaw.Lib.Escapes
import LendingClaw.Ui.LoanStatus

namespace LendingClaw.Ui

open LendingClaw.Lib
open LendingClaw.Lib.Matcher (group scan exec)

/-! ## The property -/

/-- Characters that escaping replaces. -/
def htmlEscapes : List (Nat × List Nat) :=
  [(38, units "&amp;"), (60, units "&lt;"), (62, units "&gt;"), (34, units "&quot;"), (39, units "&#39;")]

def escapeHtml (text : List Nat) : List Nat := text.flatMap (escapeWith htmlEscapes)

/-- Decoding undoes escaping. -/
def DecodesEscape (text : List Nat) : Prop := decodeHtmlEntities (escapeHtml text) = .ok text

/-- The answer is shown, and nothing is thrown. -/
def Returns (env : LabelEnv) (html : List Nat) : Prop := ∃ spec, htmlToReportSpec env html = .ok spec

/-- References that are decoded after `&amp;`. -/
def laterReference : Regex Nat :=
  .choice [letters "&lt;", letters "&gt;", letters "&quot;", letters "&#39;",
    .seq (exactly "&#") (.seq (.atLeast 1 (.cls isDigitUnit)) (exactly ";")),
    .seq (letters "&#x") (.seq (.atLeast 1 (.cls isHexUnit)) (exactly ";"))]

/-- A text that holds no reference but `&nbsp;` and `&amp;`. -/
def ShowsNoReference (text : List Nat) : Prop := ∀ u ∈ laterReference.language, ¬ u <:+: text

/-- A text whose numeric references are code points. -/
def CodePointsOnly (start : Regex Nat) (isDigit : Nat → Bool) (base : Nat) (text : List Nat) : Prop :=
  ∀ s ∈ start.language, ∀ code ∈ (Regex.atLeast 1 (.cls isDigit)).language,
    s ++ code ++ units ";" <:+: text → numberOf base code ≤ 0x10FFFF

/-- No number is beyond the code points: no decimal one where the named
references are replaced, and no hexadecimal one where the decimal ones
are replaced as well. -/
def Decodable (text : List Nat) : Prop :=
  CodePointsOnly (exactly "&#") isDigitUnit 10 (replaceNamed text)
    ∧ ∀ value, decimalReference.replaceWith (fun (_, code) => fromCodePoint (numberOf 10 code))
        (replaceNamed text) = .ok value →
      CodePointsOnly (letters "&#x") isHexUnit 16 value

/-- The cells of a table, as HTML. -/
def tableCells (html : List Nat) : List (List Nat) :=
  (scan rowPattern html).1.flatMap fun row => (scan cellPattern row.2).1.map fun cell => cell.2.2

/-- The texts that are decoded for a block. -/
def blockTexts (block : List Nat × List Nat) : List (List Nat) :=
  let tag := block.1.map lowerUnit
  if (units "h").isPrefixOf tag then [stripTags block.2]
  else if tag = units "pre" then [tagPattern.replaceAll [] block.2]
  else if tag = units "table" then (tableCells block.2).map stripTags
  else [stripTags block.2]

/-- The blocks of an answer can be decoded, and its lines if no block has
any text. -/
def BlocksDecodable (html : List Nat) : Prop :=
  let source := stripUnsafeBlocks html
  (∀ found ∈ (scan blockPattern source).1, ∀ text ∈ blockTexts found.2, Decodable text)
    ∧ ((∀ found ∈ (scan blockPattern source).1, blockElement found.2 = .ok none) →
      Decodable (stripTags (stripUnsafeBlocks source)))

/-- An answer that is shown as the status of a loan. -/
def IsLoanStatus (env : LabelEnv) (html : List Nat) : Prop :=
  ∃ report, parseLoanStatusReport env html = .ok (some report)

/-- The text of an answer can be decoded, and that of its blocks unless it
is the status of a loan. -/
def HtmlDecodable (env : LabelEnv) (html : List Nat) : Prop :=
  Decodable (stripTags (stripUnsafeBlocks html)) ∧ (¬ IsLoanStatus env html → BlocksDecodable html)

/-! ## Letters -/

theorem lowerUnit_eq {n m : Nat} (hm : m < 65) : lowerUnit n = m ↔ n = m := by
  unfold lowerUnit
  split <;> omega

theorem not_extraLetters {a b : Nat} (h : a < 65 ∨ b < 65) : extraLetters.contains (a, b) = false := by
  simp [extraLetters]
  omega

/-- What is no letter stands for itself. -/
theorem sameLetter_sign {a b : Nat} (h : a < 65 ∨ b < 65) : sameLetter a b = true ↔ a = b := by
  unfold sameLetter
  rw [not_extraLetters h, Bool.or_false, beq_iff_eq]
  rcases h with h | h
  · rw [(lowerUnit_eq h).mpr rfl, eq_comm, lowerUnit_eq h, eq_comm]
  · rw [(lowerUnit_eq h).mpr rfl, lowerUnit_eq h]

theorem sameLetter_refl (a : Nat) : sameLetter a a = true := by simp [sameLetter]

/-! ## The table -/

/-- A check for words that begin with an ampersand, and differ behind it. -/
def separable (word : List Nat) (table : List (Nat × List Nat)) : Bool :=
  word.head? == some 38 && !word.tail.contains 38
    && table.all fun entry =>
      entry.2.head? == some 38 && !entry.2.tail.contains 38
        && word.tail.head?.any fun a => entry.2.tail.head?.any fun b => !sameLetter a b

theorem word_eq_of_head {word : List Nat} (h : word.head? = some 38) (htail : 38 ∉ word.tail) :
    ∃ tail, word = 38 :: tail ∧ 38 ∉ tail := by
  obtain ⟨tail, rfl⟩ := List.head?_eq_some_iff.mp h
  exact ⟨tail, rfl, htail⟩

theorem separate_of_separable {word : List Nat} {table : List (Nat × List Nat)}
    (h : separable word table = true) : Separate sameLetter 38 word table := by
  simp only [separable, Bool.and_eq_true, beq_iff_eq, Bool.not_eq_true', List.contains_eq_mem,
    decide_eq_false_iff_not, List.all_eq_true] at h
  obtain ⟨⟨hhead, htail⟩, htable⟩ := h
  exact
    { word_eq := word_eq_of_head hhead htail
      refl := fun a _ => sameLetter_refl a
      sameMark := fun b hb => ((sameLetter_sign (.inl (by omega))).mp hb).symm
      unmarked := by
        rintro a ha b hb rfl
        rw [(sameLetter_sign (.inr (by omega))).mp hb] at ha
        exact htail ha
      differs := by
        intro entry hentry
        obtain ⟨a, ha, hany⟩ := (Option.any_eq_true _ _).mp (htable entry hentry).2
        obtain ⟨b, hb, hdiffer⟩ := (Option.any_eq_true _ _).mp hany
        exact ⟨a, ha, b, hb, by simpa using hdiffer⟩
      marked := fun entry hentry =>
        word_eq_of_head (htable entry hentry).1.1 (htable entry hentry).1.2 }

/-- A check for tables of signs whose first word can be undone. -/
def undoable (x : Nat) (word : List Nat) (table : List (Nat × List Nat)) : Bool :=
  separable word table && !(table.map Prod.fst).contains x
    && ((x, word) :: table).all fun entry =>
      entry.1 < 65 && entry.1 != 38 && !word.tail.contains entry.1

theorem undoable_of_check {x : Nat} {word : List Nat} {table : List (Nat × List Nat)}
    (h : undoable x word table = true) : Undoable sameLetter 38 x word table := by
  simp only [undoable, Bool.and_eq_true, Bool.not_eq_true', List.contains_eq_mem, decide_eq_true_eq,
    decide_eq_false_iff_not, List.all_eq_true, bne_iff_ne] at h
  obtain ⟨⟨hseparable, hfresh⟩, htable⟩ := h
  exact
    { toSeparate := separate_of_separable hseparable
      fresh := hfresh
      markPlain := by
        intro hmem
        obtain ⟨entry, hentry, hmark⟩ := List.mem_map.mp hmem
        exact (htable entry hentry).1.2 hmark
      tailPlain := by
        intro a ha b hb hmem
        obtain ⟨entry, hentry, rfl⟩ := List.mem_map.mp hmem
        obtain ⟨⟨hsign, -⟩, htail⟩ := htable entry hentry
        rw [(sameLetter_sign (.inr hsign)).mp hb] at ha
        exact htail ha }

/-! ## Escaped texts -/

/-- The passes behind those for `&nbsp;` and `&amp;`. -/
def laterPasses : List (Regex Nat × List Nat) :=
  [(letters "&lt;", units "<"), (letters "&gt;", units ">"), (letters "&quot;", units "\""),
    (letters "&#39;", units "'")]

def replaceLater (text : List Nat) : List Nat :=
  laterPasses.foldl (fun text pass => pass.1.replaceAll pass.2 text) text

/-- The passes undo the escapes, and decode what the text itself holds. -/
theorem replaceNamed_escapeHtml (text : List Nat) :
    replaceNamed (escapeHtml text) = replaceLater text := by
  have hnbsp : Separate sameLetter 38 (units "&nbsp;") htmlEscapes :=
    separate_of_separable (by decide +kernel)
  have hamp : Separate sameLetter 38 (units "&amp;") (htmlEscapes.drop 1) :=
    separate_of_separable (by decide +kernel)
  have hlt : Undoable sameLetter 38 60 (units "&lt;") (htmlEscapes.drop 2) :=
    undoable_of_check (by decide +kernel)
  have hgt : Undoable sameLetter 38 62 (units "&gt;") (htmlEscapes.drop 3) :=
    undoable_of_check (by decide +kernel)
  have hquot : Undoable sameLetter 38 34 (units "&quot;") (htmlEscapes.drop 4) :=
    undoable_of_check (by decide +kernel)
  have happ : Undoable sameLetter 38 39 (units "&#39;") [] := undoable_of_check (by decide +kernel)
  have h₀ : (letters "&nbsp;").replaceAll (units " ") (escapeHtml text) = escapeHtml text :=
    hnbsp.replaceAll_absent (by decide +kernel) (units " ") text
  have h₁ : (letters "&amp;").replaceAll (units "&") (escapeHtml text)
      = text.flatMap (escapeWith (htmlEscapes.drop 1)) :=
    hamp.replaceAll_mark (by decide +kernel) text
  have h₂ : ∀ text, (letters "&lt;").replaceAll (units "<") (text.flatMap (escapeWith (htmlEscapes.drop 1)))
      = ((letters "&lt;").replaceAll (units "<") text).flatMap (escapeWith (htmlEscapes.drop 2)) :=
    replaceAll_escape hlt
  have h₃ : ∀ text, (letters "&gt;").replaceAll (units ">") (text.flatMap (escapeWith (htmlEscapes.drop 2)))
      = ((letters "&gt;").replaceAll (units ">") text).flatMap (escapeWith (htmlEscapes.drop 3)) :=
    replaceAll_escape hgt
  have h₄ : ∀ text, (letters "&quot;").replaceAll (units "\"")
        (text.flatMap (escapeWith (htmlEscapes.drop 3)))
      = ((letters "&quot;").replaceAll (units "\"") text).flatMap (escapeWith (htmlEscapes.drop 4)) :=
    replaceAll_escape hquot
  have h₅ : ∀ text, (letters "&#39;").replaceAll (units "'") (text.flatMap (escapeWith (htmlEscapes.drop 4)))
      = ((letters "&#39;").replaceAll (units "'") text).flatMap (escapeWith []) :=
    replaceAll_escape happ
  unfold replaceNamed replaceLater laterPasses
  simp only [List.foldl_cons, List.foldl_nil]
  rw [h₀, h₁, h₂, h₃, h₄, h₅]
  exact List.flatMap_singleton' _

/-! ## Numeric references -/

section
variable {ps : List (Nat → Bool)} {isDigit : Nat → Bool}

theorem mem_atLeast_one {p : Nat → Bool} {w : List Nat} :
    w ∈ (Regex.atLeast 1 (.cls p)).language ↔ w ≠ [] ∧ ∀ c ∈ w, p c = true := by
  constructor
  · intro h
    have hwithin : (Regex.atLeast 1 (.cls p)).Within p := Regex.Within.atLeast (Regex.within_cls fun _ h => h) 1
    have hleast : 0 < (Regex.atLeast 1 (.cls p)).least := Nat.one_pos
    exact ⟨Regex.ne_nil_of_mem hleast h, hwithin.of_mem h⟩
  · intro ⟨hne, hall⟩
    exact Regex.mem_atLeast_cls (List.length_pos_iff.mpr hne) hall

theorem mem_exactly {word : String} {w : List Nat} : w ∈ (exactly word).language ↔ w = units word := by
  unfold exactly
  rw [Regex.mem_word, List.forall₂_map_left_iff]
  simp only [beq_iff_eq, List.forall₂_eq_eq_eq]
  exact eq_comm

theorem mem_letters {word : String} {w : List Nat} :
    w ∈ (letters word).language ↔ List.Forall₂ (fun a b => sameLetter a b = true) (units word) w := by
  unfold letters
  rw [Regex.mem_word, List.forall₂_map_left_iff]

theorem mem_numberReference {start : Regex Nat} {s whole code rest : List Nat} :
    ((whole, code), rest) ∈ numberReference start isDigit s
      ↔ ∃ u ∈ start.language, code ≠ [] ∧ (∀ c ∈ code, isDigit c = true)
        ∧ whole = u ++ code ++ units ";" ∧ s = whole ++ rest := by
  unfold numberReference
  simp only [Matcher.mem_bind, Matcher.mem_group, Matcher.mem_pure, mem_atLeast_one, mem_exactly]
  constructor
  · intro ⟨u, s₁, ⟨hu, hs⟩, code', s₂, ⟨⟨hne, hall⟩, hs₁⟩, semicolon, s₃, ⟨hsemi, hs₂⟩, hpair, hrest⟩
    obtain ⟨rfl, rfl⟩ := Prod.mk.inj hpair
    subst hsemi hrest hs₂ hs₁ hs
    exact ⟨u, hu, hne, hall, rfl, by simp⟩
  · intro ⟨u, hu, hne, hall, hwhole, hs⟩
    subst hwhole hs
    exact ⟨u, code ++ (units ";" ++ rest), ⟨hu, by simp⟩, code, units ";" ++ rest,
      ⟨⟨hne, hall⟩, rfl⟩, units ";", rest, ⟨rfl, rfl⟩, rfl, rfl⟩

/-- A start of a reference: a mark, other signs that are no digits, always
as many. -/
structure Start (start : Regex Nat) (isDigit : Nat → Bool) : Prop where
  marked : ∀ u ∈ start.language, ∃ tail, u = 38 :: tail ∧ 38 ∉ tail
  length : ∀ u ∈ start.language, ∀ v ∈ start.language, u.length = v.length
  digits : isDigit 38 = false ∧ isDigit 59 = false

/-- Digits up to a semicolon are read in one way. -/
theorem digits_unique (hsemi : isDigit 59 = false) {a b r r' : List Nat} (ha : ∀ c ∈ a, isDigit c = true)
    (hb : ∀ c ∈ b, isDigit c = true) (h : a ++ 59 :: r = b ++ 59 :: r') : a = b ∧ r = r' := by
  have hread : ∀ {w z : List Nat}, (∀ c ∈ w, isDigit c = true) →
      (w ++ 59 :: z).takeWhile isDigit = w := by
    intro w z hw
    rw [List.takeWhile_append_of_pos hw, List.takeWhile_cons_of_neg (by simp [hsemi]), List.append_nil]
  have hab : a = b := by rw [← hread (z := r) ha, h, hread hb]
  subst hab
  exact ⟨rfl, (List.cons.inj (List.append_cancel_left h)).2⟩

theorem marked_numberReference {start : Regex Nat} (hstart : Start start isDigit) :
    (numberReference start isDigit).Marked 38 Prod.fst where
  reads s b rest h := by
    obtain ⟨u, -, -, -, -, hs⟩ := mem_numberReference.mp h
    exact hs
  text_eq s b rest h := by
    obtain ⟨u, hu, -, hall, hwhole, -⟩ := mem_numberReference.mp h
    obtain ⟨tail, rfl, htail⟩ := hstart.marked u hu
    refine ⟨tail ++ (b.2 ++ units ";"), by simp [hwhole], ?_⟩
    have hsemi : 38 ∉ units ";" := by decide +kernel
    have hcode : 38 ∉ b.2 := by
      intro hmem
      have hdigit := hall 38 hmem
      rw [hstart.digits.1] at hdigit
      cases hdigit
    simp [htail, hcode, hsemi]
  unique s b rest c rest' h h' := by
    obtain ⟨u, hu, -, hall, hwhole, hs⟩ := mem_numberReference.mp h
    obtain ⟨v, hv, -, hall', hwhole', hs'⟩ := mem_numberReference.mp h'
    have heq := hs.symm.trans hs'
    rw [hwhole, hwhole', List.append_assoc, List.append_assoc, List.append_assoc, List.append_assoc] at heq
    obtain ⟨rfl, hcodes⟩ := List.append_inj heq (hstart.length u hu v hv)
    obtain ⟨hcode, hrest⟩ := digits_unique hstart.digits.2 hall hall' hcodes
    exact ⟨Prod.ext (by rw [hwhole, hwhole', hcode]) hcode, hrest⟩

theorem start_decimal : Start (exactly "&#") isDigitUnit where
  marked u hu := ⟨[35], mem_exactly.mp hu, by decide⟩
  length u hu v hv := by rw [mem_exactly.mp hu, mem_exactly.mp hv]
  digits := by decide

theorem start_hex : Start (letters "&#x") isHexUnit where
  marked u hu := by
    have hsame : Separate sameLetter 38 (units "&#x") [] := separate_of_separable (by decide +kernel)
    obtain ⟨tail, hu', htail, -⟩ := hsame.variant (mem_letters.mp hu)
    exact ⟨tail, hu', htail⟩
  length u hu v hv := (mem_letters.mp hu).length_eq.symm.trans (mem_letters.mp hv).length_eq
  digits := by decide

theorem length_fromCodePoint {code : Nat} {new : List Nat} (h : fromCodePoint code = .ok new) :
    new.length ≤ 2 := by
  unfold fromCodePoint at h
  split at h
  · rw [← Except.ok.inj h]
    simp
  · split at h
    · rw [← Except.ok.inj h]
      simp
    · cases h

theorem fromCodePoint_ok {code : Nat} : (∃ new, fromCodePoint code = .ok new) ↔ code ≤ 0x10FFFF := by
  unfold fromCodePoint
  split
  · exact iff_of_true ⟨_, rfl⟩ (by omega)
  · split
    · exact iff_of_true ⟨_, rfl⟩ (by omega)
    · exact iff_of_false (fun ⟨_, h⟩ => nomatch h) (by omega)

/-- Numeric references are replaced unless one is no code point. -/
theorem replaceWith_number {start : Regex Nat} (hstart : Start start isDigit) (base : Nat)
    (text : List Nat) :
    (∃ value, (numberReference start isDigit).replaceWith
        (fun (_, code) => fromCodePoint (numberOf base code)) text = .ok value)
      ↔ CodePointsOnly start isDigit base text := by
  have hmarked := marked_numberReference hstart
  rw [Matcher.exists_replaceWith_ok]
  constructor
  · intro h u hu code hcode ⟨a, rest, htext⟩
    obtain ⟨hne, hall⟩ := mem_atLeast_one.mp hcode
    have hmatch := mem_numberReference.mpr
      ⟨u, hu, hne, hall, rfl, (rfl : u ++ code ++ units ";" ++ rest = _)⟩
    have hfound := hmarked.mem_scan (a := a) hmatch
    rw [← List.append_assoc, htext] at hfound
    obtain ⟨p, hp, heq⟩ := List.mem_map.mp hfound
    have hok := fromCodePoint_ok.mp (h p hp)
    rwa [congrArg Prod.snd heq] at hok
  · intro h p hp
    obtain ⟨t, rest, hmatch⟩ := Matcher.mem_scan hp
    obtain ⟨u, hu, hne, hall, hwhole, -⟩ := mem_numberReference.mp hmatch
    have hstands := Matcher.infix_of_mem_scan hmarked.reads hp
    rw [hwhole] at hstands
    exact fromCodePoint_ok.mpr (h u hu _ (mem_atLeast_one.mpr ⟨hne, hall⟩) hstands)

/-- A text that is not changed by the replacement of numeric references
holds none. -/
theorem length_replaceWith_number {start : Regex Nat} (hstart : Start start isDigit) {base : Nat}
    {text value : List Nat}
    (h : (numberReference start isDigit).replaceWith
      (fun (_, code) => fromCodePoint (numberOf base code)) text = .ok value) :
    value.length ≤ text.length
      ∧ (value.length = text.length → exec (numberReference start isDigit) text = none) := by
  refine Matcher.length_replaceWith (marked_numberReference hstart).reads ?_ h
  intro t b rest new hmatch hnew
  obtain ⟨u, hu, hne, -, hwhole, -⟩ := mem_numberReference.mp hmatch
  obtain ⟨tail, rfl, -⟩ := hstart.marked u hu
  have hsemi : (units ";").length = 1 := by decide +kernel
  have hcode := List.length_pos_iff.mpr hne
  have hle := length_fromCodePoint hnew
  rw [hwhole, List.length_append, List.length_append, List.length_cons, hsemi]
  omega

theorem exec_numberReference {start : Regex Nat} {text : List Nat} :
    exec (numberReference start isDigit) text = none
      ↔ ∀ u ∈ (Regex.seq start (.seq (.atLeast 1 (.cls isDigit)) (exactly ";"))).language,
        ¬ u <:+: text := by
  constructor
  · intro h w hw ⟨a, z, htext⟩
    obtain ⟨u, hu, v, hv, rfl⟩ := Regex.mem_language_seq.mp hw
    obtain ⟨code, hcode, semicolon, hsemi, rfl⟩ := Regex.mem_language_seq.mp hv
    obtain ⟨hne, hall⟩ := mem_atLeast_one.mp hcode
    have hmatch := mem_numberReference.mpr
      ⟨u, hu, hne, hall, rfl, (rfl : u ++ code ++ units ";" ++ z = _)⟩
    rw [mem_exactly.mp hsemi, List.append_assoc] at htext
    rw [Matcher.eq_nil_of_exec h ⟨a, by simpa using htext⟩] at hmatch
    cases hmatch
  · intro h
    refine Matcher.exec_eq_none fun t ⟨a, ht⟩ => List.eq_nil_iff_forall_not_mem.mpr ?_
    intro ⟨⟨whole, code⟩, rest⟩ hmatch
    obtain ⟨u, hu, hne, hall, rfl, rfl⟩ := mem_numberReference.mp hmatch
    refine h (u ++ (code ++ units ";")) ?_ ⟨a, rest, by simpa using ht⟩
    exact Regex.mem_language_seq.mpr ⟨u, hu, _, Regex.mem_language_seq.mpr
      ⟨code, mem_atLeast_one.mpr ⟨hne, hall⟩, units ";", mem_exactly.mpr rfl, rfl⟩, rfl⟩

end

/-! ## Decoding -/

/-- A pattern has no match in a text that holds none of its words. -/
theorem preferred_none_iff {r : Regex Nat} {text : List Nat} :
    (∀ t, t <:+ text → r.preferred t = none) ↔ ∀ u ∈ r.language, ¬ u <:+: text := by
  constructor
  · intro h u hu ⟨a, z, htext⟩
    exact Regex.preferred_ne_none hu z (h _ ⟨a, by rw [← List.append_assoc, htext]⟩)
  · intro h t ⟨a, ht⟩
    by_contra hsome
    obtain ⟨rest, hrest⟩ := Option.ne_none_iff_exists'.mp hsome
    obtain ⟨u, hu, rfl⟩ := Regex.of_preferred hrest
    exact h u hu ⟨a, rest, by rw [List.append_assoc, ht]⟩

theorem showsNoReference_iff {text : List Nat} :
    ShowsNoReference text
      ↔ (∀ pass ∈ laterPasses, ∀ t, t <:+ text → pass.1.preferred t = none)
        ∧ exec decimalReference text = none ∧ exec hexReference text = none := by
  unfold decimalReference hexReference ShowsNoReference laterReference
  simp only [exec_numberReference, Regex.mem_choice, laterPasses, preferred_none_iff, List.mem_cons,
    List.not_mem_nil, or_false, exists_eq_or_imp, exists_eq_left, or_imp, forall_and]
  simp [and_assoc]

/-- Decoding undoes escaping exactly if the text holds no reference that is
decoded behind `&amp;`. -/
theorem decodesEscape_iff (text : List Nat) : DecodesEscape text ↔ ShowsNoReference text := by
  unfold DecodesEscape decodeHtmlEntities
  rw [replaceNamed_escapeHtml, showsNoReference_iff]
  have hshorter : ∀ pass ∈ laterPasses, pass.2.length < pass.1.least := by decide +kernel
  obtain ⟨hle, heq, hself⟩ := Regex.passes_eq_self_iff hshorter text
  have hlater : replaceLater text = laterPasses.foldl (fun text pass => pass.1.replaceAll pass.2 text) text :=
    rfl
  rw [← hlater] at hle heq hself
  constructor
  · intro h
    cases hvalue : decimalReference.replaceWith (fun (_, code) => fromCodePoint (numberOf 10 code))
        (replaceLater text) with
    | error e =>
      rw [hvalue] at h
      cases h
    | ok value =>
      rw [hvalue] at h
      -- no pass makes a text longer, so none has changed anything
      obtain ⟨hdecimal, hdecimalEq⟩ := length_replaceWith_number start_decimal hvalue
      obtain ⟨hhex, hhexEq⟩ := length_replaceWith_number start_hex h
      have hpasses := heq (by omega)
      have hsame := hself hpasses
      have hnone : exec decimalReference text = none := by
        have hnone := hdecimalEq (by omega)
        rwa [hsame] at hnone
      rw [hsame, Matcher.replaceWith_eq_self hnone] at hvalue
      obtain rfl := Except.ok.inj hvalue
      exact ⟨hpasses, hnone, hhexEq rfl⟩
  · intro ⟨hpasses, hdecimal, hhex⟩
    rw [hself hpasses]
    exact Matcher.bind_eq_ok.mpr
      ⟨text, Matcher.replaceWith_eq_self hdecimal, Matcher.replaceWith_eq_self hhex⟩

/-- Decoding a text succeeds exactly if its numbers are code points. -/
theorem decodable_iff (text : List Nat) :
    (∃ value, decodeHtmlEntities text = .ok value) ↔ Decodable text := by
  have hdecimal := replaceWith_number start_decimal 10 (replaceNamed text)
  have hhex := replaceWith_number start_hex 16
  unfold decodeHtmlEntities Decodable decimalReference
  simp only [Matcher.bind_eq_ok]
  rw [← hdecimal]
  constructor
  · intro ⟨out, value, hvalue, hout⟩
    refine ⟨⟨value, hvalue⟩, fun value' h' => ?_⟩
    rw [hvalue] at h'
    obtain rfl := Except.ok.inj h'
    exact (hhex value).mp ⟨out, hout⟩
  · intro ⟨⟨value, hvalue⟩, h⟩
    obtain ⟨out, hout⟩ := (hhex value).mpr (h value hvalue)
    exact ⟨out, value, hvalue, hout⟩

theorem cleanInlineHtml_ok (html : List Nat) :
    (∃ text, cleanInlineHtml html = .ok text) ↔ Decodable (stripTags html) := by
  rw [← decodable_iff]
  exact Matcher.exists_bind_pure

theorem cleanCodeHtml_ok (html : List Nat) :
    (∃ text, cleanCodeHtml html = .ok text) ↔ Decodable (tagPattern.replaceAll [] html) := by
  rw [← decodable_iff]
  exact Matcher.exists_bind_pure

theorem htmlToTextLines_ok (html : List Nat) :
    (∃ lines, htmlToTextLines html = .ok lines) ↔ Decodable (stripTags (stripUnsafeBlocks html)) := by
  rw [← decodable_iff]
  exact Matcher.exists_bind_pure

theorem parseHtmlTable_ok (html : List Nat) :
    (∃ table, parseHtmlTable html = .ok table)
      ↔ ∀ text ∈ (tableCells html).map stripTags, Decodable text := by
  unfold parseHtmlTable
  dsimp only
  rw [Matcher.exists_bind_ok]
  · simp only [Matcher.exists_mapM_ok, cleanInlineHtml_ok, tableCells, List.forall_mem_map,
      List.forall_mem_flatMap]
  · intro rows
    split
    · exact ⟨_, rfl⟩
    · split
      · exact ⟨_, rfl⟩
      · exact ⟨_, rfl⟩

theorem blockElement_ok (block : List Nat × List Nat) :
    (∃ element, blockElement block = .ok element) ↔ ∀ text ∈ blockTexts block, Decodable text := by
  unfold blockElement blockTexts
  dsimp only
  split
  · rw [Matcher.exists_bind_pure, cleanInlineHtml_ok, List.forall_mem_singleton]
  split
  · rw [Matcher.exists_bind_pure, cleanCodeHtml_ok, List.forall_mem_singleton]
  split
  · rw [Matcher.exists_bind_pure, parseHtmlTable_ok]
  split
  · rw [Matcher.exists_bind_pure, cleanInlineHtml_ok, List.forall_mem_singleton]
  · rw [Matcher.exists_bind_pure, cleanInlineHtml_ok, List.forall_mem_singleton]

/-- No element comes out if every block is empty. -/
theorem filterMap_eq_nil_iff {found : List (List Nat × List Nat × List Nat)}
    {blocks : List (Option HtmlElement)} (h : found.mapM (fun p => blockElement p.2) = .ok blocks) :
    (blocks.filterMap id).length = 0 ↔ ∀ p ∈ found, blockElement p.2 = .ok none := by
  have hblocks := Matcher.mapM_eq_ok.mp h
  clear h
  induction hblocks with
  | nil => simp
  | @cons p block found blocks hp _ ih =>
    rw [List.forall_mem_cons, hp]
    cases block with
    | none => simpa using ih
    | some element => simp

theorem genericHtmlToReportSpec_ok (html : List Nat) :
    (∃ elements, genericHtmlToReportSpec html = .ok elements) ↔ BlocksDecodable html := by
  have hlines := htmlToTextLines_ok (stripUnsafeBlocks html)
  have hblocks : (∃ blocks, (scan blockPattern (stripUnsafeBlocks html)).1.mapM
        (fun p => blockElement p.2) = .ok blocks)
      ↔ ∀ found ∈ (scan blockPattern (stripUnsafeBlocks html)).1, ∀ text ∈ blockTexts found.2,
        Decodable text := by
    simp only [Matcher.exists_mapM_ok, blockElement_ok]
  unfold BlocksDecodable genericHtmlToReportSpec
  dsimp only
  rw [← hlines, ← hblocks]
  simp only [Matcher.bind_eq_ok]
  constructor
  · intro ⟨elements, blocks, hok, h⟩
    refine ⟨⟨blocks, hok⟩, fun hnone => ?_⟩
    rw [if_pos ((filterMap_eq_nil_iff hok).mpr hnone)] at h
    obtain ⟨lines, hok', -⟩ := Matcher.bind_eq_ok.mp h
    exact ⟨lines, hok'⟩
  · intro ⟨⟨blocks, hok⟩, hfallback⟩
    by_cases hnone : (blocks.filterMap id).length = 0
    · obtain ⟨lines, hok'⟩ := hfallback ((filterMap_eq_nil_iff hok).mp hnone)
      exact ⟨_, blocks, hok, by rw [if_pos hnone]; exact Matcher.bind_eq_ok.mpr ⟨lines, hok', rfl⟩⟩
    · exact ⟨_, blocks, hok, by rw [if_neg hnone]; rfl⟩

/-- An answer is shown exactly if every text that is decoded for it holds
no number beyond the code points. -/
theorem returns_iff (env : LabelEnv) (html : List Nat) : Returns env html ↔ HtmlDecodable env html := by
  have hparse : (∃ report, parseLoanStatusReport env html = .ok report)
      ↔ ∃ lines, htmlToTextLines html = .ok lines := Matcher.exists_bind_pure
  unfold Returns HtmlDecodable IsLoanStatus
  rw [← htmlToTextLines_ok, ← genericHtmlToReportSpec_ok, ← hparse]
  unfold htmlToReportSpec loanStatusHtmlToReportSpec
  cases hreport : parseLoanStatusReport env html with
  | error e => exact iff_of_false (fun ⟨_, h⟩ => nomatch h) fun ⟨⟨_, h⟩, _⟩ => nomatch h
  | ok report =>
    cases report with
    | some report =>
      exact iff_of_true ⟨_, rfl⟩ ⟨⟨_, rfl⟩, fun h => absurd ⟨report, rfl⟩ h⟩
    | none =>
      have hstack : (∃ spec, (do
          let elements ← genericHtmlToReportSpec html
          return .stack elements : Except RangeError HtmlReportSpec) = .ok spec)
          ↔ ∃ elements, genericHtmlToReportSpec html = .ok elements := Matcher.exists_bind_pure
      constructor
      · intro h
        exact ⟨⟨none, rfl⟩, fun _ => hstack.mp h⟩
      · intro ⟨_, h⟩
        exact hstack.mpr (h fun ⟨_, hsome⟩ => nomatch hsome)

/-- When escaping is undone, and when an answer is shown. -/
theorem entities_iff (env : LabelEnv) (text html : List Nat) :
    (DecodesEscape text ↔ ShowsNoReference text) ∧ (Returns env html ↔ HtmlDecodable env html) :=
  ⟨decodesEscape_iff text, returns_iff env html⟩

/-- A text that shows a reference, and a number beyond the code points. -/
theorem not_entities : ¬ DecodesEscape (units "&lt;")
    ∧ ¬ Returns { toLowerCase := List.map lowerUnit, stripDiacritics := id } (units "<p>&#1114112;</p>") := by
  constructor
  · intro h
    have hdecoded : (decodeHtmlEntities (escapeHtml (units "&lt;"))).toOption = some (units "<") := by
      decide +kernel
    rw [h] at hdecoded
    exact absurd (Option.some.inj hdecoded) (by decide +kernel)
  · intro ⟨spec, h⟩
    have hthrown : (htmlToReportSpec { toLowerCase := List.map lowerUnit, stripDiacritics := id }
        (units "<p>&#1114112;</p>")).toOption.isNone = true := by decide +kernel
    rw [h] at hthrown
    cases hthrown

end LendingClaw.Ui

/-
LendingClaw.Lib.Csv — the record reader of `encoding/csv`, with
`Comma = ','`, `Comment = '#'`, `TrimLeadingSpace`, and without
`LazyQuotes`.

`readRecord` reads the first record of a text: line ends normalised,
empty and comment lines skipped, then a machine of four states over the
characters. `none` is any of its errors (a bare quote, a quote not
closed, text after a closing quote, no record at all).

Two facts are developed. `readFields_joined`: fields without comma,
quote, line end or leading blank are read back from their joined line as
they are. `readFields_weight`: reading never gains weight, where a blank
weighs 1 and any other character 5, and a text that is not `Plain` loses
at least 5; so a reader that changes anything at all moves strictly down.

Nothing here names a program.
-/
import Mathlib.Algebra.BigOperators.Group.List.Basic
import Mathlib.Algebra.Order.Ring.Nat
import LendingClaw.Lib.Strings

namespace LendingClaw.Lib.Csv

/-- The quotation mark. -/
def quote : Char := '\x22'

/-- `readLine`: `\r\n` becomes `\n`, and a `\r` before the end is dropped. -/
def normalize : List Char → List Char
  | [] => []
  | c :: cs =>
    if c = '\r' ∧ (cs = [] ∨ cs.head? = some '\n') then normalize cs else c :: normalize cs

/-- Skip the empty lines and the comment lines; `inComment` is set within
a comment line. -/
def skipLines : (inComment : Bool) → List Char → List Char
  | _, [] => []
  | true, c :: cs => skipLines (c != '\n') cs
  | false, c :: cs =>
    if c = '\n' then skipLines false cs
    else if c = '#' then skipLines true cs
    else c :: cs

/-- Where the reader is: before a field, in one without quotes, in one
with quotes, or right after a quote inside one. -/
inductive State where
  | start
  | unquoted
  | quoted
  | closing
  deriving DecidableEq

/-- The field being read and the fields after it. -/
abbrev Fields := List Char × List (List Char)

def push (c : Char) (r : Fields) : Fields := (c :: r.1, r.2)

def nextField (r : Fields) : Fields := ([], r.1 :: r.2)

/-- The fields of the record; a record ends with its line, unless the
line end is quoted. -/
def readFields : State → List Char → Option Fields
  | .start, [] => some ([], [])
  | .start, c :: cs =>
    if c = '\n' then some ([], [])
    else if isSpace c then readFields .start cs
    else if c = ',' then (readFields .start cs).map nextField
    else if c = quote then readFields .quoted cs
    else (readFields .unquoted cs).map (push c)
  | .unquoted, [] => some ([], [])
  | .unquoted, c :: cs =>
    if c = '\n' then some ([], [])
    else if c = ',' then (readFields .start cs).map nextField
    else if c = quote then none
    else (readFields .unquoted cs).map (push c)
  | .quoted, [] => none
  | .quoted, c :: cs =>
    if c = quote then readFields .closing cs
    else (readFields .quoted cs).map (push c)
  | .closing, [] => some ([], [])
  | .closing, c :: cs =>
    if c = '\n' then some ([], [])
    else if c = ',' then (readFields .start cs).map nextField
    else if c = quote then (readFields .quoted cs).map (push quote)
    else none

/-- `Reader.Read`, for the first record. -/
def readRecord (text : List Char) : Option (List (List Char)) :=
  match skipLines false (normalize text) with
  | [] => none
  | line => (readFields .start line).map (fun r => r.1 :: r.2)

/-! ## Plain text -/

/-- Text without quotes and line ends. -/
def Plain (cs : List Char) : Prop := quote ∉ cs ∧ '\n' ∉ cs

instance (cs : List Char) : Decidable (Plain cs) := by
  unfold Plain
  infer_instance

theorem plain_cons {c : Char} {cs : List Char} :
    Plain (c :: cs) ↔ (c ≠ quote ∧ c ≠ '\n') ∧ Plain cs := by
  simp only [Plain, List.mem_cons, not_or]
  constructor
  · intro h
    exact ⟨⟨Ne.symm h.1.1, Ne.symm h.2.1⟩, h.1.2, h.2.2⟩
  · intro h
    exact ⟨⟨Ne.symm h.1.1, h.2.1⟩, Ne.symm h.1.2, h.2.2⟩

/-! ## One character at a time -/

theorem start_blank {c : Char} (hs : isSpace c = true) (hn : c ≠ '\n') (cs : List Char) :
    readFields .start (c :: cs) = readFields .start cs := by
  rw [readFields, if_neg hn, if_pos hs]

theorem start_char {c : Char} (hs : isSpace c = false) (hc : c ≠ ',') (hq : c ≠ quote)
    (cs : List Char) :
    readFields .start (c :: cs) = (readFields .unquoted cs).map (push c) := by
  have hn : c ≠ '\n' := by
    intro h
    subst h
    exact absurd hs (by decide)
  rw [readFields, if_neg hn, if_neg (by simp [hs]), if_neg hc, if_neg hq]

theorem unquoted_comma (cs : List Char) :
    readFields .unquoted (',' :: cs) = (readFields .start cs).map nextField := rfl

theorem unquoted_char {c : Char} (hn : c ≠ '\n') (hc : c ≠ ',') (hq : c ≠ quote)
    (cs : List Char) :
    readFields .unquoted (c :: cs) = (readFields .unquoted cs).map (push c) := by
  rw [readFields, if_neg hn, if_neg hc, if_neg hq]

/-- Outside quotes. -/
def State.Open (st : State) : Prop := st = .start ∨ st = .unquoted

/-- What a character does: it is dropped, it goes into the field, or it
is the comma after it. -/
inductive Move (st : State) (c : Char) (cs : List Char) (r : Fields) : Prop where
  | drop (h : readFields st cs = some r) (hs : isSpace c = true)
  | push {r' : Fields} (h : readFields st cs = some r') (hr : r = push c r') (hc : c ≠ ',')
  | next {r' : Fields} (h : readFields st cs = some r') (hr : r = nextField r') (hc : c = ',')

/-- Reading on outside quotes. -/
theorem readFields_open {st : State} {c : Char} {cs : List Char} {r : Fields} (hst : st.Open)
    (hr : readFields st (c :: cs) = some r) :
    c = '\n' ∧ r = ([], []) ∨ c = quote ∧ readFields .quoted cs = some r
      ∨ (c ≠ quote ∧ c ≠ '\n') ∧ ∃ st' : State, st'.Open ∧ Move st' c cs r := by
  by_cases hn : c = '\n'
  · subst hn
    rcases hst with rfl | rfl <;> exact Or.inl ⟨rfl, (Option.some.inj hr).symm⟩
  by_cases hc : c = ','
  · subst hc
    have hrec : (readFields .start cs).map nextField = some r := by
      rcases hst with rfl | rfl <;> exact hr
    obtain ⟨r', hr', rfl⟩ := Option.map_eq_some_iff.mp hrec
    exact Or.inr (Or.inr ⟨⟨by decide, hn⟩, .start, Or.inl rfl, .next hr' rfl rfl⟩)
  by_cases hq : c = quote
  · subst hq
    rcases hst with rfl | rfl
    · exact Or.inr (Or.inl ⟨rfl, hr⟩)
    · cases hr
  refine Or.inr (Or.inr ⟨⟨hq, hn⟩, ?_⟩)
  rcases hst with rfl | rfl
  · cases hs : isSpace c with
    | true =>
      rw [start_blank hs hn] at hr
      exact ⟨.start, Or.inl rfl, .drop hr hs⟩
    | false =>
      rw [start_char hs hc hq] at hr
      obtain ⟨r', hr', hrr⟩ := Option.map_eq_some_iff.mp hr
      exact ⟨.unquoted, Or.inr rfl, .push hr' hrr.symm hc⟩
  · rw [unquoted_char hn hc hq] at hr
    obtain ⟨r', hr', hrr⟩ := Option.map_eq_some_iff.mp hr
    exact ⟨.unquoted, Or.inr rfl, .push hr' hrr.symm hc⟩

/-- Plain text has one field more than commas. -/
theorem readFields_length {cs : List Char} (h : Plain cs) :
    ∀ {st : State} {r : Fields}, st.Open → readFields st cs = some r →
      r.2.length = cs.count ',' := by
  induction cs with
  | nil =>
    intro st r hst hr
    rcases hst with rfl | rfl <;> simp [readFields] at hr <;> simp [← hr]
  | cons c cs ih =>
    intro st r hst hr
    obtain ⟨⟨hq, hn⟩, hcs⟩ := plain_cons.mp h
    rcases readFields_open hst hr with ⟨hc, -⟩ | ⟨hc, -⟩ | ⟨-, st', hst', hmove⟩
    · exact absurd hc hn
    · exact absurd hc hq
    · cases hmove with
      | drop h hs =>
        have hc : c ≠ ',' := by
          intro hc
          subst hc
          exact absurd hs (by decide)
        rw [List.count_cons_of_ne hc]
        exact ih hcs hst' h
      | push h hr hc =>
        have hlen := ih hcs hst' h
        rw [List.count_cons_of_ne hc, hr]
        exact hlen
      | next h hr hc =>
        have hlen := ih hcs hst' h
        rw [hr, hc]
        simp [nextField, hlen]

/-! ## The round trip of plain fields -/

/-- A field that needs no quotes: not empty, no comma, no quote, no line
end, no blank at either end. -/
structure PlainField (f : List Char) : Prop where
  nonempty : f ≠ []
  trimmed : trimChars f = f
  plain : Plain f
  comma : ',' ∉ f

/-- Characters of an unquoted field up to the separator or the end. -/
theorem unquoted_append {f : List Char} (hp : Plain f) (hc : ',' ∉ f) (cs : List Char) :
    readFields .unquoted (f ++ cs)
      = (readFields .unquoted cs).map (fun r => (f ++ r.1, r.2)) := by
  induction f with
  | nil => simp
  | cons c f ih =>
    obtain ⟨⟨hq, hn⟩, hp⟩ := plain_cons.mp hp
    rw [List.mem_cons, not_or] at hc
    rw [List.cons_append, unquoted_char hn (Ne.symm hc.1) hq, ih hp hc.2, Option.map_map]
    rfl

theorem start_field {f : List Char} (hf : PlainField f) (cs : List Char) :
    readFields .start (f ++ cs)
      = (readFields .unquoted cs).map (fun r => (f ++ r.1, r.2)) := by
  obtain ⟨hne, ht, hp, hc⟩ := hf
  have hl := trimLeft_of_trimChars ht
  cases f with
  | nil => exact absurd rfl hne
  | cons c f =>
    have hs : isSpace c = false := by
      by_contra hs
      rw [Bool.not_eq_false] at hs
      have hlen := congrArg List.length hl
      have hle := trimLeft_length_le f
      simp only [trimLeft, List.dropWhile_cons, hs, if_true] at hlen hle
      simp only [List.length_cons] at hlen
      omega
    obtain ⟨⟨hq, -⟩, hp⟩ := plain_cons.mp hp
    rw [List.mem_cons, not_or] at hc
    rw [List.cons_append, start_char hs (Ne.symm hc.1) hq, unquoted_append hp hc.2,
      Option.map_map]
    rfl

/-- The fields, each after a comma and a blank. -/
def joined (fs : List (List Char)) : List Char := fs.flatMap (fun f => ',' :: ' ' :: f)

@[simp] theorem joined_nil : joined [] = [] := rfl

@[simp] theorem joined_cons (f : List Char) (fs : List (List Char)) :
    joined (f :: fs) = ',' :: ' ' :: (f ++ joined fs) := rfl

/-- Plain fields are read back as they are. -/
theorem readFields_joined {fs : List (List Char)} (h : ∀ f ∈ fs, PlainField f) :
    readFields .unquoted (joined fs) = some ([], fs) := by
  induction fs with
  | nil => rfl
  | cons f fs ih =>
    have hf := h f List.mem_cons_self
    rw [joined_cons, unquoted_comma, start_blank (by decide) (by decide), start_field hf,
      ih fun g hg => h g (List.mem_cons_of_mem _ hg)]
    simp [nextField]

/-! ## Weight -/

/-- A blank weighs 1, any other character 5. -/
def weight (cs : List Char) : Nat := (cs.map (fun c => if isSpace c then 1 else 5)).sum

def Fields.weight (r : Fields) : Nat :=
  Csv.weight r.1 + (r.2.map Csv.weight).sum

@[simp] theorem weight_nil : weight [] = 0 := rfl

@[simp] theorem weight_cons (c : Char) (cs : List Char) :
    weight (c :: cs) = (if isSpace c then 1 else 5) + weight cs := by
  simp [weight]

theorem weight_append (as bs : List Char) : weight (as ++ bs) = weight as + weight bs := by
  simp [weight]

theorem weight_quote (cs : List Char) : weight (quote :: cs) = 5 + weight cs := by
  rw [weight_cons, if_neg (by decide)]

theorem weight_comma (cs : List Char) : weight (',' :: cs) = 5 + weight cs := by
  rw [weight_cons, if_neg (by decide)]

theorem weight_push (c : Char) (r : Fields) :
    (push c r).weight = (if isSpace c then 1 else 5) + r.weight := by
  simp only [Fields.weight, push, weight_cons]
  omega

theorem weight_nextField (r : Fields) : (nextField r).weight = r.weight := by
  simp [Fields.weight, nextField]

/-- Within quotes a character is dropped, kept or the comma after the
closing quote. -/
theorem readFields_quoted {st : State} {c : Char} {cs : List Char} {r : Fields}
    (hst : st = .quoted ∨ st = .closing) (hr : readFields st (c :: cs) = some r) :
    r = ([], []) ∨ (∃ st', readFields st' cs = some r)
      ∨ (∃ st' r', readFields st' cs = some r' ∧ r = push c r')
      ∨ c = ',' ∧ ∃ r', readFields .start cs = some r' ∧ r = nextField r' := by
  rcases hst with rfl | rfl
  · by_cases hq : c = quote
    · rw [readFields, if_pos hq] at hr
      exact Or.inr (Or.inl ⟨_, hr⟩)
    · rw [readFields, if_neg hq] at hr
      obtain ⟨r', hr', hrr⟩ := Option.map_eq_some_iff.mp hr
      exact Or.inr (Or.inr (Or.inl ⟨_, r', hr', hrr.symm⟩))
  · by_cases hn : c = '\n'
    · rw [readFields, if_pos hn] at hr
      exact Or.inl (Option.some.inj hr).symm
    by_cases hc : c = ','
    · rw [readFields, if_neg hn, if_pos hc] at hr
      obtain ⟨r', hr', hrr⟩ := Option.map_eq_some_iff.mp hr
      exact Or.inr (Or.inr (Or.inr ⟨hc, r', hr', hrr.symm⟩))
    by_cases hq : c = quote
    · rw [readFields, if_neg hn, if_neg hc, if_pos hq] at hr
      obtain ⟨r', hr', hrr⟩ := Option.map_eq_some_iff.mp hr
      exact Or.inr (Or.inr (Or.inl ⟨_, r', hr', by rw [hq]; exact hrr.symm⟩))
    · rw [readFields, if_neg hn, if_neg hc, if_neg hq] at hr
      cases hr

/-- Reading gains no weight, and each separator costs its own. -/
theorem readFields_weight {cs : List Char} :
    ∀ {st : State} {r : Fields}, readFields st cs = some r →
      r.weight + 5 * r.2.length ≤ weight cs := by
  induction cs with
  | nil =>
    intro st r hr
    cases st <;> simp [readFields] at hr <;> subst hr <;> simp [Fields.weight]
  | cons c cs ih =>
    have hnil : ∀ n, Fields.weight ([], []) + 5 * ([] : List (List Char)).length ≤ n := by
      simp [Fields.weight]
    have hdrop : ∀ {st r}, readFields st cs = some r →
        r.weight + 5 * r.2.length ≤ weight (c :: cs) := by
      intro st r h
      have hle := ih h
      rw [weight_cons]
      omega
    have hpush : ∀ {st r'}, readFields st cs = some r' →
        (push c r').weight + 5 * (push c r').2.length ≤ weight (c :: cs) := by
      intro st r' h
      have hle := ih h
      rw [weight_push, weight_cons]
      simp only [push]
      omega
    have hnext : ∀ {st r'}, c = ',' → readFields st cs = some r' →
        (nextField r').weight + 5 * (nextField r').2.length ≤ weight (c :: cs) := by
      intro st r' hc h
      have hle := ih h
      rw [hc, weight_nextField, weight_comma]
      simp only [nextField, List.length_cons]
      omega
    intro st r hr
    by_cases hst : st.Open
    · rcases readFields_open hst hr with ⟨-, rfl⟩ | ⟨-, h⟩ | ⟨-, st', -, hmove⟩
      · exact hnil _
      · exact hdrop h
      · cases hmove with
        | drop h hs => exact hdrop h
        | push h hr hc => exact hr ▸ hpush h
        | next h hr hc => exact hr ▸ hnext hc h
    · have hst' : st = .quoted ∨ st = .closing := by
        cases st <;> simp [State.Open] at hst ⊢
      rcases readFields_quoted hst' hr with
        rfl | ⟨st', h⟩ | ⟨st', r', h, rfl⟩ | ⟨hc, r', h, rfl⟩
      · exact hnil _
      · exact hdrop h
      · exact hpush h
      · exact hnext hc h

/-- The text does not end in a blank. -/
def EndsInk (cs : List Char) : Prop := ∀ c ∈ cs.getLast?, isSpace c = false

theorem endsInk_tail {c : Char} {cs : List Char} (h : EndsInk (c :: cs)) : EndsInk cs := by
  cases cs with
  | nil => simp [EndsInk]
  | cons d cs => simpa [EndsInk, List.getLast?_cons_cons] using h

theorem weight_of_endsInk {cs : List Char} (h : EndsInk cs) (hne : cs ≠ []) :
    5 ≤ weight cs := by
  induction cs with
  | nil => exact absurd rfl hne
  | cons c cs ih =>
    rw [weight_cons]
    cases cs with
    | nil =>
      have hs : isSpace c = false := by simpa [EndsInk] using h
      simp [hs]
    | cons d cs =>
      have hle := ih (endsInk_tail h) (by simp)
      omega

/-- Text that is not plain loses weight: a quote that opens a field, or
what stands behind the line end. -/
theorem readFields_loses {cs : List Char} :
    ∀ {st : State} {r : Fields}, st.Open → EndsInk cs → ¬ Plain cs →
      readFields st cs = some r → r.weight + 5 * r.2.length + 5 ≤ weight cs := by
  induction cs with
  | nil =>
    intro st r hst hink hp
    exact absurd (by simp [Plain]) hp
  | cons c cs ih =>
    intro st r hst hink hp hr
    rcases readFields_open hst hr with ⟨hc, rfl⟩ | ⟨hc, h⟩ | ⟨hc, st', hst', hmove⟩
    · have hle := weight_of_endsInk hink (by simp)
      simpa [Fields.weight] using hle
    · have hle := readFields_weight h
      rw [hc, weight_quote]
      omega
    · have hp' : ¬ Plain cs := fun h => hp (plain_cons.mpr ⟨hc, h⟩)
      have hink' := endsInk_tail hink
      cases hmove with
      | drop h hs =>
        have hle := ih hst' hink' hp' h
        rw [weight_cons]
        omega
      | push h hr hc =>
        have hle := ih hst' hink' hp' h
        rw [hr, weight_push, weight_cons]
        simp only [push]
        omega
      | next h hr hc =>
        have hle := ih hst' hink' hp' h
        rw [hr, hc, weight_nextField, weight_comma]
        simp only [nextField, List.length_cons]
        omega

/-! ## Records -/

theorem normalize_cons (c : Char) (cs : List Char) :
    normalize (c :: cs) = c :: normalize cs
      ∨ c = '\r' ∧ (cs = [] ∨ cs.head? = some '\n') ∧ normalize (c :: cs) = normalize cs := by
  rw [normalize]
  split
  · rename_i h
    exact Or.inr ⟨h.1, h.2, rfl⟩
  · exact Or.inl rfl

theorem normalize_cons_of_ne {c : Char} (h : c ≠ '\r') (cs : List Char) :
    normalize (c :: cs) = c :: normalize cs := by
  rw [normalize, if_neg fun hc => h hc.1]

theorem normalize_weight (cs : List Char) : weight (normalize cs) ≤ weight cs := by
  induction cs with
  | nil => simp [normalize]
  | cons c cs ih =>
    rcases normalize_cons c cs with h | ⟨-, -, h⟩ <;> rw [h] <;> simp only [weight_cons] <;>
      omega

theorem mem_normalize {c : Char} (hc : c ≠ '\r') {cs : List Char} :
    c ∈ normalize cs ↔ c ∈ cs := by
  induction cs with
  | nil => simp [normalize]
  | cons d cs ih =>
    rcases normalize_cons d cs with h | ⟨hd, -, h⟩ <;> rw [h]
    · rw [List.mem_cons, List.mem_cons, ih]
    · rw [List.mem_cons, ih, hd]
      simp [hc]

theorem plain_normalize {cs : List Char} : Plain (normalize cs) ↔ Plain cs := by
  rw [Plain, Plain, mem_normalize (by decide), mem_normalize (by decide)]

theorem normalize_of_plain {cs : List Char} (hp : Plain cs) (hink : EndsInk cs) :
    normalize cs = cs := by
  induction cs with
  | nil => rfl
  | cons c cs ih =>
    have hp' := (plain_cons.mp hp).2
    rcases normalize_cons c cs with h | ⟨rfl, hcs, -⟩
    · rw [h, ih hp' (endsInk_tail hink)]
    · rcases hcs with rfl | hcs
      · exact absurd (hink '\r' (by simp)) (by decide)
      · exact absurd (List.mem_of_mem_head? hcs) hp'.2

/-- What normalisation takes away are blanks, and the last character is
none. -/
theorem getLast?_normalize {cs : List Char} (h : EndsInk cs) :
    (normalize cs).getLast? = cs.getLast? := by
  induction cs with
  | nil => rfl
  | cons c cs ih =>
    have ih := ih (endsInk_tail h)
    cases cs with
    | nil =>
      rcases normalize_cons c [] with hn | ⟨rfl, -, -⟩
      · rw [hn]
        rfl
      · exact absurd (h '\r' (by simp)) (by decide)
    | cons d cs =>
      rcases normalize_cons c (d :: cs) with hn | ⟨-, -, hn⟩
      · rw [hn, List.getLast?_cons, ih, List.getLast?_cons_cons]
        simp [List.getLast?_cons]
      · rw [hn, ih, List.getLast?_cons_cons]

theorem endsInk_normalize {cs : List Char} (h : EndsInk cs) : EndsInk (normalize cs) := by
  unfold EndsInk
  rw [getLast?_normalize h]
  exact h

/-- The first character of a record that is neither blank nor special. -/
structure KeyChar (c : Char) : Prop where
  blank : isSpace c = false
  comma : c ≠ ','
  quote : c ≠ quote
  comment : c ≠ '#'

theorem KeyChar.readRecord {c : Char} (hc : KeyChar c) (cs : List Char) :
    readRecord (c :: cs)
      = (readFields .unquoted (normalize cs)).map (fun r => (c :: r.1) :: r.2) := by
  have hr : c ≠ '\r' := by
    intro h
    subst h
    exact absurd hc.blank (by decide)
  have hn : c ≠ '\n' := by
    intro h
    subst h
    exact absurd hc.blank (by decide)
  have hskip : skipLines false (c :: normalize cs) = c :: normalize cs := by
    rw [skipLines, if_neg hn, if_neg hc.comment]
  rw [Csv.readRecord, normalize_cons_of_ne hr, hskip]
  simp only
  rw [start_char hc.blank hc.comma hc.quote, Option.map_map]
  rfl

theorem endsInk_append (as : List Char) {bs : List Char} (hb : bs ≠ []) (h : EndsInk bs) :
    EndsInk (as ++ bs) := by
  unfold EndsInk
  rw [List.getLast?_append_of_ne_nil _ hb]
  exact h

/-- A trimmed field does not end in a blank. -/
theorem endsInk_of_trimmed {f : List Char} (h : trimChars f = f) : EndsInk f := by
  intro c hc
  have hself : f.rdropWhile isSpace = f := by
    have hr := h
    rw [trimChars, trimLeft_of_trimChars h] at hr
    exact hr
  have hne : f ≠ [] := by
    intro hnil
    simp [hnil] at hc
  have hlast := List.rdropWhile_eq_self_iff.mp hself hne
  rw [List.getLast?_eq_some_getLast hne] at hc
  cases hc
  simpa using hlast

theorem endsInk_joined {fs : List (List Char)} (h : ∀ f ∈ fs, f ≠ [] ∧ trimChars f = f) :
    EndsInk (joined fs) := by
  induction fs with
  | nil => simp [EndsInk]
  | cons f fs ih =>
    have ih := ih fun g hg => h g (List.mem_cons_of_mem _ hg)
    obtain ⟨hne, ht⟩ := h f List.mem_cons_self
    rw [joined_cons]
    cases fs with
    | nil =>
      rw [joined_nil, List.append_nil]
      exact endsInk_append [',', ' '] hne (endsInk_of_trimmed ht)
    | cons g gs =>
      exact endsInk_append (',' :: ' ' :: f) (by simp) ih

theorem weight_joined (fs : List (List Char)) :
    weight (joined fs) = 6 * fs.length + (fs.map weight).sum := by
  induction fs with
  | nil => rfl
  | cons f fs ih =>
    have hb : isSpace ' ' = true := by decide
    rw [joined_cons, weight_comma, weight_cons, weight_append, ih, if_pos hb]
    simp only [List.length_cons, List.map_cons, List.sum_cons]
    omega

theorem count_joined (fs : List (List Char)) :
    (joined fs).count ',' = fs.length + (fs.map (List.count ',')).sum := by
  induction fs with
  | nil => rfl
  | cons f fs ih =>
    rw [joined_cons, List.count_cons_self, List.count_cons_of_ne (by decide), List.count_append,
      ih]
    simp only [List.length_cons, List.map_cons, List.sum_cons]
    omega

theorem plain_joined {fs : List (List Char)} : Plain (joined fs) ↔ ∀ f ∈ fs, Plain f := by
  induction fs with
  | nil => simp [Plain]
  | cons f fs ih =>
    rw [joined_cons, plain_cons, plain_cons]
    have happ : Plain (f ++ joined fs) ↔ Plain f ∧ Plain (joined fs) := by
      simp only [Plain, List.mem_append, not_or]
      constructor
      · intro h
        exact ⟨⟨h.1.1, h.2.1⟩, h.1.2, h.2.2⟩
      · intro h
        exact ⟨⟨h.1.1, h.2.1⟩, h.1.2, h.2.2⟩
    have hsep : (',' ≠ quote ∧ ',' ≠ '\n') ∧ (' ' ≠ quote ∧ ' ' ≠ '\n') := by decide
    rw [happ, ih, List.forall_mem_cons]
    exact ⟨fun h => h.2.2, fun h => ⟨hsep.1, hsep.2, h⟩⟩

/-- Plain fields behind a key are read back as they are. -/
theorem KeyChar.readRecord_joined {c : Char} (hc : KeyChar c) {fs : List (List Char)}
    (h : ∀ f ∈ fs, PlainField f) : Csv.readRecord (c :: joined fs) = some ([c] :: fs) := by
  have hnorm : normalize (joined fs) = joined fs :=
    normalize_of_plain (plain_joined.mpr fun f hf => (h f hf).plain)
      (endsInk_joined fun f hf => ⟨(h f hf).nonempty, (h f hf).trimmed⟩)
  rw [hc.readRecord, hnorm, readFields_joined h]
  rfl

/-- Trimmed fields behind a key are read back as they are and plain, or
what is read, if it has at least as many fields and no more than four,
weighs less. -/
theorem KeyChar.readRecord_cases {c : Char} (hc : KeyChar c) {fs : List (List Char)}
    (hfs : ∀ f ∈ fs, f ≠ [] ∧ trimChars f = f) {k : List Char} {out : List (List Char)}
    (h : Csv.readRecord (c :: joined fs) = some (k :: out)) (hle : fs.length ≤ out.length)
    (hfour : out.length ≤ 4) :
    out = fs ∧ (∀ f ∈ fs, PlainField f) ∨ (out.map weight).sum < (fs.map weight).sum := by
  rw [hc.readRecord] at h
  obtain ⟨r, hr, hrec⟩ := Option.map_eq_some_iff.mp h
  simp only [List.cons.injEq] at hrec
  obtain ⟨-, rfl⟩ := hrec
  have hink := endsInk_joined hfs
  have hweight := normalize_weight (joined fs)
  rw [weight_joined] at hweight
  by_cases hp : Plain (joined fs)
  · rw [normalize_of_plain hp hink] at hr
    have hlen := readFields_length hp (Or.inr rfl) hr
    rw [count_joined] at hlen
    by_cases heq : r.2.length = fs.length
    · -- no comma within a field
      have hzero : (fs.map (List.count ',')).sum = 0 := by omega
      have hplain : ∀ f ∈ fs, PlainField f := by
        intro f hf
        have hcount : f.count ',' = 0 := by
          rw [List.sum_eq_zero_iff_forall_eq_nat] at hzero
          exact hzero _ (List.mem_map.mpr ⟨f, hf, rfl⟩)
        exact ⟨(hfs f hf).1, (hfs f hf).2, plain_joined.mp hp f hf,
          List.count_eq_zero.mp hcount⟩
      rw [readFields_joined hplain] at hr
      cases hr
      exact Or.inl ⟨rfl, hplain⟩
    · right
      have hloss := readFields_weight hr
      rw [weight_joined] at hloss
      simp only [Fields.weight] at hloss
      omega
  · right
    have hloss := readFields_loses (Or.inr rfl) (endsInk_normalize hink)
      (fun hn => hp (plain_normalize.mp hn)) hr
    simp only [Fields.weight] at hloss
    omega

end LendingClaw.Lib.Csv

/-
LendingClaw.Tools.ScrubTheorems — what scrubbing takes out of a text.

A key, whose secret is the whole match of a pattern, is out of the text
once its own pattern has run (`not_infix_scrubChars`). A secret behind a
keyword is followed through the patterns before its own: the key
patterns leave the words before it, or take parts of a user name
(`Scan.head_kept`); the later ones run on to the end of the word or do
not reach it. `scrub_removes_documented` puts the two together, and
`documented_leaks` has one leak for each thing that it asks for.
-/
import LendingClaw.Lib.Strings
import LendingClaw.Tools.Registry
import LendingClaw.Tools.Scrub

namespace LendingClaw.Tools.Scrub

open Lib Lib.Regex

/-! ## What the patterns take -/

theorem lit_within {p : Char → Bool} {s : String} (h : s.toList.all p = true) :
    (lit s).Within p := by
  refine within_word fun q hq c hc => ?_
  obtain ⟨d, hd, rfl⟩ := List.mem_map.mp hq
  rw [beq_iff_eq.mp hc]
  exact List.all_eq_true.mp h d hd

theorem mem_lit {s : String} {cs : List Char} : cs ∈ (lit s).language ↔ cs = s.toList := by
  rw [lit, mem_word, List.forall₂_map_left_iff]
  simp only [beq_iff_eq, eq_comm (a := cs)]
  constructor
  · intro h
    rw [← List.forall₂_eq_eq_eq]
    exact h.imp fun _ _ he => he.symm
  · rintro rfl
    exact List.forall₂_same.mpr fun _ _ => rfl

theorem mem_litFold {s : String} {cs : List Char} : cs ∈ (litFold s).language ↔ Spells s cs := by
  rw [litFold, mem_word, List.forall₂_map_left_iff]
  rfl

/-- The letters of a spelling. -/
theorem Spells.all {s : String} {cs : List Char} (h : Spells s cs) {p : Char → Bool}
    (hs : ∀ c ∈ s.toList, ∀ d, folds c d = true → p d = true) : ∀ d ∈ cs, p d = true := by
  unfold Spells at h
  generalize s.toList = l at h hs
  induction h with
  | nil => exact nofun
  | @cons c d l cs hcd _ ih =>
    intro e he
    rcases List.mem_cons.mp he with rfl | he
    · exact hs c List.mem_cons_self e hcd
    · exact ih (fun c' hc' => hs c' (List.mem_cons_of_mem c hc')) e he

theorem Spells.length_eq {s : String} {cs : List Char} (h : Spells s cs) :
    cs.length = s.toList.length :=
  (List.Forall₂.length_eq h).symm

theorem isAlpha_of_isUpper {c : Char} (h : c.isUpper = true) : c.isAlpha = true :=
  (Bool.or_eq_true _ _).mpr (.inl h)

theorem isAlpha_of_toLower {d : Char} (h : d.toLower.isAlpha = true) : d.isAlpha = true := by
  delta Char.toLower at h
  split at h
  · rename_i hupper
    exact isAlpha_of_isUpper (decide_eq_true hupper)
  · exact h

/-- A letter of a pattern stands for characters of a name. -/
theorem isNameChar_of_folds {c d : Char} (hc : c.toLower.isAlpha = true)
    (h : folds c d = true) : isNameChar d = true := by
  simp only [folds, Bool.or_eq_true, Bool.and_eq_true, beq_iff_eq] at h
  rcases h with ((rfl | h) | ⟨-, rfl⟩) | ⟨-, rfl⟩
  · simp [isNameChar, isAlpha_of_toLower hc]
  · simp [isNameChar, isAlpha_of_toLower (h ▸ hc)]
  · rfl
  · rfl

theorem Spells.name {s : String} {cs : List Char} (h : Spells s cs)
    (hs : s.toList.all (fun c => c.toLower.isAlpha) = true) : ∀ d ∈ cs, isNameChar d = true :=
  h.all fun c hc _ => isNameChar_of_folds (List.all_eq_true.mp hs c hc)

theorem litFold_within {s : String} (hs : s.toList.all (fun c => c.toLower.isAlpha) = true) :
    (litFold s).Within isNameChar := by
  refine within_word fun q hq c hc => ?_
  obtain ⟨d, hd, rfl⟩ := List.mem_map.mp hq
  exact isNameChar_of_folds (List.all_eq_true.mp hs d hd) hc

/-- `[a-zA-Z0-9_-]`, of which the keys are made. -/
def isRunChar (c : Char) : Bool := c.isAlphanum || c == '-' || c == '_'

/-- The first eight patterns. -/
def keyPatterns : List (Regex Char) :=
  [openAI, anthropic, github "ghp_", github "gho_", github "ghu_", github "ghs_", github "ghr_", aws]

theorem credentialPatterns_eq :
    credentialPatterns = keyPatterns ++ [keyValue, connection, envVar, dsn, longHex] := rfl

theorem keyPatterns_within : ∀ r ∈ keyPatterns, r.Within isRunChar := by
  have hkey : (cls isKeyChar).Within isRunChar := fun c hc => by
    simp only [isRunChar, show c.isAlphanum = true from hc, Bool.true_or]
  have hdash : (cls isKeyDash).Within isRunChar := fun c hc => by
    simp only [isRunChar, show (c.isAlphanum || c == '-') = true from hc, Bool.true_or]
  have hupper : (cls isUpperDigit).Within isRunChar := fun c hc => by
    rcases Bool.or_eq_true _ _ |>.mp hc with hc | hc
    · simp [isRunChar, Char.isAlphanum, isAlpha_of_isUpper hc]
    · simp [isRunChar, Char.isAlphanum, hc]
  simp only [keyPatterns, List.forall_mem_cons, List.not_mem_nil, false_implies, implies_true,
    and_true]
  refine ⟨⟨lit_within ?_, hkey.atLeast 20⟩, ⟨lit_within ?_, hdash.atLeast 20⟩,
    ⟨lit_within ?_, hkey.times 36⟩, ⟨lit_within ?_, hkey.times 36⟩, ⟨lit_within ?_, hkey.times 36⟩,
    ⟨lit_within ?_, hkey.times 36⟩, ⟨lit_within ?_, hkey.times 36⟩,
    ⟨lit_within ?_, hupper.times 16⟩⟩ <;> rfl

theorem keyPatterns_least : ∀ r ∈ keyPatterns, 20 ≤ r.least :=
  forall_mem_of_all (p := fun r : Regex Char => 20 ≤ r.least) rfl

theorem least_pos : ∀ r ∈ credentialPatterns, 0 < r.least :=
  forall_mem_of_all (p := fun r : Regex Char => 0 < r.least) rfl

/-- A class without the five blanks. -/
theorem isBlank_eq_false {p : Char → Bool}
    (hp : [' ', '\t', '\n', '\r', '\x0c'].all (fun c => !p c) = true) {c : Char} (hc : p c = true) :
    isBlank c = false := by
  rw [← Bool.not_eq_true]
  intro hb
  have hmem : c ∈ [' ', '\t', '\n', '\r', '\x0c'] := by
    simpa [isBlank, or_assoc] using hb
  simpa [hc] using List.all_eq_true.mp hp c hmem

/-- A character outside of a class is none of its characters. -/
theorem ne_of_class {p : Char → Bool} {c d : Char} (hc : p c = true) (hd : p d = false) :
    c ≠ d := by
  rintro rfl
  rw [hc] at hd
  cases hd

theorem notBlank_of_runChar {c : Char} (h : isRunChar c = true) : notBlank c = true := by
  rw [notBlank, isBlank_eq_false rfl h]
  rfl

theorem notBlank_of_nameChar {c : Char} (h : isNameChar c = true) : notBlank c = true := by
  rw [notBlank, isBlank_eq_false rfl h]
  rfl

theorem isQuote_eq_false {p : Char → Bool} (hp : ['\x22', '\x27'].all (fun c => !p c) = true)
    {c : Char} (hc : p c = true) : isQuote c = false := by
  rw [← Bool.not_eq_true]
  intro hq
  have hmem : c ∈ ['\x22', '\x27'] := by simpa [isQuote] using hq
  simpa [hc] using List.all_eq_true.mp hp c hmem

theorem hostChar_of_nameChar {c : Char} (h : isNameChar c = true) : isHostChar c = true := by
  rw [isHostChar, notBlank_of_nameChar h, isQuote_eq_false rfl h]
  rfl

theorem valueChar_of_envChar {c : Char} (h : isEnvChar c = true) : isValueChar c = true := by
  have hne : c ≠ '[' := ne_of_class h rfl
  simp [isValueChar, hne, notBlank, isBlank_eq_false rfl h]

theorem keyValue_runsOut : keyValue.RunsOut notBlank := by
  refine RunsOut.seq (RunsOut.seq (RunsOut.seq (RunsOut.seq (RunsOut.seq ?_ _) _) _) _) _
  refine (runsOut_atLeast notBlank 8).opt fun c hc => ?_
  rcases Bool.or_eq_true _ _ |>.mp hc with hc | hc <;> rw [beq_iff_eq.mp hc] <;> rfl

theorem keyValue_endsIn : keyValue.EndsIn notBlank := by
  have hquote : (opt (cls isQuote)).Within notBlank := ⟨fun c hc => by
    rcases Bool.or_eq_true _ _ |>.mp hc with hc | hc <;> rw [beq_iff_eq.mp hc] <;> rfl, trivial⟩
  have hvalue : (atLeast 8 (cls notBlank)).Within notBlank := (within_cls fun _ hc => hc).atLeast 8
  have hend : (seq (atLeast 8 (cls notBlank)) (opt (cls isQuote))).EndsIn notBlank :=
    Within.endsIn ⟨hvalue, hquote⟩
  refine EndsIn.seq (EndsIn.seq (EndsIn.seq (EndsIn.seq (EndsIn.seq hend ?_ _) ?_ _) ?_ _) ?_ _) ?_ _
    <;> decide

theorem connection_runsOut : connection.RunsOut isHostChar :=
  ((runsOut_atLeast isHostChar 1).seq _).seq _

theorem notBlank_of_hostChar {c : Char} (h : isHostChar c = true) : notBlank c = true :=
  (Bool.and_eq_true _ _ |>.mp h).1

theorem notBlank_of_valueChar {c : Char} (h : isValueChar c = true) : notBlank c = true :=
  (Bool.and_eq_true _ _ |>.mp h).2

theorem connection_within : connection.Within notBlank := by
  refine ⟨within_choice fun r hr => ?_, lit_within rfl,
    (within_cls fun _ hc => notBlank_of_hostChar hc).atLeast 1⟩
  obtain ⟨s, hs, rfl⟩ := List.mem_map.mp hr
  have halpha := List.all_eq_true.mp
    (show schemes.all (fun s => s.toList.all fun c => c.toLower.isAlpha) = true from rfl) s hs
  exact (litFold_within halpha).mono fun _ hc => notBlank_of_nameChar hc

/-- A connection string has a colon. -/
theorem colon_mem_connection {w : List Char} (h : w ∈ connection.language) : ':' ∈ w := by
  simp only [connection, mem_language_seq] at h
  obtain ⟨a, -, b, ⟨c, hc, d, -, rfl⟩, rfl⟩ := h
  rw [mem_lit.mp hc]
  simp

theorem envVar_runsOut : envVar.RunsOut isValueChar :=
  (((((((runsOut_atLeast isValueChar 8).seq _).seq _).seq _).seq _).seq _).seq _)

/-! ## What stands before a secret -/

/-- What introduces the value of a parameter. -/
def ParameterLead (lead : List Char) : Prop :=
  ∃ key quote, lead = key ++ ['='] ++ quote ∧ (∃ s ∈ ["token", "password"], Spells s key)
    ∧ Quotes quote

/-- A name of an environment variable with one of the words, nothing but
letters and underscores after it, and no key in it. -/
def EnvName (name : List Char) : Prop :=
  (∃ a word b, name = a ++ word ++ b ∧ (∃ s ∈ envWords, Spells s word)
      ∧ ∀ c ∈ b, isNameChar c = true)
    ∧ (∀ c ∈ name, isEnvChar c = true)
    ∧ ∀ r ∈ keyPatterns, ∀ u ∈ r.language, ¬ u <:+: name

/-- What introduces the value `w` of an environment variable. -/
def AssignmentLead (w lead : List Char) : Prop :=
  ∃ name quote, lead = name ++ ['='] ++ quote ∧ EnvName name ∧ Quotes quote
    ∧ ∀ c ∈ (quote ++ w).take 8, c ≠ '['

/-- What a connection string starts with. -/
def ConnectionLead (lead : List Char) : Prop :=
  ∃ scheme tail, lead = scheme ++ "://".toList ++ tail ∧ (∃ s ∈ schemes, Spells s scheme)
    ∧ ∀ c ∈ tail, isHostChar c = true

theorem Quotes.all {quote : List Char} (h : Quotes quote) {p : Char → Bool}
    (hp : ['\x22', '\x27'].all p = true) : ∀ c ∈ quote, p c = true := by
  intro c hc
  rcases h with rfl | ⟨q, hq, rfl⟩
  · cases hc
  · rw [List.mem_singleton.mp hc]
    apply List.all_eq_true.mp hp
    simpa [isQuote] using hq

theorem Quotes.length_le {quote : List Char} (h : Quotes quote) : quote.length ≤ 1 := by
  rcases h with rfl | ⟨q, -, rfl⟩ <;> simp

/-- No key fits into a short text. -/
theorem no_key_of_short {r : Regex Char} (hr : r ∈ keyPatterns) {u lead : List Char}
    (hu : u ∈ r.language) (hlen : lead.length < 20) : ¬ u <:+: lead := by
  intro hin
  have hle := hin.length_le
  have hleast := (keyPatterns_least r hr).trans (least_le_length hu)
  omega

theorem ParameterLead.no_key {lead : List Char} (h : ParameterLead lead) {r : Regex Char}
    (hr : r ∈ keyPatterns) {u : List Char} (hu : u ∈ r.language) : ¬ u <:+: lead := by
  obtain ⟨key, quote, rfl, ⟨s, hs, hkey⟩, hquote⟩ := h
  apply no_key_of_short hr hu
  have hkl : key.length ≤ 8 := by
    rw [hkey.length_eq]
    exact of_decide_eq_true (List.all_eq_true.mp
      (show ["token", "password"].all (fun s => s.toList.length ≤ 8) = true from rfl) s hs)
  have hql := hquote.length_le
  simp only [List.length_append, List.length_singleton]
  omega

theorem AssignmentLead.no_key {w lead : List Char} (h : AssignmentLead w lead) {r : Regex Char}
    (hr : r ∈ keyPatterns) {u : List Char} (hu : u ∈ r.language) : ¬ u <:+: lead := by
  obtain ⟨name, quote, rfl, hname, hquote, -⟩ := h
  intro hin
  have hsep : '=' ∉ u := fun hmem => by
    cases (keyPatterns_within r hr).of_mem hu _ hmem
  rw [List.append_assoc] at hin
  rcases infix_of_infix_separated hsep hin with hin | hin
  · exact hname.2.2 r hr u hu hin
  · exact no_key_of_short hr hu (Nat.lt_of_le_of_lt hquote.length_le (by decide)) hin

/-- The key patterns leave a scheme and take parts of what follows only. -/
theorem ConnectionLead.kept {r : Regex Char} (hr : r ∈ keyPatterns)
    {s done out gap rest : List Char}
    (h : Scan r redactedPlaceholder.toList s done out gap rest)
    (hb : Behind isBlank ConnectionLead (done ++ gap)) :
    Behind isBlank ConnectionLead (out ++ gap) := by
  obtain ⟨front, lead, heq, hfront, scheme, tail, rfl, ⟨sch, hsch, hscheme⟩, htail⟩ := hb
  have hsplit : scheme ++ "://".toList = (scheme ++ [':', '/']) ++ ['/'] := by simp
  have hshort : ∀ u ∈ r.language, ¬ u <:+: scheme ++ [':', '/'] ++ ['/'] := by
    intro u hu
    apply no_key_of_short hr hu
    have hle : scheme.length ≤ 10 := by
      rw [hscheme.length_eq]
      exact of_decide_eq_true (List.all_eq_true.mp
        (show schemes.all (fun s => s.toList.length ≤ 10) = true from rfl) sch hsch)
    simp only [List.length_append, List.length_cons, List.length_nil]
    omega
  have hpos : 0 < r.least := Nat.lt_of_lt_of_le (by decide) (keyPatterns_least r hr)
  obtain ⟨front', tail', hout, hfront', htail'⟩ :=
    h.head_kept isHostChar (keyPatterns_within r hr) hpos
      (fun c hc => isBlank_eq_false rfl hc) (by decide) hshort
      (List.all_eq_true.mp (by decide)) htail (by rw [heq, hsplit]; simp) hfront
  exact ⟨front', scheme ++ "://".toList ++ tail', by rw [hout, hsplit]; simp, hfront', scheme, tail',
    rfl, ⟨sch, hsch, hscheme⟩, htail'⟩

/-- A secret that the forms introduce: of 20 characters, none of them a
blank, and not entangled with the placeholder. -/
structure Secret (w : List Char) : Prop where
  clear : Clear w redactedPlaceholder.toList
  long : 20 ≤ w.length
  notBlank : ∀ c ∈ w, notBlank c = true

/-- What is asked of the text before a secret. -/
def Introduced (w x : List Char) : Prop :=
  Behind isBlank ParameterLead x ∨ Behind isBlank (AssignmentLead w) x
    ∨ (∀ c ∈ w.head?, isQuote c = false) ∧ Behind isBlank ConnectionLead x

theorem ParameterLead.no_blank {lead : List Char} (h : ParameterLead lead) :
    ∀ c ∈ lead, notBlank c = true := by
  obtain ⟨key, quote, rfl, ⟨s, hs, hkey⟩, hquote⟩ := h
  have halpha := List.all_eq_true.mp
    (show ["token", "password"].all (fun s => s.toList.all fun c => c.toLower.isAlpha) = true
      from rfl) s hs
  simp only [List.forall_mem_append, List.forall_mem_singleton]
  exact ⟨⟨fun c hc => notBlank_of_nameChar (hkey.name halpha c hc), rfl⟩, hquote.all rfl⟩

theorem ConnectionLead.hostChar {lead : List Char} (h : ConnectionLead lead) :
    ∀ c ∈ lead, isHostChar c = true := by
  obtain ⟨scheme, tail, rfl, ⟨s, hs, hscheme⟩, htail⟩ := h
  have halpha := List.all_eq_true.mp
    (show schemes.all (fun s => s.toList.all fun c => c.toLower.isAlpha) = true from rfl) s hs
  simp only [List.forall_mem_append]
  exact ⟨⟨fun c hc => hostChar_of_nameChar (hscheme.name halpha c hc),
    List.all_eq_true.mp (by decide)⟩, htail⟩

theorem AssignmentLead.all {w lead : List Char} (h : AssignmentLead w lead) {p : Char → Bool}
    (hp : ∀ c, isEnvChar c = true → p c = true)
    (hsep : ['=', '\x22', '\x27'].all p = true) : ∀ c ∈ lead, p c = true := by
  obtain ⟨name, quote, rfl, hname, hquote, -⟩ := h
  simp only [List.all_cons, List.all_nil, Bool.and_true, Bool.and_eq_true] at hsep
  simp only [List.forall_mem_append, List.forall_mem_singleton]
  exact ⟨⟨fun c hc => hp c (hname.2.1 c hc), hsep.1⟩, hquote.all (by simp [hsep.2])⟩

/-- A value does not begin with a bracket. -/
theorem AssignmentLead.head_ne {c : Char} {v lead : List Char} (h : AssignmentLead (c :: v) lead) :
    c ≠ '[' := by
  obtain ⟨name, quote, -, -, hquote, hval⟩ := h
  rcases hquote with rfl | ⟨q, -, rfl⟩ <;> exact hval c (by simp)

theorem Secret.head {w : List Char} (h : Secret w) : ∃ c v, w = c :: v ∧ isBlank c = false := by
  cases w with
  | nil => exact absurd h.long (by decide)
  | cons c v => exact ⟨c, v, rfl, by simpa [Scrub.notBlank] using h.notBlank c List.mem_cons_self⟩

theorem ParameterLead.match {w lead : List Char} (h : ParameterLead lead) (hw : Secret w) :
    ∃ u ∈ keyValue.language, u <:+: lead ++ w := by
  obtain ⟨key, quote, rfl, ⟨s, hs, hkey⟩, hquote⟩ := h
  have hkeyword : key ∈ keyword.language := by
    rcases List.mem_cons.mp hs with rfl | hs
    · exact mem_choice.mpr ⟨litFold "token", by simp, mem_litFold.mpr hkey⟩
    · obtain rfl := List.mem_singleton.mp hs
      exact mem_choice.mpr ⟨litFold "password", by simp, mem_litFold.mpr hkey⟩
  have hvalue : quote ++ w ∈ (atLeast 8 (cls notBlank)).language := by
    refine mem_atLeast_cls ?_ fun c hc => ?_
    · have := hw.long
      rw [List.length_append]
      omega
    · rcases List.mem_append.mp hc with hc | hc
      · exact hquote.all (by decide) c hc
      · exact hw.notBlank c hc
  refine ⟨key ++ ([] ++ (['='] ++ ([] ++ ([] ++ ((quote ++ w) ++ []))))), ?_, by simp⟩
  simp only [keyValue, mem_language_seq]
  exact ⟨_, hkeyword, _, ⟨_, nil_mem_star, _, ⟨_, ⟨'=', rfl, rfl⟩, _, ⟨_, nil_mem_star, _,
    ⟨_, .inr rfl, _, ⟨_, hvalue, _, .inr rfl, rfl⟩, rfl⟩, rfl⟩, rfl⟩, rfl⟩, rfl⟩

theorem ConnectionLead.match {w lead : List Char} (h : ConnectionLead lead) (hw : Secret w)
    (hquote : ∀ c ∈ w.head?, isQuote c = false) : ∃ u ∈ connection.language, u <:+: lead ++ w := by
  obtain ⟨scheme, tail, rfl, ⟨s, hs, hscheme⟩, htail⟩ := h
  obtain ⟨c, v, rfl, hc⟩ := hw.head
  have hhost : tail ++ [c] ∈ (atLeast 1 (cls isHostChar)).language := by
    refine mem_atLeast_cls (by simp) fun d hd => ?_
    rcases List.mem_append.mp hd with hd | hd
    · exact htail d hd
    · rw [List.mem_singleton.mp hd]
      simp [isHostChar, notBlank, hc, hquote c rfl]
  refine ⟨scheme ++ ("://".toList ++ (tail ++ [c])), ?_, [], v, by simp⟩
  simp only [connection, mem_language_seq]
  exact ⟨_, mem_choice.mpr ⟨_, List.mem_map_of_mem hs, mem_litFold.mpr hscheme⟩, _,
    ⟨_, mem_lit.mpr rfl, _, hhost, rfl⟩, rfl⟩

theorem AssignmentLead.match {w lead : List Char} (h : AssignmentLead w lead) (hw : Secret w) :
    ∃ u ∈ envVar.language, u <:+: lead ++ w := by
  obtain ⟨name, quote, rfl, ⟨⟨a, word, b, rfl, ⟨s, hs, hword⟩, hb⟩, -, -⟩, hquote, hval⟩ := h
  have hvalue : (quote ++ w).take 8 ∈ (atLeast 8 (cls isValueChar)).language := by
    refine mem_atLeast_cls ?_ fun c hc => ?_
    · have := hw.long
      rw [List.length_take, List.length_append]
      omega
    · have hblank : notBlank c = true := by
        rcases List.mem_append.mp (List.mem_of_mem_take hc) with hc | hc
        · exact hquote.all (by decide) c hc
        · exact hw.notBlank c hc
      simp [isValueChar, hval c hc, hblank]
  refine ⟨[] ++ (word ++ (b ++ ([] ++ (['='] ++ ([] ++ (quote ++ w).take 8))))), ?_,
    a, (quote ++ w).drop 8, ?_⟩
  · simp only [envVar, assigned, mem_language_seq]
    exact ⟨_, nil_mem_star, _, ⟨_, mem_choice.mpr ⟨_, List.mem_map_of_mem hs, mem_litFold.mpr hword⟩,
      _, ⟨_, mem_star_cls hb, _, ⟨_, nil_mem_star, _, ⟨_, mem_lit.mpr rfl, _,
        ⟨_, nil_mem_star, _, hvalue, rfl⟩, rfl⟩, rfl⟩, rfl⟩, rfl⟩, rfl⟩
  · simp only [List.nil_append, List.append_assoc, List.append_cancel_left_eq]
    simp only [List.take_append_drop]

/-! ## One pattern after the other -/

theorem guarded_key {w s : List Char} {r : Regex Char} (hr : r ∈ keyPatterns) (hw : Secret w)
    (h : Guarded (Introduced w) w s) :
    Guarded (Introduced w) w (r.replaceAll redactedPlaceholder.toList s) := by
  have hpos : 0 < r.least := Nat.lt_of_lt_of_le (by decide) (keyPatterns_least r hr)
  have hin : r.Within fun c => !isBlank c :=
    (keyPatterns_within r hr).mono fun _ hc => notBlank_of_runChar hc
  refine h.replaceAll hpos hw.clear fun done out gap rest hscan hx => ?_
  rcases hx with hx | hx | ⟨hq, hx⟩
  · exact .inl (hscan.of_append.behind_of_within hpos hin (fun _ hl _ hu => hl.no_key hr hu) hx)
  · exact .inr (.inl (hscan.of_append.behind_of_within hpos hin
      (fun _ hl _ hu => hl.no_key hr hu) hx))
  · exact .inr (.inr ⟨hq, ConnectionLead.kept hr hscan.of_append hx⟩)

/-- The keyword pattern takes the parameters, and runs past the others or
does not reach them. -/
theorem guarded_keyValue {w s : List Char} (hw : Secret w) (h : Guarded (Introduced w) w s) :
    Guarded (fun x => Behind isBlank (AssignmentLead w) x
      ∨ (∀ c ∈ w.head?, isQuote c = false) ∧ Behind isBlank ConnectionLead x) w
      (keyValue.replaceAll redactedPlaceholder.toList s) := by
  have hpos : 0 < keyValue.least := by decide
  have hhead : ∃ c ∈ w.head?, notBlank c = true := by
    obtain ⟨c, v, rfl, hc⟩ := hw.head
    exact ⟨c, rfl, by simp [notBlank, hc]⟩
  refine h.replaceAll hpos hw.clear fun done out gap rest hscan hx => ?_
  rcases hx with hx | hx | ⟨hq, hx⟩
  · exact absurd hx (hscan.not_behind hpos keyValue_runsOut (fun _ hl => ParameterLead.no_blank hl)
      hhead fun _ hl => ParameterLead.match hl hw)
  · exact .inl (hscan.behind_of_runsOut hpos keyValue_endsIn keyValue_runsOut
      (fun _ hl => AssignmentLead.all hl (fun _ hc => notBlank_of_valueChar (valueChar_of_envChar hc))
        (by decide)) hhead hx)
  · exact .inr ⟨hq, hscan.behind_of_runsOut hpos keyValue_endsIn keyValue_runsOut
      (fun _ hl c hc => notBlank_of_hostChar (ConnectionLead.hostChar hl c hc)) hhead hx⟩

/-- The connection pattern takes the connection strings and nothing of a
name. -/
theorem guarded_connection {w s : List Char} (hw : Secret w)
    (h : Guarded (fun x => Behind isBlank (AssignmentLead w) x
      ∨ (∀ c ∈ w.head?, isQuote c = false) ∧ Behind isBlank ConnectionLead x) w s) :
    Guarded (Behind isBlank (AssignmentLead w)) w
      (connection.replaceAll redactedPlaceholder.toList s) := by
  have hpos : 0 < connection.least := by decide
  refine h.replaceAll hpos hw.clear fun done out gap rest hscan hx => ?_
  rcases hx with hx | ⟨hq, hx⟩
  · refine hscan.of_append.behind_of_within hpos connection_within (fun lead hl u hu hin => ?_) hx
    have hcolon := AssignmentLead.all (p := fun c => c != ':') hl
      (fun c hc => by simpa using ne_of_class hc rfl) (by decide)
      ':' (hin.subset (colon_mem_connection hu))
    simp at hcolon
  · obtain ⟨c, v, rfl, hc⟩ := hw.head
    have hhead : ∃ d ∈ (c :: v).head?, isHostChar d = true :=
      ⟨c, rfl, by simp [isHostChar, notBlank, hc, hq c rfl]⟩
    exact absurd hx (hscan.not_behind hpos connection_runsOut
      (fun _ hl => ConnectionLead.hostChar hl) hhead fun _ hl => ConnectionLead.match hl hw hq)

/-- The pattern of the environment variables takes the assignments. -/
theorem guarded_envVar {w s : List Char} (hw : Secret w)
    (h : Guarded (Behind isBlank (AssignmentLead w)) w s) :
    Guarded (fun _ => False) w (envVar.replaceAll redactedPlaceholder.toList s) := by
  have hpos : 0 < envVar.least := by decide
  refine h.replaceAll hpos hw.clear fun done out gap rest hscan hx => ?_
  have hhead : ∃ c ∈ w.head?, isValueChar c = true := by
    obtain ⟨front, lead, -, -, hl⟩ := hx
    obtain ⟨c, v, rfl, hc⟩ := hw.head
    exact ⟨c, rfl, by simp [isValueChar, notBlank, hc, hl.head_ne]⟩
  exact hscan.not_behind hpos envVar_runsOut
    (fun _ hl => AssignmentLead.all hl (fun _ hc => valueChar_of_envChar hc) (by decide)) hhead
    (fun _ hl => AssignmentLead.match hl hw) hx

/-! ## All of the patterns -/

theorem not_infix_foldl {w : List Char} (hw : Clear w redactedPlaceholder.toList)
    {pats : List (Regex Char)} (hpats : ∀ r ∈ pats, 0 < r.least) {s : List Char}
    (h : ¬ w <:+: s) :
    ¬ w <:+: pats.foldl (fun text pat => pat.replaceAll redactedPlaceholder.toList text) s := by
  induction pats generalizing s with
  | nil => exact h
  | cons r pats ih =>
    exact ih (fun q hq => hpats q (List.mem_cons_of_mem r hq))
      (absent_of_absent (hpats r List.mem_cons_self) hw h)

/-- A word that holds a match of one of the patterns is taken out. -/
theorem not_infix_scrubChars {w u : List Char} (hw : Clear w redactedPlaceholder.toList)
    {r : Regex Char} (hr : r ∈ credentialPatterns) (hu : u ∈ r.language) (huw : u <:+: w)
    (text : List Char) : ¬ w <:+: scrubChars text := by
  obtain ⟨before, after, hsplit⟩ := List.append_of_mem hr
  have hpos := least_pos
  rw [scrubChars, hsplit, List.foldl_append, List.foldl_cons]
  rw [hsplit] at hpos
  exact not_infix_foldl hw (fun q hq => hpos q (by simp [hq]))
    (not_infix_replaceAll (hpos r (by simp)) hw hu huw)

/-- The key patterns keep what introduces a secret. -/
theorem guarded_keys {w : List Char} (hw : Secret w) {pats : List (Regex Char)}
    (hpats : ∀ r ∈ pats, r ∈ keyPatterns) {s : List Char} (h : Guarded (Introduced w) w s) :
    Guarded (Introduced w) w
      (pats.foldl (fun text pat => pat.replaceAll redactedPlaceholder.toList text) s) := by
  induction pats generalizing s with
  | nil => exact h
  | cons r pats ih =>
    exact ih (fun q hq => hpats q (List.mem_cons_of_mem r hq))
      (guarded_key (hpats r List.mem_cons_self) hw h)

/-- A secret that is introduced wherever it occurs is taken out. -/
theorem not_infix_of_introduced {w : List Char} (hw : Secret w) {text : List Char}
    (h : Guarded (Introduced w) w text) : ¬ w <:+: scrubChars text := by
  rw [scrubChars, credentialPatterns_eq, List.foldl_append]
  simp only [List.foldl_cons, List.foldl_nil]
  have hlast := guarded_envVar hw (guarded_connection hw
    (guarded_keyValue hw (guarded_keys hw (fun _ hr => hr) h)))
  exact absent_of_absent (by decide) hw.clear
    (absent_of_absent (by decide) hw.clear hlast.absent)

/-- What a scrubbing registry hands back of the tool that was executed. -/
theorem execute_scrubs {Args : Type} {exec : Tool → Args → Result} {r : Registry} {ctx : Context}
    {name : String} {args : Args} {t : Tool} (hscrub : r.scrubbing = true)
    (h : (r.executeWithContext exec scrubCredentials ctx name args).executed = some t) :
    (r.executeWithContext exec scrubCredentials ctx name args).result
      = { exec t args with
          forLLM := scrubCredentials (exec t args).forLLM
          forUser := scrubCredentials (exec t args).forUser } := by
  have hempty : ∀ s, (if s = "" then "" else scrubCredentials s) = scrubCredentials s := by
    intro s
    by_cases hs : s = ""
    · subst hs
      rfl
    · rw [if_neg hs]
  cases hget : r.getForWorkspace ctx.workspace name with
  | none => simp [Registry.executeWithContext, hget, unknownTool] at h
  | some tool =>
    cases hallowed : ctx.allowedTools with
    | none =>
      obtain rfl : tool = t := by simpa [Registry.executeWithContext, hget, hallowed] using h
      simp [Registry.executeWithContext, hget, hallowed, hscrub, scrubResult, hempty]
    | some allowed =>
      cases hkey : isAllowed (permissionKeyOf tool) allowed with
      | false => simp [Registry.executeWithContext, hget, hallowed, hkey, permissionDenied] at h
      | true =>
        obtain rfl : tool = t := by
          simpa [Registry.executeWithContext, hget, hallowed, hkey] using h
        simp [Registry.executeWithContext, hget, hallowed, hkey, hscrub, scrubResult, hempty]

/-! ## The documented forms -/

/-- A documented form never leaves its secret in the scrubbed text. -/
def CredentialsNeverReach : Prop :=
  ∀ (f : Form) (text : String) (front back : List Char), f.Documented →
    Embedded f text.toList front back → ¬ f.secret <:+: (scrubCredentials text).toList

/-- The forms whose secret is the key itself. -/
def Form.IsKey : Form → Prop
  | openAI _ | anthropic _ | github _ _ | aws _ | hex _ => True
  | _ => False

/-- What the patterns ask of a form that introduces its secret. -/
def Form.Covered : Form → Prop
  | connection _ user password _ =>
    (∀ c ∈ user, isQuote c = false) ∧ ∀ c ∈ password.head?, isQuote c = false
  | assignment name quote value => EnvName name ∧ ∀ c ∈ (quote ++ value).take 8, c ≠ '['
  | parameter _ _ _ => True
  | _ => False

theorem longHex_within : longHex.Within isRunChar := by
  refine (within_cls fun c hc => ?_).atLeast 64
  have halnum : c.isAlphanum = true := by
    simp only [isHex, Bool.or_eq_true, Bool.and_eq_true, decide_eq_true_eq] at hc
    rcases hc with (hc | hc) | hc
    · exact (Bool.or_eq_true _ _).mpr (.inr hc)
    · have hlower : c.isLower = true :=
        (Bool.and_eq_true _ _).mpr ⟨decide_eq_true (UInt32.le_iff_toNat_le.mpr hc.1),
          decide_eq_true (UInt32.le_iff_toNat_le.mpr (hc.2.trans (by decide)))⟩
      exact (Bool.or_eq_true _ _).mpr (.inl ((Bool.or_eq_true _ _).mpr (.inr hlower)))
    · have hupper : c.isUpper = true :=
        decide_eq_true ⟨UInt32.le_iff_toNat_le.mpr hc.1,
          UInt32.le_iff_toNat_le.mpr (hc.2.trans (by decide))⟩
      exact (Bool.or_eq_true _ _).mpr (.inl (isAlpha_of_isUpper hupper))
  simp [isRunChar, halnum]

/-- A documented key is a match of its pattern, which has no brackets. -/
theorem key_match {f : Form} (h : f.IsKey) (hdoc : f.Documented) :
    ∃ r ∈ credentialPatterns, r.Within isRunChar ∧ f.secret ∈ r.language := by
  have hkey : (∃ r ∈ keyPatterns, f.secret ∈ r.language) →
      ∃ r ∈ credentialPatterns, r.Within isRunChar ∧ f.secret ∈ r.language := by
    rintro ⟨r, hr, hmem⟩
    exact ⟨r, List.mem_append_left _ hr, keyPatterns_within r hr, hmem⟩
  obtain ⟨-, -, hdoc⟩ := hdoc
  cases f with
  | openAI body =>
    exact hkey ⟨openAI, by simp [keyPatterns],
      mem_language_seq.mpr ⟨_, mem_lit.mpr rfl, _, mem_atLeast_cls hdoc.1 hdoc.2, rfl⟩⟩
  | anthropic body =>
    exact hkey ⟨anthropic, by simp [keyPatterns],
      mem_language_seq.mpr ⟨_, mem_lit.mpr rfl, _, mem_atLeast_cls hdoc.1 hdoc.2, rfl⟩⟩
  | github kind body =>
    obtain ⟨hkind, hlen, hbody⟩ := hdoc
    have hmem : ∀ front : String, front.toList = ['g', 'h', kind, '_'] →
        ['g', 'h', kind, '_'] ++ body ∈ (github front).language := fun front hfront =>
      mem_language_seq.mpr ⟨_, mem_lit.mpr hfront.symm, _, mem_times_cls hlen hbody, rfl⟩
    simp only [List.mem_cons, List.not_mem_nil, or_false] at hkind
    rcases hkind with rfl | rfl | rfl | rfl | rfl
    · exact hkey ⟨github "ghp_", by simp [keyPatterns], hmem _ rfl⟩
    · exact hkey ⟨github "gho_", by simp [keyPatterns], hmem _ rfl⟩
    · exact hkey ⟨github "ghu_", by simp [keyPatterns], hmem _ rfl⟩
    · exact hkey ⟨github "ghs_", by simp [keyPatterns], hmem _ rfl⟩
    · exact hkey ⟨github "ghr_", by simp [keyPatterns], hmem _ rfl⟩
  | aws body =>
    exact hkey ⟨aws, by simp [keyPatterns],
      mem_language_seq.mpr ⟨_, mem_lit.mpr rfl, _, mem_times_cls hdoc.1 hdoc.2, rfl⟩⟩
  | hex digits =>
    exact ⟨longHex, by simp [credentialPatterns], longHex_within, mem_atLeast_cls hdoc.1 hdoc.2⟩
  | connection | assignment | parameter | bearer | authorization => exact h.elim

/-- A key is taken out wherever it stands. -/
theorem key_removed {f : Form} (h : f.IsKey) (hdoc : f.Documented) (text : List Char) :
    ¬ f.secret <:+: scrubChars text := by
  obtain ⟨r, hr, hin, hmem⟩ := key_match h hdoc
  have hnot : ∀ c, isRunChar c = false → c ∉ f.secret := fun c hc hcw => by
    rw [hin.of_mem hmem c hcw] at hc
    cases hc
  have hclear : Clear f.secret redactedPlaceholder.toList :=
    clear_of_not_mem "REDACTED".toList (hnot '[' rfl) (hnot ']' rfl)
      (Nat.lt_of_lt_of_le (by decide) hdoc.1)
  exact not_infix_scrubChars hclear hr hmem (List.infix_refl _) text

/-- What stands before the secret of a form that introduces it. -/
theorem introduced_of_covered {f : Form} (hdoc : f.Documented) (hcov : f.Covered)
    {front : List Char} (hfront : Delimited isBlank front) :
    Introduced f.secret (front ++ f.lead) := by
  obtain ⟨-, -, hdoc⟩ := hdoc
  cases f with
  | connection scheme user password host =>
    obtain ⟨hscheme, huser, -⟩ := hdoc
    refine .inr (.inr ⟨hcov.2, front, _, rfl, hfront, scheme, user ++ [':'],
      List.append_assoc _ _ _, hscheme, ?_⟩)
    simp only [List.forall_mem_append, List.forall_mem_singleton]
    refine ⟨fun c hc => ?_, rfl⟩
    simp [isHostChar, huser c hc, hcov.1 c hc]
  | assignment name quote value =>
    exact .inr (.inl ⟨front, _, rfl, hfront, name, quote, rfl, hcov.1, hdoc.2.2, hcov.2⟩)
  | parameter key quote value =>
    exact .inl ⟨front, _, rfl, hfront, key, quote, rfl, hdoc.1, hdoc.2⟩
  | openAI | anthropic | github | aws | hex | bearer | authorization => exact hcov.elim

/-- Where the only occurrence of a word in a text is. -/
theorem eq_take_of_occurs {t w x y : List Char} {k : Nat} (h : t = x ++ (w ++ y))
    (honly : (List.range (t.length + 1)).all (fun n => !w.isPrefixOf (t.drop n) || n == k) = true) :
    x = t.take k := by
  have hle : x.length < t.length + 1 := by
    rw [h, List.length_append]
    omega
  have hdrop : t.drop x.length = w ++ y := by rw [h, List.drop_left]
  have hk := List.all_eq_true.mp honly x.length (List.mem_range.mpr hle)
  rw [hdrop, List.isPrefixOf_iff_prefix.mpr (List.prefix_append w y)] at hk
  rw [← beq_iff_eq.mp (show (x.length == k) = true by simpa using hk), h, List.take_left]

/-- A documented form that leaves its secret in the scrubbed text. -/
def Leaks (f : Form) (text : String) (front back : List Char) : Prop :=
  f.Documented ∧ Embedded f text.toList front back
    ∧ f.secret <:+: (scrubCredentials text).toList

theorem leaks_of {f : Form} {text : String} {front back : List Char} (hdoc : f.Documented)
    (htext : text.toList = front ++ f.lead ++ f.secret ++ f.trail ++ back)
    (hfront : front.getLast?.all isBlank = true) (hback : back.head?.all isBlank = true)
    (hin : f.secret <:+: scrubChars text.toList) : Leaks f text front back := by
  refine ⟨hdoc, ⟨htext, (Option.all_eq_true _ _).mp hfront, (Option.all_eq_true _ _).mp hback⟩, ?_⟩
  rwa [scrubCredentials, String.toList_ofList]

end LendingClaw.Tools.Scrub

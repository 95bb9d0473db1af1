/-
LendingClaw.Ui.SkillPackage — the skill and its files in an answer of the
model (`parseIncremental` of
`ui/web/src/components/settings/tabs/AiCreateSkillDialog.tsx`).

The dialog asks for the skill and for each reference file in a fenced
block of its own. It reads the answer with one pattern for the skill and
one for the files, at every chunk that comes in; an unfinished block goes
to the end of the text.
-/
import LendingClaw.Lib.JsText
import LendingClaw.Lib.Pieces
import LendingClaw.Ui.MessageSegments

namespace LendingClaw.Ui

open LendingClaw.Lib
open LendingClaw.Lib.Matcher (group literal exec scan)

/-! ## The patterns -/

/-- `\s*\r?\n`. -/
def lineEnd : Matcher Char Unit := do
  let _ ← group (.star true (.cls isJsSpace))
  let _ ← group (.opt (.cls (· == '\r')))
  let _ ← group (.cls (· == '\n'))
  return ()

/-- Three backticks, or the end of the text. -/
def fenceEnd : Matcher Char Unit := fun s =>
  ((group ticksPattern s).map fun found => ((), found.2)) ++ if s = [] then [((), [])] else []

/-- `([\s\S]*?)` and the end of the fence. -/
def fenceBody : Matcher Char (List Char) := do
  let body ← group (.star false (.cls fun _ => true))
  let _ ← fenceEnd
  return body

def skillLabel : List Char := ticks ++ "skill".toList

def skillPattern : Matcher Char (List Char) := do
  let _ ← literal skillLabel
  let _ ← lineEnd
  fenceBody

def referenceLabel : List Char := ticks ++ "reference:".toList

def referencePattern : Matcher Char (List Char × List Char) := do
  let _ ← literal referenceLabel
  let path ← group (.atLeast 1 (.cls fun c => !isJsSpace c))
  let _ ← lineEnd
  let content ← fenceBody
  return (path, content)

/-- `---\s*\r?\n[\s\S]*?\r?\n---`. -/
def frontmatterPattern : Matcher Char Unit := do
  let _ ← literal "---".toList
  let _ ← lineEnd
  let _ ← group (.star false (.cls fun _ => true))
  let _ ← group (.opt (.cls (· == '\r')))
  let _ ← literal "\n---".toList
  return ()

/-- What the dialog edits and saves. -/
structure SkillPackage where
  skillMd : List Char
  files : List (List Char × List Char)

def parseIncremental (text : List Char) : SkillPackage :=
  { skillMd :=
      match exec skillPattern text with
      | some found => found.value
      | none => if (exec frontmatterPattern text).isSome then text else []
    files := (scan referencePattern text).1.map fun found => (found.2.1, jsTrim found.2.2) }

/-! ## One match -/

/-- A line end behind a label, in front of a text that starts with no
blank. -/
theorem lineEnd_newline {t : List Char} (ht : ∀ c ∈ t.head?, isJsSpace c = false) :
    lineEnd ('\n' :: t) = [((), t)] := by
  have hspaces : group (.star true (.cls isJsSpace)) ('\n' :: t) = [(['\n'], t), ([], '\n' :: t)] := by
    rw [group, Matcher.ends_blank (by decide) ht]
    simp
  have hreturn : group (.opt (.cls (· == '\r'))) t = [([], t)] := by
    refine Matcher.group_opt fun d hd => ?_
    have hblank := ht d hd
    rw [beq_eq_false_iff_ne]
    rintro rfl
    exact absurd hblank (by decide)
  have hnone : group (.cls (· == '\n')) t = [] := by
    cases t with
    | nil => rfl
    | cons d t =>
      have hd : d ≠ '\n' := by
        rintro rfl
        exact absurd (ht _ rfl) (by decide)
      simp [group, Regex.ends, hd]
  have hreturn' : group (.opt (.cls (· == '\r'))) ('\n' :: t) = [([], '\n' :: t)] :=
    Matcher.group_opt fun d hd => by
      cases hd
      decide
  have hline : group (.cls (· == '\n')) ('\n' :: t) = [(['\n'], t)] := by simp [group, Regex.ends]
  have hbind : lineEnd ('\n' :: t)
      = (group (.star true (.cls isJsSpace)) ('\n' :: t)).flatMap fun found =>
          (group (.opt (.cls (· == '\r'))) found.2).flatMap fun found =>
            (group (.cls (· == '\n')) found.2).flatMap fun found => [((), found.2)] := rfl
  rw [hbind, hspaces]
  simp [hreturn, hnone, hreturn', hline]

/-! ## The end of a fence -/

/-- A text that holds no fence, also with the backticks that follow it. -/
def Unfenced (b : List Char) : Prop := ¬ ticks <:+: b ++ ['\x60', '\x60']

instance (b : List Char) : Decidable (Unfenced b) := inferInstanceAs (Decidable (¬ _))

theorem Unfenced.not_prefix {b y : List Char} (h : Unfenced b) (hy : y <:+ b) (hne : y ≠ [])
    (s : List Char) : ¬ ticks <+: y ++ s := by
  intro hpre
  obtain ⟨x, rfl⟩ := hy
  have hticks : ticks <+: y ++ ['\x60', '\x60'] := by
    match y, hne with
    | [c], _ =>
      simp [ticks] at hpre ⊢
      exact hpre.1
    | [c, d], _ =>
      simp [ticks] at hpre ⊢
      exact ⟨hpre.1, hpre.2.1⟩
    | c :: d :: e :: y, _ =>
      simp [ticks] at hpre ⊢
      exact hpre
  apply h
  rw [List.append_assoc]
  exact hticks.isInfix.trans (List.suffix_append _ _).isInfix

theorem fenceEnd_ticks (rest : List Char) : fenceEnd (ticks ++ rest) = [((), rest)] := by
  have hticks : group ticksPattern (ticks ++ rest) = [(ticks, rest)] := Matcher.literal_append ticks rest
  rw [fenceEnd, hticks]
  simp [ticks]

theorem fenceEnd_eq_nil {s : List Char} (h : ¬ ticks <+: s) (hne : s ≠ []) : fenceEnd s = [] := by
  have hticks : group ticksPattern s = [] := Matcher.literal_eq_nil h
  rw [fenceEnd, hticks, if_neg hne]
  rfl

theorem fenceBody_eq (s : List Char) :
    fenceBody s = s.tails.flatMap fun x =>
      (fenceEnd x).map fun e => (s.take (s.length - x.length), e.2) := by
  have hbind : fenceBody s = (group (.star false (.cls fun _ => true)) s).flatMap fun found =>
      (fenceEnd found.2).flatMap fun e => [(found.1, e.2)] := rfl
  rw [hbind, group, Regex.ends_lazy, List.flatMap_map]
  simp only [List.map_eq_flatMap]

/-- The body of a block is what stands before the first fence. -/
theorem fenceBody_closed {b : List Char} (hb : Unfenced b) (rest : List Char) :
    (fenceBody (b ++ (ticks ++ rest))).head? = some (b, rest) := by
  have hnone : ∀ y, y <:+ b → y ≠ [] → fenceEnd (y ++ (ticks ++ rest)) = [] := fun y hy hne =>
    fenceEnd_eq_nil (hb.not_prefix hy hne _) (by simp [hne])
  rw [fenceBody_eq, head?_tails_flatMap]
  · simp [fenceEnd_ticks]
  · intro y hy hne
    rw [hnone y hy hne]
    rfl
  · simp [fenceEnd_ticks]

/-- An open block goes to the end of the text. -/
theorem fenceBody_open {b : List Char} (hb : ¬ ticks <:+: b) : (fenceBody b).head? = some (b, []) := by
  have hnone : ∀ y, y <:+ b → y ≠ [] → fenceEnd (y ++ []) = [] := by
    intro y hy hne
    rw [List.append_nil]
    exact fenceEnd_eq_nil (fun h => hb (h.isInfix.trans hy.isInfix)) hne
  have hend : fenceEnd [] = [((), [])] := by decide
  have htails := head?_tails_flatMap (b := b) (t := [])
    (f := fun x => (fenceEnd x).map fun e => (b.take (b.length - x.length), e.2))
    (fun y hy hne => by rw [hnone y hy hne]; rfl) (by simp [hend])
  rw [List.append_nil] at htails
  rw [fenceBody_eq, htails]
  simp [hend]

/-! ## Where a block starts -/

/-- A path is taken to its end. -/
theorem head?_path {path : List Char} (hpath : path ≠ []) (hplain : ∀ c ∈ path, isJsSpace c = false)
    (s : List Char) :
    (group (.atLeast 1 (.cls fun c => !isJsSpace c)) (path ++ '\n' :: s)).head? = some (path, '\n' :: s) := by
  obtain ⟨c, path, rfl⟩ := List.exists_cons_of_ne_nil hpath
  have hdrop : (path ++ '\n' :: s).dropWhile (fun c => !isJsSpace c) = '\n' :: s := by
    rw [List.dropWhile_append_of_pos fun d hd => by simp [hplain d (List.mem_cons_of_mem _ hd)]]
    exact List.dropWhile_cons_of_neg (by decide)
  have hends : ((Regex.atLeast 1 (.cls fun c => !isJsSpace c)).ends (c :: path ++ '\n' :: s)).head?
      = some ('\n' :: s) := by
    have hone : (Regex.times (.cls fun c => !isJsSpace c) 1).ends (c :: path ++ '\n' :: s)
        = [path ++ '\n' :: s] := by
      simp [Regex.times, Regex.ends, hplain c List.mem_cons_self]
    rw [Regex.atLeast, Regex.ends, hone, List.flatMap_cons, List.flatMap_nil, List.append_nil, Regex.ends,
      Regex.head?_iter_cls (Nat.le_refl _), hdrop]
  have hlen : (c :: path ++ '\n' :: s).length - ('\n' :: s).length = (c :: path).length := by
    rw [List.length_append]
    omega
  rw [group, List.head?_map, hends, Option.map_some, hlen, List.take_left]

theorem skillPattern_eq_nil {s : List Char} (h : ¬ ticks <+: s) : skillPattern s = [] := by
  refine Matcher.bind_of_nil (Matcher.literal_eq_nil fun hpre => h ?_)
  exact (List.prefix_append ticks _).trans hpre

theorem referencePattern_eq_nil {s : List Char} (h : ¬ referenceLabel <+: s) : referencePattern s = [] :=
  Matcher.bind_of_nil (Matcher.literal_eq_nil h)

theorem not_reference {s : List Char} (h : ¬ ticks <+: s) : ¬ referenceLabel <+: s :=
  fun hpre => h ((List.prefix_append ticks _).trans hpre)

theorem skillPattern_block {b s rest : List Char} (hhead : ∀ c ∈ s.head?, isJsSpace c = false)
    (hbody : (fenceBody s).head? = some (b, rest)) :
    (skillPattern (skillLabel ++ '\n' :: s)).head? = some (b, rest) := by
  have hlabel := Matcher.literal_append skillLabel ('\n' :: s)
  rw [skillPattern, Matcher.bind_of_singleton hlabel, Matcher.bind_of_singleton (lineEnd_newline hhead)]
  exact hbody

theorem referencePattern_block {path b s rest : List Char} (hpath : path ≠ [])
    (hplain : ∀ c ∈ path, isJsSpace c = false) (hhead : ∀ c ∈ s.head?, isJsSpace c = false)
    (hbody : (fenceBody s).head? = some (b, rest)) :
    (referencePattern (referenceLabel ++ (path ++ '\n' :: s))).head? = some ((path, b), rest) := by
  have hlabel := Matcher.literal_append referenceLabel (path ++ '\n' :: s)
  rw [referencePattern, Matcher.bind_of_singleton hlabel]
  refine Matcher.head?_bind (head?_path hpath hplain _) ?_
  rw [Matcher.bind_of_singleton (lineEnd_newline hhead)]
  exact Matcher.head?_bind hbody rfl

/-! ## An answer as it is asked for -/

structure PackagedFile where
  path : List Char
  content : List Char
  after : List Char

def PackagedFile.text (f : PackagedFile) : List Char :=
  referenceLabel ++ (f.path ++ '\n' :: (f.content ++ (ticks ++ f.after)))

def filesText (files : List PackagedFile) : List Char := files.flatMap PackagedFile.text

structure SkillAnswer where
  intro : List Char
  skillMd : List Char
  after : List Char
  files : List PackagedFile

def SkillAnswer.text (a : SkillAnswer) : List Char :=
  a.intro ++ (skillLabel ++ '\n' :: (a.skillMd ++ (ticks ++ (a.after ++ filesText a.files))))

/-- The content of a block: no fence, and no blank line first. -/
structure BlockText (b : List Char) : Prop where
  unfenced : Unfenced b
  head : ∀ c ∈ b.head?, isJsSpace c = false

/-- What stands between two blocks starts on a line of its own. -/
structure SetApart (after rest : List Char) : Prop where
  unfenced : Unfenced after
  line : ∀ c ∈ (after ++ rest).head?, c = '\n'

structure PackagedFile.Asked (f : PackagedFile) : Prop where
  named : f.path ≠ []
  plain : ∀ c ∈ f.path, isJsSpace c = false
  block : BlockText f.content

/-- Each file in its block, one after the other. -/
def FilesAsked : List PackagedFile → Prop
  | [] => True
  | f :: files => f.Asked ∧ SetApart f.after (filesText files) ∧ FilesAsked files

structure SkillAnswer.Asked (a : SkillAnswer) : Prop where
  intro : Unfenced a.intro
  block : BlockText a.skillMd
  between : SetApart a.after (filesText a.files)
  files : FilesAsked a.files

theorem BlockText.head_append {b : List Char} (h : BlockText b) (rest : List Char) :
    ∀ c ∈ (b ++ (ticks ++ rest)).head?, isJsSpace c = false := by
  intro c hc
  cases b with
  | nil =>
    obtain rfl : '\x60' = c := by simpa [ticks] using hc
    decide
  | cons d b => exact h.head c hc

/-- No file starts at a closing fence. -/
theorem SetApart.closing {after rest y : List Char} (h : SetApart after rest) (hy : y <:+ ticks)
    (hne : y ≠ []) : ¬ referenceLabel <+: y ++ (after ++ rest) := by
  intro hpre
  have hline := h.line
  generalize after ++ rest = s at hpre hline
  have hcases : y = ticks ∨ y = ['\x60', '\x60'] ∨ y = ['\x60'] := by
    simpa [ticks, List.suffix_cons_iff, hne] using hy
  cases s with
  | nil => rcases hcases with rfl | rfl | rfl <;> simp [referenceLabel, ticks] at hpre
  | cons c s =>
    obtain rfl : c = '\n' := hline c rfl
    rcases hcases with rfl | rfl | rfl <;> simp [referenceLabel, ticks] at hpre

/-- No file starts in the label of the skill. -/
theorem label_not_reference {y : List Char} (hy : y <:+ skillLabel ++ ['\n']) (hne : y ≠ [])
    (s : List Char) : ¬ referenceLabel <+: y ++ s := by
  have hlabel : skillLabel ++ ['\n'] = ['\x60', '\x60', '\x60', 's', 'k', 'i', 'l', 'l', '\n'] := by decide
  have hreference : referenceLabel
      = '\x60' :: '\x60' :: '\x60' :: 'r' :: "eference:".toList := by decide
  intro hpre
  rw [hreference] at hpre
  rw [hlabel] at hy
  simp only [List.suffix_cons_iff, List.suffix_nil, hne, or_false] at hy
  rcases hy with rfl | rfl | rfl | rfl | rfl | rfl | rfl | rfl | rfl <;> simp at hpre

/-- No file starts in what stands before the first one. -/
theorem noReference_front {a : SkillAnswer} (h : a.Asked) :
    ∀ y, y <:+ a.intro ++ (skillLabel ++ '\n' :: (a.skillMd ++ (ticks ++ a.after))) → y ≠ [] →
      referencePattern (y ++ filesText a.files) = [] := by
  intro y hy hne
  apply referencePattern_eq_nil
  rcases suffix_append_cases hy with hy | ⟨z, hz, hsuffix, rfl⟩
  · rw [show skillLabel ++ '\n' :: (a.skillMd ++ (ticks ++ a.after))
        = (skillLabel ++ ['\n']) ++ (a.skillMd ++ (ticks ++ a.after)) by simp] at hy
    rcases suffix_append_cases hy with hy | ⟨z, hz, hsuffix, rfl⟩
    · rcases suffix_append_cases hy with hy | ⟨z, hz, hsuffix, rfl⟩
      · rcases suffix_append_cases hy with hy | ⟨z, hz, hsuffix, rfl⟩
        · exact not_reference (h.between.unfenced.not_prefix hy hne _)
        · rw [List.append_assoc]
          exact h.between.closing hsuffix hz
      · rw [List.append_assoc]
        exact not_reference (h.block.unfenced.not_prefix hsuffix hz _)
    · rw [List.append_assoc]
      exact label_not_reference hsuffix hz _
  · rw [List.append_assoc]
    exact not_reference (h.intro.not_prefix hsuffix hz _)

/-- The files are found, each with its content. -/
theorem scanFrom_files {files : List PackagedFile} (h : FilesAsked files) {front : List Char}
    (hfront : ∀ y, y <:+ front → y ≠ [] → referencePattern (y ++ filesText files) = []) {fuel : Nat}
    (hfuel : (front ++ filesText files).length < fuel) :
    ((Matcher.scanFrom referencePattern fuel (front ++ filesText files)).1).map Prod.snd
      = files.map fun f => (f.path, f.content) := by
  induction files generalizing front fuel with
  | nil =>
    obtain ⟨fuel, rfl⟩ : ∃ n, fuel = n + 1 := ⟨fuel - 1, by omega⟩
    have hnone : exec referencePattern (front ++ filesText []) = none := by
      refine Matcher.exec_eq_none fun t ht => ?_
      rw [show front ++ filesText [] = front from List.append_nil front] at ht
      cases t with
      | nil => exact referencePattern_eq_nil (by decide)
      | cons c t =>
        have hc := hfront _ ht (List.cons_ne_nil c t)
        rwa [show c :: t ++ filesText [] = c :: t from List.append_nil _] at hc
    rw [Matcher.scanFrom, hnone]
    rfl
  | cons f files ih =>
    obtain ⟨hfile, hbetween, hfiles⟩ := h
    obtain ⟨fuel, rfl⟩ : ∃ n, fuel = n + 1 := ⟨fuel - 1, by omega⟩
    have htext : filesText (f :: files)
        = referenceLabel ++ (f.path ++ '\n' :: (f.content ++ (ticks ++ (f.after ++ filesText files)))) := by
      simp [filesText, PackagedFile.text]
    have hmatch := referencePattern_block hfile.named hfile.plain
      (hfile.block.head_append (f.after ++ filesText files))
      (fenceBody_closed hfile.block.unfenced (f.after ++ filesText files))
    rw [← htext] at hmatch
    have hexec := Matcher.exec_of_first hfront hmatch
    have hshort : (f.after ++ filesText files).length < fuel := by
      rw [htext] at hfuel
      simp only [List.length_append, List.length_cons] at hfuel ⊢
      omega
    have hafter : ∀ y, y <:+ f.after → y ≠ [] → referencePattern (y ++ filesText files) = [] :=
      fun y hy hne => referencePattern_eq_nil (not_reference (hbetween.unfenced.not_prefix hy hne _))
    rw [Matcher.scanFrom, hexec]
    dsimp only
    rw [List.map_cons, List.map_cons, ih hfiles hafter hshort]

theorem exec_skill {intro b s rest : List Char} (hintro : Unfenced intro)
    (hhead : ∀ c ∈ s.head?, isJsSpace c = false) (hbody : (fenceBody s).head? = some (b, rest)) :
    exec skillPattern (intro ++ (skillLabel ++ '\n' :: s))
      = some { before := intro, value := b, rest := rest } :=
  Matcher.exec_of_first (fun _ hy hne => skillPattern_eq_nil (hintro.not_prefix hy hne _))
    (skillPattern_block hhead hbody)

/-- An answer as it is asked for is read as it was meant. While the skill
is written the dialog shows what has come of it, and once its block is
closed nothing that follows changes it. -/
theorem answer_read {a : SkillAnswer} (h : a.Asked) :
    parseIncremental a.text
        = { skillMd := a.skillMd, files := a.files.map fun f => (f.path, jsTrim f.content) }
      ∧ (∀ written, written <+: a.skillMd →
        (parseIncremental (a.intro ++ (skillLabel ++ '\n' :: written))).skillMd = written)
      ∧ ∀ rest, (parseIncremental (a.intro ++ (skillLabel ++ '\n' :: (a.skillMd ++ (ticks ++ rest))))).skillMd
        = a.skillMd := by
  refine ⟨?_, ?_, ?_⟩
  · have hskill := exec_skill h.intro (h.block.head_append (a.after ++ filesText a.files))
      (fenceBody_closed h.block.unfenced (a.after ++ filesText a.files))
    have hfiles := scanFrom_files h.files (noReference_front h) (Nat.lt_succ_self _)
    have htext : a.intro ++ (skillLabel ++ '\n' :: (a.skillMd ++ (ticks ++ a.after))) ++ filesText a.files
        = a.text := by simp [SkillAnswer.text]
    rw [htext] at hfiles
    have hread : (scan referencePattern a.text).1.map Prod.snd = a.files.map fun f => (f.path, f.content) :=
      hfiles
    have hpairs : (scan referencePattern a.text).1.map (fun found => (found.2.1, jsTrim found.2.2))
        = a.files.map fun f => (f.path, jsTrim f.content) := by
      have hmap := congrArg (List.map fun file : List Char × List Char => (file.1, jsTrim file.2)) hread
      rwa [List.map_map, List.map_map] at hmap
    rw [← SkillAnswer.text] at hskill
    rw [parseIncremental, hskill, hpairs]
  · intro written hwritten
    have hhead : ∀ c ∈ written.head?, isJsSpace c = false := by
      intro c hc
      obtain ⟨rest, hrest⟩ := hwritten
      cases written with
      | nil => cases hc
      | cons d written => exact h.block.head c (by rw [← hrest]; exact hc)
    have hopen : ¬ ticks <:+: written := fun hin =>
      h.block.unfenced ((hin.trans hwritten.isInfix).trans (List.prefix_append _ _).isInfix)
    rw [parseIncremental, exec_skill h.intro hhead (fenceBody_open hopen)]
  · intro rest
    rw [parseIncremental, exec_skill h.intro (h.block.head_append rest)
      (fenceBody_closed h.block.unfenced rest)]

/-! ## A loan review -/

def loanReview : SkillAnswer :=
  { intro := "Here it is:\n".toList
    skillMd := "---\nname: loan-review\ndescription: Reviews loans.\n---\n# Review\n".toList
    after := "\n\nAnd its rules:\n".toList
    files :=
      [{ path := "rules/limits.json".toList, content := "\x7b\x7d\n".toList, after := [] }] }

theorem answer_read_loanReview :
    parseIncremental loanReview.text
        = { skillMd := loanReview.skillMd, files := loanReview.files.map fun f => (f.path, jsTrim f.content) }
      ∧ (∀ written, written <+: loanReview.skillMd →
        (parseIncremental (loanReview.intro ++ (skillLabel ++ '\n' :: written))).skillMd = written)
      ∧ ∀ rest, (parseIncremental
          (loanReview.intro ++ (skillLabel ++ '\n' :: (loanReview.skillMd ++ (ticks ++ rest))))).skillMd
        = loanReview.skillMd :=
  answer_read
    { intro := by decide +kernel
      block := { unfenced := by decide +kernel, head := by rintro _ ⟨⟩; decide }
      between := { unfenced := by decide +kernel, line := by rintro _ ⟨⟩; rfl }
      files := ⟨{ named := by decide
                  plain := List.forall_iff_forall_mem.mp (by decide +kernel)
                  block := { unfenced := by decide +kernel, head := by rintro _ ⟨⟩; decide } },
        { unfenced := by decide +kernel, line := by rintro _ ⟨⟩ }, trivial⟩ }

end LendingClaw.Ui

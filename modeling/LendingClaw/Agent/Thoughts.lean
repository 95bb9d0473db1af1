/-
LendingClaw.Agent.Thoughts — the reasoning in an answer
(`stripThinkingTags` of `internal/agent/sanitize.go`).

A text is seen as its characters and the blocks of reasoning between
them. Each pattern takes the blocks of its name and leaves all else as it
is: where a block of another name starts it finds a difference inside the
tag, and elsewhere there is no tag. After the five patterns no block is
left.
-/
import LendingClaw.Agent.Sanitize

namespace LendingClaw.Agent

open LendingClaw.Lib LendingClaw.Lib.Regex LendingClaw.Tools.Scrub

/-! ## Words up to case -/

/-- The characters of `u` are those of `w` up to case, as far as both go. -/
def foldsAlong (w u : List Char) : Bool := (w.zip u).all fun p => folds p.1 p.2

theorem ends_litFold_of_folds {w : List (Char → Bool)} {u : List Char} (hlen : w.length = u.length)
    (h : (w.zip u).all (fun p => p.1 p.2) = true) (s : List Char) : ends (word w) (u ++ s) = [s] := by
  induction w generalizing u with
  | nil => simp [List.length_eq_zero_iff.mp hlen.symm, word, ends]
  | cons p w ih =>
    cases u with
    | nil => cases hlen
    | cons c u =>
      rw [List.zip_cons_cons, List.all_cons, Bool.and_eq_true] at h
      have hc : p c = true := h.1
      simp [word, ends, hc, ih (Nat.succ.inj hlen) h.2]

theorem ends_word_eq_nil {w : List (Char → Bool)} {u : List Char}
    (h : (w.zip u).all (fun p => p.1 p.2) = false) (s : List Char) : ends (word w) (u ++ s) = [] := by
  induction w generalizing u with
  | nil => cases h
  | cons p w ih =>
    cases u with
    | nil => cases h
    | cons c u =>
      rw [List.zip_cons_cons, List.all_cons, Bool.and_eq_false_iff] at h
      rcases h with h | h
      · have hc : p c = false := h
        simp [word, ends, hc]
      · by_cases hc : p c = true
        · simp [word, ends, hc, ih h]
        · simp [word, ends, hc]

theorem zip_folds (w u : List Char) :
    ((w.map folds).zip u).all (fun p => p.1 p.2) = foldsAlong w u := by
  rw [foldsAlong, List.zip_map_left, List.all_map]
  rfl

theorem ends_litFold {w : String} {u : List Char} (hlen : w.toList.length = u.length)
    (h : foldsAlong w.toList u = true) (s : List Char) : ends (litFold w) (u ++ s) = [s] :=
  ends_litFold_of_folds (by simpa using hlen) (by rw [zip_folds, h]) s

theorem ends_litFold_eq_nil {w : String} {u : List Char} (h : foldsAlong w.toList u = false)
    (s : List Char) : ends (litFold w) (u ++ s) = [] :=
  ends_word_eq_nil (by rw [zip_folds, h]) s

/-! ## Blocks -/

def thinkingNames : List String := ["think", "thinking", "thought", "antThinking", "antthinking"]

def openTag (name : String) : List Char := ("<" ++ name ++ ">").toList

def closeTag (name : String) : List Char := ("</" ++ name ++ ">").toList

/-- A character, or a block of reasoning. -/
inductive Piece where
  | char (c : Char)
  | thought (name : String) (reasoning : List Char)

def Piece.text : Piece → List Char
  | .char c => [c]
  | .thought name reasoning => openTag name ++ (reasoning ++ closeTag name)

def piecesText (pieces : List Piece) : List Char := pieces.flatMap Piece.text

/-- No tags but those of the blocks. -/
def Piece.Plain : Piece → Prop
  | .char c => c ≠ '<'
  | .thought name reasoning => name ∈ thinkingNames ∧ '<' ∉ reasoning

/-- The pattern of `name` takes the piece. -/
def Piece.takenBy (name : String) : Piece → Bool
  | .char _ => false
  | .thought name' _ => name.length == name'.length && foldsAlong name.toList name'.toList

/-- What the text says beside the blocks. -/
def said : List Piece → List Char
  | [] => []
  | .char c :: pieces => c :: said pieces
  | .thought _ _ :: pieces => said pieces

variable {name name' : String}

theorem tags_of_taken : ∀ name ∈ thinkingNames, ∀ name' ∈ thinkingNames,
    (name.length == name'.length && foldsAlong name.toList name'.toList) = true →
      (openTag name).length = (openTag name').length ∧ foldsAlong (openTag name) (openTag name') = true
        ∧ (closeTag name).length = (closeTag name').length
        ∧ foldsAlong (closeTag name) (closeTag name') = true := by
  decide +kernel

theorem tags_of_not_taken : ∀ name ∈ thinkingNames, ∀ name' ∈ thinkingNames,
    (name.length == name'.length && foldsAlong name.toList name'.toList) = false →
      foldsAlong (openTag name) (openTag name') = false := by
  decide +kernel

theorem openTag_not_closeTag : ∀ name ∈ thinkingNames, ∀ name' ∈ thinkingNames,
    foldsAlong (openTag name) (closeTag name') = false := by
  decide +kernel

theorem tags_cons : ∀ name ∈ thinkingNames, ∃ o c, openTag name = '<' :: o ∧ '<' ∉ o
    ∧ closeTag name = '<' :: c ∧ '<' ∉ c := by
  intro name hname
  have htails : '<' ∉ (openTag name).tail ∧ '<' ∉ (closeTag name).tail
      ∧ (openTag name).head? = some '<' ∧ (closeTag name).head? = some '<' := by
    revert name
    decide +kernel
  obtain ⟨ho, hc, hohead, hchead⟩ := htails
  exact ⟨_, _, (List.cons_head?_tail hohead).symm, ho, (List.cons_head?_tail hchead).symm, hc⟩

/-- A tag does not start with another character. -/
theorem foldsAlong_less {c : Char} (hc : c ≠ '<') (tag : List Char) :
    foldsAlong ('<' :: tag) [c] = false := by
  have hfold : folds '<' c = false := Bool.eq_false_iff.mpr fun h => hc (folds_less h)
  simp [foldsAlong, hfold]

/-! ## One pattern -/

section
variable (hname : name ∈ thinkingNames)
include hname

theorem preferred_plain {c : Char} (hc : c ≠ '<') (s : List Char) :
    preferred (thinkingTag name) (c :: s) = none := by
  obtain ⟨o, -, ho, -⟩ := tags_cons name hname
  have hnone : ends (litFold ("<" ++ name ++ ">")) ([c] ++ s) = [] :=
    ends_litFold_eq_nil (by rw [← openTag, ho]; exact foldsAlong_less hc o) s
  rw [List.singleton_append] at hnone
  simp [preferred, thinkingTag, ends, hnone]

/-- Where there is no tag everything is kept. -/
theorem replaceAll_plain {u : List Char} (hu : '<' ∉ u) (s : List Char) :
    Regex.replaceAll (thinkingTag name) [] (u ++ s) = u ++ Regex.replaceAll (thinkingTag name) [] s := by
  induction u with
  | nil => rfl
  | cons c u ih =>
    obtain ⟨hc, hu⟩ := List.ne_and_not_mem_of_not_mem_cons hu
    rw [List.cons_append, Regex.replaceAll_keep (preferred_plain hname (Ne.symm hc) _), ih hu]
    rfl

/-- A tag that the pattern does not start with is kept. -/
theorem replaceAll_tag {tag : List Char} (htag : foldsAlong (openTag name) ('<' :: tag) = false)
    (hless : '<' ∉ tag) (s : List Char) :
    Regex.replaceAll (thinkingTag name) [] ('<' :: tag ++ s)
      = '<' :: tag ++ Regex.replaceAll (thinkingTag name) [] s := by
  have hnone : ends (litFold ("<" ++ name ++ ">")) ('<' :: tag ++ s) = [] := ends_litFold_eq_nil htag s
  have hpre : preferred (thinkingTag name) ('<' :: (tag ++ s)) = none := by
    rw [List.cons_append] at hnone
    simp [preferred, thinkingTag, ends, hnone]
  rw [List.cons_append, Regex.replaceAll_keep hpre, replaceAll_plain hname hless]
  rfl

/-- The block ends at the first closing tag. -/
theorem head?_reasoning {reasoning : List Char} (hless : '<' ∉ reasoning) (tail : List Char)
    (htail : ends (litFold ("</" ++ name ++ ">")) tail ≠ []) :
    ((reasoning ++ tail).tails.flatMap (ends (litFold ("</" ++ name ++ ">")))).head?
      = (ends (litFold ("</" ++ name ++ ">")) tail).head? := by
  refine head?_tails_flatMap (fun y hy hne => ?_) htail
  obtain ⟨c, y, rfl⟩ := List.exists_cons_of_ne_nil hne
  have hc : c ≠ '<' := by
    rintro rfl
    exact hless (hy.subset List.mem_cons_self)
  obtain ⟨-, k, -, -, hk, -⟩ := tags_cons name hname
  exact ends_litFold_eq_nil (u := [c]) (by rw [← closeTag, hk]; exact foldsAlong_less hc k) (y ++ tail)

theorem replaceAll_piece {piece : Piece} (hplain : piece.Plain) (s : List Char) :
    Regex.replaceAll (thinkingTag name) [] (piece.text ++ s)
      = (if piece.takenBy name then [] else piece.text) ++ Regex.replaceAll (thinkingTag name) [] s := by
  cases piece with
  | char c =>
    rw [Piece.takenBy, if_neg Bool.false_ne_true]
    exact replaceAll_plain hname (fun h => hplain (List.mem_singleton.mp h).symm) s
  | thought name' reasoning =>
    obtain ⟨hname', hless⟩ := hplain
    obtain ⟨o, k, ho, holess, hk, hkless⟩ := tags_cons name' hname'
    cases htaken : (Piece.thought name' reasoning).takenBy name with
    | false =>
      have hopen := tags_of_not_taken name hname name' hname' htaken
      have hclose := openTag_not_closeTag name hname name' hname'
      rw [ho] at hopen
      rw [hk] at hclose
      rw [if_neg Bool.false_ne_true, Piece.text, ho, hk, List.append_assoc, List.append_assoc,
        replaceAll_tag hname hopen holess, replaceAll_plain hname hless, replaceAll_tag hname hclose hkless]
      simp
    | true =>
      obtain ⟨holen, hofold, hklen, hkfold⟩ := tags_of_taken name hname name' hname' htaken
      have hopen : ∀ s, ends (litFold ("<" ++ name ++ ">")) (openTag name' ++ s) = [s] :=
        ends_litFold holen hofold
      have hclose : ∀ s, ends (litFold ("</" ++ name ++ ">")) (closeTag name' ++ s) = [s] :=
        ends_litFold hklen hkfold
      have hhead := head?_reasoning hname hless (closeTag name' ++ s) (by simp [hclose])
      have hpre : preferred (thinkingTag name) (openTag name' ++ (reasoning ++ (closeTag name' ++ s)))
          = some s := by
        rw [hclose] at hhead
        rw [preferred, thinkingTag, ends, hopen, List.flatMap_cons, List.flatMap_nil, List.append_nil, ends,
          ends_lazy, hhead]
        rfl
      have htext : preferred (thinkingTag name) ((Piece.thought name' reasoning).text ++ s) = some s := by
        simpa [Piece.text] using hpre
      have hne : (Piece.thought name' reasoning).text ≠ [] := by simp [Piece.text, ho]
      rw [Regex.replaceAll_cut htext hne, if_pos rfl]

theorem replaceAll_pieces {pieces : List Piece} (hplain : ∀ piece ∈ pieces, piece.Plain) :
    Regex.replaceAll (thinkingTag name) [] (piecesText pieces)
      = piecesText (pieces.filter fun piece => !piece.takenBy name) := by
  induction pieces with
  | nil => rfl
  | cons piece pieces ih =>
    have hrest := ih fun p hp => hplain p (List.mem_cons_of_mem _ hp)
    rw [piecesText, List.flatMap_cons, replaceAll_piece hname (hplain piece List.mem_cons_self),
      ← piecesText, hrest]
    cases htaken : piece.takenBy name with
    | true => simp [htaken]
    | false => simp [htaken, piecesText]

end

/-! ## All patterns -/

theorem foldl_thinkingTag {names : List String} (hnames : ∀ name ∈ names, name ∈ thinkingNames)
    {pieces : List Piece} (hplain : ∀ piece ∈ pieces, piece.Plain) :
    (names.map thinkingTag).foldl (fun result pat => Regex.replaceAll pat [] result) (piecesText pieces)
      = piecesText (pieces.filter fun piece => names.all fun name => !piece.takenBy name) := by
  induction names generalizing pieces with
  | nil => simp
  | cons name names ih =>
    rw [List.map_cons, List.foldl_cons, replaceAll_pieces (hnames name List.mem_cons_self) hplain,
      ih (fun n hn => hnames n (List.mem_cons_of_mem _ hn))
        (fun p hp => hplain p (List.mem_filter.mp hp).1), List.filter_filter]
    congr 2
    funext piece
    rw [List.all_cons, Bool.and_comm]

theorem takenBy_self : ∀ name ∈ thinkingNames, ∀ reasoning,
    (Piece.thought name reasoning).takenBy name = true := by
  intro name hname reasoning
  revert name
  have hself : ∀ name ∈ thinkingNames,
      (name.length == name.length && foldsAlong name.toList name.toList) = true := by decide +kernel
  exact hself

/-- No block is left. -/
theorem piecesText_filter {pieces : List Piece} (hplain : ∀ piece ∈ pieces, piece.Plain) :
    piecesText (pieces.filter fun piece => thinkingNames.all fun name => !piece.takenBy name)
      = said pieces := by
  induction pieces with
  | nil => rfl
  | cons piece pieces ih =>
    have hrest := ih fun p hp => hplain p (List.mem_cons_of_mem _ hp)
    cases piece with
    | char c =>
      rw [List.filter_cons_of_pos (by simp [Piece.takenBy]), piecesText, List.flatMap_cons, ← piecesText,
        hrest]
      rfl
    | thought name reasoning =>
      obtain ⟨hname, -⟩ := hplain _ List.mem_cons_self
      rw [List.filter_cons_of_neg, hrest]
      · rfl
      · intro hall
        have hnot := List.all_eq_true.mp hall name hname
        rw [takenBy_self name hname] at hnot
        cases hnot

theorem thought_noticed : ∀ name ∈ thinkingNames,
    containsOneOf ["<think", "<thought", "<antthinking"] ((openTag name).map lowerRune) = true := by
  decide +kernel

theorem said_eq_of_noThought {pieces : List Piece}
    (h : ∀ name reasoning, .thought name reasoning ∉ pieces) :
    piecesText pieces = said pieces := by
  induction pieces with
  | nil => rfl
  | cons piece pieces ih =>
    have hrest := ih fun name reasoning hmem => h name reasoning (List.mem_cons_of_mem _ hmem)
    cases piece with
    | char c =>
      rw [piecesText, List.flatMap_cons, ← piecesText, hrest]
      rfl
    | thought name reasoning => exact absurd List.mem_cons_self (h name reasoning)

/-- What a part of the text contains, the text contains. -/
theorem containsOneOf_mono {words : List String} {s t : List Char} (h : s <:+: t)
    (hs : containsOneOf words s = true) : containsOneOf words t = true := by
  obtain ⟨word, hword, hin⟩ := List.any_eq_true.mp hs
  exact List.any_eq_true.mpr ⟨word, hword, decide_eq_true ((of_decide_eq_true hin).trans h)⟩

/-- Of a text with blocks of reasoning only what is said beside them is
left. -/
theorem stripThinkingTags_pieces {pieces : List Piece} (hplain : ∀ piece ∈ pieces, piece.Plain) :
    (stripThinkingTags (piecesText pieces)).Sublist (said pieces) := by
  unfold stripThinkingTags
  split
  · have hall := foldl_thinkingTag (fun _ h => h) hplain
    rw [piecesText_filter hplain] at hall
    rw [show thinkingTagPatterns = thinkingNames.map thinkingTag from rfl, hall]
    exact trimChars_sublist _
  · rename_i hnone
    rw [said_eq_of_noThought]
    · intro name reasoning hmem
      obtain ⟨hname, -⟩ := hplain _ hmem
      obtain ⟨front, back, rfl⟩ := List.append_of_mem hmem
      refine hnone (containsOneOf_mono (List.IsInfix.map lowerRune ?_) (thought_noticed name hname))
      exact ⟨piecesText front, reasoning ++ closeTag name ++ piecesText back, by
        simp [piecesText, Piece.text]⟩

/-- A text with its blocks of reasoning, and with nothing that the stages
before look for. -/
structure Reasoned (text : List Char) (pieces : List Piece) : Prop where
  text_eq : text = piecesText pieces
  plain : ∀ piece ∈ pieces, piece.Plain
  noXML : containsOneOf garbledToolXMLIndicators (text.map lowerRune) = false
  noCalls : containsOneOf downgradedMarks text = false

/-- The stages before do nothing, those after it put nothing in. -/
theorem Reasoned.sanitizeChars_sublist {text : List Char} {pieces : List Piece} (h : Reasoned text pieces) :
    (sanitizeChars text).Sublist (said pieces) := by
  have hungarbled : stripGarbledToolXML text = text := by
    rw [stripGarbledToolXML, if_neg (by simp [h.noXML])]
  have hundowngraded : stripDowngradedToolCallText text = text :=
    stripDowngradedToolCallText_of_none h.noCalls
  have hthoughts : (stripThinkingTags text).Sublist (said pieces) := by
    rw [h.text_eq]
    exact stripThinkingTags_pieces h.plain
  unfold sanitizeChars
  split
  · rename_i hnil
    rw [hnil]
    exact List.nil_sublist _
  · rw [hungarbled]
    dsimp only
    split
    · exact List.nil_sublist _
    · rw [hundowngraded]
      exact (afterThinking_sublist _).trans hthoughts

example : Reasoned "<think>Is it L-7?</think>Open.".toList
    (.thought "think" "Is it L-7?".toList :: "Open.".toList.map .char) where
  text_eq := by decide
  plain := by simp [Piece.Plain, thinkingNames]
  noXML := by decide +kernel
  noCalls := by decide +kernel

end LendingClaw.Agent

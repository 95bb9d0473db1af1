/-
LendingClaw.Memory.ChunkLines — the line ranges of chunks
(`ChunkText` of `internal/memory/chunking.go`), and what `GetDocument`
of `internal/memory/manager.go` reads there.
-/
import LendingClaw.Lib.Texts
import LendingClaw.Memory.DocumentTheorems
import Mathlib.Data.List.Pairwise

namespace LendingClaw.Memory

open LendingClaw.Store

/-! ## Reading lines -/

/-- `strings.Split(content, "\n")`. -/
def splitLines (content : String) : List String :=
  (content.toList.splitOn '\n').map String.ofList

/-- `strings.Join(lines, "\n")`. -/
def joinLines (lines : List String) : String :=
  String.ofList (['\n'].intercalate (lines.map String.toList))

def extractLines (content : String) (fromLine numLines : Int) : String :=
  if fromLine ≤ 0 ∧ numLines ≤ 0 then content
  else
    let lines := splitLines content
    let start := if fromLine > 0 then (fromLine - 1).toNat else 0
    if start ≥ lines.length then ""
    else
      let end' :=
        if numLines > 0 ∧ start + numLines < lines.length then start + numLines.toNat
        else lines.length
      joinLines ((lines.take end').drop start)

section
variable {ν : Type} (env : Env ν)

/-- `Manager.GetDocument`. -/
def managerGetDocument (docs : Lib.Table MemoryDoc String MemoryDoc.id) (w : WorkspaceID)
    (scope userID path : String) (fromLine numLines : Int) (query : Fault := none) :
    Except GetError String :=
  match getDocument env docs w scope userID path query with
  | .error err => .error err
  | .ok doc => .ok (extractLines doc.content fromLine numLines)

end

/-- A result of `Search`; the score is the index's. -/
structure SearchResult (ρ : Type) where
  path : String
  text : String
  startLine : Nat
  endLine : Nat
  score : ρ
  updatedAt : Nat

/-- The payload of a point as `Search` reads it. -/
def Point.searchResult {ν ρ : Type} (p : Point ν) (score : ρ) : SearchResult ρ :=
  { path := p.path
    text := p.text
    startLine := p.startLine
    endLine := p.endLine
    score := score
    updatedAt := p.updatedAt }

/-! ## Exact ranges -/

/-- A line with a character that is no white space. -/
def NonBlank (line : String) : Prop := ∃ c ∈ line.toList, Lib.isSpace c = false

/-- The lines `i + 1` to `j`. -/
def segment (lines : List String) (i j : Nat) : List String := (lines.take j).drop i

/-- A chunk has lines of the document, and is their trimmed join. -/
structure ExactChunk (lines : List String) (c : TextChunk) : Prop where
  first : 1 ≤ c.startLine
  ordered : c.startLine ≤ c.endLine
  last : c.endLine ≤ lines.length
  text : c.text = Lib.trimSpace (joinLines (segment lines (c.startLine - 1) c.endLine))

/-- The ranges of chunks are those of a text. -/
structure ExactRanges (text : String) (chunks : List TextChunk) : Prop where
  exact : ∀ c ∈ chunks, ExactChunk (splitLines text) c
  increasing : chunks.Pairwise fun c d => c.endLine < d.startLine
  covered : ∀ i line, (splitLines text)[i]? = some line → NonBlank line →
    ∃! c, c ∈ chunks ∧ c.startLine ≤ i + 1 ∧ i + 1 ≤ c.endLine
  read : ∀ c ∈ chunks,
    Lib.trimSpace (extractLines text c.startLine (c.endLine - c.startLine + 1)) = c.text

/-! ## Joined lines -/

theorem joinLines_toList (lines : List String) :
    (joinLines lines).toList = ['\n'].intercalate (lines.map String.toList) := by
  rw [joinLines, String.toList_ofList]

theorem joinLines_singleton (line : String) : joinLines [line] = line := by
  rw [joinLines, List.map_singleton, List.intercalate_singleton, String.ofList_toList]

theorem joinLines_cons {lines : List String} (hne : lines ≠ []) (line : String) :
    (joinLines (line :: lines)).toList = line.toList ++ '\n' :: (joinLines lines).toList := by
  rw [joinLines_toList, joinLines_toList, List.map_cons,
    List.intercalate_cons_of_ne_nil (by simpa using hne)]
  simp

theorem joinLines_concat {lines : List String} (hne : lines ≠ []) (line : String) :
    joinLines (lines ++ [line]) = joinLines lines ++ "\n" ++ line := by
  apply String.toList_injective
  rw [String.toList_append, String.toList_append]
  induction lines with
  | nil => exact absurd rfl hne
  | cons l lines ih =>
    rw [List.cons_append, joinLines_cons (by simp)]
    cases lines with
    | nil =>
      rw [List.nil_append, joinLines_singleton, joinLines_singleton]
      simp
    | cons l' lines =>
      rw [ih (List.cons_ne_nil _ _), joinLines_cons (List.cons_ne_nil _ _)]
      simp

/-- What is blank in a join are its lines. -/
theorem trimSpace_eq_empty_iff {s : String} : Lib.trimSpace s = "" ↔ ¬ NonBlank s := by
  rw [← String.toList_inj, Lib.trimSpace, String.toList_ofList, String.toList_empty,
    Lib.trimChars_eq_nil_iff, NonBlank]
  simp

theorem nonBlank_joinLines {lines : List String} :
    NonBlank (joinLines lines) ↔ ∃ line ∈ lines, NonBlank line := by
  induction lines with
  | nil => simp [NonBlank, joinLines]
  | cons line lines ih =>
    cases lines with
    | nil => simp [joinLines_singleton]
    | cons line' lines =>
      have hchars : NonBlank (joinLines (line :: line' :: lines))
          ↔ NonBlank line ∨ NonBlank (joinLines (line' :: lines)) := by
        have hnewline : Lib.isSpace '\n' = true := by decide
        rw [NonBlank, joinLines_cons (List.cons_ne_nil _ _)]
        simp [NonBlank, or_and_right, exists_or, hnewline]
      rw [hchars, ih]
      simp

theorem isSpace_of_blank {line : String} (h : ¬ NonBlank line) :
    ∀ c ∈ line.toList, Lib.isSpace c = true := by
  intro c hc
  by_contra hspace
  exact h ⟨c, hc, Bool.eq_false_iff.mpr hspace⟩

/-- Blank lines before the others are trimmed away. -/
theorem trimSpace_joinLines_append {blank : List String} (hblank : ∀ l ∈ blank, ¬ NonBlank l)
    (lines : List String) :
    Lib.trimSpace (joinLines (blank ++ lines)) = Lib.trimSpace (joinLines lines) := by
  induction blank with
  | nil => rfl
  | cons l blank ih =>
    have hl := isSpace_of_blank (hblank l List.mem_cons_self)
    rw [← ih (fun l' hl' => hblank l' (List.mem_cons_of_mem l hl')), List.cons_append,
      Lib.trimSpace, Lib.trimSpace]
    by_cases hne : blank ++ lines = []
    · have hnil := Lib.trimChars_append_blank hl []
      rw [List.append_nil] at hnil
      rw [hne, joinLines_singleton, hnil]
      rfl
    · have hbreak : ∀ c ∈ l.toList ++ ['\n'], Lib.isSpace c = true := by
        intro c hc
        rcases List.mem_append.mp hc with hc | hc
        · exact hl c hc
        · rw [List.mem_singleton.mp hc]
          decide
      rw [joinLines_cons hne, List.append_cons, Lib.trimChars_append_blank hbreak]

/-! ## The invariant -/

/-- The lines before the `i`-th have been read: the chunks have the
ranges before `startLine`, and the buffer has the lines from there on but
for blank ones at the front. -/
structure ChunkInv (lines : List String) (i : Nat) (st : Chunking) : Prop where
  first : 1 ≤ st.startLine
  reached : st.startLine ≤ i + 1
  buffer : ∃ k, st.startLine ≤ k + 1 ∧ k ≤ i ∧ st.current = joinLines (segment lines k i)
    ∧ ∀ l ∈ segment lines (st.startLine - 1) k, ¬ NonBlank l
  exact : ∀ c ∈ st.chunks, ExactChunk lines c ∧ c.endLine < st.startLine
  increasing : st.chunks.Pairwise fun c d => c.endLine < d.startLine
  covered : ∀ j line, lines[j]? = some line → NonBlank line → j + 1 < st.startLine →
    ∃ c ∈ st.chunks, c.startLine ≤ j + 1 ∧ j + 1 ≤ c.endLine

section
variable {lines : List String} {i : Nat} {st : Chunking}

theorem segment_split {j k : Nat} (hij : i ≤ j) (hjk : j ≤ k) :
    segment lines i k = segment lines i j ++ segment lines j k := by
  have hcut : (lines.take k).drop i
      = ((lines.take k).drop i).take (j - i) ++ ((lines.take k).drop i).drop (j - i) :=
    (List.take_append_drop _ _).symm
  rw [segment, hcut, List.take_drop, List.take_take, List.drop_drop, Nat.add_sub_cancel' hij,
    Nat.min_eq_left hjk]
  rfl

theorem segment_succ {k : Nat} (hki : k ≤ i) {line : String} (h : lines[i]? = some line) :
    segment lines k (i + 1) = segment lines k i ++ [line] := by
  obtain ⟨hi, rfl⟩ := List.getElem?_eq_some_iff.mp h
  rw [segment, segment, List.take_succ_eq_append_getElem hi,
    List.drop_append_of_le_length (by rw [List.length_take]; omega)]

theorem mem_segment_iff {j : Nat} {line : String} :
    line ∈ segment lines i j ↔ ∃ k, i ≤ k ∧ k < j ∧ lines[k]? = some line := by
  rw [segment, List.mem_iff_getElem?]
  constructor
  · rintro ⟨n, hn⟩
    rw [List.getElem?_drop, List.getElem?_take] at hn
    split at hn
    · exact ⟨i + n, by omega, by assumption, hn⟩
    · cases hn
  · rintro ⟨k, hik, hkj, hk⟩
    refine ⟨k - i, ?_⟩
    rw [List.getElem?_drop, Nat.add_sub_cancel' hik, List.getElem?_take, if_pos hkj]
    exact hk

/-- The text a flush would write. -/
theorem ChunkInv.content (h : ChunkInv lines i st) :
    Lib.trimSpace st.current = Lib.trimSpace (joinLines (segment lines (st.startLine - 1) i)) := by
  obtain ⟨k, hstart, hk, hcurrent, hblank⟩ := h.buffer
  rw [hcurrent, segment_split (Nat.sub_le_of_le_add hstart) hk, trimSpace_joinLines_append hblank]

/-- The chunk of a flush, if its text is not empty. -/
theorem flush_chunks (st : Chunking) (endLine : Nat) :
    (st.flush endLine).chunks = st.chunks
      ++ if Lib.trimSpace st.current = "" then []
        else [{ text := Lib.trimSpace st.current, startLine := st.startLine, endLine := endLine }] := by
  unfold Chunking.flush
  dsimp only
  by_cases hcontent : Lib.trimSpace st.current = ""
  · rw [if_neg (not_not.mpr hcontent), if_pos hcontent, List.append_nil]
  · rw [if_pos hcontent, if_neg hcontent]

/-- The text is not empty if a line is not blank. -/
theorem ChunkInv.content_ne_empty (h : ChunkInv lines i st) :
    Lib.trimSpace st.current ≠ ""
      ↔ ∃ j line, st.startLine ≤ j + 1 ∧ j < i ∧ lines[j]? = some line ∧ NonBlank line := by
  rw [h.content, ne_eq, trimSpace_eq_empty_iff, not_not, nonBlank_joinLines]
  constructor
  · rintro ⟨line, hline, hnb⟩
    obtain ⟨j, hstart, hj, hget⟩ := mem_segment_iff.mp hline
    exact ⟨j, line, by omega, hj, hget, hnb⟩
  · rintro ⟨j, line, hstart, hj, hget, hnb⟩
    exact ⟨line, mem_segment_iff.mpr ⟨j, by omega, hj, hget⟩, hnb⟩

/-- A flush up to the last line read. -/
theorem ChunkInv.flush (h : ChunkInv lines i st) (hi : i ≤ lines.length) :
    ChunkInv lines i (st.flush i) := by
  have hlate : ∀ c ∈ st.chunks, c.endLine < st.startLine := fun c hc => (h.exact c hc).2
  have hempty : segment lines i i = [] := by
    rw [segment, List.drop_eq_nil_iff, List.length_take]
    omega
  constructor
  · exact Nat.succ_pos i
  · exact Nat.le_refl _
  · refine ⟨i, Nat.le_refl _, Nat.le_refl i, ?_, ?_⟩
    · rw [hempty]
      rfl
    · show ∀ l ∈ segment lines i i, ¬ NonBlank l
      rw [hempty]
      exact nofun
  · intro c hc
    rw [flush_chunks] at hc
    rcases List.mem_append.mp hc with hc | hc
    · refine ⟨(h.exact c hc).1, ?_⟩
      exact Nat.lt_of_lt_of_le (hlate c hc) h.reached
    · split at hc
      · cases hc
      · rename_i hne
        obtain ⟨j, -, hstart, hj, -⟩ := h.content_ne_empty.mp hne
        rw [List.mem_singleton.mp hc]
        exact ⟨⟨h.first, Nat.le_trans hstart hj, hi, h.content⟩, Nat.lt_succ_self i⟩
  · rw [flush_chunks, List.pairwise_append]
    refine ⟨h.increasing, ?_, ?_⟩
    · split
      · exact List.Pairwise.nil
      · exact List.pairwise_singleton _ _
    · intro c hc d hd
      split at hd
      · cases hd
      · rw [List.mem_singleton.mp hd]
        exact hlate c hc
  · intro j line hline hnb hj
    rw [flush_chunks]
    by_cases hbefore : j + 1 < st.startLine
    · obtain ⟨c, hc, hrange⟩ := h.covered j line hline hnb hbefore
      exact ⟨c, List.mem_append_left _ hc, hrange⟩
    · have hji : j < i := Nat.lt_of_succ_lt_succ hj
      have hne := h.content_ne_empty.mpr ⟨j, line, by omega, hji, hline, hnb⟩
      rw [if_neg hne]
      exact ⟨_, List.mem_append_right _ List.mem_cons_self, Nat.le_of_not_lt hbefore, hji⟩

/-- A blank line is passed over behind a flush. -/
theorem ChunkInv.skip (h : ChunkInv lines i st) {line : String} (hget : lines[i]? = some line)
    (hblank : ¬ NonBlank line) (hcurrent : st.current = "") (hstart : st.startLine = i + 1) :
    ChunkInv lines (i + 1) st where
  first := h.first
  reached := Nat.le_succ_of_le h.reached
  buffer := by
    refine ⟨i + 1, by omega, Nat.le_refl _, ?_, ?_⟩
    · rw [hcurrent, segment, List.drop_eq_nil_of_le (by rw [List.length_take]; omega)]
      rfl
    · intro l hl
      obtain ⟨j, hlow, hhigh, hj⟩ := mem_segment_iff.mp hl
      have hji : j = i := by omega
      rw [hji, hget] at hj
      cases hj
      exact hblank
  exact := h.exact
  increasing := h.increasing
  covered := h.covered

/-- A line goes into the buffer. -/
theorem ChunkInv.write (h : ChunkInv lines i st) {line : String} (hget : lines[i]? = some line) :
    ChunkInv lines (i + 1)
      { st with current := if st.current ≠ "" then st.current ++ "\n" ++ line else line } where
  first := h.first
  reached := Nat.le_succ_of_le h.reached
  buffer := by
    obtain ⟨k, hstart, hk, hcurrent, hblank⟩ := h.buffer
    by_cases hempty : st.current = ""
    · -- what is there so far are empty lines
      refine ⟨i, h.reached, Nat.le_succ i, ?_, ?_⟩
      · have hnil : segment lines i i = [] := by
          rw [segment, List.drop_eq_nil_iff, List.length_take]
          omega
        rw [if_neg (not_not.mpr hempty), segment_succ (Nat.le_refl i) hget, hnil, List.nil_append,
          joinLines_singleton]
      · intro l hl hnb
        rw [segment_split (Nat.sub_le_of_le_add hstart) hk] at hl
        rcases List.mem_append.mp hl with hl | hl
        · exact hblank l hl hnb
        · have hjoin := nonBlank_joinLines.mpr ⟨l, hl, hnb⟩
          rw [← hcurrent, hempty] at hjoin
          obtain ⟨c, hc, -⟩ := hjoin
          cases hc
    · refine ⟨k, hstart, Nat.le_succ_of_le hk, ?_, hblank⟩
      have hne : segment lines k i ≠ [] := by
        intro hnil
        rw [hnil] at hcurrent
        exact hempty hcurrent
      rw [if_pos hempty, segment_succ hk hget, joinLines_concat hne, ← hcurrent]
  exact := h.exact
  increasing := h.increasing
  covered := h.covered

theorem ChunkInv.line (h : ChunkInv lines i st) (maxChunkLen : Nat) {line : String}
    (hget : lines[i]? = some line) : ChunkInv lines (i + 1) (st.line maxChunkLen (i + 1) line) := by
  obtain ⟨hi, -⟩ := List.getElem?_eq_some_iff.mp hget
  rw [Chunking.line]
  by_cases hbreak : Lib.trimSpace line = "" ∧ st.current ≠ ""
      ∧ maxChunkLen / 2 ≤ st.current.utf8ByteSize
  · rw [if_pos hbreak]
    exact (h.flush (Nat.le_of_lt hi)).skip hget (trimSpace_eq_empty_iff.mp hbreak.1) rfl rfl
  · rw [if_neg hbreak]
    dsimp only
    by_cases hlarge : maxChunkLen
        ≤ (if st.current ≠ "" then st.current ++ "\n" ++ line else line).utf8ByteSize
    · rw [if_pos hlarge]
      exact (h.write hget).flush hi
    · rw [if_neg hlarge]
      exact h.write hget

/-- The loop, with the rest of the lines before it. -/
theorem ChunkInv.loop (h : ChunkInv lines i st) (maxChunkLen : Nat) (hi : i ≤ lines.length)
    {rest : List String} (hrest : lines.drop i = rest) :
    ChunkInv lines lines.length (chunkLines maxChunkLen (i + 1) rest st) := by
  induction rest generalizing i st with
  | nil =>
    have hend : i = lines.length := Nat.le_antisymm hi (List.drop_eq_nil_iff.mp hrest)
    rw [← hend]
    exact h
  | cons line rest ih =>
    have hget : lines[i]? = some line := by
      rw [← List.head?_drop, hrest]
      rfl
    have hnext : lines.drop (i + 1) = rest := by
      rw [← List.tail_drop, hrest]
      rfl
    exact ih (h.line maxChunkLen hget) (List.getElem?_eq_some_iff.mp hget).1 hnext

end

theorem ChunkInv.start (lines : List String) :
    ChunkInv lines 0 { chunks := [], current := "", startLine := 1 } where
  first := Nat.le_refl 1
  reached := Nat.le_refl 1
  buffer := ⟨0, Nat.le_refl _, Nat.le_refl _, rfl, nofun⟩
  exact := nofun
  increasing := List.Pairwise.nil
  covered := fun j _ _ _ hj => absurd hj (Nat.not_lt_of_le (Nat.succ_pos j))

/-- What `ChunkText` ends with, and nothing is left in the buffer. -/
theorem chunkText_inv (text : String) (maxChunkLen : Int) :
    ∃ st, st.chunks = chunkText text maxChunkLen
      ∧ ChunkInv (splitLines text) (splitLines text).length st ∧ st.current = "" := by
  have hloop := (ChunkInv.start (splitLines text)).loop
    (if maxChunkLen ≤ 0 then 1000 else maxChunkLen.toNat) (Nat.zero_le _) rfl
  rw [List.drop_zero] at hloop
  unfold chunkText
  dsimp only
  rw [← splitLines]
  generalize chunkLines _ 1 (splitLines text) _ = st at hloop ⊢
  by_cases hcurrent : st.current ≠ ""
  · rw [if_pos hcurrent]
    exact ⟨_, rfl, hloop.flush (Nat.le_refl _), rfl⟩
  · rw [if_neg hcurrent]
    exact ⟨st, rfl, hloop, not_not.mp hcurrent⟩

/-! ## The ranges -/

/-- Any two ranges are apart. -/
theorem range_unique {chunks : List TextChunk}
    (hincreasing : chunks.Pairwise fun c d => c.endLine < d.startLine) {n : Nat} {c d : TextChunk}
    (hc : c ∈ chunks) (hd : d ∈ chunks) (hcn : c.startLine ≤ n ∧ n ≤ c.endLine)
    (hdn : d.startLine ≤ n ∧ n ≤ d.endLine) : c = d := by
  let Apart := fun c d : TextChunk => c.endLine < d.startLine ∨ d.endLine < c.startLine
  have hsymm : Std.Symm Apart := ⟨fun _ _ => Or.symm⟩
  have happart : chunks.Pairwise Apart := hincreasing.imp Or.inl
  by_contra hne
  rcases happart.forall hc hd hne with h | h
  · omega
  · omega

/-- What is read from the lines of a chunk. -/
theorem extractLines_chunk {text : String} {c : TextChunk} (h : ExactChunk (splitLines text) c) :
    extractLines text c.startLine (c.endLine - c.startLine + 1)
      = joinLines (segment (splitLines text) (c.startLine - 1) c.endLine) := by
  have hfirst := h.first
  have hordered := h.ordered
  have hlast := h.last
  have hstart : (if (c.startLine : Int) > 0 then ((c.startLine : Int) - 1).toNat else 0)
      = c.startLine - 1 := by
    rw [if_pos (by omega)]
    omega
  have hend : (if (c.endLine : Int) - c.startLine + 1 > 0
        ∧ ((c.startLine - 1 : Nat) : Int) + (c.endLine - c.startLine + 1) < (splitLines text).length
      then c.startLine - 1 + ((c.endLine : Int) - c.startLine + 1).toNat
      else (splitLines text).length) = c.endLine := by
    split
    · omega
    · omega
  unfold extractLines
  dsimp only
  rw [if_neg (by omega), hstart, if_neg (by omega), hend]
  rfl

theorem chunkText_exactRanges (text : String) (maxChunkLen : Int) :
    ExactRanges text (chunkText text maxChunkLen) := by
  obtain ⟨st, hchunks, h, hcurrent⟩ := chunkText_inv text maxChunkLen
  rw [← hchunks]
  constructor
  · exact fun c hc => (h.exact c hc).1
  · exact h.increasing
  · intro i line hline hnb
    have hbefore : i + 1 < st.startLine := by
      by_contra hlate
      have hne := h.content_ne_empty.mpr
        ⟨i, line, Nat.le_of_not_lt hlate, (List.getElem?_eq_some_iff.mp hline).1, hline, hnb⟩
      rw [hcurrent] at hne
      exact hne (by decide)
    obtain ⟨c, hc, hrange⟩ := h.covered i line hline hnb hbefore
    exact ⟨c, ⟨hc, hrange⟩, fun d hd => range_unique h.increasing hd.1 hc hd.2 hrange⟩
  · intro c hc
    rw [extractLines_chunk (h.exact c hc).1]
    exact (h.exact c hc).1.text.symm

/-- What a search reports of a document is read back by its path and lines
while the document is there. -/
def ReadBack {ν : Type} (env : Env ν) (doc : MemoryDoc) : Prop :=
  ∀ p ∈ documentPoints env doc, ∀ {ρ : Type} (score : ρ) docs w userID query,
    let r := p.searchResult score
    getDocument env docs w doc.scope userID r.path query = .ok doc →
      ∃ text, managerGetDocument env docs w doc.scope userID r.path r.startLine
          (r.endLine - r.startLine + 1) query = .ok text
        ∧ Lib.trimSpace text = r.text

theorem documentPoints_readBack {ν : Type} (env : Env ν) (doc : MemoryDoc) : ReadBack env doc := by
  intro p hp ρ score docs w userID query r hget
  obtain ⟨i, chunk, hchunk⟩ := mem_documentPoints hp
  have hmem := List.mem_of_getElem? hchunk.at_index
  refine ⟨extractLines doc.content r.startLine (r.endLine - r.startLine + 1), ?_, ?_⟩
  · rw [managerGetDocument, hget]
  · show Lib.trimSpace (extractLines doc.content p.startLine (p.endLine - p.startLine + 1)) = p.text
    rw [hchunk.startLine, hchunk.endLine, hchunk.text]
    exact (chunkText_exactRanges doc.content env.maxChunkLen).read chunk hmem

/-- Memory chunk line ranges are exact. -/
theorem chunk_lines_exact (text : String) (maxChunkLen : Int) :
    ExactRanges text (chunkText text maxChunkLen)
      ∧ ∀ {ν : Type} (env : Env ν) (doc : MemoryDoc), ReadBack env doc :=
  ⟨chunkText_exactRanges text maxChunkLen, documentPoints_readBack⟩

end LendingClaw.Memory

/-
LendingClaw.Memory.OverlapChunks — chunks that overlap
(`ChunkTextWithOverlap` of `internal/memory/chunking.go`).

A text is a byte string, and a paragraph that is too long is cut at byte
offsets. One closure emits the accumulator and keeps its last paragraphs
for the next chunk, or does nothing: when the accumulator is empty, and
when it is white space. Every chunk is what was carried over, a suffix of
the chunk before, and new pieces; the new pieces of all chunks are those
of the text (`chunkTextWithOverlap_overlapping`).
-/
import LendingClaw.Lib.ByteSpace
import LendingClaw.Lib.Table
import Mathlib.Data.List.Chain

namespace LendingClaw.Memory

open LendingClaw.Lib

/-! ## Paragraphs -/

/-- `strings.Split(text, "\n\n")`. -/
def splitParagraphs : Bytes → List Bytes
  | [] => [[]]
  | 10 :: 10 :: text => [] :: splitParagraphs text
  | b :: text =>
    match splitParagraphs text with
    | [] => [[b]]
    | p :: ps => (b :: p) :: ps

/-- `strings.Join(paragraphs, "\n\n")`. -/
def joinParagraphs (paragraphs : List Bytes) : Bytes := [10, 10].intercalate paragraphs

/-- A chunk of bytes, with its lines. -/
structure ByteChunk where
  text : Bytes
  startLine : Nat
  endLine : Nat

/-- The variables of the loop. -/
structure Accumulator where
  chunks : List ByteChunk
  current : List Bytes
  currentLen : Nat
  lineOffset : Nat

/-- The loop over the accumulator from its end: the paragraphs kept so
far, and their length. -/
def carryLoop (overlap : Nat) : (reversed carry : List Bytes) → (carryLen : Nat) → List Bytes × Nat
  | [], carry, carryLen => (carry, carryLen)
  | p :: reversed, carry, carryLen =>
    if carryLen + p.length > overlap then (carry, carryLen)
    else carryLoop overlap reversed (p :: carry) (carryLen + p.length)

/-- `flush`. -/
def Accumulator.flush (overlap : Nat) (st : Accumulator) : Accumulator :=
  if st.current = [] then st
  else
    let content := trimBytes (joinParagraphs st.current)
    if content = [] then st
    else
      let endLine := st.lineOffset + content.count 10
      let carry := carryLoop overlap st.current.reverse [] 0
      { chunks := st.chunks ++ [{ text := content, startLine := st.lineOffset, endLine := endLine }]
        current := carry.1
        currentLen := carry.2
        lineOffset := endLine + 1 }

/-- The append of the forced split, which leaves separators out. -/
def Accumulator.appendPiece (st : Accumulator) (piece : Bytes) : Accumulator :=
  { st with current := st.current ++ [piece], currentLen := st.currentLen + piece.length }

/-- The loop of the forced split over the pieces of a paragraph. -/
def Accumulator.forceSplit (overlap : Nat) : Accumulator → List Bytes → Accumulator
  | st, [] => st
  | st, [piece] => st.appendPiece piece
  | st, piece :: pieces => ((st.appendPiece piece).flush overlap).forceSplit overlap pieces

/-- The pieces of a paragraph that is too long: `chunkSize` bytes each,
but for the last. -/
def forcedPieces (chunkSize : Nat) (para : Bytes) : List Bytes :=
  Table.batches chunkSize para.length para

/-- The append of a whole paragraph. -/
def Accumulator.appendParagraph (st : Accumulator) (para : Bytes) : Accumulator :=
  { st with
    current := st.current ++ [para]
    currentLen := st.currentLen + para.length + if (st.current ++ [para]).length > 1 then 2 else 0 }

/-- The loop body. -/
def Accumulator.addParagraph (chunkSize overlap : Nat) (st : Accumulator) (raw : Bytes) :
    Accumulator :=
  let para := trimBytes raw
  if para = [] then st
  else if para.length > chunkSize then
    (st.flush overlap).forceSplit overlap (forcedPieces chunkSize para)
  else
    let sepLen := if st.current.length > 0 then 2 else 0
    if st.currentLen + sepLen + para.length > chunkSize ∧ st.current.length > 0 then
      (st.flush overlap).appendParagraph para
    else st.appendParagraph para

def Accumulator.start : Accumulator :=
  { chunks := [], current := [], currentLen := 0, lineOffset := 1 }

/-- The defaults of the sizes. -/
def effectiveSize (chunkSize : Int) : Nat := if chunkSize ≤ 0 then 1000 else chunkSize.toNat

def effectiveOverlap (overlap : Int) : Nat := if overlap < 0 then 0 else overlap.toNat

def chunkTextWithOverlap (text : Bytes) (chunkSize overlap : Int) : List ByteChunk :=
  let chunkSize := effectiveSize chunkSize
  let overlap := effectiveOverlap overlap
  (((splitParagraphs text).foldl (Accumulator.addParagraph chunkSize overlap) .start).flush
    overlap).chunks

/-! ## The property -/

/-- The paragraphs: trimmed, without the blank ones. -/
def paragraphs (text : Bytes) : List Bytes :=
  ((splitParagraphs text).map trimBytes).filter fun p => p ≠ []

/-- The pieces of a paragraph. -/
def pieces (chunkSize : Nat) (para : Bytes) : List Bytes :=
  if para.length > chunkSize then forcedPieces chunkSize para else [para]

/-- A text is white space around and between these parts. -/
def Spread : Bytes → List Bytes → Prop
  | text, [] => Blank text
  | text, p :: ps => ∃ gap rest, Blank gap ∧ text = gap ++ p ++ rest ∧ Spread rest ps

/-- What a chunk is made of: the paragraphs that were carried over, and
the new ones. -/
structure Part where
  carried : List Bytes
  new : List Bytes

/-- The text of a chunk. -/
def Part.text (part : Part) : Bytes := trimBytes (joinParagraphs (part.carried ++ part.new))

/-- The second carries a suffix of the first, no longer than allowed. -/
def CarriesFrom (overlap : Nat) (a b : Part) : Prop :=
  b.carried <:+ a.carried ++ a.new ∧ b.carried.flatten.length ≤ overlap

/-- Nothing of a text is lost and nothing invented. -/
structure Overlapping (text : Bytes) (chunkSize overlap : Nat) (parts : List Part)
    (chunks : List ByteChunk) : Prop where
  texts : chunks.map ByteChunk.text = parts.map Part.text
  carries : (({ carried := [], new := [] } : Part) :: parts).IsChain (CarriesFrom overlap)
  whole : ∀ p ∈ paragraphs text, p.length ≤ chunkSize → ∃ chunk ∈ chunks, p <:+: chunk.text
  ordered : parts.flatMap Part.new = (paragraphs text).flatMap (pieces chunkSize)
  complete : ∀ p ∈ paragraphs text, (pieces chunkSize p).flatten = p
  spread : Spread text (parts.flatMap Part.new)
  characters : ∀ s, text = utf8 s → ∃ t, (parts.flatMap Part.new).flatten = utf8 t
    ∧ t.filter (fun c => !isSpace c) = s.filter fun c => !isSpace c

/-! ## Joined paragraphs -/

/-- The separator is a text. -/
theorem separator_eq : ([10, 10] : Bytes) = utf8 ['\n', '\n'] := rfl

theorem blank_separator : Blank [10, 10] := ⟨['\n', '\n'], List.all_eq_true.mp (by decide), rfl⟩

theorem complete_separator (bytes : Bytes) : Complete (bytes ++ [10, 10]) := by
  rw [separator_eq]
  exact complete_append_utf8 bytes (by simp)

theorem boundary_separator (bytes : Bytes) : Boundary ([10, 10] ++ bytes) := by
  intro b hb
  cases hb
  decide

@[simp] theorem joinParagraphs_nil : joinParagraphs [] = [] := rfl

@[simp] theorem joinParagraphs_singleton (p : Bytes) : joinParagraphs [p] = p := by
  simp [joinParagraphs]

theorem joinParagraphs_cons (p : Bytes) {ps : List Bytes} (hne : ps ≠ []) :
    joinParagraphs (p :: ps) = p ++ [10, 10] ++ joinParagraphs ps := by
  obtain ⟨q, ps, rfl⟩ := List.exists_cons_of_ne_nil hne
  simp [joinParagraphs]

theorem joinParagraphs_append {ps qs : List Bytes} (hps : ps ≠ []) (hqs : qs ≠ []) :
    joinParagraphs (ps ++ qs) = joinParagraphs ps ++ [10, 10] ++ joinParagraphs qs := by
  induction ps with
  | nil => exact absurd rfl hps
  | cons p ps ih =>
    by_cases hnil : ps = []
    · subst hnil
      rw [List.singleton_append, joinParagraphs_cons p hqs, joinParagraphs_singleton]
    · rw [List.cons_append, joinParagraphs_cons p (by simp [hnil]), ih hnil,
        joinParagraphs_cons p hnil]
      simp

/-- A paragraph stands in a join between complete bytes and the start of a
character. -/
theorem joinParagraphs_mid (ps : List Bytes) (p : Bytes) (qs : List Bytes) :
    ∃ a b, joinParagraphs (ps ++ p :: qs) = a ++ p ++ b ∧ Complete a ∧ Boundary b := by
  have hback : ∃ b, joinParagraphs (p :: qs) = p ++ b ∧ Boundary b := by
    by_cases hqs : qs = []
    · exact ⟨[], by simp [hqs], boundary_nil⟩
    · exact ⟨[10, 10] ++ joinParagraphs qs, by rw [joinParagraphs_cons p hqs, List.append_assoc],
        boundary_separator _⟩
  obtain ⟨b, hb, hboundary⟩ := hback
  by_cases hps : ps = []
  · exact ⟨[], b, by simp [hps, hb], complete_nil, hboundary⟩
  · refine ⟨joinParagraphs ps ++ [10, 10], b, ?_, complete_separator _, hboundary⟩
    rw [joinParagraphs_append hps (List.cons_ne_nil p qs), hb]
    simp

/-- White space is joined of white space only. -/
theorem blank_of_joinParagraphs {ps : List Bytes} (h : Blank (joinParagraphs ps)) :
    ∀ p ∈ ps, Blank p := by
  intro p hp
  obtain ⟨before, after, rfl⟩ := List.append_of_mem hp
  obtain ⟨a, b, hjoin, ha, hb⟩ := joinParagraphs_mid before p after
  rw [hjoin] at h
  exact ((h.split (.inr hb)).1.split (.inl ha)).2

theorem splitParagraphs_ne_nil (text : Bytes) : splitParagraphs text ≠ [] := by
  fun_cases splitParagraphs text <;> simp

/-- The split text joined again. -/
theorem joinParagraphs_split (text : Bytes) : joinParagraphs (splitParagraphs text) = text := by
  fun_induction splitParagraphs text with
  | case1 => simp
  | case2 text ih => rw [joinParagraphs_cons [] (splitParagraphs_ne_nil text), ih]; rfl
  | case3 b text _ hsplit ih => exact absurd hsplit (splitParagraphs_ne_nil text)
  | case4 b text _ p ps hsplit ih =>
    rw [hsplit] at ih
    by_cases hps : ps = []
    · subst hps
      rw [joinParagraphs_singleton] at ih ⊢
      rw [ih]
    · rw [joinParagraphs_cons _ hps] at ih ⊢
      rw [← ih]
      simp

/-! ## White space between the parts -/

theorem Spread.prepend {gap : Bytes} (hgap : Blank gap) {text : Bytes} {ps : List Bytes}
    (h : Spread text ps) : Spread (gap ++ text) ps := by
  cases ps with
  | nil => exact hgap.append h
  | cons p ps =>
    obtain ⟨gap', rest, hgap', rfl, hrest⟩ := h
    exact ⟨gap ++ gap', rest, hgap.append hgap', by simp, hrest⟩

/-- The first part may come in pieces. -/
theorem Spread.pieces {ps : List Bytes} {text : Bytes} {qs : List Bytes} (hps : ps ≠ [])
    (h : Spread text (ps.flatten :: qs)) : Spread text (ps ++ qs) := by
  obtain ⟨gap, rest, hgap, rfl, hrest⟩ := h
  induction ps generalizing gap with
  | nil => exact absurd rfl hps
  | cons p ps ih =>
    by_cases hnil : ps = []
    · subst hnil
      exact ⟨gap, rest, hgap, by simp, hrest⟩
    · refine ⟨gap, ps.flatten ++ rest, hgap, by simp, ?_⟩
      exact ih hnil [] blank_nil

theorem spread_paragraphs (text : Bytes) : Spread text (paragraphs text) := by
  have hraws : ∀ raws : List Bytes,
      Spread (joinParagraphs raws) ((raws.map trimBytes).filter fun p => p ≠ []) := by
    intro raws
    induction raws with
    | nil => exact blank_nil
    | cons raw raws ih =>
      obtain ⟨before, after, hbefore, hafter, hraw, -, -⟩ := trimBytes_spec raw
      have hrest : ∃ rest, joinParagraphs (raw :: raws) = before ++ trimBytes raw ++ rest
          ∧ Spread rest ((raws.map trimBytes).filter fun p => p ≠ []) := by
        by_cases hnil : raws = []
        · subst hnil
          exact ⟨after, by rw [joinParagraphs_singleton, ← hraw], hafter⟩
        · refine ⟨after ++ ([10, 10] ++ joinParagraphs raws), ?_,
            (ih.prepend blank_separator).prepend hafter⟩
          rw [joinParagraphs_cons raw hnil]
          nth_rewrite 1 [hraw]
          simp
      obtain ⟨rest, hjoin, hspread⟩ := hrest
      rw [List.map_cons, hjoin]
      by_cases hblank : trimBytes raw = []
      · rw [List.filter_cons_of_neg (by simpa using hblank), hblank, List.append_nil]
        exact hspread.prepend hbefore
      · rw [List.filter_cons_of_pos (by simpa using hblank)]
        exact ⟨before, rest, hbefore, rfl, hspread⟩
  have hsplit := hraws (splitParagraphs text)
  rwa [joinParagraphs_split] at hsplit

/-- Of a text, the parts are the characters that are no white space. -/
theorem Spread.characters {text : Bytes} {ps : List Bytes} (h : Spread text ps) (front : Bytes)
    {s : List Char} (hs : front ++ text = utf8 s) :
    ∃ t, front ++ ps.flatten = utf8 t
      ∧ t.filter (fun c => !isSpace c) = s.filter fun c => !isSpace c := by
  have hblank : ∀ spaces : List Char, (∀ c ∈ spaces, isSpace c = true) →
      spaces.filter (fun c => !isSpace c) = [] := by
    intro spaces hspaces
    simpa using hspaces
  induction ps generalizing text front s with
  | nil =>
    have hboundary := Blank.boundary h
    obtain ⟨a, b, rfl, rfl, hb⟩ := utf8_split hs.symm hboundary
    obtain ⟨spaces, hspaces, rfl⟩ := h
    obtain rfl := utf8_injective hb
    refine ⟨a, by simp, ?_⟩
    rw [List.filter_append, hblank spaces hspaces, List.append_nil]
  | cons p ps ih =>
    obtain ⟨gap, rest, hgap, rfl, hrest⟩ := h
    -- without the gap the rest is still a text: a gap starts and ends between characters
    have hnext : ∃ s', front ++ p ++ rest = utf8 s'
        ∧ s'.filter (fun c => !isSpace c) = s.filter fun c => !isSpace c := by
      obtain ⟨spaces, hspaces, rfl⟩ := hgap
      by_cases hnil : spaces = []
      · subst hnil
        exact ⟨s, by simpa using hs, rfl⟩
      · have hboundary : Boundary (utf8 spaces ++ (p ++ rest)) := by
          cases spaces with
          | nil => exact absurd rfl hnil
          | cons c spaces =>
            have hchar := boundary_utf8 [c]
            rw [utf8_cons, utf8_nil, List.append_nil] at hchar
            intro b hb
            rw [utf8_cons, List.append_assoc,
              List.head?_append_of_ne_nil _ String.utf8EncodeChar_ne_nil] at hb
            exact hchar b hb
        rw [List.append_assoc] at hs
        obtain ⟨a, b, rfl, rfl, hb⟩ := utf8_split hs.symm hboundary
        obtain ⟨b', rfl, hb'⟩ := exists_of_utf8_append hb
        refine ⟨a ++ b', by rw [utf8_append, ← hb', List.append_assoc], ?_⟩
        simp only [List.filter_append, hblank spaces hspaces, List.nil_append]
    obtain ⟨s', hs', hfilter⟩ := hnext
    obtain ⟨t, ht, hsame⟩ := ih hrest (front ++ p) hs'
    exact ⟨t, by rw [List.flatten_cons, ← List.append_assoc, ht], hsame.trans hfilter⟩

/-! ## The pieces of a paragraph -/

theorem effectiveSize_pos (chunkSize : Int) : 0 < effectiveSize chunkSize := by
  unfold effectiveSize
  split <;> omega

theorem flatten_pieces {chunkSize : Nat} (hpos : 0 < chunkSize) (p : Bytes) :
    (pieces chunkSize p).flatten = p := by
  unfold pieces
  split
  · exact Table.batches_flatten hpos _ _ le_rfl
  · simp

theorem pieces_ne_nil {chunkSize : Nat} (hpos : 0 < chunkSize) {p : Bytes} (hne : p ≠ []) :
    pieces chunkSize p ≠ [] := by
  intro hnil
  have hflatten := flatten_pieces hpos p
  rw [hnil] at hflatten
  exact hne hflatten.symm

/-- The last piece of a trimmed paragraph is not blank. -/
theorem not_blank_of_last {ps : List Bytes} {p last : Bytes} (hflatten : (ps ++ [last]).flatten = p)
    (hne : last ≠ []) (htrail : NoTrailingSpace p) : ¬ Blank last := by
  rintro ⟨text, hspace, rfl⟩
  rcases List.eq_nil_or_concat text with rfl | ⟨init, c, rfl⟩
  · exact hne rfl
  · have hlast : p = (ps.flatten ++ utf8 init) ++ String.utf8EncodeChar c := by
      rw [← hflatten]
      simp
    have hno := htrail c (lastChar_eq_some.mpr ⟨_, hlast⟩)
    rw [hspace c (by simp)] at hno
    cases hno

theorem mem_paragraphs {text p : Bytes} (h : p ∈ paragraphs text) :
    p ≠ [] ∧ NoLeadingSpace p ∧ NoTrailingSpace p := by
  obtain ⟨hmem, hne⟩ := List.mem_filter.mp h
  obtain ⟨raw, -, rfl⟩ := List.mem_map.mp hmem
  obtain ⟨-, -, -, -, -, hlead, htrail⟩ := trimBytes_spec raw
  exact ⟨by simpa using hne, hlead, htrail⟩

/-! ## The accumulator -/

theorem carryLoop_spec (overlap : Nat) (reversed carry : List Bytes) :
    (carryLoop overlap reversed carry carry.flatten.length).1 <:+ reversed.reverse ++ carry
      ∧ (carryLoop overlap reversed carry carry.flatten.length).2
        = (carryLoop overlap reversed carry carry.flatten.length).1.flatten.length
      ∧ (carry.flatten.length ≤ overlap →
        (carryLoop overlap reversed carry carry.flatten.length).1.flatten.length ≤ overlap) := by
  induction reversed generalizing carry with
  | nil => exact ⟨List.suffix_refl _, rfl, id⟩
  | cons p reversed ih =>
    unfold carryLoop
    split
    · exact ⟨List.suffix_append _ _, rfl, id⟩
    · rename_i hfits
      have hlen : carry.flatten.length + p.length = (p :: carry).flatten.length := by
        rw [List.flatten_cons, List.length_append, Nat.add_comm]
      obtain ⟨hsuffix, hcount, hbound⟩ := ih (p :: carry)
      rw [hlen] at hfits ⊢
      refine ⟨?_, hcount, fun _ => hbound (by omega)⟩
      rwa [List.reverse_cons, List.append_assoc]

/-- What has been read of the text is in the parts that were emitted, and
in the one that is being accumulated. -/
structure ChunkRun (overlap : Nat) (read : List Bytes) (parts : List Part) (building : Part)
    (st : Accumulator) : Prop where
  texts : st.chunks.map ByteChunk.text = parts.map Part.text
  current : st.current = building.carried ++ building.new
  carries : (({ carried := [], new := [] } : Part) :: (parts ++ [building])).IsChain
    (CarriesFrom overlap)
  read : parts.flatMap Part.new ++ building.new = read

/-- The closure emits the accumulated part and carries its end over, or
does nothing to an accumulator that is empty or white space. -/
theorem flush_cases (overlap : Nat) (st : Accumulator) :
    (st.flush overlap = st ∧ Blank (joinParagraphs st.current))
      ∨ ¬ Blank (joinParagraphs st.current)
        ∧ (st.flush overlap).chunks.map ByteChunk.text
          = st.chunks.map ByteChunk.text ++ [trimBytes (joinParagraphs st.current)]
        ∧ (st.flush overlap).current <:+ st.current
        ∧ (st.flush overlap).current.flatten.length ≤ overlap := by
  unfold Accumulator.flush
  split
  · rename_i hempty
    exact .inl ⟨rfl, by rw [hempty]; exact blank_nil⟩
  · dsimp only
    split
    · rename_i hblank
      exact .inl ⟨rfl, trimBytes_eq_nil_iff.mp hblank⟩
    · rename_i hcontent
      obtain ⟨hsuffix, -, hbound⟩ := carryLoop_spec overlap st.current.reverse []
      refine .inr ⟨mt trimBytes_eq_nil_iff.mpr hcontent, by simp, ?_, hbound (Nat.zero_le _)⟩
      simpa using hsuffix

/-- The part begins with what it carries, whatever is appended to it. -/
theorem carries_concat {overlap : Nat} {parts : List Part} {a b : Part} (h : b.carried = a.carried)
    (hchain : (({ carried := [], new := [] } : Part) :: (parts ++ [a])).IsChain (CarriesFrom overlap)) :
    (({ carried := [], new := [] } : Part) :: (parts ++ [b])).IsChain (CarriesFrom overlap) := by
  rw [← List.cons_append, List.isChain_append] at hchain ⊢
  refine ⟨hchain.1, List.isChain_singleton b, fun x hx y hy => ?_⟩
  cases hy
  have hcarries := hchain.2.2 x hx a rfl
  exact ⟨h ▸ hcarries.1, h ▸ hcarries.2⟩

variable {overlap chunkSize : Nat} {read : List Bytes} {parts : List Part} {building : Part}
  {st : Accumulator}

theorem ChunkRun.flush (h : ChunkRun overlap read parts building st) :
    ∃ parts' building', ChunkRun overlap read parts' building' (st.flush overlap)
      ∧ (building'.new = [] ∨ (building' = building ∧ Blank (joinParagraphs st.current))) := by
  rcases flush_cases overlap st with ⟨hsame, hblank⟩ | ⟨-, htexts, hsuffix, hbound⟩
  · exact ⟨parts, building, by rwa [hsame], .inr ⟨rfl, hblank⟩⟩
  · refine ⟨parts ++ [building], { carried := (st.flush overlap).current, new := [] }, ?_, .inl rfl⟩
    exact
      { texts := by
          rw [htexts, h.texts, h.current]
          simp [Part.text]
        current := by simp
        carries := by
          rw [← List.cons_append, List.isChain_append]
          refine ⟨h.carries, List.isChain_singleton _, fun x hx y hy => ?_⟩
          rw [← List.cons_append, List.getLast?_concat] at hx
          cases hx
          cases hy
          exact ⟨by rwa [← h.current], hbound⟩
        read := by
          rw [← h.read]
          simp }

/-- An append of either kind. -/
theorem ChunkRun.append (h : ChunkRun overlap read parts building st) {st' : Accumulator} {piece : Bytes}
    (hchunks : st'.chunks = st.chunks) (hcurrent : st'.current = st.current ++ [piece]) :
    ChunkRun overlap (read ++ [piece]) parts { building with new := building.new ++ [piece] } st' where
  texts := by rw [hchunks, h.texts]
  current := by rw [hcurrent, h.current, List.append_assoc]
  carries := carries_concat (by rfl) h.carries
  read := by rw [← h.read, List.append_assoc]

/-- The accumulated part has nothing new, or ends with bytes that are not
blank. -/
def Full (part : Part) : Prop := part.new = [] ∨ ∃ init last, part.new = init ++ [last] ∧ ¬ Blank last

theorem forceSplit_run (pieces : List Bytes) (last : Bytes)
    (h : ChunkRun overlap read parts building st) :
    ∃ parts' building' init, ChunkRun overlap (read ++ (pieces ++ [last])) parts' building'
      (st.forceSplit overlap (pieces ++ [last])) ∧ building'.new = init ++ [last] := by
  induction pieces generalizing read parts building st with
  | nil => exact ⟨parts, _, building.new, h.append rfl rfl, rfl⟩
  | cons piece pieces ih =>
    have happend : ChunkRun overlap (read ++ [piece]) parts
        { building with new := building.new ++ [piece] } (st.appendPiece piece) := h.append rfl rfl
    obtain ⟨parts', building', hflush, -⟩ := happend.flush
    obtain ⟨parts'', building'', init, hrun, hnew⟩ := ih hflush
    have hstep : st.forceSplit overlap (piece :: (pieces ++ [last]))
        = ((st.appendPiece piece).flush overlap).forceSplit overlap (pieces ++ [last]) := by
      cases pieces <;> rfl
    rw [List.append_assoc] at hrun
    exact ⟨parts'', building'', init, by rwa [List.cons_append, hstep], hnew⟩

/-- What the loop reads of a stretch between blank lines. -/
def readPieces (chunkSize : Nat) (raw : Bytes) : List Bytes :=
  if trimBytes raw = [] then [] else pieces chunkSize (trimBytes raw)

/-- One step of the loop. -/
theorem addParagraph_run (hpos : 0 < chunkSize) (raw : Bytes)
    (h : ChunkRun overlap read parts building st) (hfull : Full building) :
    ∃ parts' building', ChunkRun overlap (read ++ readPieces chunkSize raw) parts' building'
      (st.addParagraph chunkSize overlap raw) ∧ Full building' := by
  obtain ⟨-, -, -, -, -, -, htrail⟩ := trimBytes_spec raw
  unfold Accumulator.addParagraph readPieces
  dsimp only
  by_cases hempty : trimBytes raw = []
  · rw [if_pos hempty, if_pos hempty, List.append_nil]
    exact ⟨parts, building, h, hfull⟩
  · rw [if_neg hempty, if_neg hempty]
    by_cases hlong : (trimBytes raw).length > chunkSize
    · have hflatten := flatten_pieces hpos (trimBytes raw)
      have hne := pieces_ne_nil hpos hempty
      rw [if_pos hlong]
      rw [pieces, if_pos hlong] at hflatten hne ⊢
      obtain ⟨init, last, hsplit⟩ := (List.eq_nil_or_concat (forcedPieces chunkSize (trimBytes raw))).resolve_left hne
      rw [List.concat_eq_append] at hsplit
      obtain ⟨parts', building', hflush, -⟩ := h.flush
      obtain ⟨parts'', building'', init', hrun, hnew⟩ := forceSplit_run init last hflush
      rw [hsplit] at hflatten ⊢
      have hlast : last ∈ forcedPieces chunkSize (trimBytes raw) := by simp [hsplit]
      have hlastpos := (Table.length_of_mem_batches hpos hlast).1
      exact ⟨parts'', building'', hrun, .inr ⟨init', last, hnew,
        not_blank_of_last hflatten (List.ne_nil_of_length_pos hlastpos) htrail⟩⟩
    · rw [if_neg hlong, pieces, if_neg hlong]
      have hlast : ¬ Blank (trimBytes raw) := by
        have hflatten : ([] ++ [trimBytes raw]).flatten = trimBytes raw := by simp
        exact not_blank_of_last hflatten hempty htrail
      generalize (if st.current.length > 0 then 2 else 0) = sepLen
      split
      · obtain ⟨parts', building', hflush, -⟩ := h.flush
        exact ⟨parts', _, hflush.append rfl rfl, .inr ⟨building'.new, _, rfl, hlast⟩⟩
      · exact ⟨parts, _, h.append rfl rfl, .inr ⟨building.new, _, rfl, hlast⟩⟩

/-- A run of the loop. -/
theorem addParagraphs_run (hpos : 0 < chunkSize) (raws : List Bytes)
    (h : ChunkRun overlap read parts building st) (hfull : Full building) :
    ∃ parts' building', ChunkRun overlap (read ++ raws.flatMap (readPieces chunkSize)) parts' building'
      (raws.foldl (Accumulator.addParagraph chunkSize overlap) st) ∧ Full building' := by
  induction raws generalizing read parts building st with
  | nil => exact ⟨parts, building, by simpa using h, hfull⟩
  | cons raw raws ih =>
    obtain ⟨parts', building', hstep, hfull'⟩ := addParagraph_run hpos raw h hfull
    obtain ⟨parts'', building'', hrun, hfull''⟩ := ih hstep hfull'
    rw [List.append_assoc] at hrun
    exact ⟨parts'', building'', by rwa [List.flatMap_cons], hfull''⟩

/-! ## Nothing lost, nothing invented -/

theorem flatMap_readPieces (text : Bytes) :
    (splitParagraphs text).flatMap (readPieces chunkSize) = (paragraphs text).flatMap (pieces chunkSize) := by
  unfold paragraphs
  induction splitParagraphs text with
  | nil => rfl
  | cons raw raws ih =>
    by_cases hempty : trimBytes raw = []
    · simp [readPieces, hempty, ih]
    · simp [readPieces, hempty, ih]

/-- The parts of a run, with the last one emitted. -/
theorem exists_parts (hpos : 0 < chunkSize) (overlap : Nat) (text : Bytes) :
    ∃ parts, ((((splitParagraphs text).foldl (Accumulator.addParagraph chunkSize overlap)
        .start).flush overlap).chunks.map ByteChunk.text) = parts.map Part.text
      ∧ (({ carried := [], new := [] } : Part) :: parts).IsChain (CarriesFrom overlap)
      ∧ parts.flatMap Part.new = (paragraphs text).flatMap (pieces chunkSize) := by
  have hstart : ChunkRun overlap [] [] { carried := [], new := [] } Accumulator.start :=
    { texts := rfl
      current := rfl
      carries := by simp [CarriesFrom]
      read := rfl }
  obtain ⟨parts, building, hrun, hfull⟩ := addParagraphs_run hpos (splitParagraphs text) hstart (.inl rfl)
  rw [List.nil_append, flatMap_readPieces] at hrun
  obtain ⟨parts', building', hflush, hlast⟩ := hrun.flush
  have hnew : building'.new = [] := by
    rcases hlast with hnew | ⟨rfl, hblank⟩
    · exact hnew
    · rcases hfull with hnew | ⟨init, last, hnew, hlast⟩
      · exact hnew
      · refine absurd (blank_of_joinParagraphs hblank last ?_) hlast
        rw [hrun.current, hnew]
        simp
  refine ⟨parts', hflush.texts, ?_, ?_⟩
  · have hcarries := hflush.carries
    rw [← List.cons_append] at hcarries
    exact hcarries.left_of_append
  · rw [← hflush.read, hnew, List.append_nil]

/-- A new piece with no white space at its ends stands whole in its
chunk. -/
theorem Part.infix_text {part : Part} {p : Bytes} (hp : p ∈ part.new) (hne : p ≠ [])
    (hlead : NoLeadingSpace p) (htrail : NoTrailingSpace p) : p <:+: part.text := by
  obtain ⟨before, after, hsplit⟩ := List.append_of_mem hp
  obtain ⟨a, b, hjoin, ha, hb⟩ := joinParagraphs_mid (part.carried ++ before) p after
  rw [Part.text, hsplit, ← List.append_assoc, hjoin]
  exact infix_trimBytes ha hne hlead htrail hb

theorem spread_pieces (hpos : 0 < chunkSize) {ps : List Bytes} (hne : ∀ p ∈ ps, p ≠ []) {text : Bytes}
    (h : Spread text ps) : Spread text (ps.flatMap (pieces chunkSize)) := by
  induction ps generalizing text with
  | nil => exact h
  | cons p ps ih =>
    obtain ⟨gap, rest, hgap, rfl, hrest⟩ := h
    have hhead := hne p List.mem_cons_self
    rw [List.flatMap_cons]
    refine Spread.pieces (pieces_ne_nil hpos hhead) ?_
    rw [flatten_pieces hpos]
    exact ⟨gap, rest, hgap, rfl, ih (fun q hq => hne q (List.mem_cons_of_mem p hq)) hrest⟩

/-- Overlapping chunks lose and invent nothing. -/
theorem chunkTextWithOverlap_overlapping (text : Bytes) (chunkSize overlap : Int) :
    ∃ parts, Overlapping text (effectiveSize chunkSize) (effectiveOverlap overlap) parts
      (chunkTextWithOverlap text chunkSize overlap) := by
  have hpos := effectiveSize_pos chunkSize
  obtain ⟨parts, htexts, hcarries, hordered⟩ := exists_parts hpos (effectiveOverlap overlap) text
  have hspread : Spread text (parts.flatMap Part.new) := by
    rw [hordered]
    exact spread_pieces hpos (fun p hp => (mem_paragraphs hp).1) (spread_paragraphs text)
  refine ⟨parts,
    { texts := htexts
      carries := hcarries
      whole := fun p hp hshort => ?_
      ordered := hordered
      complete := fun p _ => flatten_pieces hpos p
      spread := hspread
      characters := fun s hs => hspread.characters [] hs }⟩
  obtain ⟨hne, hlead, htrail⟩ := mem_paragraphs hp
  have hpiece : p ∈ parts.flatMap Part.new := by
    rw [hordered]
    exact List.mem_flatMap.mpr ⟨p, hp, by simp [pieces, not_lt.mpr hshort]⟩
  obtain ⟨part, hpart, hnew⟩ := List.mem_flatMap.mp hpiece
  have htext : part.text ∈ (chunkTextWithOverlap text chunkSize overlap).map ByteChunk.text := by
    unfold chunkTextWithOverlap
    dsimp only
    rw [htexts]
    exact List.mem_map_of_mem hpart
  obtain ⟨chunk, hchunk, heq⟩ := List.mem_map.mp htext
  exact ⟨chunk, hchunk, heq ▸ part.infix_text hnew hne hlead htrail⟩

-- two paragraphs that do not fit together: the first is carried over
example : (chunkTextWithOverlap (utf8 "abc\n\ndef".toList) 4 3).map ByteChunk.text
    = [utf8 "abc".toList, utf8 "abc\n\ndef".toList] := by decide +kernel

end LendingClaw.Memory

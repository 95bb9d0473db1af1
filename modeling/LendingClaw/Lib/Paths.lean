/-
LendingClaw.Lib.Paths — escaped request paths, as `net/url` and
`net/http` read them.

A path is a list of bytes, a byte written as the character of its
number. `unescape` decodes the percent triples of a whole path;
`segments` cuts an escaped path at its slashes. A triple never spans a
slash, so decoding a path and joining its decoded segments is the same
(`unescape_segments`): what the two readings disagree on is where the
segments end, because a decoded segment may contain slashes of its own.
`matchParts` is the pattern match of `http.ServeMux`, and `cleanPath`
the normal form it redirects to.

Nothing here names a program.
-/
import Mathlib.Data.List.Infix
import Mathlib.Data.List.TakeWhile

namespace LendingClaw.Lib

/-! ## Percent decoding -/

/-- `unhex`, for the digits `ishex` accepts. -/
def unhex (c : Char) : Option Nat :=
  if '0' ≤ c ∧ c ≤ '9' then some (c.toNat - '0'.toNat)
  else if 'a' ≤ c ∧ c ≤ 'f' then some (c.toNat - 'a'.toNat + 10)
  else if 'A' ≤ c ∧ c ≤ 'F' then some (c.toNat - 'A'.toNat + 10)
  else none

/-- `url.unescape` of a path; none is an invalid escape. -/
def unescape : List Char → Option (List Char)
  | [] => some []
  | '%' :: a :: b :: rest =>
    match unhex a, unhex b with
    | some high, some low => (unescape rest).map (Char.ofNat (16 * high + low) :: ·)
    | _, _ => none
  | c :: rest => if c = '%' then none else (unescape rest).map (c :: ·)

/-- `pathUnescape` of the mux: an invalid segment stays as it is. -/
def pathUnescape (segment : List Char) : List Char := (unescape segment).getD segment

/-- The segments of an escaped path, between its slashes. -/
def segments (path : List Char) : List (List Char) := path.splitOn '/'

/-- Segments joined with slashes. -/
def joinSegments (segs : List (List Char)) : List Char := ['/'].intercalate segs

theorem unhex_slash : unhex '/' = none := by decide

/-- An escape that the slash cuts short is invalid. -/
theorem unescape_percent_slash (t : List Char) : unescape ('%' :: '/' :: t) = none := by
  cases t with
  | nil => rfl
  | cons b t => simp [unescape, unhex_slash]

theorem unescape_percent_digit_slash (a : Char) (t : List Char) :
    unescape ('%' :: a :: '/' :: t) = none := by
  cases h : unhex a with
  | none => simp [unescape, h]
  | some high => simp [unescape, h, unhex_slash]

theorem unescape_cons {c : Char} (hc : c ≠ '%') (rest : List Char) :
    unescape (c :: rest) = (unescape rest).map (c :: ·) := by
  rw [unescape]
  · rw [if_neg hc]
  · intro _ _ _ h
    exact absurd h hc

/-- Decoding up to a slash and after it. -/
theorem unescape_append_slash (s t : List Char) :
    unescape (s ++ '/' :: t)
      = (unescape s).bind fun s' => (unescape t).map fun t' => s' ++ '/' :: t' := by
  induction s using unescape.induct with
  | case1 => simp [unescape]
  | case2 a b rest high low ha hb ih =>
    simp only [List.cons_append, unescape, ha, hb, ih]
    cases unescape rest with
    | none => rfl
    | some rest' =>
      cases unescape t with
      | _ => rfl
  | case3 a b rest hbad =>
    have hnone : ∀ rest : List Char, unescape ('%' :: a :: b :: rest) = none := by
      intro rest
      rw [unescape]
      split
      · rename_i high low ha hb
        exact absurd hb (hbad high low ha)
      · rfl
    simp [hnone]
  | case4 rest hshort =>
    cases rest with
    | nil => simp [unescape_percent_slash, unescape]
    | cons a rest =>
      cases rest with
      | nil => simp [unescape_percent_digit_slash, unescape]
      | cons b rest => exact absurd rfl (hshort a b rest rfl)
  | case5 c rest hshort hc ih =>
    rw [List.cons_append, unescape_cons hc, unescape_cons hc, ih]
    cases unescape rest with
    | none => rfl
    | some rest' =>
      cases unescape t with
      | _ => rfl

/-- The two readings of a path: what it decodes to is what its decoded
segments join to. -/
theorem unescape_joinSegments :
    ∀ (segs : List (List Char)) (path : List Char), unescape (joinSegments segs) = some path →
      path = joinSegments (segs.map pathUnescape) := by
  intro segs
  induction segs with
  | nil =>
    intro path h
    simpa [joinSegments, unescape] using h.symm
  | cons s segs ih =>
    intro path h
    cases segs with
    | nil =>
      have h' : unescape s = some path := by simpa [joinSegments] using h
      simp [joinSegments, pathUnescape, h']
    | cons s₂ segs =>
      have hjoin : joinSegments (s :: s₂ :: segs) = s ++ '/' :: joinSegments (s₂ :: segs) := by
        simp [joinSegments, List.intercalate_cons_cons]
      rw [hjoin, unescape_append_slash] at h
      obtain ⟨s', hs', h⟩ := Option.bind_eq_some_iff.mp h
      obtain ⟨t', ht', rfl⟩ := Option.map_eq_some_iff.mp h
      rw [ih t' ht']
      simp [joinSegments, pathUnescape, hs', List.intercalate_cons_cons]

theorem joinSegments_segments (path : List Char) : joinSegments (segments path) = path :=
  List.intercalate_splitOn '/'

/-- The last segment, after the last joining slash. -/
theorem joinSegments_append (segs : List (List Char)) (hsegs : segs ≠ []) (s : List Char) :
    joinSegments (segs ++ [s]) = joinSegments segs ++ '/' :: s := by
  induction segs with
  | nil => exact absurd rfl hsegs
  | cons s₁ segs ih =>
    cases segs with
    | nil => simp [joinSegments, List.intercalate_cons_cons]
    | cons s₂ segs =>
      have h := ih (by simp)
      simp only [joinSegments, List.cons_append, List.intercalate_cons_cons] at h ⊢
      rw [h]
      simp

/-! ## Route patterns -/

/-- A segment of a pattern: a literal, or a wildcard with its name. -/
inductive Part where
  | lit (text : String)
  | wild (name : String)
  deriving DecidableEq

/-- The match of a pattern with decoded segments: the values of its
wildcards. Only the segment after a trailing slash is empty, and no
wildcard takes it. -/
def matchParts : List Part → List (List Char) → Option (List (String × List Char))
  | [], [] => some []
  | .lit text :: parts, s :: segs => if s = text.toList then matchParts parts segs else none
  | .wild name :: parts, s :: segs =>
    if s = [] then none else (matchParts parts segs).map ((name, s) :: ·)
  | _, _ => none

/-- Some path matches both patterns. -/
def overlap : List Part → List Part → Bool
  | [], [] => true
  | .lit a :: parts, .lit b :: parts' => a == b && overlap parts parts'
  | _ :: parts, _ :: parts' => overlap parts parts'
  | _, _ => false

theorem matchParts_lit {text : String} {parts : List Part} {segs : List (List Char)}
    {values : List (String × List Char)}
    (h : matchParts (.lit text :: parts) segs = some values) :
    ∃ rest, segs = text.toList :: rest ∧ matchParts parts rest = some values := by
  cases segs with
  | nil => cases h
  | cons s rest =>
    rw [matchParts] at h
    split at h
    · rename_i hs
      exact ⟨rest, by rw [hs], h⟩
    · cases h

theorem matchParts_wild {name : String} {parts : List Part} {segs : List (List Char)}
    {values : List (String × List Char)}
    (h : matchParts (.wild name :: parts) segs = some values) :
    ∃ s rest values', segs = s :: rest ∧ s ≠ [] ∧ matchParts parts rest = some values'
      ∧ values = (name, s) :: values' := by
  cases segs with
  | nil => cases h
  | cons s rest =>
    rw [matchParts] at h
    split at h
    · cases h
    · rename_i hs
      obtain ⟨values', hv, rfl⟩ := Option.map_eq_some_iff.mp h
      exact ⟨s, rest, values', rfl, hs, hv, rfl⟩

/-- A pattern takes one segment for each of its parts. -/
theorem matchParts_cons {part : Part} {parts : List Part} {segs : List (List Char)}
    {values : List (String × List Char)} (h : matchParts (part :: parts) segs = some values) :
    ∃ s rest values', segs = s :: rest ∧ matchParts parts rest = some values' := by
  cases part with
  | lit text =>
    obtain ⟨rest, rfl, hrest⟩ := matchParts_lit h
    exact ⟨_, rest, values, rfl, hrest⟩
  | wild name =>
    obtain ⟨s, rest, values', rfl, -, hrest, -⟩ := matchParts_wild h
    exact ⟨s, rest, values', rfl, hrest⟩

theorem matchParts_nil {segs : List (List Char)} {values : List (String × List Char)}
    (h : matchParts [] segs = some values) : segs = [] := by
  cases segs with
  | nil => rfl
  | cons s rest => cases h

theorem overlap_of_match {parts parts' : List Part} {segs : List (List Char)}
    {values values' : List (String × List Char)} (h : matchParts parts segs = some values)
    (h' : matchParts parts' segs = some values') : overlap parts parts' = true := by
  induction parts generalizing parts' segs values values' with
  | nil =>
    cases matchParts_nil h
    cases parts' with
    | nil => rfl
    | cons part' parts' =>
      obtain ⟨s, rest, -, hseg, -⟩ := matchParts_cons h'
      cases hseg
  | cons part parts ih =>
    cases parts' with
    | nil =>
      cases matchParts_nil h'
      obtain ⟨s, rest, -, hseg, -⟩ := matchParts_cons h
      cases hseg
    | cons part' parts' =>
      obtain ⟨s, rest, v, rfl, hrest⟩ := matchParts_cons h
      obtain ⟨s', rest', v', hseg, hrest'⟩ := matchParts_cons h'
      cases hseg
      have htail := ih hrest hrest'
      cases part with
      | wild name => exact htail
      | lit text =>
        cases part' with
        | wild name => exact htail
        | lit text' =>
          obtain ⟨r, hs, -⟩ := matchParts_lit h
          obtain ⟨r', hs', -⟩ := matchParts_lit h'
          have htext : text = text' := by
            apply String.toList_inj.mp
            exact (List.cons.inj hs).1.symm.trans (List.cons.inj hs').1
          simp [overlap, htext, htail]

/-- A match of a longer pattern, part by part. -/
theorem matchParts_append {parts parts' : List Part} {segs : List (List Char)}
    {values : List (String × List Char)} (h : matchParts (parts ++ parts') segs = some values) :
    ∃ segs₁ segs₂ values₁ values₂, segs = segs₁ ++ segs₂
      ∧ matchParts parts segs₁ = some values₁ ∧ matchParts parts' segs₂ = some values₂ := by
  induction parts generalizing segs values with
  | nil => exact ⟨[], segs, [], values, rfl, rfl, h⟩
  | cons part parts ih =>
    cases part with
    | lit text =>
      obtain ⟨rest, rfl, hrest⟩ := matchParts_lit h
      obtain ⟨segs₁, segs₂, values₁, values₂, rfl, h₁, h₂⟩ := ih hrest
      exact ⟨text.toList :: segs₁, segs₂, values₁, values₂, rfl, by simp [matchParts, h₁], h₂⟩
    | wild name =>
      obtain ⟨s, rest, values', rfl, hs, hrest, rfl⟩ := matchParts_wild h
      obtain ⟨segs₁, segs₂, values₁, values₂, rfl, h₁, h₂⟩ := ih hrest
      exact ⟨s :: segs₁, segs₂, (name, s) :: values₁, values₂, rfl,
        by simp [matchParts, hs, h₁], h₂⟩

/-! ## Clean paths -/

/-- The elements that `path.Clean` keeps of a rooted path. -/
def cleanSegments (segs : List (List Char)) : List (List Char) :=
  segs.foldl
    (fun kept s =>
      if s = [] ∨ s = ['.'] then kept
      else if s = ['.', '.'] then kept.dropLast
      else kept ++ [s])
    []

/-- `cleanPath`: rooted and cleaned, with a trailing slash put back. -/
def cleanPath (path : List Char) : List Char :=
  if path = [] then ['/']
  else
    let path := if path.head? = some '/' then path else '/' :: path
    let np := '/' :: joinSegments (cleanSegments (segments path))
    if path.getLast? = some '/' ∧ np ≠ ['/'] then np ++ ['/'] else np

/-- A clean path is rooted. -/
theorem cleanPath_rooted (path : List Char) : ∃ rest, cleanPath path = '/' :: rest := by
  unfold cleanPath
  split
  · exact ⟨[], rfl⟩
  · dsimp only
    split
    · split
      · exact ⟨_, rfl⟩
      · exact ⟨_, rfl⟩
    · split
      · exact ⟨_, rfl⟩
      · exact ⟨_, rfl⟩

/-! ## Parsed URLs -/

/-- `stringContainsCTLByte`, for one character. -/
def isCTL (c : Char) : Bool := c.toNat < 32 || c.toNat == 127

/-- The decoded segments of the path of a URL, scheme and host left out,
as `url.Parse` cuts it: at the fragment, then at the query. -/
def urlSegments (url : List Char) : Option (List (List Char)) :=
  let raw := url.takeWhile (fun c => c ≠ '#')
  if raw.any isCTL || (unescape (url.drop (raw.length + 1))).isNone then none
  else (segments ((raw.takeWhile (fun c => c ≠ '?')).drop 1)).mapM unescape

/-- A character that a URL path takes for itself, wherever it stands. -/
def plainChar (c : Char) : Bool :=
  c != '/' && c != '?' && c != '#' && c != '%' && !isCTL c

theorem segments_cons {s : List Char} (h : '/' ∉ s) (rest : List Char) :
    segments (s ++ '/' :: rest) = s :: segments rest := by
  apply List.splitOn_append_cons_self_of_not_mem
  exact h

/-- What has no escape decodes to itself. -/
theorem unescape_plain {s : List Char} (h : '%' ∉ s) : unescape s = some s := by
  induction s with
  | nil => rfl
  | cons c s ih =>
    simp only [List.mem_cons, not_or] at h
    rw [unescape_cons (Ne.symm h.1), ih h.2]
    rfl

/-- Decoding shortens a path, unless there is nothing to decode. -/
theorem unescape_length {s t : List Char} (h : unescape s = some t) :
    t.length ≤ s.length ∧ (t.length = s.length → '%' ∉ s) := by
  induction s using unescape.induct generalizing t with
  | case1 =>
    cases h
    simp
  | case2 a b rest high low ha hb ih =>
    simp only [unescape, ha, hb] at h
    obtain ⟨t', ht', rfl⟩ := Option.map_eq_some_iff.mp h
    have hle := (ih ht').1
    simp only [List.length_cons]
    refine ⟨by omega, fun hlen => ?_⟩
    omega
  | case3 a b rest hbad =>
    rw [unescape] at h
    split at h
    · rename_i high low ha hb
      exact absurd hb (hbad high low ha)
    · cases h
  | case4 rest hshort =>
    rw [unescape] at h
    · rw [if_pos rfl] at h
      cases h
    · intro a b rest' hpct hrest
      exact hshort a b rest' hpct hrest
  | case5 c rest hshort hc ih =>
    rw [unescape_cons hc] at h
    obtain ⟨t', ht', rfl⟩ := Option.map_eq_some_iff.mp h
    obtain ⟨hle, heq⟩ := ih ht'
    simp only [List.length_cons]
    refine ⟨by omega, fun hlen => ?_⟩
    simp only [List.mem_cons, not_or]
    exact ⟨Ne.symm hc, heq (by omega)⟩

theorem plainChar_iff {c : Char} :
    plainChar c = true ↔ c ≠ '/' ∧ c ≠ '?' ∧ c ≠ '#' ∧ c ≠ '%' ∧ isCTL c = false := by
  simp [plainChar, and_assoc]

theorem mapM_unescape_plain {segs : List (List Char)} (h : ∀ s ∈ segs, '%' ∉ s) :
    segs.mapM unescape = some segs := by
  induction segs with
  | nil => rfl
  | cons s segs ih =>
    simp only [List.mem_cons, forall_eq_or_imp] at h
    simp [unescape_plain h.1, ih h.2]

/-- What a joined path is made of. -/
theorem mem_joinSegments {segs : List (List Char)} {c : Char} (h : c ∈ joinSegments segs) :
    c = '/' ∨ ∃ s ∈ segs, c ∈ s := by
  induction segs with
  | nil => cases h
  | cons s segs ih =>
    cases segs with
    | nil => exact Or.inr ⟨s, List.mem_cons_self, by simpa [joinSegments] using h⟩
    | cons s₂ segs =>
      have hjoin : joinSegments (s :: s₂ :: segs) = s ++ '/' :: joinSegments (s₂ :: segs) := by
        simp [joinSegments, List.intercalate_cons_cons]
      rw [hjoin, List.mem_append, List.mem_cons] at h
      rcases h with h | h | h
      · exact Or.inr ⟨s, List.mem_cons_self, h⟩
      · exact Or.inl h
      · rcases ih h with rfl | ⟨s', hs', hc⟩
        · exact Or.inl rfl
        · exact Or.inr ⟨s', List.mem_cons_of_mem _ hs', hc⟩

/-- A URL spelled with plain segments, and a query that no fragment ends,
names these segments. -/
theorem urlSegments_join {segs : List (List Char)} {query : List Char} (hne : segs ≠ [])
    (hsegs : ∀ s ∈ segs, ∀ c ∈ s, plainChar c = true)
    (hquery : ∀ c ∈ query, c ≠ '#' ∧ isCTL c = false) (hcut : query = [] ∨ ∃ q, query = '?' :: q) :
    urlSegments ('/' :: joinSegments segs ++ query) = some segs := by
  have hplain : ∀ c ∈ '/' :: joinSegments segs, c ≠ '?' ∧ c ≠ '#' ∧ isCTL c = false := by
    intro c hc
    have hslash : c = '/' ∨ ∃ s ∈ segs, c ∈ s := by
      rcases List.mem_cons.mp hc with rfl | hc
      · exact Or.inl rfl
      · exact mem_joinSegments hc
    rcases hslash with rfl | ⟨s, hs, hcs⟩
    · decide
    · have h := plainChar_iff.mp (hsegs s hs c hcs)
      exact ⟨h.2.1, h.2.2.1, h.2.2.2.2⟩
  have hraw : ('/' :: joinSegments segs ++ query).takeWhile (fun c => c ≠ '#')
      = '/' :: joinSegments segs ++ query := by
    rw [List.takeWhile_eq_self_iff]
    intro c hc
    rcases List.mem_append.mp hc with hc | hc
    · simpa using (hplain c hc).2.1
    · simpa using (hquery c hc).1
  have hctl : ('/' :: joinSegments segs ++ query).any isCTL = false := by
    rw [List.any_eq_false]
    intro c hc
    rcases List.mem_append.mp hc with hc | hc
    · simpa using (hplain c hc).2.2
    · simpa using (hquery c hc).2
  have hpath : ('/' :: joinSegments segs ++ query).takeWhile (fun c => c ≠ '?')
      = '/' :: joinSegments segs := by
    have hself : ∀ c ∈ '/' :: joinSegments segs, (decide (c ≠ '?')) = true := by
      intro c hc
      simpa using (hplain c hc).1
    rw [List.takeWhile_append_of_pos hself]
    rcases hcut with rfl | ⟨q, rfl⟩
    · simp
    · simp
  have hsplit : segments (joinSegments segs) = segs := by
    apply List.splitOn_intercalate '/' _ hne
    intro s hs hmem
    exact (plainChar_iff.mp (hsegs s hs '/' hmem)).1 rfl
  have hfrag : unescape (('/' :: joinSegments segs ++ query).drop
      (('/' :: joinSegments segs ++ query).length + 1)) = some [] := by
    rw [List.drop_eq_nil_of_le (by omega)]
    rfl
  simp only [urlSegments]
  rw [hraw, hctl, hfrag, hpath]
  show (segments (joinSegments segs)).mapM unescape = some segs
  rw [hsplit]
  apply mapM_unescape_plain
  intro s hs hmem
  exact (plainChar_iff.mp (hsegs s hs '%' hmem)).2.2.2.1 rfl

theorem mapM_unescape_cons {s : List Char} {segs out : List (List Char)}
    (h : (s :: segs).mapM unescape = some out) :
    ∃ t ts, unescape s = some t ∧ segs.mapM unescape = some ts ∧ out = t :: ts := by
  rw [List.mapM_cons] at h
  obtain ⟨t, ht, h⟩ := Option.bind_eq_some_iff.mp h
  obtain ⟨ts, hts, h⟩ := Option.bind_eq_some_iff.mp h
  exact ⟨t, ts, ht, hts, (Option.some.inj h).symm⟩

theorem slash_notMem_of_segments {path s : List Char} (h : segments path = [s]) :
    '/' ∉ path := by
  intro hmem
  obtain ⟨a, b, rfl⟩ := List.append_of_mem hmem
  have ha : 0 < (segments a).length := List.length_pos_of_ne_nil (List.splitOn_ne_nil '/' a)
  have hb : 0 < (segments b).length := List.length_pos_of_ne_nil (List.splitOn_ne_nil '/' b)
  have hlen := congrArg List.length h
  rw [segments, List.splitOn_append_cons_self, List.length_append, List.length_singleton] at hlen
  simp only [segments] at ha hb
  omega

/-- A path that decodes to one segment no shorter than itself is that
segment. -/
theorem eq_of_decoded_segment {path s : List Char} (h : (segments path).mapM unescape = some [s])
    (hlen : path.length ≤ s.length) : path = s ∧ '/' ∉ s ∧ '%' ∉ s := by
  cases hseg : segments path with
  | nil => exact absurd hseg (List.splitOn_ne_nil '/' path)
  | cons t segs =>
    rw [hseg] at h
    obtain ⟨t', ts', ht', hts', hone⟩ := mapM_unescape_cons h
    have hnil : segs = [] := by
      cases segs with
      | nil => rfl
      | cons s₂ segs =>
        obtain ⟨t₂, ts₂, -, -, htwo⟩ := mapM_unescape_cons hts'
        rw [htwo] at hone
        cases hone
    subst hnil
    have hpath : path = t := by
      have hjoin := joinSegments_segments path
      rw [hseg] at hjoin
      simpa [joinSegments] using hjoin.symm
    subst hpath
    obtain rfl : s = t' := (List.cons.inj hone).1
    have hle := unescape_length ht'
    have hpct : '%' ∉ path := hle.2 (by omega)
    rw [unescape_plain hpct] at ht'
    obtain rfl := Option.some.inj ht'
    exact ⟨rfl, slash_notMem_of_segments hseg, hpct⟩

theorem pathUnescape_length_le (s : List Char) : (pathUnescape s).length ≤ s.length := by
  unfold pathUnescape
  cases h : unescape s with
  | none => exact le_refl _
  | some t => exact (unescape_length h).1

/-- Only the empty path decodes to nothing. -/
theorem eq_nil_of_unescape {s : List Char} (h : unescape s = some []) : s = [] := by
  cases s with
  | nil => rfl
  | cons c s =>
    unfold unescape at h
    split at h
    · assumption
    · split at h
      · simp at h
      · cases h
    · split at h
      · cases h
      · simp at h

theorem pathUnescape_eq_nil {s : List Char} : pathUnescape s = [] ↔ s = [] := by
  constructor
  · intro h
    unfold pathUnescape at h
    cases hs : unescape s with
    | none =>
      rw [hs] at h
      exact h
    | some t =>
      rw [hs] at h
      obtain rfl : t = [] := h
      exact eq_nil_of_unescape hs
  · rintro rfl
    rfl

/-- Cutting at a slash, in front of what begins with one. -/
theorem takeWhile_slash (v : List Char) {rest : List Char}
    (hrest : rest = [] ∨ ∃ t, rest = '/' :: t) :
    (v ++ rest).takeWhile (fun c => c ≠ '/') = v.takeWhile (fun c => c ≠ '/') := by
  rcases hrest with rfl | ⟨t, rfl⟩
  · rw [List.append_nil]
  · induction v with
    | nil => rfl
    | cons c v ih =>
      rw [List.cons_append, List.takeWhile_cons, List.takeWhile_cons, ih]

/-- Cutting behind plain text and a slash. -/
theorem takeWhile_behind {p : Char → Bool} {first : List Char} (hslash : p '/' = true)
    (hfirst : ∀ c ∈ first, p c = true) (last : List Char) :
    ('/' :: first ++ '/' :: last).takeWhile p = '/' :: first ++ '/' :: last.takeWhile p := by
  have hassoc : '/' :: first ++ '/' :: last = ('/' :: first ++ ['/']) ++ last := by simp
  rw [hassoc, List.takeWhile_append_of_pos]
  · simp
  · intro c hc
    simp only [List.mem_append, List.mem_cons, List.not_mem_nil, or_false] at hc
    rcases hc with (rfl | hc) | rfl
    · exact hslash
    · exact hfirst c hc
    · exact hslash

/-- A last segment read back as it was written has plain characters. -/
theorem plain_of_urlSegments {first last : List Char}
    (hfirst : ∀ c ∈ first, plainChar c = true)
    (h : urlSegments ('/' :: first ++ '/' :: last) = some [first, last]) :
    ∀ c ∈ last, plainChar c = true := by
  have hp : ∀ c ∈ first, c ≠ '/' ∧ c ≠ '?' ∧ c ≠ '#' ∧ c ≠ '%' ∧ isCTL c = false :=
    fun c hc => plainChar_iff.mp (hfirst c hc)
  have hraw := takeWhile_behind (p := fun c => decide (c ≠ '#')) rfl
    (fun c hc => by simpa using (hp c hc).2.2.1) last
  have hpath := takeWhile_behind (p := fun c => decide (c ≠ '?')) rfl
    (fun c hc => by simpa using (hp c hc).2.1) (last.takeWhile (fun c => c ≠ '#'))
  simp only [urlSegments] at h
  rw [hraw, hpath] at h
  split at h
  · cases h
  · rename_i hgood
    simp only [Bool.or_eq_true, not_or, Bool.not_eq_true, List.any_eq_false] at hgood
    have hslash : '/' ∉ first := fun hmem => (hp '/' hmem).1 rfl
    rw [List.cons_append, List.drop_one, List.tail_cons, segments_cons hslash] at h
    obtain ⟨t, ts, -, hts, hout⟩ := mapM_unescape_cons h
    obtain rfl : [last] = ts := (List.cons.inj hout).2
    have hcut₁ := List.takeWhile_prefix (fun c => decide (c ≠ '#')) (l := last)
    have hcut₂ := List.takeWhile_prefix (fun c => decide (c ≠ '?'))
      (l := last.takeWhile (fun c => c ≠ '#'))
    obtain ⟨heq, hnoSlash, hnoPct⟩ :=
      eq_of_decoded_segment hts (hcut₂.length_le.trans hcut₁.length_le)
    have hle := hcut₂.length_le
    rw [heq] at hle
    have hall₁ : last.takeWhile (fun c => decide (c ≠ '#')) = last := hcut₁.eq_of_length_le hle
    rw [hall₁] at heq hgood
    intro c hc
    refine plainChar_iff.mpr ⟨?_, ?_, ?_, ?_, ?_⟩
    · rintro rfl
      exact hnoSlash hc
    · simpa using List.takeWhile_eq_self_iff.mp heq c hc
    · simpa using List.takeWhile_eq_self_iff.mp hall₁ c hc
    · rintro rfl
      exact hnoPct hc
    · have hmem : c ∈ '/' :: first ++ '/' :: last := by simp [hc]
      simpa using hgood.1 c hmem

end LendingClaw.Lib

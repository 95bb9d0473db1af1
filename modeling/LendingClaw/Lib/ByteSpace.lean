/-
LendingClaw.Lib.ByteSpace — white space in byte strings that need not be
UTF-8: where a cut falls, and trimming as a standard library does it, by
the characters that the bytes start and end with.

Nothing here names a program.
-/
import LendingClaw.Lib.Strings
import LendingClaw.Lib.Utf8

namespace LendingClaw.Lib

/-! ## Cuts -/

/-- Nothing, or the start of a character. -/
def Boundary (bytes : Bytes) : Prop := ∀ b ∈ bytes.head?, b.IsUTF8FirstByte

/-- The end is not inside a character. -/
def Complete (bytes : Bytes) : Prop :=
  ∀ (rest : Bytes) (c : Char) (k : Nat), 0 < k → k < (String.utf8EncodeChar c).length →
    bytes ≠ rest ++ (String.utf8EncodeChar c).take k

/-- A text cut anywhere is cut between characters or inside of one. -/
theorem utf8_cut {text : List Char} {x y : Bytes} (h : utf8 text = x ++ y) :
    (∃ a b, text = a ++ b ∧ x = utf8 a ∧ y = utf8 b)
      ∨ ∃ a c k, 0 < k ∧ k < (String.utf8EncodeChar c).length
        ∧ x = utf8 a ++ (String.utf8EncodeChar c).take k
        ∧ ∃ rest, y = (String.utf8EncodeChar c).drop k ++ rest := by
  induction text generalizing x with
  | nil =>
    obtain ⟨rfl, rfl⟩ := List.append_eq_nil_iff.mp h.symm
    exact .inl ⟨[], [], rfl, rfl, rfl⟩
  | cons c text ih =>
    rw [utf8_cons] at h
    rcases List.append_eq_append_iff.mp h with ⟨x', rfl, hrest⟩ | ⟨y', hc, rfl⟩
    · rcases ih hrest with ⟨a, b, rfl, rfl, rfl⟩ | ⟨a, d, k, hk, hlt, rfl, rest, rfl⟩
      · exact .inl ⟨c :: a, b, rfl, rfl, rfl⟩
      · exact .inr ⟨c :: a, d, k, hk, hlt, by simp, rest, rfl⟩
    · by_cases hx : x = []
      · subst hx
        exact .inl ⟨[], c :: text, rfl, rfl, by rw [utf8_cons, hc]; simp⟩
      · by_cases hy : y' = []
        · subst hy
          exact .inl ⟨[c], text, rfl, by simpa using hc.symm, by simp⟩
        · have hxpos := List.length_pos_of_ne_nil hx
          have hypos := List.length_pos_of_ne_nil hy
          refine .inr ⟨[], c, x.length, hxpos, ?_, ?_, utf8 text, ?_⟩
          · rw [hc, List.length_append]
            omega
          · simp [hc]
          · simp [hc]

/-- Only the first byte of a character starts one. -/
theorem not_boundary_drop {c : Char} {k : Nat} (hk : 0 < k)
    (hlt : k < (String.utf8EncodeChar c).length) (rest : Bytes) :
    ¬ Boundary ((String.utf8EncodeChar c).drop k ++ rest) := by
  intro h
  rw [List.drop_eq_getElem_cons hlt] at h
  have hfirst := h _ (by rw [List.cons_append]; rfl)
  rw [UInt8.isUTF8FirstByte_getElem_utf8EncodeChar] at hfirst
  omega

/-- A text cut before the start of a character. -/
theorem utf8_split {text : List Char} {x y : Bytes} (h : utf8 text = x ++ y) (hy : Boundary y) :
    ∃ a b, text = a ++ b ∧ x = utf8 a ∧ y = utf8 b := by
  rcases utf8_cut h with hsplit | ⟨a, c, k, hk, hlt, -, rest, rfl⟩
  · exact hsplit
  · exact absurd hy (not_boundary_drop hk hlt rest)

/-- A text cut behind the end of one. -/
theorem utf8_split_complete {text : List Char} {x y : Bytes} (h : utf8 text = x ++ y)
    (hx : Complete x) : ∃ a b, text = a ++ b ∧ x = utf8 a ∧ y = utf8 b := by
  rcases utf8_cut h with hsplit | ⟨a, c, k, hk, hlt, hcut, -⟩
  · exact hsplit
  · exact absurd hcut (hx (utf8 a) c k hk hlt)

theorem boundary_nil : Boundary [] := by simp [Boundary]

theorem boundary_utf8 (text : List Char) : Boundary (utf8 text) := by
  cases text with
  | nil => exact boundary_nil
  | cons c text =>
    have hlen : 0 < (String.utf8EncodeChar c).length := by
      rw [String.length_utf8EncodeChar]
      exact c.utf8Size_pos
    intro b hb
    rw [utf8_cons, List.head?_append_of_ne_nil _ (List.ne_nil_of_length_pos hlen),
      List.head?_eq_getElem?, List.getElem?_eq_getElem hlen] at hb
    cases hb
    simp

theorem complete_nil : Complete [] := by
  intro rest c k hk hlt h
  have hlen := congrArg List.length h
  rw [List.length_append, List.length_take, List.length_nil] at hlen
  omega

/-- An encoded character is no part of another one. -/
theorem encode_eq_take {c : Char} {k : Nat} {a : List Char} (hne : a ≠ [])
    (h : utf8 a = (String.utf8EncodeChar c).take k) : (String.utf8EncodeChar c).length ≤ k := by
  cases a with
  | nil => exact absurd rfl hne
  | cons d a =>
    have hjoin : String.utf8EncodeChar d ++ (utf8 a ++ (String.utf8EncodeChar c).drop k)
        = String.utf8EncodeChar c ++ [] := by
      rw [← List.append_assoc, ← utf8_cons, h, List.take_append_drop, List.append_nil]
    obtain ⟨-, hnil⟩ := utf8EncodeChar_append_inj hjoin
    exact List.drop_eq_nil_iff.mp (List.append_eq_nil_iff.mp hnil).2

theorem complete_utf8 (text : List Char) : Complete (utf8 text) := by
  intro rest c k hk hlt h
  have hboundary : Boundary ((String.utf8EncodeChar c).take k) := by
    have hchar := boundary_utf8 [c]
    cases hcode : String.utf8EncodeChar c with
    | nil => exact absurd hcode String.utf8EncodeChar_ne_nil
    | cons b code =>
      obtain ⟨k, rfl⟩ := Nat.exists_eq_add_of_lt hk
      simpa [Boundary, hcode, Nat.add_comm] using hchar
  obtain ⟨a, b, -, -, hb⟩ := utf8_split h hboundary
  have hne : b ≠ [] := by
    rintro rfl
    have hlen := congrArg List.length hb
    rw [List.length_take, utf8_nil, List.length_nil] at hlen
    omega
  have hle := encode_eq_take hne hb.symm
  omega

/-- Bytes that end with a text. -/
theorem complete_append_utf8 (bytes : Bytes) {text : List Char} (hne : text ≠ []) :
    Complete (bytes ++ utf8 text) := by
  intro rest c k hk hlt h
  rcases List.append_eq_append_iff.mp h with ⟨a, -, ha⟩ | ⟨a, -, ha⟩
  · exact complete_utf8 text a c k hk hlt ha
  · by_cases hanil : a = []
    · subst hanil
      exact complete_utf8 text [] c k hk hlt ha.symm
    · have hpos := List.length_pos_of_ne_nil hanil
      have hdrop : utf8 text = ((String.utf8EncodeChar c).take k).drop a.length := by
        rw [ha, List.drop_left]
      have hlen : a.length < k := by
        have hsum := congrArg List.length ha
        have htext : 0 < (utf8 text).length := by
          refine List.length_pos_of_ne_nil ?_
          cases text with
          | nil => exact absurd rfl hne
          | cons d text =>
            rw [utf8_cons]
            exact List.append_ne_nil_of_left_ne_nil String.utf8EncodeChar_ne_nil _
        rw [List.length_take, List.length_append] at hsum
        omega
      have hboundary := boundary_utf8 text
      rw [hdrop, List.drop_take] at hboundary
      rw [Boundary, List.head?_take, if_neg (by omega)] at hboundary
      exact not_boundary_drop hpos (hlen.trans hlt) [] (by simpa [Boundary] using hboundary)

/-! ## The characters at the ends -/

theorem firstChar_eq_some {bytes : Bytes} {c : Char} :
    firstChar bytes = some c ↔ ∃ rest, bytes = String.utf8EncodeChar c ++ rest := by
  constructor
  · exact exists_of_firstChar
  · rintro ⟨rest, rfl⟩
    exact firstChar_append c rest

/-- The character that a byte sequence ends with. -/
def lastChar (bytes : Bytes) : Option Char :=
  [1, 2, 3, 4].findSome? fun k =>
    (firstChar (bytes.drop (bytes.length - k))).filter fun c => c.utf8Size == k

theorem lastChar_eq_some {bytes : Bytes} {c : Char} :
    lastChar bytes = some c ↔ ∃ rest, bytes = rest ++ String.utf8EncodeChar c := by
  constructor
  · intro h
    obtain ⟨k, -, hk⟩ := List.exists_of_findSome?_eq_some h
    obtain ⟨hfirst, hsize⟩ := Option.filter_eq_some_iff.mp hk
    obtain ⟨rest, hrest⟩ := firstChar_eq_some.mp hfirst
    have hlen := congrArg List.length hrest
    rw [List.length_drop, List.length_append, String.length_utf8EncodeChar, eq_of_beq hsize] at hlen
    obtain rfl : rest = [] := List.length_eq_zero_iff.mp (by omega)
    refine ⟨bytes.take (bytes.length - k), ?_⟩
    rw [List.append_nil] at hrest
    rw [← hrest, List.take_append_drop]
  · rintro ⟨rest, rfl⟩
    have hshort : ∀ k, 0 < k → k < c.utf8Size →
        firstChar ((rest ++ String.utf8EncodeChar c).drop
          ((rest ++ String.utf8EncodeChar c).length - k)) = none := by
      intro k hk hlt
      have hdrop : (rest ++ String.utf8EncodeChar c).drop
          ((rest ++ String.utf8EncodeChar c).length - k)
          = (String.utf8EncodeChar c).drop (c.utf8Size - k) := by
        rw [List.length_append, String.length_utf8EncodeChar, List.drop_append,
          List.drop_eq_nil_of_le (by omega), List.nil_append]
        congr 1
        omega
      rw [hdrop]
      cases hfirst : firstChar ((String.utf8EncodeChar c).drop (c.utf8Size - k)) with
      | none => rfl
      | some d =>
        obtain ⟨tail, htail⟩ := firstChar_eq_some.mp hfirst
        have hboundary := boundary_utf8 [d]
        rw [utf8_cons, utf8_nil, List.append_nil] at hboundary
        refine absurd ?_ (not_boundary_drop (c := c) (k := c.utf8Size - k) (by omega) ?_ [])
        · rw [List.append_nil, htail]
          intro b hb
          rw [List.head?_append_of_ne_nil _ String.utf8EncodeChar_ne_nil] at hb
          exact hboundary b hb
        · rw [String.length_utf8EncodeChar]
          omega
    have hfull : firstChar ((rest ++ String.utf8EncodeChar c).drop
        ((rest ++ String.utf8EncodeChar c).length - c.utf8Size)) = some c := by
      rw [List.length_append, String.length_utf8EncodeChar, Nat.add_sub_cancel, List.drop_left]
      simpa using firstChar_append c []
    have hpos := c.utf8Size_pos
    have hle := c.utf8Size_le_four
    generalize rest ++ String.utf8EncodeChar c = bytes at hfull hshort ⊢
    unfold lastChar
    obtain hs | hs | hs | hs : c.utf8Size = 1 ∨ c.utf8Size = 2 ∨ c.utf8Size = 3 ∨ c.utf8Size = 4 := by
      omega
    all_goals
      rw [hs] at hfull hshort
      simp [hfull, hshort, hs]

/-! ## White space -/

/-- Encoded white space and nothing else. -/
def Blank (bytes : Bytes) : Prop := ∃ text, (∀ c ∈ text, isSpace c = true) ∧ bytes = utf8 text

theorem blank_nil : Blank [] := ⟨[], by simp, rfl⟩

theorem Blank.append {a b : Bytes} (ha : Blank a) (hb : Blank b) : Blank (a ++ b) := by
  obtain ⟨s, hs, rfl⟩ := ha
  obtain ⟨t, ht, rfl⟩ := hb
  refine ⟨s ++ t, ?_, (utf8_append s t).symm⟩
  simpa [or_imp, forall_and] using ⟨hs, ht⟩

theorem Blank.boundary {bytes : Bytes} (h : Blank bytes) : Boundary bytes := by
  obtain ⟨text, -, rfl⟩ := h
  exact boundary_utf8 text

/-- A part of white space that is cut off between characters. -/
theorem Blank.split {a b : Bytes} (h : Blank (a ++ b)) (hcut : Complete a ∨ Boundary b) :
    Blank a ∧ Blank b := by
  obtain ⟨text, hspace, htext⟩ := h
  have hsplit : ∃ s t, text = s ++ t ∧ a = utf8 s ∧ b = utf8 t :=
    hcut.elim (utf8_split_complete htext.symm) (utf8_split htext.symm)
  obtain ⟨s, t, rfl, rfl, rfl⟩ := hsplit
  exact ⟨⟨s, fun c hc => hspace c (List.mem_append_left t hc), rfl⟩,
    ⟨t, fun c hc => hspace c (List.mem_append_right s hc), rfl⟩⟩

/-- `strings.TrimLeftFunc(s, unicode.IsSpace)` on bytes. -/
def trimLeftBytes : (fuel : Nat) → Bytes → Bytes
  | 0, bytes => bytes
  | fuel + 1, bytes =>
    match firstChar bytes with
    | some c => if isSpace c then trimLeftBytes fuel (bytes.drop c.utf8Size) else bytes
    | none => bytes

/-- `strings.TrimRightFunc(s, unicode.IsSpace)` on bytes. -/
def trimRightBytes : (fuel : Nat) → Bytes → Bytes
  | 0, bytes => bytes
  | fuel + 1, bytes =>
    match lastChar bytes with
    | some c =>
      if isSpace c then trimRightBytes fuel (bytes.take (bytes.length - c.utf8Size)) else bytes
    | none => bytes

/-- `strings.TrimSpace` on bytes. -/
def trimBytes (bytes : Bytes) : Bytes :=
  let left := trimLeftBytes bytes.length bytes
  trimRightBytes left.length left

def NoLeadingSpace (bytes : Bytes) : Prop := ∀ c, firstChar bytes = some c → isSpace c = false

def NoTrailingSpace (bytes : Bytes) : Prop := ∀ c, lastChar bytes = some c → isSpace c = false

theorem trimLeftBytes_spec (fuel : Nat) (bytes : Bytes) (h : bytes.length ≤ fuel) :
    ∃ space, Blank space ∧ bytes = space ++ trimLeftBytes fuel bytes
      ∧ NoLeadingSpace (trimLeftBytes fuel bytes) := by
  induction fuel generalizing bytes with
  | zero =>
    obtain rfl := List.length_eq_zero_iff.mp (Nat.le_zero.mp h)
    exact ⟨[], blank_nil, rfl, fun c hc => by simp [trimLeftBytes, firstChar_nil] at hc⟩
  | succ fuel ih =>
    unfold trimLeftBytes
    cases hfirst : firstChar bytes with
    | none => exact ⟨[], blank_nil, rfl, fun c hc => by simp [hfirst] at hc⟩
    | some c =>
      by_cases hc : isSpace c = true
      · obtain ⟨rest, rfl⟩ := firstChar_eq_some.mp hfirst
        have hpos := c.utf8Size_pos
        have hdrop : (String.utf8EncodeChar c ++ rest).drop c.utf8Size = rest := by
          rw [← String.length_utf8EncodeChar, List.drop_left]
        have hlen : rest.length ≤ fuel := by
          rw [List.length_append, String.length_utf8EncodeChar] at h
          omega
        obtain ⟨space, hspace, hrest, hnone⟩ := ih rest hlen
        simp only [hc, if_true, hdrop]
        have hchar : Blank (String.utf8EncodeChar c) := ⟨[c], by simpa using hc, by simp⟩
        exact ⟨_, hchar.append hspace, by rw [List.append_assoc, ← hrest], hnone⟩
      · simp only [hc, Bool.false_eq_true, if_false]
        refine ⟨[], blank_nil, rfl, fun d hd => ?_⟩
        rw [hfirst] at hd
        cases hd
        simpa using hc

theorem trimRightBytes_spec (fuel : Nat) (bytes : Bytes) (h : bytes.length ≤ fuel) :
    ∃ space, Blank space ∧ bytes = trimRightBytes fuel bytes ++ space
      ∧ NoTrailingSpace (trimRightBytes fuel bytes) := by
  induction fuel generalizing bytes with
  | zero =>
    obtain rfl := List.length_eq_zero_iff.mp (Nat.le_zero.mp h)
    refine ⟨[], blank_nil, rfl, fun c hc => ?_⟩
    obtain ⟨rest, hrest⟩ := lastChar_eq_some.mp hc
    exact absurd (List.append_eq_nil_iff.mp hrest.symm).2 String.utf8EncodeChar_ne_nil
  | succ fuel ih =>
    unfold trimRightBytes
    cases hlast : lastChar bytes with
    | none => exact ⟨[], blank_nil, by simp, fun c hc => by simp [hlast] at hc⟩
    | some c =>
      by_cases hc : isSpace c = true
      · obtain ⟨rest, rfl⟩ := lastChar_eq_some.mp hlast
        have hpos := c.utf8Size_pos
        have htake : (rest ++ String.utf8EncodeChar c).take
            ((rest ++ String.utf8EncodeChar c).length - c.utf8Size) = rest := by
          rw [List.length_append, String.length_utf8EncodeChar, Nat.add_sub_cancel, List.take_left]
        have hlen : rest.length ≤ fuel := by
          rw [List.length_append, String.length_utf8EncodeChar] at h
          omega
        obtain ⟨space, hspace, hrest, hnone⟩ := ih rest hlen
        simp only [hc, if_true, htake]
        have hchar : Blank (String.utf8EncodeChar c) := ⟨[c], by simpa using hc, by simp⟩
        exact ⟨_, hspace.append hchar, by rw [← List.append_assoc, ← hrest], hnone⟩
      · simp only [hc, Bool.false_eq_true, if_false]
        refine ⟨[], blank_nil, by simp, fun d hd => ?_⟩
        rw [hlast] at hd
        cases hd
        simpa using hc

/-- Trimming takes white space off both ends, and leaves none there. -/
theorem trimBytes_spec (bytes : Bytes) :
    ∃ before after, Blank before ∧ Blank after ∧ bytes = before ++ trimBytes bytes ++ after
      ∧ NoLeadingSpace (trimBytes bytes) ∧ NoTrailingSpace (trimBytes bytes) := by
  obtain ⟨before, hbefore, hleft, hnolead⟩ := trimLeftBytes_spec bytes.length bytes le_rfl
  obtain ⟨after, hafter, hright, hnotrail⟩ :=
    trimRightBytes_spec (trimLeftBytes bytes.length bytes).length _ le_rfl
  refine ⟨before, after, hbefore, hafter, ?_, ?_, hnotrail⟩
  · unfold trimBytes
    dsimp only
    rw [List.append_assoc, ← hright, ← hleft]
  · intro c hc
    obtain ⟨rest, hrest⟩ := firstChar_eq_some.mp hc
    refine hnolead c (firstChar_eq_some.mpr ⟨rest ++ after, ?_⟩)
    unfold trimBytes at hrest
    dsimp only at hrest
    rw [hright, hrest, List.append_assoc]

/-- What has no white space at its ends is not blank, or empty. -/
theorem eq_nil_of_blank {bytes : Bytes} (h : Blank bytes) (hlead : NoLeadingSpace bytes) :
    bytes = [] := by
  obtain ⟨text, hspace, rfl⟩ := h
  cases text with
  | nil => rfl
  | cons c text =>
    have hno := hlead c (firstChar_append c (utf8 text))
    rw [hspace c List.mem_cons_self] at hno
    cases hno

theorem trimBytes_eq_nil_iff {bytes : Bytes} : trimBytes bytes = [] ↔ Blank bytes := by
  obtain ⟨before, after, hbefore, hafter, hbytes, hlead, -⟩ := trimBytes_spec bytes
  constructor
  · intro h
    rw [hbytes, h, List.append_nil]
    exact hbefore.append hafter
  · intro h
    rw [hbytes] at h
    obtain ⟨hrest, -⟩ := h.split (.inr hafter.boundary)
    obtain ⟨text, -, rfl⟩ := hbefore
    exact eq_nil_of_blank (hrest.split (.inl (complete_utf8 text))).2 hlead

theorem length_trimBytes_le (bytes : Bytes) : (trimBytes bytes).length ≤ bytes.length := by
  obtain ⟨before, after, -, -, hbytes, -, -⟩ := trimBytes_spec bytes
  have hlen := congrArg List.length hbytes
  rw [List.length_append, List.length_append] at hlen
  omega

/-- Trimming does not make a text of what is none, or the other way. -/
theorem validUtf8_trimBytes (bytes : Bytes) : ValidUtf8 (trimBytes bytes) ↔ ValidUtf8 bytes := by
  obtain ⟨before, after, ⟨s, -, hs⟩, hafter, hbytes, -, -⟩ := trimBytes_spec bytes
  have hboundary := hafter.boundary
  obtain ⟨t, -, ht⟩ := hafter
  subst hs ht
  constructor
  · rintro ⟨text, htext⟩
    rw [hbytes, htext]
    exact ⟨s ++ text ++ t, by simp⟩
  · intro h
    rw [hbytes, List.append_assoc, validUtf8_append] at h
    obtain ⟨text, htext⟩ := h
    obtain ⟨a, -, -, ha, -⟩ := utf8_split htext.symm hboundary
    exact ⟨a, ha⟩

/-- White space taken from the front stops before bytes that have none
there. -/
theorem length_le_of_leading {a t b space rest : Bytes} (ha : Complete a) (hne : t ≠ [])
    (hlead : NoLeadingSpace t) (hb : Boundary b) (hspace : Blank space)
    (h : a ++ t ++ b = space ++ rest) : space.length ≤ a.length := by
  rw [List.append_assoc] at h
  rcases List.append_eq_append_iff.mp h with ⟨x, rfl, hx⟩ | ⟨x, rfl, -⟩
  · obtain ⟨-, text, htext, rfl⟩ := hspace.split (.inl ha)
    cases text with
    | nil => simp
    | cons c text =>
      rw [utf8_cons, List.append_assoc] at hx
      rcases List.append_eq_append_iff.mp hx with ⟨y, hy, hrest⟩ | ⟨y, rfl, -⟩
      · -- `t` would end inside the character
        have hpos := List.length_pos_of_ne_nil hne
        by_cases hynil : y = []
        · have hno := hlead c (firstChar_eq_some.mpr ⟨[], by rw [hy, hynil]; simp⟩)
          rw [htext c List.mem_cons_self] at hno
          cases hno
        · have hdrop : y = (String.utf8EncodeChar c).drop t.length := by rw [hy, List.drop_left]
          have hlt : t.length < (String.utf8EncodeChar c).length := by
            have hylen := List.length_pos_of_ne_nil hynil
            rw [hy, List.length_append]
            omega
          rw [hrest, hdrop] at hb
          exact absurd hb (not_boundary_drop hpos hlt _)
      · have hno := hlead c (firstChar_append c y)
        rw [htext c List.mem_cons_self] at hno
        cases hno
  · rw [List.length_append]
    omega

/-- White space taken from the end stops behind bytes that have none
there. -/
theorem length_le_of_trailing {a t b space rest : Bytes} (ha : Complete a) (hne : t ≠ [])
    (htrail : NoTrailingSpace t) (hb : Boundary b) (hspace : Blank space)
    (h : a ++ t ++ b = rest ++ space) : space.length ≤ b.length := by
  rcases List.append_eq_append_iff.mp h with ⟨x, -, rfl⟩ | ⟨x, hx, rfl⟩
  · rw [List.length_append]
    omega
  · obtain ⟨⟨text, htext, rfl⟩, -⟩ := hspace.split (.inr hb)
    rcases List.eq_nil_or_concat text with rfl | ⟨init, c, rfl⟩
    · simp
    · have hc : isSpace c = true := htext c (by simp)
      rw [List.concat_eq_append, utf8_append, ← List.append_assoc] at hx
      have hsingle : utf8 [c] = String.utf8EncodeChar c := by simp
      rw [hsingle] at hx
      rcases List.append_eq_append_iff.mp hx with ⟨y, -, rfl⟩ | ⟨y, hy, hrest⟩
      · have hno := htrail c (lastChar_eq_some.mpr ⟨y, rfl⟩)
        rw [hc] at hno
        cases hno
      · -- `a` would end inside the character
        have hpos := List.length_pos_of_ne_nil hne
        by_cases hynil : y = []
        · have hno := htrail c (lastChar_eq_some.mpr ⟨[], by simp [hrest, hynil]⟩)
          rw [hc] at hno
          cases hno
        · have hlen : y.length < (String.utf8EncodeChar c).length := by
            rw [hrest, List.length_append]
            omega
          refine absurd ?_ (ha (rest ++ utf8 init) c y.length (List.length_pos_of_ne_nil hynil) hlen)
          rw [hrest, List.take_left, hy]

/-- Bytes without white space at their ends stay whole when the bytes
around them are trimmed. -/
theorem infix_trimBytes {a t b : Bytes} (ha : Complete a) (hne : t ≠ []) (hlead : NoLeadingSpace t)
    (htrail : NoTrailingSpace t) (hb : Boundary b) : t <:+: trimBytes (a ++ t ++ b) := by
  obtain ⟨before, after, hbefore, hafter, hbytes, -, -⟩ := trimBytes_spec (a ++ t ++ b)
  have hfront := length_le_of_leading ha hne hlead hb hbefore (by rw [hbytes, List.append_assoc])
  have hback := length_le_of_trailing ha hne htrail hb hafter hbytes
  have hstart : before <+: a ++ t ++ b :=
    ⟨trimBytes (a ++ t ++ b) ++ after, by rw [← List.append_assoc, ← hbytes]⟩
  have hend : after <:+ a ++ t ++ b := ⟨before ++ trimBytes (a ++ t ++ b), hbytes.symm⟩
  have ha' : a <+: a ++ t ++ b := ⟨t ++ b, by rw [List.append_assoc]⟩
  obtain ⟨a', rfl⟩ := List.prefix_of_prefix_length_le hstart ha' hfront
  obtain ⟨b', rfl⟩ := List.suffix_of_suffix_length_le hend ⟨_, rfl⟩ hback
  have hmiddle : trimBytes (before ++ a' ++ t ++ (b' ++ after)) = a' ++ t ++ b' := by
    have hcancel : before ++ (trimBytes (before ++ a' ++ t ++ (b' ++ after))) ++ after
        = before ++ (a' ++ t ++ b') ++ after := by
      rw [← hbytes]
      simp
    exact List.append_cancel_left (List.append_cancel_right hcancel)
  rw [hmiddle]
  exact ⟨a', b', rfl⟩

/-- More bytes behind a character trim to no less. -/
theorem length_trimBytes_le_append {a b : Bytes} (hb : Boundary b) :
    (trimBytes a).length ≤ (trimBytes (a ++ b)).length := by
  by_cases hne : trimBytes a = []
  · simp [hne]
  · obtain ⟨before, after, ⟨s, -, rfl⟩, hafter, hbytes, hlead, htrail⟩ := trimBytes_spec a
    have hboundary : Boundary (after ++ b) := by
      cases after with
      | nil => exact hb
      | cons x after => simpa [Boundary] using hafter.boundary
    have hin := infix_trimBytes (complete_utf8 s) hne hlead htrail hboundary
    rw [← List.append_assoc, ← hbytes] at hin
    exact hin.length_le

end LendingClaw.Lib

/-
LendingClaw.Lib.Runes — byte strings read as runes: what a loop over the
characters of a byte string sees, and what stands for a byte string that
was cut inside a character where it is written as text.
-/
import LendingClaw.Lib.ByteSpace

namespace LendingClaw.Lib

/-- The runes of a byte string; a byte that starts no character is one
replacement character. -/
def runesFrom : (fuel : Nat) → Bytes → List Char
  | 0, _ => []
  | _ + 1, [] => []
  | fuel + 1, b :: bytes =>
    match firstChar (b :: bytes) with
    | some c => c :: runesFrom fuel ((b :: bytes).drop c.utf8Size)
    | none => '\uFFFD' :: runesFrom fuel bytes

def runes (bytes : Bytes) : List Char := runesFrom bytes.length bytes

theorem runesFrom_eq {fuel : Nat} {bytes : Bytes} (h : bytes.length ≤ fuel) :
    runesFrom fuel bytes = runes bytes := by
  have hall : ∀ (n m : Nat) (bytes : Bytes), bytes.length ≤ n → bytes.length ≤ m →
      runesFrom n bytes = runesFrom m bytes := by
    intro n
    induction n with
    | zero =>
      intro m bytes hn _
      obtain rfl := List.eq_nil_of_length_eq_zero (Nat.le_zero.mp hn)
      cases m <;> rfl
    | succ n ih =>
      intro m bytes hn hm
      cases bytes with
      | nil => cases m <;> rfl
      | cons b bytes =>
        cases m with
        | zero => exact absurd hm (by simp)
        | succ m =>
          simp only [List.length_cons] at hn hm
          rw [runesFrom, runesFrom]
          cases hfirst : firstChar (b :: bytes) with
          | none =>
            dsimp only
            rw [ih m bytes (by omega) (by omega)]
          | some c =>
            have hpos := c.utf8Size_pos
            have hlen : ((b :: bytes).drop c.utf8Size).length ≤ bytes.length := by
              rw [List.length_drop, List.length_cons]
              omega
            dsimp only
            rw [ih m _ (by omega) (by omega)]
  exact hall fuel bytes.length bytes h (Nat.le_refl _)

@[simp] theorem runes_nil : runes [] = [] := rfl

theorem runes_char (c : Char) (bytes : Bytes) :
    runes (String.utf8EncodeChar c ++ bytes) = c :: runes bytes := by
  have hfirst := firstChar_append c bytes
  have hdrop := drop_utf8Size c bytes
  cases hsplit : String.utf8EncodeChar c ++ bytes with
  | nil => exact absurd (List.append_eq_nil_iff.mp hsplit).1 String.utf8EncodeChar_ne_nil
  | cons b rest =>
    have hlen := congrArg List.length hsplit
    have hpos := c.utf8Size_pos
    rw [List.length_append, String.length_utf8EncodeChar, List.length_cons] at hlen
    rw [hsplit] at hfirst hdrop
    rw [runes, List.length_cons, runesFrom, hfirst]
    dsimp only
    rw [hdrop, runesFrom_eq (by omega)]

theorem runes_stray {b : UInt8} {bytes : Bytes} (h : firstChar (b :: bytes) = none) :
    runes (b :: bytes) = '\uFFFD' :: runes bytes := by
  rw [runes, List.length_cons, runesFrom, h]
  rfl

theorem runes_append (text : List Char) (bytes : Bytes) :
    runes (utf8 text ++ bytes) = text ++ runes bytes := by
  induction text with
  | nil => rfl
  | cons c text ih => rw [utf8_cons, List.append_assoc, runes_char, ih, List.cons_append]

/-- The runes of a text are its characters. -/
theorem runes_utf8 (text : List Char) : runes (utf8 text) = text := by
  have h := runes_append text []
  rwa [List.append_nil, runes_nil, List.append_nil] at h

/-! ## Cut texts -/

/-- No part of a character that lacks its end starts one. -/
theorem firstChar_part {c : Char} {i k : Nat} (hk : k < (String.utf8EncodeChar c).length) :
    firstChar (((String.utf8EncodeChar c).take k).drop i) = none := by
  cases hfirst : firstChar (((String.utf8EncodeChar c).take k).drop i) with
  | none => rfl
  | some d =>
    obtain ⟨rest, hrest⟩ := exists_of_firstChar hfirst
    cases i with
    | zero =>
      rw [List.drop_zero] at hrest
      have hwhole : String.utf8EncodeChar c ++ []
          = String.utf8EncodeChar d ++ (rest ++ (String.utf8EncodeChar c).drop k) := by
        rw [← List.append_assoc, ← hrest, List.take_append_drop, List.append_nil]
      obtain ⟨rfl, -⟩ := utf8EncodeChar_append_inj hwhole
      have hlen := congrArg List.length hrest
      rw [List.length_take, List.length_append] at hlen
      omega
    | succ i =>
      have hboundary : Boundary (((String.utf8EncodeChar c).take k).drop (i + 1)) := by
        rw [hrest]
        have hd := boundary_utf8 [d]
        intro b hb
        refine hd b ?_
        rw [utf8_cons]
        cases hchar : String.utf8EncodeChar d with
        | nil => exact absurd hchar String.utf8EncodeChar_ne_nil
        | cons first bytes =>
          rw [hchar] at hb
          exact hb
      have hne : ((String.utf8EncodeChar c).take k).drop (i + 1) ≠ [] := by
        rw [hrest]
        exact fun h => String.utf8EncodeChar_ne_nil (List.append_eq_nil_iff.mp h).1
      have hlen := List.length_pos_of_ne_nil hne
      rw [List.length_drop, List.length_take] at hlen
      refine absurd ?_ (not_boundary_drop (c := c) (Nat.succ_pos i) (by omega) [])
      rw [List.append_nil]
      intro b hb
      refine hboundary b ?_
      rw [List.drop_eq_getElem_cons (by omega)] at hb
      rw [List.drop_eq_getElem_cons (by rw [List.length_take]; omega), List.getElem_take]
      exact hb

theorem runes_part {c : Char} {k : Nat} (hk : k < (String.utf8EncodeChar c).length) :
    runes ((String.utf8EncodeChar c).take k) = List.replicate k '\uFFFD' := by
  have hall : ∀ n i, n + i = k →
      runes (((String.utf8EncodeChar c).take k).drop i) = List.replicate n '\uFFFD' := by
    intro n
    induction n with
    | zero =>
      intro i hi
      rw [List.drop_eq_nil_of_le (by rw [List.length_take]; omega)]
      rfl
    | succ n ih =>
      intro i hi
      have hfirst := firstChar_part (i := i) hk
      have hlt : i < ((String.utf8EncodeChar c).take k).length := by
        rw [List.length_take]
        omega
      rw [List.drop_eq_getElem_cons hlt] at hfirst ⊢
      rw [runes_stray hfirst, ih (i + 1) (by omega)]
      rfl
  exact hall k 0 rfl

/-- A text cut at a number of bytes is some of its first characters, and
of the character that is cut one replacement character for each byte. -/
theorem runes_take (text : List Char) (n : Nat) :
    ∃ k j, runes ((utf8 text).take n) = text.take k ++ List.replicate j '\uFFFD' ∧ j ≤ 3
      ∧ (utf8 (text.take k)).length ≤ n := by
  have hlen : ((utf8 text).take n).length ≤ n := List.length_take_le n _
  rcases utf8_cut (List.take_append_drop n (utf8 text)).symm with
    ⟨a, b, rfl, hx, -⟩ | ⟨a, c, k, -, hk, hx, rest, hy⟩
  · refine ⟨a.length, 0, ?_, Nat.zero_le _, ?_⟩
    · rw [hx, runes_utf8, List.take_left]
      simp
    · rw [List.take_left, ← hx]
      exact hlen
  · have htext : utf8 text = utf8 a ++ (String.utf8EncodeChar c ++ rest) := by
      rw [← List.take_append_drop n (utf8 text), hx, hy, List.append_assoc,
        ← List.append_assoc (List.take k _), List.take_append_drop]
    obtain ⟨b, rfl, -⟩ := exists_of_utf8_append htext.symm
    refine ⟨a.length, k, ?_, ?_, ?_⟩
    · rw [hx, runes_append, runes_part hk, List.take_left]
    · have hfour := c.utf8Size_le_four
      rw [String.length_utf8EncodeChar] at hk
      omega
    · rw [List.take_left]
      rw [hx, List.length_append] at hlen
      omega

end LendingClaw.Lib

/-
LendingClaw.Lib.Utf8 — UTF-8 on lists of bytes: encoding, the character
that starts a byte sequence, and a decoder that takes its input in pieces.

Nothing here names a program.
-/
import LendingClaw.Lib.Base64

namespace LendingClaw.Lib

/-! ## Encoding -/

/-- The bytes of a text. -/
def utf8 (text : List Char) : Bytes := text.flatMap String.utf8EncodeChar

/-- Bytes that encode some text. -/
def ValidUtf8 (bytes : Bytes) : Prop := ∃ text, bytes = utf8 text

@[simp] theorem utf8_nil : utf8 [] = [] := rfl

@[simp] theorem utf8_cons (c : Char) (text : List Char) :
    utf8 (c :: text) = String.utf8EncodeChar c ++ utf8 text := rfl

@[simp] theorem utf8_append (a b : List Char) : utf8 (a ++ b) = utf8 a ++ utf8 b :=
  List.flatMap_append

/-! ## The first character -/

/-- The character whose encoding starts a byte sequence. -/
def firstChar (bytes : Bytes) : Option Char := bytes.toByteArray.utf8DecodeChar? 0

theorem firstChar_append (c : Char) (bytes : Bytes) :
    firstChar (String.utf8EncodeChar c ++ bytes) = some c := by
  unfold firstChar
  rw [List.toByteArray_append]
  exact ByteArray.utf8DecodeChar?_utf8EncodeChar_append

theorem exists_of_firstChar {bytes : Bytes} {c : Char} (h : firstChar bytes = some c) :
    ∃ rest, bytes = String.utf8EncodeChar c ++ rest := by
  obtain ⟨rest, hrest⟩ := ByteArray.exists_of_utf8DecodeChar?_eq_some h
  refine ⟨rest.data.toList, ?_⟩
  have hdata := congrArg (fun b => b.data.toList) hrest
  simpa using hdata

theorem firstChar_nil : firstChar [] = none := by
  cases h : firstChar [] with
  | none => rfl
  | some c =>
    obtain ⟨rest, hrest⟩ := exists_of_firstChar h
    exact absurd (List.append_eq_nil_iff.mp hrest.symm).1 String.utf8EncodeChar_ne_nil

/-- An encoded character is known from any sequence it starts. -/
theorem utf8EncodeChar_append_inj {c d : Char} {a b : Bytes}
    (h : String.utf8EncodeChar c ++ a = String.utf8EncodeChar d ++ b) : c = d ∧ a = b := by
  have hc : some c = some d := by
    rw [← firstChar_append c a, h, firstChar_append]
  obtain rfl := Option.some.inj hc
  exact ⟨rfl, List.append_cancel_left h⟩

/-- A text whose bytes start those of another one starts it. -/
theorem exists_of_utf8_append {a text : List Char} {bytes : Bytes}
    (h : utf8 a ++ bytes = utf8 text) : ∃ b, text = a ++ b ∧ bytes = utf8 b := by
  induction a generalizing text with
  | nil => exact ⟨text, rfl, h⟩
  | cons c a ih =>
    cases text with
    | nil =>
      rw [utf8_cons, List.append_assoc] at h
      exact absurd (List.append_eq_nil_iff.mp h).1 String.utf8EncodeChar_ne_nil
    | cons d text =>
      rw [utf8_cons, utf8_cons, List.append_assoc] at h
      obtain ⟨rfl, hrest⟩ := utf8EncodeChar_append_inj h
      obtain ⟨b, rfl, hb⟩ := ih hrest
      exact ⟨b, rfl, hb⟩

theorem utf8_injective {a b : List Char} (h : utf8 a = utf8 b) : a = b := by
  have hnext : utf8 a ++ [] = utf8 b := by rw [List.append_nil, h]
  obtain ⟨c, rfl, hc⟩ := exists_of_utf8_append hnext
  cases c with
  | nil => exact (List.append_nil a).symm
  | cons d c =>
    rw [utf8_cons] at hc
    exact absurd (List.append_eq_nil_iff.mp hc.symm).1 String.utf8EncodeChar_ne_nil

/-- After a text, the rest decides. -/
theorem validUtf8_append {text : List Char} {bytes : Bytes} :
    ValidUtf8 (utf8 text ++ bytes) ↔ ValidUtf8 bytes := by
  constructor
  · intro h
    obtain ⟨whole, hwhole⟩ := h
    obtain ⟨rest, _, hrest⟩ := exists_of_utf8_append hwhole
    exact ⟨rest, hrest⟩
  · intro h
    obtain ⟨rest, rfl⟩ := h
    exact ⟨text ++ rest, (utf8_append text rest).symm⟩

/-- A text cut after some bytes is a text exactly if the cut falls between
two of its characters, or behind it. -/
theorem validUtf8_take_iff (text : List Char) (n : Nat) :
    ValidUtf8 ((utf8 text).take n)
      ↔ ∃ a b, text = a ++ b ∧ (utf8 a).length = min n (utf8 text).length := by
  constructor
  · intro h
    obtain ⟨a, ha⟩ := h
    have hall : utf8 a ++ (utf8 text).drop n = utf8 text := by
      rw [← ha, List.take_append_drop]
    obtain ⟨b, htext, _⟩ := exists_of_utf8_append hall
    exact ⟨a, b, htext, by rw [← ha, List.length_take]⟩
  · intro h
    obtain ⟨a, b, rfl, hlen⟩ := h
    refine ⟨a, ?_⟩
    rw [List.take_eq_take_min, ← hlen, utf8_append, List.take_left]

/-! ## Decoding in pieces -/

/-- The complete characters a byte sequence starts with, at most `n`, and
the bytes after them. -/
def takeChars : Nat → Bytes → List Char × Bytes
  | 0, bytes => ([], bytes)
  | n + 1, bytes =>
    match firstChar bytes with
    | none => ([], bytes)
    | some c =>
      let r := takeChars n (bytes.drop c.utf8Size)
      (c :: r.1, r.2)

theorem drop_utf8Size (c : Char) (bytes : Bytes) :
    (String.utf8EncodeChar c ++ bytes).drop c.utf8Size = bytes := by
  rw [← String.length_utf8EncodeChar c, List.drop_left]

/-- Nothing is lost, and of enough characters nothing complete is left. -/
theorem takeChars_spec {n : Nat} {bytes : Bytes} (hn : bytes.length ≤ n) :
    utf8 (takeChars n bytes).1 ++ (takeChars n bytes).2 = bytes
      ∧ firstChar (takeChars n bytes).2 = none := by
  induction n generalizing bytes with
  | zero =>
    obtain rfl := List.eq_nil_of_length_eq_zero (Nat.le_zero.mp hn)
    exact ⟨rfl, firstChar_nil⟩
  | succ n ih =>
    unfold takeChars
    cases hfirst : firstChar bytes with
    | none => exact ⟨rfl, hfirst⟩
    | some c =>
      obtain ⟨rest, rfl⟩ := exists_of_firstChar hfirst
      have hpos := c.utf8Size_pos
      rw [List.length_append, String.length_utf8EncodeChar] at hn
      have hrest : rest.length ≤ n := by omega
      obtain ⟨hall, hleft⟩ := ih hrest
      dsimp only
      rw [drop_utf8Size]
      refine ⟨?_, hleft⟩
      rw [utf8_cons, List.append_assoc, hall]

/-- Whether bytes encode some text: no byte is left over. -/
def validUtf8 (bytes : Bytes) : Bool := (takeChars bytes.length bytes).2.isEmpty

theorem validUtf8_iff (bytes : Bytes) : validUtf8 bytes = true ↔ ValidUtf8 bytes := by
  obtain ⟨hall, hleft⟩ := takeChars_spec (Nat.le_refl bytes.length)
  unfold validUtf8
  rw [List.isEmpty_iff]
  constructor
  · intro hnone
    rw [hnone, List.append_nil] at hall
    exact ⟨_, hall.symm⟩
  · intro h
    obtain ⟨text, rfl⟩ := h
    obtain ⟨rest, _, hrest⟩ := exists_of_utf8_append hall
    cases rest with
    | nil => exact hrest
    | cons c rest =>
      rw [hrest, utf8_cons, firstChar_append] at hleft
      cases hleft

/-- One piece of the input, after the bytes kept from the pieces before. -/
def decodePiece (kept : Bytes) (piece : Bytes) : List Char × Bytes :=
  takeChars (kept ++ piece).length (kept ++ piece)

/-- A piece more: the text so far and the bytes kept. -/
def decodeNext (r : List Char × Bytes) (piece : Bytes) : List Char × Bytes :=
  (r.1 ++ (decodePiece r.2 piece).1, (decodePiece r.2 piece).2)

/-- Nothing is lost between the pieces, and no complete character is kept. -/
theorem decodeNext_foldl {r : List Char × Bytes} (hkept : firstChar r.2 = none) (pieces : List Bytes) :
    utf8 (pieces.foldl decodeNext r).1 ++ (pieces.foldl decodeNext r).2
        = utf8 r.1 ++ r.2 ++ pieces.flatten
      ∧ firstChar (pieces.foldl decodeNext r).2 = none := by
  induction pieces generalizing r with
  | nil => exact ⟨(List.append_nil _).symm, hkept⟩
  | cons piece pieces ih =>
    obtain ⟨hall, hleft⟩ := takeChars_spec (Nat.le_refl (r.2 ++ piece).length)
    obtain ⟨hrest, hend⟩ := ih (r := decodeNext r piece) hleft
    refine ⟨?_, hend⟩
    rw [List.foldl_cons, hrest, List.flatten_cons]
    show utf8 (r.1 ++ (decodePiece r.2 piece).1) ++ (decodePiece r.2 piece).2 ++ _ = _
    unfold decodePiece
    rw [utf8_append, List.append_assoc (utf8 r.1), hall]
    simp only [List.append_assoc]

/-- However the bytes of a text are cut, the decoder gives the text. -/
theorem decodeNext_utf8 {text : List Char} {pieces : List Bytes} (h : pieces.flatten = utf8 text) :
    (pieces.foldl decodeNext ([], [])).1 = text := by
  obtain ⟨hall, hend⟩ := decodeNext_foldl (r := ([], [])) firstChar_nil pieces
  rw [h] at hall
  obtain ⟨rest, htext, hrest⟩ := exists_of_utf8_append hall
  cases rest with
  | nil => rw [htext, List.append_nil]
  | cons c rest =>
    rw [hrest, utf8_cons, firstChar_append] at hend
    cases hend

end LendingClaw.Lib

/-
LendingClaw.Lib.Base64 — `encoding/base64` (the standard encoding, with
padding) and the decoder of `encoding/hex`, on bytes.

Three bytes are one number below 2 ^ 24, written as four digits of six
bits. The decoder skips line ends, wants the padding and leaves the bits
of the last digit that no byte takes unchecked.

Nothing here names a program.
-/
import Mathlib.Data.List.Basic

namespace LendingClaw.Lib

/-- A byte sequence: a string of the source language. -/
abbrev Bytes := List UInt8

/-- The bytes of an ASCII text. -/
def ascii (s : String) : Bytes := s.toList.map fun c => UInt8.ofNat c.toNat

/-! ## Digits -/

def pad : UInt8 := 61

/-- The alphabet: A to Z, a to z, 0 to 9, + and /. -/
def base64Digit (n : Nat) : UInt8 :=
  if n < 26 then UInt8.ofNat (65 + n)
  else if n < 52 then UInt8.ofNat (71 + n)
  else if n < 62 then UInt8.ofNat (n - 4)
  else if n = 62 then 43 else 47

def base64Value (c : UInt8) : Option Nat :=
  let c := c.toNat
  if 65 ≤ c ∧ c ≤ 90 then some (c - 65)
  else if 97 ≤ c ∧ c ≤ 122 then some (c - 71)
  else if 48 ≤ c ∧ c ≤ 57 then some (c + 4)
  else if c = 43 then some 62
  else if c = 47 then some 63
  else none

/-- `'\r'` or `'\n'`. -/
def isLineEnd (c : UInt8) : Bool := c == 13 || c == 10

theorem base64Digit_spec (n : Fin 64) :
    base64Value (base64Digit n) = some n.val ∧ base64Digit n ≠ pad
      ∧ isLineEnd (base64Digit n) = false := by
  revert n
  decide

theorem base64Value_digit {n : Nat} (h : n < 64) : base64Value (base64Digit n) = some n :=
  (base64Digit_spec ⟨n, h⟩).1

theorem base64Digit_ne_pad {n : Nat} (h : n < 64) : base64Digit n ≠ pad :=
  (base64Digit_spec ⟨n, h⟩).2.1

/-! ## Encoding -/

/-- `EncodeToString`. -/
def base64Encode : Bytes → Bytes
  | [] => []
  | [x] =>
    let v := x.toNat * 65536
    [base64Digit (v / 262144), base64Digit (v / 4096 % 64), pad, pad]
  | [x, y] =>
    let v := x.toNat * 65536 + y.toNat * 256
    [base64Digit (v / 262144), base64Digit (v / 4096 % 64), base64Digit (v / 64 % 64), pad]
  | x :: y :: z :: rest =>
    let v := x.toNat * 65536 + y.toNat * 256 + z.toNat
    base64Digit (v / 262144) :: base64Digit (v / 4096 % 64) :: base64Digit (v / 64 % 64)
      :: base64Digit (v % 64) :: base64Encode rest

/-- The four-digit groups, line ends apart. -/
def base64Groups : Bytes → Option Bytes
  | [] => some []
  | a :: b :: c :: d :: rest =>
    if d = pad then
      if rest ≠ [] then none
      else if c = pad then
        match base64Value a, base64Value b with
        | some a, some b => some [UInt8.ofNat (a * 4 + b / 16)]
        | _, _ => none
      else
        match base64Value a, base64Value b, base64Value c with
        | some a, some b, some c =>
          some [UInt8.ofNat (a * 4 + b / 16), UInt8.ofNat (b % 16 * 16 + c / 4)]
        | _, _, _ => none
    else
      match base64Value a, base64Value b, base64Value c, base64Value d with
      | some a, some b, some c, some d =>
        (base64Groups rest).map fun bytes =>
          UInt8.ofNat (a * 4 + b / 16) :: UInt8.ofNat (b % 16 * 16 + c / 4)
            :: UInt8.ofNat (c % 4 * 64 + d) :: bytes
      | _, _, _, _ => none
  | _ => none

/-- `DecodeString`. -/
def base64Decode (s : Bytes) : Option Bytes := base64Groups (s.filter fun c => !isLineEnd c)

theorem toNat_ofNat_byte {n : Nat} {x : UInt8} (h : n = x.toNat) : UInt8.ofNat n = x := by
  rw [h, UInt8.ofNat_toNat]

theorem base64Groups_encode (xs : Bytes) : base64Groups (base64Encode xs) = some xs := by
  induction xs using base64Encode.induct with
  | case1 => rfl
  | case2 x =>
    have hx := x.toNat_lt
    have h₀ : x.toNat * 65536 / 262144 < 64 := by omega
    have h₁ : x.toNat * 65536 / 4096 % 64 < 64 := by omega
    unfold base64Encode base64Groups
    simp only [base64Value_digit h₀, base64Value_digit h₁, if_true, ne_eq, not_true_eq_false, if_false]
    congr 2
    exact toNat_ofNat_byte (by omega)
  | case3 x y =>
    have hx := x.toNat_lt
    have hy := y.toNat_lt
    have h₀ : (x.toNat * 65536 + y.toNat * 256) / 262144 < 64 := by omega
    have h₁ : (x.toNat * 65536 + y.toNat * 256) / 4096 % 64 < 64 := by omega
    have h₂ : (x.toNat * 65536 + y.toNat * 256) / 64 % 64 < 64 := by omega
    unfold base64Encode base64Groups
    simp only [base64Value_digit h₀, base64Value_digit h₁, base64Value_digit h₂, base64Digit_ne_pad h₂,
      if_true, ne_eq, not_true_eq_false, if_false]
    congr 2
    · exact toNat_ofNat_byte (by omega)
    · congr 1
      exact toNat_ofNat_byte (by omega)
  | case4 x y z rest ih =>
    have hx := x.toNat_lt
    have hy := y.toNat_lt
    have hz := z.toNat_lt
    have h₀ : (x.toNat * 65536 + y.toNat * 256 + z.toNat) / 262144 < 64 := by omega
    have h₁ : (x.toNat * 65536 + y.toNat * 256 + z.toNat) / 4096 % 64 < 64 := by omega
    have h₂ : (x.toNat * 65536 + y.toNat * 256 + z.toNat) / 64 % 64 < 64 := by omega
    have h₃ : (x.toNat * 65536 + y.toNat * 256 + z.toNat) % 64 < 64 := by omega
    unfold base64Encode base64Groups
    simp only [base64Value_digit h₀, base64Value_digit h₁, base64Value_digit h₂, base64Value_digit h₃,
      base64Digit_ne_pad h₃, if_false, ih, Option.map_some]
    congr 2
    · exact toNat_ofNat_byte (by omega)
    · congr 1
      · exact toNat_ofNat_byte (by omega)
      · congr 1
        exact toNat_ofNat_byte (by omega)

/-- An encoding has no line end to skip. -/
theorem base64Encode_no_lineEnd (xs : Bytes) : ∀ c ∈ base64Encode xs, isLineEnd c = false := by
  have hdigit : ∀ n, n < 64 → isLineEnd (base64Digit n) = false :=
    fun n hn => (base64Digit_spec ⟨n, hn⟩).2.2
  induction xs using base64Encode.induct with
  | case1 =>
    intro c hc
    cases hc
  | case2 x =>
    have hx := x.toNat_lt
    intro c hc
    simp only [base64Encode, List.mem_cons, List.not_mem_nil, or_false] at hc
    rcases hc with rfl | rfl | rfl | rfl
    · exact hdigit _ (by omega)
    · exact hdigit _ (by omega)
    · decide
    · decide
  | case3 x y =>
    have hx := x.toNat_lt
    have hy := y.toNat_lt
    intro c hc
    simp only [base64Encode, List.mem_cons, List.not_mem_nil, or_false] at hc
    rcases hc with rfl | rfl | rfl | rfl
    · exact hdigit _ (by omega)
    · exact hdigit _ (by omega)
    · exact hdigit _ (by omega)
    · decide
  | case4 x y z rest ih =>
    have hx := x.toNat_lt
    have hy := y.toNat_lt
    have hz := z.toNat_lt
    intro c hc
    simp only [base64Encode, List.mem_cons] at hc
    rcases hc with rfl | rfl | rfl | rfl | hc
    · exact hdigit _ (by omega)
    · exact hdigit _ (by omega)
    · exact hdigit _ (by omega)
    · exact hdigit _ (by omega)
    · exact ih c hc

/-- Decoding undoes encoding. -/
theorem base64Decode_encode (xs : Bytes) : base64Decode (base64Encode xs) = some xs := by
  have hfilter : (base64Encode xs).filter (fun c => !isLineEnd c) = base64Encode xs := by
    rw [List.filter_eq_self]
    intro c hc
    rw [base64Encode_no_lineEnd xs c hc]
    rfl
  rw [base64Decode, hfilter, base64Groups_encode]

/-! ## Hexadecimal -/

def hexValue (c : UInt8) : Option Nat :=
  let c := c.toNat
  if 48 ≤ c ∧ c ≤ 57 then some (c - 48)
  else if 97 ≤ c ∧ c ≤ 102 then some (c - 87)
  else if 65 ≤ c ∧ c ≤ 70 then some (c - 55)
  else none

/-- `hex.DecodeString`. -/
def hexDecode : Bytes → Option Bytes
  | [] => some []
  | a :: b :: rest =>
    match hexValue a, hexValue b with
    | some a, some b => (hexDecode rest).map fun bytes => UInt8.ofNat (a * 16 + b) :: bytes
    | _, _ => none
  | _ => none

theorem hexDecode_length {s bytes : Bytes} (h : hexDecode s = some bytes) :
    s.length = 2 * bytes.length := by
  induction s using hexDecode.induct generalizing bytes with
  | case1 =>
    cases h
    rfl
  | case2 a b rest x y hx hy ih =>
    simp only [hexDecode, hx, hy, Option.map_eq_some_iff] at h
    obtain ⟨bytes', hrest, rfl⟩ := h
    rw [List.length_cons, List.length_cons, List.length_cons, ih hrest]
    omega
  | case3 a b rest hnone =>
    unfold hexDecode at h
    split at h
    · rename_i x y hx hy
      exact absurd hy (hnone x y hx)
    · cases h
  | case4 s hnil hcons =>
    unfold hexDecode at h
    split at h
    · exact absurd rfl hnil
    · exact absurd rfl (hcons _ _ _)
    · cases h

end LendingClaw.Lib

/-
LendingClaw.Lib.GoQuote — the quoted texts of `strconv`: `Quote`, and
`UnquoteChar` and `Unquote` for double quotes.

Which characters are printable is a table of the standard library, and a
parameter here. An escape may stand for a byte that is no text, so the
reader collects bytes; it also reads the escapes that `json.Marshal`
writes. What a character is escaped to is read back, whatever follows.

Nothing here names a program.
-/
import LendingClaw.Lib.Json
import LendingClaw.Lib.Paths
import LendingClaw.Lib.Utf8

namespace LendingClaw.Lib

/-! ## Hexadecimal digits -/

/-- The last digits of a number, lower case. -/
def hexDigits : (width n : Nat) → List Char
  | 0, _ => []
  | width + 1, n => hexDigits width (n / 16) ++ [Json.hexDigit (n % 16)]

/-- The number in the next digits, behind the digits read so far. -/
def readHex : (width value : Nat) → List Char → Option (Nat × List Char)
  | 0, value, s => some (value, s)
  | _ + 1, _, [] => none
  | width + 1, value, c :: s =>
    match unhex c with
    | none => none
    | some x => readHex width (value * 16 + x) s

theorem unhex_hexDigit {n : Nat} (h : n < 16) : unhex (Json.hexDigit n) = some n := by
  revert n
  decide

theorem readHex_length {width value : Nat} {s rest : List Char} {n : Nat}
    (h : readHex width value s = some (n, rest)) : rest.length ≤ s.length := by
  induction width generalizing value s with
  | zero =>
    cases h
    exact Nat.le_refl _
  | succ width ih =>
    cases s with
    | nil => cases h
    | cons c s =>
      rw [readHex] at h
      cases hc : unhex c with
      | none =>
        rw [hc] at h
        cases h
      | some x =>
        rw [hc] at h
        exact Nat.le_succ_of_le (ih h)

/-- One digit more, at the end. -/
theorem readHex_succ (width value : Nat) (a s : List Char) {n : Nat}
    (h : ∀ s, readHex width value (a ++ s) = some (n, s)) {x : Nat} (hx : x < 16) :
    readHex (width + 1) value (a ++ Json.hexDigit x :: s) = some (n * 16 + x, s) := by
  induction width generalizing value a with
  | zero =>
    have hnil := h []
    rw [readHex, List.append_nil] at hnil
    cases hnil
    rw [List.nil_append, readHex, unhex_hexDigit hx]
    rfl
  | succ width ih =>
    cases a with
    | nil => exact absurd (h []) nofun
    | cons c a =>
      rw [List.cons_append, readHex]
      cases hc : unhex c with
      | none =>
        have hfirst := h []
        rw [List.cons_append, readHex, hc] at hfirst
        cases hfirst
      | some y =>
        refine ih (value * 16 + y) a ?_
        intro s
        have hrest := h s
        rwa [List.cons_append, readHex, hc] at hrest

/-- Digits are read back, if the number has no more. -/
theorem readHex_hexDigits (width n : Nat) (s : List Char) :
    readHex width 0 (hexDigits width n ++ s) = some (n % Nat.pow 16 width, s) := by
  induction width generalizing n s with
  | zero => rw [show Nat.pow 16 0 = 1 from rfl, Nat.mod_one]; rfl
  | succ width ih =>
    rw [hexDigits, List.append_assoc, List.singleton_append,
      readHex_succ width 0 _ s (fun s => ih (n / 16) s) (Nat.mod_lt n (by decide))]
    have hpow : Nat.pow 16 (width + 1) = 16 * Nat.pow 16 width := Nat.mul_comm _ _
    have hmod := Nat.mod_mul (x := n) (a := 16) (b := Nat.pow 16 width)
    rw [hpow, hmod]
    congr 2
    omega

/-! ## Writing -/

/-- `appendEscapedRune`, for double quotes. -/
def escapeRune (isPrint : Char → Bool) (r : Char) : List Char :=
  if r = '\x22' ∨ r = '\\' then ['\\', r]
  else if isPrint r then [r]
  else if r = '\x07' then ['\\', 'a']
  else if r = '\x08' then ['\\', 'b']
  else if r = '\x0c' then ['\\', 'f']
  else if r = '\n' then ['\\', 'n']
  else if r = '\r' then ['\\', 'r']
  else if r = '\t' then ['\\', 't']
  else if r = '\x0b' then ['\\', 'v']
  else if r.toNat < 32 ∨ r.toNat = 127 then '\\' :: 'x' :: hexDigits 2 r.toNat
  else if r.toNat < 65536 then '\\' :: 'u' :: hexDigits 4 r.toNat
  else '\\' :: 'U' :: hexDigits 8 r.toNat

/-- `Quote`. -/
def quote (isPrint : Char → Bool) (s : List Char) : List Char :=
  '\x22' :: (s.flatMap (escapeRune isPrint) ++ ['\x22'])

theorem newline_not_mem_hexDigits (width n : Nat) : '\n' ∉ hexDigits width n := by
  have hdigit : ∀ x < 16, '\n' ≠ Json.hexDigit x := by decide
  induction width generalizing n with
  | zero => exact List.not_mem_nil
  | succ width ih =>
    intro hmem
    rcases List.mem_append.mp hmem with hmem | hmem
    · exact ih (n / 16) hmem
    · exact hdigit _ (Nat.mod_lt n (by decide)) (List.mem_singleton.mp hmem)

/-- A printable character stands for itself, all others are written with a
backslash, and without a line end. -/
theorem escapeRune_cases (isPrint : Char → Bool) (r : Char) :
    (isPrint r = true ∧ escapeRune isPrint r = [r])
      ∨ ∃ rest, escapeRune isPrint r = '\\' :: rest ∧ '\n' ∉ rest := by
  have hite : ∀ {p : Prop} [Decidable p] {a b : List Char},
      (∃ rest, a = '\\' :: rest ∧ '\n' ∉ rest) → (∃ rest, b = '\\' :: rest ∧ '\n' ∉ rest) →
      ∃ rest, (if p then a else b) = '\\' :: rest ∧ '\n' ∉ rest := by
    intro p _ a b ha hb
    by_cases hp : p
    · rwa [if_pos hp]
    · rwa [if_neg hp]
  have hletter : ∀ c, '\n' ≠ c → ∃ rest, ['\\', c] = '\\' :: rest ∧ '\n' ∉ rest :=
    fun c hc => ⟨[c], rfl, fun hmem => hc (List.mem_singleton.mp hmem)⟩
  have hdigits : ∀ c width, '\n' ≠ c →
      ∃ rest, '\\' :: c :: hexDigits width r.toNat = '\\' :: rest ∧ '\n' ∉ rest := by
    intro c width hc
    refine ⟨_, rfl, fun hmem => ?_⟩
    rcases List.mem_cons.mp hmem with h | hmem
    · exact hc h
    · exact newline_not_mem_hexDigits width r.toNat hmem
  unfold escapeRune
  by_cases hspecial : r = '\x22' ∨ r = '\\'
  · rw [if_pos hspecial]
    refine Or.inr (hletter r ?_)
    rintro rfl
    rcases hspecial with h | h
    · cases h
    · cases h
  rw [if_neg hspecial]
  by_cases hprint : isPrint r = true
  · rw [if_pos hprint]
    exact Or.inl ⟨hprint, rfl⟩
  rw [if_neg hprint]
  right
  apply hite (hletter 'a' (by decide))
  apply hite (hletter 'b' (by decide))
  apply hite (hletter 'f' (by decide))
  apply hite (hletter 'n' (by decide))
  apply hite (hletter 'r' (by decide))
  apply hite (hletter 't' (by decide))
  apply hite (hletter 'v' (by decide))
  apply hite (hdigits 'x' 2 (by decide))
  exact hite (hdigits 'u' 4 (by decide)) (hdigits 'U' 8 (by decide))

/-- A quoted text is on one line, if a line end is not printable. -/
theorem newline_not_mem_quote {isPrint : Char → Bool} (hline : isPrint '\n' = false)
    (s : List Char) : '\n' ∉ quote isPrint s := by
  intro hmem
  rcases List.mem_cons.mp hmem with h | hmem
  · cases h
  · rcases List.mem_append.mp hmem with hmem | hmem
    · obtain ⟨r, -, hr⟩ := List.mem_flatMap.mp hmem
      rcases escapeRune_cases isPrint r with ⟨hprint, heq⟩ | ⟨rest, heq, hrest⟩
      · rw [heq] at hr
        rw [← List.mem_singleton.mp hr, hline] at hprint
        cases hprint
      · rw [heq] at hr
        rcases List.mem_cons.mp hr with h | hr
        · cases h
        · exact hrest hr
    · cases List.mem_singleton.mp hmem

/-! ## Reading -/

/-- A digit of an octal escape. -/
def unoctal (c : Char) : Option Nat :=
  if '0' ≤ c ∧ c ≤ '7' then some (c.toNat - 48) else none

/-- The value of an escape with digits, as a character. -/
def runeBytes (r : Option (Nat × List Char)) : Option (Bytes × List Char) :=
  match r with
  | none => none
  | some (v, s) => if v.isValidChar then some (utf8 [Char.ofNat v], s) else none

/-- The escapes of one letter. -/
def unescapeLetter (c : Char) : Option Char :=
  if c = 'a' then some '\x07'
  else if c = 'b' then some '\x08'
  else if c = 'f' then some '\x0c'
  else if c = 'n' then some '\n'
  else if c = 'r' then some '\r'
  else if c = 't' then some '\t'
  else if c = 'v' then some '\x0b'
  else if c = '\\' then some '\\'
  else if c = '\x22' then some '\x22'
  else none

/-- Three octal digits, for a byte. -/
def unquoteOctal : List Char → Option (Bytes × List Char)
  | c :: d :: e :: s =>
    match unoctal c, unoctal d, unoctal e with
    | some x, some y, some z =>
      if x * 64 + y * 8 + z > 255 then none else some ([UInt8.ofNat (x * 64 + y * 8 + z)], s)
    | _, _, _ => none
  | _ => none

/-- `UnquoteChar` behind a backslash. -/
def unquoteEscape : List Char → Option (Bytes × List Char)
  | [] => none
  | c :: s =>
    match unescapeLetter c with
    | some value => some (utf8 [value], s)
    | none =>
      if c = 'x' then
        match readHex 2 0 s with
        | none => none
        | some (v, s) => some ([UInt8.ofNat v], s)
      else if c = 'u' then runeBytes (readHex 4 0 s)
      else if c = 'U' then runeBytes (readHex 8 0 s)
      else unquoteOctal (c :: s)

/-- `UnquoteChar` with the quote `"`: the bytes of the next character, and
what follows it. -/
def unquoteChar : List Char → Option (Bytes × List Char)
  | [] => none
  | c :: s =>
    if c = '\x22' then none
    else if c = '\\' then unquoteEscape s
    else some (utf8 [c], s)

theorem runeBytes_length {width : Nat} {s rest : List Char} {bytes : Bytes}
    (h : runeBytes (readHex width 0 s) = some (bytes, rest)) : rest.length ≤ s.length := by
  cases hread : readHex width 0 s with
  | none =>
    rw [hread] at h
    cases h
  | some r =>
    obtain ⟨v, s'⟩ := r
    rw [hread, runeBytes] at h
    split at h
    · cases h
      exact readHex_length hread
    · cases h

theorem unquoteOctal_length {s rest : List Char} {bytes : Bytes}
    (h : unquoteOctal s = some (bytes, rest)) : rest.length < s.length := by
  match s with
  | [] | [_] | [_, _] => cases h
  | c :: d :: e :: s =>
    rw [unquoteOctal] at h
    split at h
    · split at h
      · cases h
      · cases h
        simp only [List.length_cons]
        omega
    · cases h

theorem unquoteEscape_length {s rest : List Char} {bytes : Bytes}
    (h : unquoteEscape s = some (bytes, rest)) : rest.length < s.length := by
  cases s with
  | nil => cases h
  | cons c s =>
    rw [unquoteEscape] at h
    split at h
    · cases h
      exact Nat.lt_succ_self _
    · split at h
      · cases hread : readHex 2 0 s with
        | none =>
          rw [hread] at h
          cases h
        | some r =>
          obtain ⟨v, s'⟩ := r
          rw [hread] at h
          cases h
          exact Nat.lt_succ_of_le (readHex_length hread)
      · split at h
        · exact Nat.lt_succ_of_le (runeBytes_length h)
        · split at h
          · exact Nat.lt_succ_of_le (runeBytes_length h)
          · exact unquoteOctal_length h

/-- Every character takes some of the text. -/
theorem unquoteChar_length {s rest : List Char} {bytes : Bytes}
    (h : unquoteChar s = some (bytes, rest)) : rest.length < s.length := by
  cases s with
  | nil => cases h
  | cons c s =>
    rw [unquoteChar] at h
    split at h
    · cases h
    · split at h
      · exact Nat.lt_succ_of_lt (unquoteEscape_length h)
      · cases h
        exact Nat.lt_succ_self _

/-! ## What is written is read -/

theorem utf8_ascii {r : Char} (h : r.toNat < 128) : utf8 [r] = [UInt8.ofNat r.toNat] := by
  have hle : r.val ≤ 127 := UInt32.le_iff_toNat_le.mpr (Nat.le_of_lt_succ h)
  have hsize : r.utf8Size = 1 := if_pos hle
  rw [utf8_cons, utf8_nil, List.append_nil, String.utf8EncodeChar_eq_singleton hsize]
  exact congrArg (fun b => [b]) (UInt8.ofNat_uInt32ToNat r.val).symm

theorem runeBytes_hexDigits {width : Nat} {r : Char} (h : r.toNat < Nat.pow 16 width)
    (s : List Char) :
    runeBytes (readHex width 0 (hexDigits width r.toNat ++ s)) = some (utf8 [r], s) := by
  have hvalid : r.toNat.isValidChar := r.valid
  rw [readHex_hexDigits, Nat.mod_eq_of_lt h, runeBytes, if_pos hvalid, Char.ofNat_toNat]

theorem unquoteChar_letter {c r : Char} (h : unescapeLetter c = some r) (s : List Char) :
    unquoteChar ('\\' :: c :: s) = some (utf8 [r], s) := by
  rw [unquoteChar, if_neg (by decide), if_pos rfl, unquoteEscape, h]

theorem unquoteChar_plain {r : Char} (hquote : r ≠ '\x22') (hslash : r ≠ '\\') (s : List Char) :
    unquoteChar (r :: s) = some (utf8 [r], s) := by
  rw [unquoteChar, if_neg hquote, if_neg hslash]

theorem unquoteChar_u {r : Char} (h : r.toNat < 65536) (s : List Char) :
    unquoteChar ('\\' :: 'u' :: (hexDigits 4 r.toNat ++ s)) = some (utf8 [r], s) := by
  have hlt : r.toNat < Nat.pow 16 4 := h
  exact runeBytes_hexDigits hlt s

theorem unquoteChar_U {r : Char} (s : List Char) :
    unquoteChar ('\\' :: 'U' :: (hexDigits 8 r.toNat ++ s)) = some (utf8 [r], s) := by
  have hlt : r.toNat < Nat.pow 16 8 := Nat.lt_of_lt_of_le r.val.toNat_lt (by decide)
  exact runeBytes_hexDigits hlt s

theorem unquoteChar_x {r : Char} (h : r.toNat < 128) (s : List Char) :
    unquoteChar ('\\' :: 'x' :: (hexDigits 2 r.toNat ++ s)) = some (utf8 [r], s) := by
  have hlt : r.toNat < Nat.pow 16 2 := Nat.lt_trans h (by decide)
  have hread := readHex_hexDigits 2 r.toNat s
  rw [Nat.mod_eq_of_lt hlt] at hread
  show (match readHex 2 0 (hexDigits 2 r.toNat ++ s) with
    | none => none
    | some (v, s) => some ([UInt8.ofNat v], s)) = _
  rw [hread, utf8_ascii h]

/-- A character as `Quote` writes it. -/
theorem unquoteChar_escapeRune (isPrint : Char → Bool) (r : Char) (s : List Char) :
    unquoteChar (escapeRune isPrint r ++ s) = some (utf8 [r], s) := by
  unfold escapeRune
  by_cases hspecial : r = '\x22' ∨ r = '\\'
  · rw [if_pos hspecial]
    rcases hspecial with rfl | rfl <;> rfl
  rw [if_neg hspecial]
  by_cases hprint : isPrint r = true
  · rw [if_pos hprint]
    exact unquoteChar_plain (fun h => hspecial (Or.inl h)) (fun h => hspecial (Or.inr h)) s
  rw [if_neg hprint]
  split_ifs with h1 h2 h3 h4 h5 h6 h7 hctl hshort
  · exact h1 ▸ unquoteChar_letter rfl s
  · exact h2 ▸ unquoteChar_letter rfl s
  · exact h3 ▸ unquoteChar_letter rfl s
  · exact h4 ▸ unquoteChar_letter rfl s
  · exact h5 ▸ unquoteChar_letter rfl s
  · exact h6 ▸ unquoteChar_letter rfl s
  · exact h7 ▸ unquoteChar_letter rfl s
  · exact unquoteChar_x (by omega) s
  · exact unquoteChar_u hshort s
  · exact unquoteChar_U s

/-- A character as `json.Marshal` writes it. -/
theorem unquoteChar_escape (r : Char) (s : List Char) :
    unquoteChar (Json.escape r ++ s) = some (utf8 [r], s) := by
  unfold Json.escape
  split_ifs with h1 h2 h3 h4 h5 h6 h7 hctl h8 h9
  · subst h1
    exact unquoteChar_letter rfl s
  · subst h2
    exact unquoteChar_letter rfl s
  · exact h3 ▸ unquoteChar_letter rfl s
  · exact h4 ▸ unquoteChar_letter rfl s
  · exact h5 ▸ unquoteChar_letter rfl s
  · exact h6 ▸ unquoteChar_letter rfl s
  · exact h7 ▸ unquoteChar_letter rfl s
  · have hlt : r.toNat < 256 := by
      rcases hctl with h | rfl | rfl | rfl
      · omega
      · decide
      · decide
      · decide
    have hhigh : r.toNat / 16 / 16 = 0 := by omega
    have hlow : r.toNat / 16 % 16 = r.toNat / 16 := by omega
    have hdigits : hexDigits 4 r.toNat
        = ['0', '0', Json.hexDigit (r.toNat / 16), Json.hexDigit (r.toNat % 16)] := by
      simp only [hexDigits, hhigh, hlow]
      rfl
    have hread := unquoteChar_u (r := r) (by omega) s
    rwa [hdigits] at hread
  · exact h8 ▸ rfl
  · exact h9 ▸ rfl
  · exact unquoteChar_plain h1 h2 s

/-! ## Quoted texts -/

/-- An escape for each character that can be read back, whatever follows. -/
def ReadBack (escape : Char → List Char) : Prop :=
  ∀ r s, unquoteChar (escape r ++ s) = some (utf8 [r], s)

/-- A text in quotes. -/
def quoted (escape : Char → List Char) (text : List Char) : List Char :=
  '\x22' :: (text.flatMap escape ++ ['\x22'])

theorem ReadBack.inj {escape : Char → List Char} (h : ReadBack escape) {a b s t : List Char}
    (heq : a.flatMap escape ++ '\x22' :: s = b.flatMap escape ++ '\x22' :: t) : a = b ∧ s = t := by
  have hstop : ∀ s, unquoteChar ('\x22' :: s) = none := fun s => rfl
  induction a generalizing b with
  | nil =>
    cases b with
    | nil => exact ⟨rfl, (List.cons.inj heq).2⟩
    | cons d b =>
      have hread := h d (b.flatMap escape ++ '\x22' :: t)
      rw [← List.append_assoc, ← List.flatMap_cons, ← heq, List.flatMap_nil, List.nil_append,
        hstop] at hread
      cases hread
  | cons c a ih =>
    have hc := h c (a.flatMap escape ++ '\x22' :: s)
    rw [← List.append_assoc, ← List.flatMap_cons, heq] at hc
    cases b with
    | nil =>
      rw [List.flatMap_nil, List.nil_append, hstop] at hc
      cases hc
    | cons d b =>
      rw [List.flatMap_cons, List.append_assoc, h d] at hc
      obtain ⟨hbytes, hrest⟩ := Prod.mk.inj (Option.some.inj hc)
      have hchar : c = d := by
        rw [utf8_cons, utf8_cons] at hbytes
        exact (utf8EncodeChar_append_inj hbytes).1.symm
      obtain ⟨rfl, rfl⟩ := ih hrest.symm
      exact ⟨by rw [hchar], rfl⟩

/-- A quoted text is known from any text it starts. -/
theorem quoted_append_inj {escape : Char → List Char} (h : ReadBack escape) {a b s t : List Char}
    (heq : quoted escape a ++ s = quoted escape b ++ t) : a = b ∧ s = t := by
  rw [quoted, quoted, List.cons_append, List.cons_append, List.append_assoc,
    List.append_assoc] at heq
  exact h.inj (List.cons.inj heq).2

/-! ## Unquoting -/

/-- The loop of `Unquote`: the bytes up to the closing quote, and what
follows it. Its shortcut for texts without escapes gives the same. -/
def unquoteLoop (s : List Char) : Option (Bytes × List Char) :=
  match s with
  | [] => none
  | c :: rest =>
    if c = '\x22' then some ([], rest)
    else if c = '\n' then none
    else
      match _h : unquoteChar (c :: rest) with
      | none => none
      | some (bytes, rest) =>
        match unquoteLoop rest with
        | none => none
        | some (more, rest) => some (bytes ++ more, rest)
termination_by s.length
decreasing_by exact unquoteChar_length _h

/-- `Unquote` of a text in double quotes. -/
def unquote : List Char → Option Bytes
  | [] => none
  | c :: s =>
    if c = '\x22' then
      match unquoteLoop s with
      | some (bytes, []) => some bytes
      | _ => none
    else none

theorem unquoteLoop_quoted {escape : Char → List Char} (h : ReadBack escape)
    (hline : ∀ r, (escape r).head? ≠ some '\n') (text s : List Char) :
    unquoteLoop (text.flatMap escape ++ '\x22' :: s) = some (utf8 text, s) := by
  induction text with
  | nil =>
    rw [List.flatMap_nil, List.nil_append, unquoteLoop, if_pos rfl]
    rfl
  | cons r text ih =>
    have hread := h r (text.flatMap escape ++ '\x22' :: s)
    have hfirst := hline r
    have hnil := h r []
    rw [List.flatMap_cons, List.append_assoc]
    cases hescape : escape r with
    | nil =>
      rw [hescape] at hnil
      cases hnil
    | cons c rest =>
      rw [hescape] at hread hfirst hnil
      have hquote : c ≠ '\x22' := by
        rintro rfl
        cases hnil
      have hnewline : c ≠ '\n' := fun hc => hfirst (congrArg some hc)
      rw [List.cons_append] at hread ⊢
      rw [unquoteLoop, if_neg hquote, if_neg hnewline]
      split
      · rename_i hnone
        rw [hread] at hnone
        cases hnone
      · rename_i bytes rest' hsome
        rw [hread] at hsome
        cases hsome
        rw [ih]
        exact congrArg (fun bytes => some (bytes, s)) (utf8_append [r] text).symm

/-- What `Quote` writes is read back, if a line end is not printable. -/
theorem unquote_quote {isPrint : Char → Bool} (hline : isPrint '\n' = false) (text : List Char) :
    unquote (quote isPrint text) = some (utf8 text) := by
  have hfirst : ∀ r, (escapeRune isPrint r).head? ≠ some '\n' := by
    intro r h
    rcases escapeRune_cases isPrint r with ⟨hprint, heq⟩ | ⟨rest, heq, -⟩
    · rw [heq] at h
      rw [Option.some.inj h, hline] at hprint
      cases hprint
    · rw [heq] at h
      cases h
  have hloop := unquoteLoop_quoted (unquoteChar_escapeRune isPrint) hfirst text []
  rw [quote, unquote, if_pos rfl, hloop]

end LendingClaw.Lib

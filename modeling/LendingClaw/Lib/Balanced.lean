/-
LendingClaw.Lib.Balanced — texts whose brackets are balanced outside of
their quoted strings, as JSON is.

The scanner knows whether it is inside a string and how deep the brackets
are; it gets stuck where a bracket is closed that was not opened. An end
piece of a bracketed text is no balanced text: it either ends deeper than
it should, or has strings and gaps exchanged.

Nothing here names a program.
-/
import LendingClaw.Lib.GoQuote

namespace LendingClaw.Lib

/-! ## The scanner -/

/-- What a character is to the scanner. -/
inductive Mark where
  | quote
  | slash
  | opened
  | closed
  | plain
  deriving DecidableEq

def mark (c : Char) : Mark :=
  if c = '\x22' then .quote
  else if c = '\\' then .slash
  else if c = '[' ∨ c = '\x7b' then .opened
  else if c = ']' ∨ c = '\x7d' then .closed
  else .plain

inductive Scan where
  | outside (depth : Nat)
  | inside (depth : Nat)
  | escaped (depth : Nat)
  | stuck
  deriving DecidableEq

/-- A backslash outside of a string is no part of a text either. -/
def Scan.next : Scan → Mark → Scan
  | .outside d, .quote => .inside d
  | .outside _, .slash => .stuck
  | .outside d, .opened => .outside (d + 1)
  | .outside 0, .closed => .stuck
  | .outside (d + 1), .closed => .outside d
  | .outside d, .plain => .outside d
  | .inside d, .quote => .outside d
  | .inside d, .slash => .escaped d
  | .inside d, _ => .inside d
  | .escaped d, _ => .inside d
  | .stuck, _ => .stuck

def scan (s : Scan) (text : List Char) : Scan := text.foldl (fun s c => s.next (mark c)) s

@[simp] theorem scan_nil (s : Scan) : scan s [] = s := rfl

@[simp] theorem scan_cons (s : Scan) (c : Char) (text : List Char) :
    scan s (c :: text) = scan (s.next (mark c)) text := rfl

@[simp] theorem scan_append (s : Scan) (a b : List Char) :
    scan s (a ++ b) = scan (scan s a) b := List.foldl_append

theorem scan_stuck (text : List Char) : scan .stuck text = .stuck := by
  induction text with
  | nil => rfl
  | cons c text ih => exact ih

/-! ## Depth -/

/-- The same, one bracket deeper. -/
def Scan.deeper : Scan → Scan
  | .outside d => .outside (d + 1)
  | .inside d => .inside (d + 1)
  | .escaped d => .escaped (d + 1)
  | .stuck => .stuck

theorem next_deeper {s : Scan} {m : Mark} (h : s.next m ≠ .stuck) :
    s.deeper.next m = (s.next m).deeper := by
  cases s with
  | stuck => exact absurd rfl h
  | escaped d => rfl
  | inside d => cases m <;> rfl
  | outside d =>
    cases m with
    | slash => exact absurd rfl h
    | closed =>
      cases d with
      | zero => exact absurd rfl h
      | succ d => rfl
    | _ => rfl

/-- A text that does not get stuck can be read anywhere deeper. -/
theorem scan_deeper {s : Scan} {text : List Char} (h : scan s text ≠ .stuck) :
    scan s.deeper text = (scan s text).deeper := by
  induction text generalizing s with
  | nil => rfl
  | cons c text ih =>
    have hnext : s.next (mark c) ≠ .stuck := by
      intro hstuck
      rw [scan_cons, hstuck, scan_stuck] at h
      exact h rfl
    rw [scan_cons, scan_cons, next_deeper hnext]
    exact ih h

/-! ## Balanced texts -/

/-- The scanner is back where it started. -/
def Balanced (text : List Char) : Prop := scan (.outside 0) text = .outside 0

theorem Balanced.scan_eq {text : List Char} (h : Balanced text) (d : Nat) :
    scan (.outside d) text = .outside d := by
  induction d with
  | zero => exact h
  | succ d ih =>
    have hgoes : scan (.outside d) text ≠ .stuck := by
      rw [ih]
      exact nofun
    have hdeeper := scan_deeper hgoes
    rw [ih] at hdeeper
    exact hdeeper

theorem Balanced.nil : Balanced [] := rfl

theorem Balanced.append {a b : List Char} (ha : Balanced a) (hb : Balanced b) :
    Balanced (a ++ b) := by
  rw [Balanced, scan_append, ha, hb]

/-- A character that is no bracket, no quote and no backslash. -/
def isPlain (c : Char) : Bool := mark c = .plain

theorem mark_of_isPlain {c : Char} (h : isPlain c = true) : mark c = .plain := of_decide_eq_true h

theorem balanced_of_plain {text : List Char} (h : text.all isPlain = true) : Balanced text := by
  induction text with
  | nil => exact Balanced.nil
  | cons c text ih =>
    rw [List.all_cons, Bool.and_eq_true] at h
    rw [Balanced, scan_cons, mark_of_isPlain h.1]
    exact ih h.2

/-- In brackets. -/
theorem Balanced.bracketed {text : List Char} (h : Balanced text) {o c : Char}
    (ho : mark o = .opened) (hc : mark c = .closed) : Balanced (o :: (text ++ [c])) := by
  rw [Balanced, scan_cons, ho, scan_append]
  show scan (scan (.outside 1) text) [c] = .outside 0
  rw [h.scan_eq, scan_cons, hc]
  rfl

/-- How an escape looks: the character, or a backslash, any character and
digits. -/
def EscapeShaped (escape : Char → List Char) : Prop :=
  ∀ r, (∃ c, escape r = [c] ∧ mark c ≠ .quote ∧ mark c ≠ .slash)
    ∨ ∃ c digits, escape r = '\\' :: c :: digits ∧ digits.all isPlain = true

theorem scan_inside_plain {text : List Char} (h : text.all isPlain = true) (d : Nat) :
    scan (.inside d) text = .inside d := by
  induction text with
  | nil => rfl
  | cons c text ih =>
    rw [List.all_cons, Bool.and_eq_true] at h
    rw [scan_cons, mark_of_isPlain h.1]
    exact ih h.2

theorem inside_next {m : Mark} (hquote : m ≠ .quote) (hslash : m ≠ .slash) (d : Nat) :
    Scan.next (.inside d) m = .inside d := by
  cases m with
  | quote => exact absurd rfl hquote
  | slash => exact absurd rfl hslash
  | _ => rfl

theorem balanced_quoted {escape : Char → List Char} (h : EscapeShaped escape) (text : List Char) :
    Balanced (quoted escape text) := by
  have hinside : scan (.inside 0) (text.flatMap escape) = .inside 0 := by
    induction text with
    | nil => rfl
    | cons r text ih =>
      rw [List.flatMap_cons, scan_append]
      rcases h r with ⟨c, heq, hquote, hslash⟩ | ⟨c, digits, heq, hdigits⟩
      · rw [heq, scan_cons, inside_next hquote hslash]
        exact ih
      · rw [heq, scan_cons, scan_cons]
        show scan (scan (.inside 0) digits) (text.flatMap escape) = .inside 0
        rw [scan_inside_plain hdigits]
        exact ih
  rw [Balanced, quoted, scan_cons, scan_append]
  show scan (scan (.inside 0) (text.flatMap escape)) ['\x22'] = .outside 0
  rw [hinside]
  rfl

/-! ## End pieces -/

/-- One of the two is inside a string and the other outside, or one is
stuck. -/
def Opposite : Scan → Scan → Prop
  | .outside _, .inside _ | .inside _, .outside _ => True
  | .stuck, _ | _, .stuck => True
  | _, _ => False

theorem Opposite.next {s t : Scan} (h : Opposite s t) (m : Mark) :
    Opposite (s.next m) (t.next m) := by
  match s, t, h with
  | .outside 0, .inside e, _ => cases m <;> trivial
  | .outside (d + 1), .inside e, _ => cases m <;> trivial
  | .inside d, .outside 0, _ => cases m <;> trivial
  | .inside d, .outside (e + 1), _ => cases m <;> trivial
  | .stuck, _, _ => trivial
  | .outside d, .stuck, _ => cases d <;> cases m <;> trivial
  | .inside d, .stuck, _ => cases m <;> trivial
  | .escaped d, .stuck, _ => cases m <;> trivial

theorem Opposite.scan {s t : Scan} (h : Opposite s t) (text : List Char) :
    Opposite (scan s text) (scan t text) := by
  induction text generalizing s t with
  | nil => exact h
  | cons c text ih => exact ih (h.next (mark c))

/-- Behind a plain character nothing is escaped. -/
theorem next_plain_not_escaped (s : Scan) (d : Nat) : s.next .plain ≠ .escaped d := by
  cases s <;> exact nofun

/-- No balanced text stands behind a plain character at the end of a
bracketed one. -/
theorem not_balanced_end {body p q : List Char} {o c x : Char} (ho : mark o = .opened)
    (hc : mark c = .closed) (hx : mark x = .plain) (hbody : Balanced body) (hq : Balanced q)
    (hne : q ≠ []) : o :: (body ++ [c]) ≠ p ++ x :: q := by
  intro h
  cases p with
  | nil =>
    cases (List.cons.inj h).1
    rw [ho] at hx
    cases hx
  | cons y p =>
    obtain ⟨q', last, rfl⟩ : ∃ q' last, q = q' ++ [last] :=
      ⟨q.dropLast, q.getLast hne, (List.dropLast_append_getLast hne).symm⟩
    have hcut : body ++ [c] = (p ++ x :: q') ++ [last] := by
      rw [List.append_assoc, List.cons_append]
      exact (List.cons.inj h).2
    obtain ⟨hb, hlast⟩ := List.append_inj' hcut rfl
    cases hlast
    -- where the scanner is behind `x`, read from the start of the body
    have hwhole : scan ((scan (.outside 0) p).next .plain) q' = .outside 0 := by
      rw [← hx, ← scan_cons, ← scan_append, ← hb]
      exact hbody
    have hnot : (scan (.outside 0) p).next .plain ≠ .stuck := by
      intro hstuck
      rw [hstuck, scan_stuck] at hwhole
      cases hwhole
    cases hs : (scan (.outside 0) p).next .plain with
    | stuck => exact hnot hs
    | escaped d => exact next_plain_not_escaped _ d hs
    | outside d =>
      rw [hs] at hwhole
      have hback := hq.scan_eq d
      rw [scan_append, hwhole, scan_cons, hc] at hback
      cases hback
    | inside d =>
      rw [hs] at hwhole
      have hq' : Balanced (q' ++ [c]) := hq
      have hstart : Opposite (.outside 0) (.inside d) := trivial
      have hopposite := hstart.scan q'
      rw [hwhole] at hopposite
      rw [Balanced, scan_append, scan_cons, hc, scan_nil] at hq'
      cases hstate : scan (.outside 0) q' with
      | outside e =>
        rw [hstate] at hopposite
        exact hopposite
      | inside e =>
        rw [hstate] at hq'
        cases hq'
      | escaped e =>
        rw [hstate] at hq'
        cases hq'
      | stuck =>
        rw [hstate] at hq'
        cases hq'

end LendingClaw.Lib

/-
LendingClaw.Ui.ProfitLoss — a series cut where it changes sign
(`splitProfitLossSegments` of `ui/web/src/lib/profit-loss-segments.ts`).

A segment is closed between two adjacent rows of opposite sign, with an
interpolated row at zero that begins the next one; a series that reaches
zero in a row of its own is not cut there. The rows of the segments are
the stretches of the series without such a pair (`covers_stretches`). They
have one sign each exactly if no stretch holds both
(`splitsAtZero_iff`).
-/
import LendingClaw.Ui.SankeyData
import Mathlib.Algebra.Order.Field.Rat
import Mathlib.Data.List.SplitBy
import Mathlib.Tactic.Positivity

namespace LendingClaw.Ui

open LendingClaw.Lib LendingClaw.Lib.JsValue

inductive SegmentSign where
  | positive
  | negative
  deriving DecidableEq

structure ProfitLossSegment where
  data : List Record
  isPositive : Bool

/-- The time of a date. -/
structure Time where
  val : Int
  ge : -JsNumber.maxTime ≤ val
  le : val ≤ JsNumber.maxTime

/-- `typeof row[dataKey] === "number"`, and the number. -/
def numberAt (dataKey : String) (row : Record) : Option JsNumber :=
  match get row dataKey with
  | .num value => some value
  | _ => none

def resolveSign (value : JsNumber) (fallback : SegmentSign) : SegmentSign :=
  if value.positive then .positive else if value.negative then .negative else fallback

section

variable (dataKey xDataKey : String) (xAccessor : Record → Option Time)

def findInitialSign : List Record → SegmentSign
  | [] => .positive
  | row :: data =>
    match numberAt dataKey row with
    | none => findInitialSign data
    | some value =>
      if value.positive then .positive
      else if value.negative then .negative
      else findInitialSign data

/-- `xAccessor(row).getTime()`. -/
def getTime (row : Record) : JsNumber :=
  (xAccessor row).elim .nan fun time => .finite time.val

/-- The time of the point at zero between two rows with numbers. -/
def crossDate (a b : Record) (ya yb : JsNumber) : Option Int :=
  let t := ya.div (ya.sub yb)
  let start := getTime xAccessor a
  let stop := getTime xAccessor b
  JsNumber.newDate (start.add (t.mul (stop.sub start)))

/-- `{ ...a, [xDataKey]: crossDate, [dataKey]: 0 }`. -/
def interpolateZeroCrossing (a b : Record) (ya yb : JsNumber) : Record :=
  set dataKey (.num (.finite 0)) (set xDataKey (.date (crossDate xAccessor a b ya yb)) a)

/-- The condition of the loop under which a segment ends between two
rows. -/
def crossing (a b : Record) : Option (JsNumber × JsNumber) :=
  match numberAt dataKey a, numberAt dataKey b with
  | some ya, some yb =>
    if !ya.strictEq (.finite 0) && !yb.strictEq (.finite 0) && !ya.sign.strictEq yb.sign then
      some (ya, yb)
    else none
  | _, _ => none

/-- The sign after a row that is appended. -/
def signAfter (currentSign : SegmentSign) (b : Record) : SegmentSign :=
  match numberAt dataKey b with
  | some yb => if !yb.strictEq (.finite 0) then resolveSign yb currentSign else currentSign
  | none => currentSign

/-- The loop, from a row `a` that is already in the segment, and the
segment that is left at its end. Rows are objects, so the guards against
missing ones never apply. -/
def splitLoop (currentSign : SegmentSign) (currentSegment : List Record) (a : Record) :
    List Record → List ProfitLossSegment
  | [] => [{ data := currentSegment, isPositive := currentSign = .positive }]
  | b :: rest =>
    match crossing dataKey a b with
    | some (ya, yb) =>
      let cross := interpolateZeroCrossing dataKey xDataKey xAccessor a b ya yb
      { data := currentSegment ++ [cross], isPositive := currentSign = .positive }
        :: splitLoop (resolveSign yb currentSign) [cross, b] b rest
    | none => splitLoop (signAfter dataKey currentSign b) (currentSegment ++ [b]) b rest

def splitProfitLossSegments : List Record → List ProfitLossSegment
  | [] => []
  | firstPoint :: rest =>
    splitLoop dataKey xDataKey xAccessor (findInitialSign dataKey (firstPoint :: rest)) [firstPoint]
      firstPoint rest

/-! ## The segments -/

/-- Between two times, in either order. -/
def Between (a time b : Int) : Prop := (a ≤ time ∧ time ≤ b) ∨ (b ≤ time ∧ time ≤ a)

/-- The last row of a segment is the first of the next: a point at zero,
on the axis between the rows beside it, where these have a place there. -/
def Meets (s t : ProfitLossSegment) : Prop :=
  ∃ before a cross b after, s.data = before ++ [a, cross] ∧ t.data = cross :: b :: after
    ∧ get cross dataKey = .num (.finite 0)
    ∧ ∀ start stop, xAccessor a = some start → xAccessor b = some stop →
      ∃ time, get cross xDataKey = .date (some time) ∧ Between start.val time stop.val

/-- The rows of segments, from one that begins with a point of its
predecessor. -/
def rowsAfter : List ProfitLossSegment → List Record
  | [] => []
  | [s] => s.data.tail
  | s :: t :: segments => s.data.tail.dropLast ++ rowsAfter (t :: segments)

/-- The rows of the segments, without the points where they meet. -/
def inputRows : List ProfitLossSegment → List Record
  | [] => []
  | [s] => s.data
  | s :: t :: segments => s.data.dropLast ++ rowsAfter (t :: segments)

/-- A value on the other side of zero. -/
def against (sign : SegmentSign) (row : Record) : Bool :=
  match sign with
  | .positive => (numberAt dataKey row).any JsNumber.negative
  | .negative => (numberAt dataKey row).any JsNumber.positive

/-- No value below zero in a segment that is marked positive, none above
it in any other. -/
def Signed (s : ProfitLossSegment) : Prop :=
  ∀ row ∈ s.data, against dataKey (if s.isPositive then .positive else .negative) row = false

structure SplitsAtZero (data : List Record) : Prop where
  signs : ∀ s ∈ splitProfitLossSegments dataKey xDataKey xAccessor data, Signed dataKey s
  meets : (splitProfitLossSegments dataKey xDataKey xAccessor data).IsChain
    (Meets dataKey xDataKey xAccessor)
  rows : inputRows (splitProfitLossSegments dataKey xDataKey xAccessor data) = data

/-- Not both a value above and one below zero. -/
def OneSigned (rows : List Record) : Prop := ∃ sign, ∀ row ∈ rows, against dataKey sign row = false

/-- Adjacent rows that are not cut apart. -/
def together (a b : Record) : Bool := (crossing dataKey a b).isNone

/-- The point at zero can be computed: the values are numbers, the first
is finite, and the date is not overwritten. -/
def Placed (a b : Record) : Prop :=
  ∀ ya yb, crossing dataKey a b = some (ya, yb) → (xAccessor a).isSome → (xAccessor b).isSome →
    dataKey ≠ xDataKey ∧ (∃ value, ya = .finite value) ∧ yb ≠ .nan

/-! ## The rows -/

theorem splitLoop_ne_nil (sign : SegmentSign) (current : List Record) (a : Record)
    (rest : List Record) : splitLoop dataKey xDataKey xAccessor sign current a rest ≠ [] := by
  induction rest generalizing sign current a with
  | nil => exact List.cons_ne_nil _ _
  | cons b rest ih =>
    unfold splitLoop
    split
    · exact List.cons_ne_nil _ _
    · exact ih _ _ _

theorem rowsAfter_cons (s : ProfitLossSegment) {segments : List ProfitLossSegment}
    (h : segments ≠ []) :
    rowsAfter (s :: segments) = s.data.tail.dropLast ++ rowsAfter segments := by
  cases segments with
  | nil => exact absurd rfl h
  | cons t segments => rfl

theorem inputRows_cons (s : ProfitLossSegment) {segments : List ProfitLossSegment}
    (h : segments ≠ []) :
    inputRows (s :: segments) = s.data.dropLast ++ rowsAfter segments := by
  cases segments with
  | nil => exact absurd rfl h
  | cons t segments => rfl

theorem rowsAfter_splitLoop (sign : SegmentSign) (joint : Record) (current : List Record)
    (a : Record) (rest : List Record) :
    rowsAfter (splitLoop dataKey xDataKey xAccessor sign (joint :: current) a rest)
      = current ++ rest := by
  induction rest generalizing sign joint current a with
  | nil => simp [splitLoop, rowsAfter]
  | cons b rest ih =>
    unfold splitLoop
    split
    · rw [rowsAfter_cons _ (splitLoop_ne_nil _ _ _ _ _ _ _), ih]
      simp
    · rw [List.cons_append, ih]
      simp

theorem inputRows_splitLoop (sign : SegmentSign) (current : List Record) (a : Record)
    (rest : List Record) :
    inputRows (splitLoop dataKey xDataKey xAccessor sign current a rest) = current ++ rest := by
  induction rest generalizing sign current a with
  | nil => simp [splitLoop, inputRows]
  | cons b rest ih =>
    unfold splitLoop
    split
    · rw [inputRows_cons _ (splitLoop_ne_nil _ _ _ _ _ _ _), rowsAfter_splitLoop]
      simp
    · rw [ih]
      simp

/-- The rows are those of the input, in their order. -/
theorem inputRows_split (data : List Record) :
    inputRows (splitProfitLossSegments dataKey xDataKey xAccessor data) = data := by
  cases data with
  | nil => rfl
  | cons firstPoint rest => exact inputRows_splitLoop _ _ _ _ _ _ _

/-! ## The points at zero -/

theorem crossing_eq_some {a b : Record} {ya yb : JsNumber}
    (h : crossing dataKey a b = some (ya, yb)) :
    ya.strictEq (.finite 0) = false ∧ yb.strictEq (.finite 0) = false
      ∧ ya.sign.strictEq yb.sign = false := by
  unfold crossing at h
  split at h
  · split at h
    · rename_i hcond
      cases h
      simpa [and_assoc] using hcond
    · cases h
  · cases h

theorem div_mem {p q : ℚ} (hp : p ≠ 0) (hq : q ≠ 0)
    (hsign : (JsNumber.finite p).sign.strictEq (JsNumber.finite q).sign = false) :
    p - q ≠ 0 ∧ 0 ≤ p / (p - q) ∧ p / (p - q) ≤ 1 := by
  have hopposite : (0 < p ∧ q < 0) ∨ (p < 0 ∧ 0 < q) := by
    rcases lt_or_gt_of_ne hp with hp | hp <;> rcases lt_or_gt_of_ne hq with hq | hq
    · simp [JsNumber.sign, JsNumber.strictEq, hp, hq, hp.le.not_gt, hq.le.not_gt] at hsign
    · exact .inr ⟨hp, hq⟩
    · exact .inl ⟨hp, hq⟩
    · simp [JsNumber.sign, JsNumber.strictEq, hp, hq] at hsign
  rcases hopposite with ⟨hp, hq⟩ | ⟨hp, hq⟩
  · have hpos : 0 < p - q := by linarith
    exact ⟨hpos.ne', by positivity, (div_le_one hpos).mpr (by linarith)⟩
  · have hneg : p - q < 0 := by linarith
    exact ⟨hneg.ne, div_nonneg_of_nonpos hp.le hneg.le, (div_le_one_of_neg hneg).mpr (by linarith)⟩

/-- A date on the way from one time to another. -/
theorem newDate_between (start stop : Time) {t : ℚ} (h0 : 0 ≤ t) (h1 : t ≤ 1) :
    ∃ time, JsNumber.newDate (.finite (start.val + t * (stop.val - start.val))) = some time
      ∧ Between start.val time stop.val := by
  rcases le_total start.val stop.val with hle | hle
  · have hcast : (start.val : ℚ) ≤ stop.val := by exact_mod_cast hle
    have hlow : (start.val : ℚ) ≤ start.val + t * (stop.val - start.val) := by nlinarith
    have hhigh : start.val + t * (stop.val - start.val) ≤ (stop.val : ℚ) := by nlinarith
    obtain ⟨time, htime, hmem⟩ := JsNumber.newDate_mem start.ge stop.le hlow hhigh
    exact ⟨time, htime, .inl hmem⟩
  · have hcast : (stop.val : ℚ) ≤ start.val := by exact_mod_cast hle
    have hlow : (stop.val : ℚ) ≤ start.val + t * (stop.val - start.val) := by nlinarith
    have hhigh : start.val + t * (stop.val - start.val) ≤ (start.val : ℚ) := by nlinarith
    obtain ⟨time, htime, hmem⟩ := JsNumber.newDate_mem stop.ge start.le hlow hhigh
    exact ⟨time, htime, .inr hmem⟩

/-- With a finite value first, the point at zero has a date between those
of its neighbours. -/
theorem crossDate_between {a b : Record} {p : ℚ} {yb : JsNumber} (hnan : yb ≠ .nan)
    (h : crossing dataKey a b = some (.finite p, yb)) {start stop : Time}
    (hstart : xAccessor a = some start) (hstop : xAccessor b = some stop) :
    ∃ time, crossDate xAccessor a b (.finite p) yb = some time
      ∧ Between start.val time stop.val := by
  obtain ⟨hp, hq, hsign⟩ := crossing_eq_some dataKey h
  have hp : p ≠ 0 := by simpa [JsNumber.strictEq] using hp
  simp only [crossDate, getTime, hstart, hstop, Option.elim_some]
  cases yb with
  | nan => exact absurd rfl hnan
  | infinite negative =>
    simpa [JsNumber.sub, JsNumber.div, JsNumber.mul, JsNumber.add]
      using newDate_between start stop (le_refl 0) zero_le_one
  | finite q =>
    have hq : q ≠ 0 := by simpa [JsNumber.strictEq] using hq
    obtain ⟨hne, h0, h1⟩ := div_mem hp hq hsign
    simpa [JsNumber.sub, JsNumber.div, JsNumber.mul, JsNumber.add, hne]
      using newDate_between start stop h0 h1

/-- Any other number makes the date invalid. -/
theorem crossDate_none {a b : Record} {ya yb : JsNumber}
    (h : (∀ value, ya ≠ .finite value) ∨ yb = .nan) :
    crossDate xAccessor a b ya yb = none := by
  have hdiv : ya.div (ya.sub yb) = .nan := by
    cases ya with
    | nan => rfl
    | infinite s =>
      cases yb with
      | nan => rfl
      | infinite s' => cases s <;> cases s' <;> rfl
      | finite q => cases s <;> rfl
    | finite p =>
      rcases h with h | rfl
      · exact absurd rfl (h p)
      · rfl
  have hmul : ∀ x, JsNumber.mul .nan x = .nan := fun x => by cases x <;> rfl
  have hadd : ∀ x, JsNumber.add x .nan = .nan := fun x => by cases x <;> rfl
  simp only [crossDate, hdiv, hmul, hadd]
  rfl

theorem interpolate_value (a b : Record) (ya yb : JsNumber) :
    get (interpolateZeroCrossing dataKey xDataKey xAccessor a b ya yb) dataKey
      = .num (.finite 0) := by
  simp [interpolateZeroCrossing, get_set]

theorem interpolate_date (a b : Record) (ya yb : JsNumber) :
    get (interpolateZeroCrossing dataKey xDataKey xAccessor a b ya yb) xDataKey
      = if dataKey = xDataKey then .num (.finite 0) else .date (crossDate xAccessor a b ya yb) := by
  by_cases h : dataKey = xDataKey
  · simp [interpolateZeroCrossing, get_set, h]
  · simp [interpolateZeroCrossing, get_set, h, Ne.symm h]

/-- The point at zero has its place exactly if it can be computed. -/
theorem placed_iff {a b : Record} {ya yb : JsNumber}
    (h : crossing dataKey a b = some (ya, yb)) :
    Placed dataKey xDataKey xAccessor a b
      ↔ ∀ start stop, xAccessor a = some start → xAccessor b = some stop →
        ∃ time, get (interpolateZeroCrossing dataKey xDataKey xAccessor a b ya yb) xDataKey
            = .date (some time) ∧ Between start.val time stop.val := by
  rw [interpolate_date]
  constructor
  · intro hplaced start stop hstart hstop
    obtain ⟨hkey, ⟨p, rfl⟩, hnan⟩ := hplaced ya yb h (by simp [hstart]) (by simp [hstop])
    obtain ⟨time, htime, hbetween⟩ := crossDate_between dataKey xAccessor hnan h hstart hstop
    exact ⟨time, by rw [if_neg hkey, htime], hbetween⟩
  · intro hdate ya' yb' h' hstart hstop
    obtain ⟨rfl, rfl⟩ : ya = ya' ∧ yb = yb' := by simpa [h] using h'
    obtain ⟨start, hstart⟩ := Option.isSome_iff_exists.mp hstart
    obtain ⟨stop, hstop⟩ := Option.isSome_iff_exists.mp hstop
    obtain ⟨time, htime, -⟩ := hdate start stop hstart hstop
    by_cases hkey : dataKey = xDataKey
    · simp [hkey] at htime
    rw [if_neg hkey] at htime
    by_contra hbad
    have hnone : crossDate xAccessor a b ya yb = none := by
      refine crossDate_none xAccessor ?_
      by_cases hnan : yb = .nan
      · exact .inr hnan
      · exact .inl fun value hvalue => hbad ⟨hkey, ⟨value, hvalue⟩, hnan⟩
    simp [hnone] at htime

theorem splitLoop_data (sign : SegmentSign) (current : List Record) (a : Record)
    (rest : List Record) :
    ∃ s segments after, splitLoop dataKey xDataKey xAccessor sign current a rest = s :: segments
      ∧ s.data = current ++ after := by
  induction rest generalizing sign current a with
  | nil => exact ⟨_, [], [], rfl, (List.append_nil _).symm⟩
  | cons b rest ih =>
    unfold splitLoop
    split
    · exact ⟨_, _, _, rfl, rfl⟩
    · obtain ⟨s, segments, after, hloop, hdata⟩ := ih (signAfter dataKey sign b) (current ++ [b]) b
      exact ⟨s, segments, b :: after, hloop, by simp [hdata]⟩

/-- Two segments meet where the rows beside the cut allow it. -/
theorem meets_iff {before : List Record} {a b : Record} {ya yb : JsNumber}
    (h : crossing dataKey a b = some (ya, yb)) {s t : ProfitLossSegment} {after : List Record}
    (hs : s.data = before ++ [a] ++ [interpolateZeroCrossing dataKey xDataKey xAccessor a b ya yb])
    (ht : t.data = [interpolateZeroCrossing dataKey xDataKey xAccessor a b ya yb, b] ++ after) :
    Meets dataKey xDataKey xAccessor s t ↔ Placed dataKey xDataKey xAccessor a b := by
  rw [placed_iff dataKey xDataKey xAccessor h]
  constructor
  · rintro ⟨before', a', cross, b', after', hs', ht', -, hbetween⟩
    rw [hs, List.append_assoc] at hs'
    rw [ht] at ht'
    obtain ⟨-, ha⟩ := List.append_inj' hs' rfl
    obtain ⟨rfl, rfl⟩ : a = a' ∧ _ = cross := by simpa using ha
    obtain ⟨rfl, -⟩ : b = b' ∧ _ := by simpa using ht'
    exact hbetween
  · intro hbetween
    exact ⟨before, a, _, b, after, by simpa using hs, by simpa using ht, interpolate_value ..,
      hbetween⟩

theorem isChain_meets_splitLoop (sign : SegmentSign) (before : List Record) (a : Record)
    (rest : List Record) :
    (splitLoop dataKey xDataKey xAccessor sign (before ++ [a]) a rest).IsChain
        (Meets dataKey xDataKey xAccessor)
      ↔ (a :: rest).IsChain (Placed dataKey xDataKey xAccessor) := by
  induction rest generalizing sign before a with
  | nil => simp [splitLoop]
  | cons b rest ih =>
    rw [List.isChain_cons_cons]
    unfold splitLoop
    split
    · rename_i ya yb hcross
      have ih := ih (resolveSign yb sign)
        [interpolateZeroCrossing dataKey xDataKey xAccessor a b ya yb] b
      obtain ⟨t, segments, after, hloop, hdata⟩ := splitLoop_data dataKey xDataKey xAccessor
        (resolveSign yb sign) [interpolateZeroCrossing dataKey xDataKey xAccessor a b ya yb, b] b rest
      rw [List.singleton_append, hloop] at ih
      dsimp only
      rw [hloop, List.isChain_cons_cons, ih, meets_iff _ _ _ hcross rfl hdata]
    · rename_i hcross
      have hplaced : Placed dataKey xDataKey xAccessor a b := by
        intro ya yb h
        simp [hcross] at h
      rw [ih, and_iff_right hplaced]

/-- The segments meet exactly if every point at zero can be computed. -/
theorem isChain_meets_split (data : List Record) :
    (splitProfitLossSegments dataKey xDataKey xAccessor data).IsChain
        (Meets dataKey xDataKey xAccessor)
      ↔ data.IsChain (Placed dataKey xDataKey xAccessor) := by
  cases data with
  | nil => simp [splitProfitLossSegments]
  | cons firstPoint rest =>
    exact isChain_meets_splitLoop dataKey xDataKey xAccessor _ [] firstPoint rest

/-! ## The signs -/

/-- The sign after the last of the rows that has one. -/
def lastSign (fallback : SegmentSign) (rows : List Record) : SegmentSign :=
  rows.foldl (signAfter dataKey) fallback

/-- A segment holds a stretch, beside it only points at zero, and the sign
that the stretch ends with. -/
def Covers (s : ProfitLossSegment) (stretch : List Record) : Prop :=
  (∀ row ∈ stretch, row ∈ s.data)
    ∧ (∀ row ∈ s.data, row ∈ stretch ∨ get row dataKey = .num (.finite 0))
    ∧ ∃ fallback, s.isPositive = (lastSign dataKey fallback stretch = .positive : Bool)

theorem signAfter_of_crossing {a b : Record} {ya yb : JsNumber}
    (h : crossing dataKey a b = some (ya, yb)) (sign : SegmentSign) :
    signAfter dataKey sign b = resolveSign yb sign := by
  have hzero := (crossing_eq_some dataKey h).2.1
  unfold crossing at h
  split at h
  · rename_i hb
    split at h
    · cases h
      simp [signAfter, hb, hzero]
    · cases h
  · cases h

theorem together_eq_false {a b : Record} {ya yb : JsNumber}
    (h : crossing dataKey a b = some (ya, yb)) : together dataKey a b = false := by
  simp [together, h]

/-- The loop closes a segment at the end of every stretch. -/
theorem covers_splitLoop (sign fallback : SegmentSign) (joints before : List Record) (a : Record)
    (rest : List Record) (hjoints : ∀ row ∈ joints, get row dataKey = .num (.finite 0))
    (hchain : (before ++ [a]).IsChain fun x y => together dataKey x y)
    (hsign : sign = lastSign dataKey fallback (before ++ [a])) :
    List.Forall₂ (Covers dataKey)
      (splitLoop dataKey xDataKey xAccessor sign (joints ++ (before ++ [a])) a rest)
      ((before ++ [a] ++ rest).splitBy (together dataKey)) := by
  induction rest generalizing sign fallback joints before a with
  | nil =>
    rw [List.append_nil, List.splitBy_of_isChain (by simp) hchain]
    refine .cons ⟨fun row hrow => List.mem_append_right _ hrow, fun row hrow => ?_,
      fallback, by rw [hsign]⟩ .nil
    exact (List.mem_append.mp hrow).symm.imp_right (hjoints row)
  | cons b rest ih =>
    unfold splitLoop
    split
    · rename_i ya yb hcross
      rw [List.splitBy_append_cons _ (by simpa using together_eq_false dataKey hcross),
        List.splitBy_of_isChain (by simp) hchain]
      refine .cons ⟨fun row hrow => ?_, fun row hrow => ?_, fallback, by rw [hsign]⟩ ?_
      · exact List.mem_append_left _ (List.mem_append_right _ hrow)
      · rcases List.mem_append.mp hrow with hrow | hrow
        · exact (List.mem_append.mp hrow).symm.imp_right (hjoints row)
        · rw [List.mem_singleton.mp hrow]
          exact .inr (interpolate_value ..)
      · refine ih (resolveSign yb sign) sign [_] [] b ?_ (by simp) ?_
        · simpa using interpolate_value ..
        · simp [lastSign, signAfter_of_crossing dataKey hcross]
    · rename_i hcross
      have htogether : together dataKey a b = true := by simp [together, hcross]
      have hchain : (before ++ [a] ++ [b]).IsChain fun x y => together dataKey x y :=
        hchain.append (List.isChain_singleton b) (by simpa using htogether)
      have ih := ih (signAfter dataKey sign b) fallback joints (before ++ [a]) b hjoints hchain
        (by rw [hsign]; simp [lastSign])
      simpa using ih

theorem resolveSign_of_zero {value : JsNumber} (h : value.strictEq (.finite 0) = true)
    (sign : SegmentSign) : resolveSign value sign = sign := by
  cases value with
  | nan => rfl
  | infinite s => simp [JsNumber.strictEq] at h
  | finite q =>
    obtain rfl : q = 0 := by simpa [JsNumber.strictEq] using h
    rfl

/-- A value of zero would not change the sign either. -/
theorem signAfter_eq (sign : SegmentSign) (b : Record) :
    signAfter dataKey sign b = (numberAt dataKey b).elim sign fun yb => resolveSign yb sign := by
  unfold signAfter
  cases numberAt dataKey b with
  | none => rfl
  | some yb =>
    by_cases h : yb.strictEq (.finite 0) = true
    · simp [h, resolveSign_of_zero h]
    · simp [h]

theorem signAfter_findInitialSign (row : Record) (rest : List Record) :
    signAfter dataKey (findInitialSign dataKey (row :: rest)) row
      = findInitialSign dataKey (row :: rest) := by
  rw [signAfter_eq]
  unfold findInitialSign
  cases numberAt dataKey row with
  | none => rfl
  | some value => cases hpos : value.positive <;> cases hneg : value.negative <;>
      simp [resolveSign, hpos, hneg]

/-- The segments are the maximal stretches of rows that are not cut
apart. -/
theorem covers_stretches (data : List Record) :
    List.Forall₂ (Covers dataKey) (splitProfitLossSegments dataKey xDataKey xAccessor data)
      (data.splitBy (together dataKey)) := by
  cases data with
  | nil => exact .nil
  | cons firstPoint rest =>
    refine covers_splitLoop dataKey xDataKey xAccessor _ (findInitialSign dataKey (firstPoint :: rest))
      [] [] firstPoint rest (by simp) (by simp) ?_
    exact (signAfter_findInitialSign dataKey firstPoint rest).symm

/-- Only a value on the other side turns the sign. -/
theorem signAfter_against {fallback sign : SegmentSign} {row : Record}
    (h : against dataKey sign row = false) (hne : signAfter dataKey fallback row ≠ sign) :
    fallback = signAfter dataKey fallback row
      ∧ against dataKey (signAfter dataKey fallback row) row = false := by
  rw [signAfter_eq] at hne ⊢
  cases hvalue : numberAt dataKey row with
  | none => cases fallback <;> simp [against, hvalue]
  | some value =>
    cases hpos : value.positive <;> cases hneg : value.negative <;> cases sign <;> cases fallback <;>
      simp_all [against, resolveSign]

theorem lastSign_against {sign : SegmentSign} {rows : List Record}
    (h : ∀ row ∈ rows, against dataKey sign row = false) (fallback : SegmentSign)
    (hne : lastSign dataKey fallback rows ≠ sign) :
    fallback = lastSign dataKey fallback rows
      ∧ ∀ row ∈ rows, against dataKey (lastSign dataKey fallback rows) row = false := by
  induction rows generalizing fallback with
  | nil => simp [lastSign]
  | cons row rows ih =>
    obtain ⟨hhead, htail⟩ := List.forall_mem_cons.mp h
    obtain ⟨hlast, hrows⟩ := ih htail (signAfter dataKey fallback row) hne
    have hturn : signAfter dataKey fallback row ≠ sign := hlast ▸ hne
    have hstep := signAfter_against dataKey hhead hturn
    rw [hlast] at hstep
    exact ⟨hstep.1, List.forall_mem_cons.mpr ⟨hstep.2, hrows⟩⟩

/-- A stretch of one sign ends with it. -/
theorem OneSigned.last {rows : List Record} (h : OneSigned dataKey rows) (fallback : SegmentSign) :
    ∀ row ∈ rows, against dataKey (lastSign dataKey fallback rows) row = false := by
  obtain ⟨sign, h⟩ := h
  by_cases hne : lastSign dataKey fallback rows = sign
  · rwa [hne]
  · exact (lastSign_against dataKey h fallback hne).2

theorem against_zero {sign : SegmentSign} {row : Record}
    (h : get row dataKey = .num (.finite 0)) : against dataKey sign row = false := by
  cases sign <;> simp [against, numberAt, h, JsNumber.negative, JsNumber.positive]

theorem signed_iff {s : ProfitLossSegment} {stretch : List Record} (h : Covers dataKey s stretch) :
    Signed dataKey s ↔ OneSigned dataKey stretch := by
  obtain ⟨hin, hout, fallback, hmark⟩ := h
  have hsign : (if s.isPositive then SegmentSign.positive else .negative)
      = lastSign dataKey fallback stretch := by
    rw [hmark]
    cases lastSign dataKey fallback stretch <;> rfl
  unfold Signed
  rw [hsign]
  constructor
  · exact fun hsigned => ⟨_, fun row hrow => hsigned row (hin row hrow)⟩
  · intro hone row hrow
    exact (hout row hrow).elim (hone.last dataKey fallback row) (against_zero dataKey)

theorem signs_iff (data : List Record) :
    (∀ s ∈ splitProfitLossSegments dataKey xDataKey xAccessor data, Signed dataKey s)
      ↔ ∀ stretch ∈ data.splitBy (together dataKey), OneSigned dataKey stretch := by
  have hcovers := covers_stretches dataKey xDataKey xAccessor data
  generalize splitProfitLossSegments dataKey xDataKey xAccessor data = segments at hcovers ⊢
  generalize data.splitBy (together dataKey) = stretches at hcovers ⊢
  induction hcovers with
  | nil => simp
  | cons hhead _ ih => simp [signed_iff dataKey hhead, ih]

/-- Adjacent elements that keep together lie in one of the lists. -/
theorem exists_mem_splitBy {α : Type} {r : α → α → Bool} {lists : List (List α)}
    (hbreak : lists.IsChain fun a b => ∃ ha hb, r (a.getLast ha) (b.head hb) = false)
    {run : List α} (hne : run ≠ []) (hrun : run.IsChain fun x y => r x y)
    (h : run <:+: lists.flatten) : ∃ l ∈ lists, run <:+: l := by
  induction lists with
  | nil => exact absurd (List.infix_nil.mp h) hne
  | cons l lists ih =>
    rw [List.flatten_cons, List.infix_append_iff_ne_nil] at h
    rcases h with h | h | ⟨left, right, hleft, hright, rfl, hsuffix, hprefixes⟩
    · exact ⟨l, List.mem_cons_self, h⟩
    · obtain ⟨l', hl', hin⟩ := ih hbreak.tail h
      exact ⟨l', List.mem_cons_of_mem l hl', hin⟩
    · cases lists with
      | nil => exact absurd (List.prefix_nil.mp hprefixes) hright
      | cons l' lists =>
        obtain ⟨hl, hl', hcut⟩ := (List.isChain_cons_cons.mp hbreak).1
        have hlast : left.getLast hleft = l.getLast hl := hsuffix.getLast hleft
        have hhead : right.head hright = l'.head hl' := by
          rw [hprefixes.head hright]
          exact List.head_append_of_ne_nil hl'
        have hrel := hrun.rel_getLast_head_of_append hleft hright
        rw [hlast, hhead, hcut] at hrel
        cases hrel

/-- Rows that are adjacent in the series and not cut apart have no two
values of opposite sign. -/
def SignsApart (data : List Record) : Prop :=
  ∀ run, run <:+: data → (run.IsChain fun a b => crossing dataKey a b = none) →
    OneSigned dataKey run

theorem signsApart_iff (data : List Record) :
    SignsApart dataKey data ↔ ∀ stretch ∈ data.splitBy (together dataKey), OneSigned dataKey stretch := by
  have htogether : ∀ a b, together dataKey a b = true ↔ crossing dataKey a b = none :=
    fun a b => Option.isNone_iff_eq_none
  constructor
  · intro h stretch hmem
    refine h stretch ?_ ?_
    · have hin := List.infix_of_mem_flatten hmem
      rwa [List.flatten_splitBy] at hin
    · simpa only [htogether] using List.isChain_of_mem_splitBy hmem
  · intro h run hrun hchain
    by_cases hne : run = []
    · exact ⟨.positive, by simp [hne]⟩
    · rw [← List.flatten_splitBy (together dataKey) data] at hrun
      simp only [← htogether] at hchain
      obtain ⟨stretch, hmem, hin⟩ := exists_mem_splitBy
        (List.isChain_getLast_head_splitBy (together dataKey) data) hne hchain hrun
      obtain ⟨sign, hsign⟩ := h stretch hmem
      exact ⟨sign, fun row hrow => hsign row (hin.mem hrow)⟩

end

/-- The date of a row. -/
def dateAccessor (row : Record) : Option Time :=
  match get row "date" with
  | .date (some time) =>
    if h : -JsNumber.maxTime ≤ time ∧ (time : ℚ) ≤ JsNumber.maxTime then some ⟨time, h.1, h.2⟩
    else none
  | _ => none

def dayRow (day : Int) (value : ℚ) : Record :=
  [("date", .date (some (day * 86400000))), ("value", .num (.finite value))]

/-- A value at zero between one above and one below it. -/
def throughZero : List Record := [dayRow 0 5, dayRow 1 0, dayRow 2 (-3)]

end LendingClaw.Ui

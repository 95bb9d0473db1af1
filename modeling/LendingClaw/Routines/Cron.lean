/-
LendingClaw.Routines.Cron — what an accepted schedule runs like
(`Service.validate`, with the standard meaning of a cron expression).

The validation looks at the first two times after the moment of the
request. They are an hour apart also when an expression with several
minutes is about to leave the last hour it allows, so the law holds
exactly for expressions with one minute, or whose other fields allow
every hour or none (`respects_iff`).
-/
import LendingClaw.Lib.Calendar
import LendingClaw.Routines.Service
import Mathlib.Data.Finset.Dedup
import Mathlib.Data.Finset.Max
import Mathlib.Data.Int.LeastGreatest

namespace LendingClaw.Routines

open LendingClaw.Store LendingClaw.Lib

/-! ## Cron expressions -/

/-- The values of one field, and whether it was written as a star. -/
structure Field (low high : Nat) where
  values : List Nat
  star : Bool
  bounded : ∀ v ∈ values, low ≤ v ∧ v ≤ high

def Field.allows {low high : Nat} (f : Field low high) (n : Int) : Bool :=
  f.values.any fun (v : Nat) => (v : Int) = n

structure SpecSchedule where
  minute : Field 0 59
  hour : Field 0 23
  dom : Field 1 31
  month : Field 1 12
  dow : Field 0 6

namespace SpecSchedule

/-- A day of the month or of the week is enough if neither field is a
star. -/
def dayMatches (s : SpecSchedule) (day : Int) : Bool :=
  let domMatch := s.dom.allows (Calendar.dayOfMonth day)
  let dowMatch := s.dow.allows (Calendar.weekday day)
  if s.dom.star || s.dow.star then domMatch && dowMatch else domMatch || dowMatch

/-- The other four fields allow an hour, counted from 1970. -/
def allowsHour (s : SpecSchedule) (h : Int) : Bool :=
  s.hour.allows (h % 24) && s.month.allows (Calendar.month (h / 24)) && s.dayMatches (h / 24)

/-- A time that a clock shows, in nanoseconds. -/
def allowsTime (s : SpecSchedule) (time : Int) : Prop :=
  ∃ h : Int, ∃ m ∈ s.minute.values, s.allowsHour h = true
    ∧ time = Routines.hour * h + 60000000000 * m

/-- The minute field denotes one minute. -/
def OneMinute (s : SpecSchedule) : Prop := ∀ m ∈ s.minute.values, ∀ m' ∈ s.minute.values, m = m'

end SpecSchedule

/-- The schedule fires at an instant, by a clock. -/
def Fires (clock : Clock) (s : SpecSchedule) (t : Int) : Prop := s.allowsTime (clock.shows t)

/-- Two firing times with none between them are an hour apart. -/
def Spaced (clock : Clock) (s : SpecSchedule) : Prop :=
  ∀ a b, Fires clock s a → Fires clock s b → a < b → (∀ t, a < t → t < b → ¬ Fires clock s t) →
    hour ≤ b - a

/-- The documented behaviour of the library, on a server whose clock is
not changed: `Next` is the least matching time after its argument. -/
structure Standard (cron : CronLib SpecSchedule) (offset : Int) : Prop where
  empty : ∀ s, cron.parse "" ≠ .ok s
  next : ∀ s t u, cron.next s t = some u ↔ IsLeast {v | t < v ∧ Fires (Clock.fixed offset) s v} u

/-- Whenever a routine with the expression is accepted, its schedule is
spaced in its time zone. -/
def Respects (cron : CronLib SpecSchedule) (zones : String → Clock) (c tz : String) : Prop :=
  ∀ (now : Int) (r : Routine), r.scheduleCron = some c → r.scheduleTZ = tz →
    validate cron now r = none → ∀ s, cron.parse c = .ok s → Spaced (zones tz) s

/-- The clock shows one allowed minute twice within an hour. -/
def Repeats (clock : Clock) (s : SpecSchedule) : Prop :=
  ∃ a b h h' : Int, ∃ m ∈ s.minute.values, a < b ∧ b - a < hour
    ∧ s.allowsHour h = true ∧ s.allowsHour h' = true
    ∧ clock.shows a = hour * h + 60000000000 * m ∧ clock.shows b = hour * h' + 60000000000 * m

/-- No hour is allowed, or there is one minute that the clock does not
repeat, or there are several minutes and every hour is allowed. -/
def Hourly (clock : Clock) (s : SpecSchedule) : Prop :=
  (∀ h, s.allowsHour h = false) ∨ (s.OneMinute ∧ ¬ Repeats clock s)
    ∨ (¬ s.OneMinute ∧ ∀ h, s.allowsHour h = true)

/-! ## Hours -/

theorem allowsHour_add_cycle (s : SpecSchedule) (h k : Int) :
    s.allowsHour (h + Calendar.cycle * 24 * k) = s.allowsHour h := by
  have hday : (h + Calendar.cycle * 24 * k) / 24 = h / 24 + Calendar.cycle * k := by
    unfold Calendar.cycle
    omega
  have hhour : (h + Calendar.cycle * 24 * k) % 24 = h % 24 := by
    unfold Calendar.cycle
    omega
  simp [SpecSchedule.allowsHour, SpecSchedule.dayMatches, hday, hhour]

/-- An hour that is allowed, before one that is not. -/
theorem exists_last_hour {s : SpecSchedule} {h h' : Int} (hyes : s.allowsHour h = true)
    (hno : s.allowsHour h' = false) :
    ∃ last, s.allowsHour last = true ∧ s.allowsHour (last + 1) = false := by
  by_contra hnone
  simp only [not_exists, not_and, Bool.not_eq_false] at hnone
  have hall : ∀ n, h ≤ n → s.allowsHour n = true :=
    fun n hn => Int.leInduction hyes (fun n _ hn => hnone n hn) n hn
  have hlater : h ≤ h' + Calendar.cycle * 24 * |h - h'| := by
    have habs := le_abs_self (h - h')
    have hnonneg := abs_nonneg (h - h')
    unfold Calendar.cycle
    omega
  have hyes' := hall _ hlater
  rw [allowsHour_add_cycle, hno] at hyes'
  cases hyes'

/-- A clock shows an hour of every date in some cycle, and the hours of
the cycle after it. -/
theorem exists_hour (clock : Clock) (s : SpecSchedule) (h : Int) :
    ∃ t h' : Int, (∀ j, s.allowsHour (h' + j) = s.allowsHour (h + j))
      ∧ ∀ d, d ≤ hour * (Calendar.cycle * 24 + 1) → clock.shows (t + d) = hour * h' + d := by
  have hperiod : 0 < hour * (Calendar.cycle * 24) := by decide
  obtain ⟨t, k, hshows⟩ := clock.exists_steady hperiod (hour * h) (hour * (Calendar.cycle * 24 + 1))
  refine ⟨t, h + Calendar.cycle * 24 * k, fun j => ?_, fun d hd => ?_⟩
  · rw [add_right_comm, allowsHour_add_cycle]
  · rw [hshows d hd]
    ring

/-! ## Acceptance -/

/-- The two times that the validation looks at. -/
def Accepted (cron : CronLib SpecSchedule) (now : Int) (s : SpecSchedule) : Prop :=
  ∃ t1 t2, cron.next s now = some t1 ∧ cron.next s t1 = some t2 ∧ hour ≤ t2 - t1

theorem accepted_of_validate {cron : CronLib SpecSchedule} {now : Int} {r : Routine} {c : String}
    {s : SpecSchedule} (hcron : r.scheduleCron = some c) (hc : c ≠ "") (hparse : cron.parse c = .ok s)
    (h : validate cron now r = none) : Accepted cron now s := by
  unfold validate at h
  rw [hcron, Option.filter_some_pos (by simpa using hc)] at h
  simp only [hparse] at h
  split at h
  · cases h
  · split at h
    · cases h
    · cases h1 : cron.next s now with
      | none => simp [h1] at h
      | some t1 =>
        cases h2 : cron.next s t1 with
        | none => simp [h1, h2] at h
        | some t2 =>
          simp only [h1, h2] at h
          split at h
          · cases h
          · rename_i hgap
            exact ⟨t1, t2, h1, h2, not_lt.mp hgap⟩

theorem validate_of_accepted {cron : CronLib SpecSchedule} {now : Int} {r : Routine} {c : String}
    {s : SpecSchedule} (hname : trimSpace r.name ≠ "") (hprompt : trimSpace r.prompt ≠ "")
    (hcron : r.scheduleCron = some c) (hc : c ≠ "") (hparse : cron.parse c = .ok s)
    (h : Accepted cron now s) : validate cron now r = none := by
  obtain ⟨t1, t2, h1, h2, hgap⟩ := h
  unfold validate
  rw [if_neg hname, if_neg hprompt, hcron, Option.filter_some_pos (by simpa using hc)]
  simp [hparse, h1, h2, not_lt.mpr hgap]

variable {cron : CronLib SpecSchedule} {offset : Int} {s : SpecSchedule}

theorem Standard.fires (h : Standard cron offset) {t u : Int} (hnext : cron.next s t = some u) :
    t < u ∧ Fires (Clock.fixed offset) s u := ((h.next s t u).mp hnext).1

theorem Standard.le (h : Standard cron offset) {t u v : Int} (hnext : cron.next s t = some u)
    (hlt : t < v) (hv : Fires (Clock.fixed offset) s v) : u ≤ v :=
  ((h.next s t u).mp hnext).2 ⟨hlt, hv⟩

/-- A later firing time has a least one before it. -/
theorem exists_least {clock : Clock} {t u : Int} (hlt : t < u) (hu : Fires clock s u) :
    ∃ v, IsLeast {v | t < v ∧ Fires clock s v} v := by
  obtain ⟨v, hv, hmin⟩ := Int.exists_least_of_bdd (P := fun v => t < v ∧ Fires clock s v)
    ⟨t, fun v hv => hv.1.le⟩ ⟨u, hlt, hu⟩
  exact ⟨v, hv, fun w hw => hmin w hw⟩

/-- Any two firing times are an hour apart, not only consecutive ones. -/
theorem Spaced.any {clock : Clock} (h : Spaced clock s) {a b : Int} (ha : Fires clock s a)
    (hb : Fires clock s b) (hlt : a < b) : hour ≤ b - a := by
  obtain ⟨v, ⟨hav, hv⟩, hmin⟩ := exists_least hlt hb
  have hgap := h a v ha hv hav fun t hat htv ht => absurd (hmin ⟨hat, ht⟩) (not_le.mpr htv)
  have hvb := hmin ⟨hlt, hb⟩
  omega

/-- A firing time with no other within the hour after it, and some other
later, lets the validation pass just before it. -/
theorem accepted_of_last (h : Standard cron offset) {t1 u : Int}
    (ht1 : Fires (Clock.fixed offset) s t1) (hu : Fires (Clock.fixed offset) s u) (hlt : t1 < u)
    (hlast : ∀ t, t1 < t → Fires (Clock.fixed offset) s t → t1 + hour ≤ t) :
    Accepted cron (t1 - 1) s := by
  obtain ⟨t2, ht2⟩ := exists_least hlt hu
  refine ⟨t1, t2, (h.next _ _ _).mpr ⟨⟨by omega, ht1⟩, fun v hv => ?_⟩, (h.next _ _ _).mpr ht2, ?_⟩
  · have hlt := hv.1
    omega
  · have hgap := hlast t2 ht2.1.1 ht2.1.2
    omega

/-- Where it passes, it passes for a routine with the expression. -/
theorem Respects.spaced {zones : String → Clock} {c tz : String} (h : Respects cron zones c tz)
    (hstandard : Standard cron offset) (hparse : cron.parse c = .ok s) {now : Int}
    (haccepted : Accepted cron now s) : Spaced (zones tz) s := by
  have hc : c ≠ "" := by
    rintro rfl
    exact hstandard.empty s hparse
  have hname : trimSpace "name" ≠ "" := by decide +kernel
  have hprompt : trimSpace "prompt" ≠ "" := by decide +kernel
  exact h now
    { id := "", workspaceID := defaultWorkspaceID, name := "name", prompt := "prompt", sessionPrefix := ""
      enabled := true, scheduleCron := some c, scheduleTZ := tz, temporalScheduleID := none
      fireTokenHash := none, hasFireToken := false, createdBy := none }
    rfl rfl (validate_of_accepted hname hprompt rfl hc hparse haccepted) s hparse

/-! ## The law -/

theorem minute_le {m : Nat} (h : m ∈ s.minute.values) : m ≤ 59 := (s.minute.bounded m h).2

/-- An hour that a clock shows in full, with the minutes that fire in it
and the hour after it. -/
theorem exists_firing_hour (clock : Clock) {h : Int} (hyes : s.allowsHour h = true) :
    ∃ t, (∀ m ∈ s.minute.values, Fires clock s (t + 60000000000 * m)
        ∧ Fires clock s (t + hour * (Calendar.cycle * 24) + 60000000000 * m))
      ∧ ∀ d, 0 < d → d < 2 * hour → Fires clock s (t + d) →
        ∃ m ∈ s.minute.values, d = 60000000000 * m
          ∨ (s.allowsHour (h + 1) = true ∧ d = hour + 60000000000 * m) := by
  obtain ⟨t, h', hsame, hshows⟩ := exists_hour clock s h
  have hyes' : s.allowsHour h' = true := by simpa [hyes] using hsame 0
  refine ⟨t, fun m hm => ?_, fun d hpos hd hfires => ?_⟩
  · have hle := minute_le hm
    have hnext : s.allowsHour (h' + Calendar.cycle * 24) = true := by
      simpa [hyes'] using allowsHour_add_cycle s h' 1
    constructor
    · refine ⟨h', m, hm, hyes', hshows _ ?_⟩
      unfold hour Calendar.cycle
      omega
    · refine ⟨h' + Calendar.cycle * 24, m, hm, hnext, ?_⟩
      rw [add_assoc, hshows]
      · ring
      · unfold hour Calendar.cycle
        omega
  · obtain ⟨h2, m, hm, hallowed, htime⟩ := hfires
    have hle := minute_le hm
    rw [hshows d (by unfold hour Calendar.cycle at *; omega)] at htime
    have hcases : h2 = h' ∨ h2 = h' + 1 := by
      unfold hour at *
      omega
    refine ⟨m, hm, ?_⟩
    rcases hcases with rfl | rfl
    · exact .inl (by omega)
    · refine .inr ⟨by rwa [hsame 1] at hallowed, ?_⟩
      unfold hour at *
      omega

/-- The validation passes before the last firing time of an hour. -/
theorem exists_accepted (hstandard : Standard cron offset) {h : Int} (hyes : s.allowsHour h = true)
    {m : Nat} (hm : m ∈ s.minute.values)
    (hlast : (∀ m' ∈ s.minute.values, m' = m)
      ∨ (s.allowsHour (h + 1) = false ∧ ∀ m' ∈ s.minute.values, m' ≤ m)) :
    ∃ now, Accepted cron now s := by
  obtain ⟨t, hfires, honly⟩ := exists_firing_hour (Clock.fixed offset) hyes
  have hle := minute_le hm
  refine ⟨_, accepted_of_last hstandard (hfires m hm).1 (hfires m hm).2 ?_ fun u hu hfiresu => ?_⟩
  · unfold hour Calendar.cycle
    omega
  · by_contra hgap
    obtain ⟨m', hm', hd⟩ := honly (u - t) (by omega) (by unfold hour at *; omega) (by simpa using hfiresu)
    rcases hlast with hone | ⟨hno, hmax⟩
    · have heq := hone m' hm'
      unfold hour at *
      omega
    · have hmax := hmax m' hm'
      rcases hd with hd | ⟨hyes', -⟩
      · omega
      · rw [hno] at hyes'
        cases hyes'

/-- With every hour allowed and several minutes, there is a firing time
within the hour after any other. -/
theorem not_accepted (hstandard : Standard cron offset) (hseveral : ¬ s.OneMinute)
    (hall : ∀ h, s.allowsHour h = true) (now : Int) : ¬ Accepted cron now s := by
  rintro ⟨t1, t2, h1, h2, hgap⟩
  obtain ⟨-, h, m, hm, -, htime⟩ := hstandard.fires h1
  have hother : ∃ m' ∈ s.minute.values, m' ≠ m := by
    by_contra hnone
    refine hseveral fun a ha b hb => ?_
    by_contra hne
    exact hnone (by by_cases ham : a = m
                    · exact ⟨b, hb, fun hbm => hne (ham.trans hbm.symm)⟩
                    · exact ⟨a, ha, ham⟩)
  obtain ⟨m', hm', hne⟩ := hother
  have hle := minute_le hm
  have hle' := minute_le hm'
  rw [Clock.shows_fixed] at htime
  by_cases hlt : m < m'
  · have hsoon := hstandard.le h2 (v := t1 + 60000000000 * (m' - m)) (by omega)
      ⟨h, m', hm', hall h, by rw [Clock.shows_fixed]; omega⟩
    unfold hour at *
    omega
  · have hsoon := hstandard.le h2 (v := t1 + hour + 60000000000 * (m' - m))
      (by unfold hour; omega) ⟨h + 1, m', hm', hall (h + 1), by rw [Clock.shows_fixed]; unfold hour at *; omega⟩
    unfold hour at *
    omega

/-- One minute that the clock does not repeat. -/
theorem spaced_of_oneMinute {clock : Clock} (hone : s.OneMinute) (hrepeats : ¬ Repeats clock s) :
    Spaced clock s := by
  rintro a b ⟨h, m, hm, hyes, ha⟩ ⟨h', m', hm', hyes', hb⟩ hlt -
  by_contra hgap
  obtain rfl := hone m hm m' hm'
  exact hrepeats ⟨a, b, h, h', m, hm, hlt, not_le.mp hgap, hyes, hyes', ha, hb⟩

theorem not_repeats_of_spaced {clock : Clock} (h : Spaced clock s) : ¬ Repeats clock s := by
  rintro ⟨a, b, k, k', m, hm, hlt, hgap, hyes, hyes', ha, hb⟩
  have hhour := h.any ⟨k, m, hm, hyes, ha⟩ ⟨k', m, hm, hyes', hb⟩ hlt
  omega

/-- A schedule that is spaced has one minute, if it fires at all. -/
theorem Spaced.oneMinute {clock : Clock} (h : Spaced clock s) {k : Int}
    (hyes : s.allowsHour k = true) : s.OneMinute := by
  obtain ⟨t, hfires, -⟩ := exists_firing_hour clock hyes
  have hle : ∀ m ∈ s.minute.values, ∀ m' ∈ s.minute.values, m' ≤ m := by
    intro m hm m' hm'
    by_contra hlt
    have hgap := h.any (hfires m hm).1 (hfires m' hm').1 (by omega)
    have hmax := minute_le hm'
    unfold hour at hgap
    omega
  exact fun m hm m' hm' => le_antisymm (hle m' hm' m hm) (hle m hm m' hm')

/-- A clock that is changed by whole hours does not repeat a minute. -/
theorem not_repeats_of_wholeHours {clock : Clock}
    (h : ∀ a b, hour ∣ clock.offset b - clock.offset a) : ¬ Repeats clock s := by
  rintro ⟨a, b, k, k', m, -, hlt, hgap, -, -, ha, hb⟩
  obtain ⟨n, hn⟩ := h a b
  unfold Clock.shows at ha hb
  unfold hour at *
  omega

theorem exists_max (hne : s.minute.values ≠ []) :
    ∃ m ∈ s.minute.values, ∀ m' ∈ s.minute.values, m' ≤ m := by
  obtain ⟨m, hm, hmax⟩ := s.minute.values.toFinset.exists_max_image id
    ((List.toFinset_nonempty_iff _).mpr hne)
  exact ⟨m, List.mem_toFinset.mp hm, fun m' hm' => hmax m' (List.mem_toFinset.mpr hm')⟩

theorem hourly_of_respects (hstandard : Standard cron offset) {zones : String → Clock}
    {c tz : String} (h : Respects cron zones c tz) (hparse : cron.parse c = .ok s) :
    Hourly (zones tz) s := by
  by_cases hnone : ∀ k, s.allowsHour k = false
  · exact .inl hnone
  simp only [not_forall, Bool.not_eq_false] at hnone
  obtain ⟨k, hyes⟩ := hnone
  by_cases hone : s.OneMinute
  · refine .inr (.inl ⟨hone, fun hrepeats => ?_⟩)
    obtain ⟨m, hm⟩ : ∃ m, m ∈ s.minute.values := by
      obtain ⟨-, -, -, -, m, hm, -⟩ := hrepeats
      exact ⟨m, hm⟩
    obtain ⟨now, haccepted⟩ := exists_accepted hstandard hyes hm (.inl fun m' hm' => hone m' hm' m hm)
    exact not_repeats_of_spaced (h.spaced hstandard hparse haccepted) hrepeats
  · refine .inr (.inr ⟨hone, fun k' => ?_⟩)
    by_contra hno
    obtain ⟨last, hlast, hleft⟩ := exists_last_hour hyes (Bool.not_eq_true _ ▸ hno)
    have hne : s.minute.values ≠ [] := by
      intro hnil
      exact hone (by simp [SpecSchedule.OneMinute, hnil])
    obtain ⟨m, hm, hmax⟩ := exists_max hne
    obtain ⟨now, haccepted⟩ := exists_accepted hstandard hlast hm (.inr ⟨hleft, hmax⟩)
    exact hone ((h.spaced hstandard hparse haccepted).oneMinute hyes)

/-- An expression is only accepted if it keeps the hour, exactly if it has
one minute that the zone does not repeat, or allows no hour, or allows
every hour at several minutes. -/
theorem respects_iff (hstandard : Standard cron offset) (zones : String → Clock) (c tz : String) :
    Respects cron zones c tz ↔ ∀ s, cron.parse c = .ok s → Hourly (zones tz) s := by
  constructor
  · exact fun h s hparse => hourly_of_respects hstandard h hparse
  · intro h now r hcron _ hvalid s hparse
    have hc : c ≠ "" := by
      rintro rfl
      exact hstandard.empty s hparse
    have haccepted := accepted_of_validate hcron hc hparse hvalid
    rcases h s hparse with hnone | ⟨hone, hrepeats⟩ | ⟨hseveral, hall⟩
    · obtain ⟨t1, -, h1, -⟩ := haccepted
      obtain ⟨-, k, -, -, hyes, -⟩ := hstandard.fires h1
      rw [hnone k] at hyes
      cases hyes
    · exact spaced_of_oneMinute hone hrepeats
    · exact absurd haccepted (not_accepted hstandard hseveral hall now)

open Classical in
/-- The library, for one expression. -/
noncomputable def libraryFor (c : String) (s : SpecSchedule) (offset : Int) :
    CronLib SpecSchedule where
  parse text := if text = c then .ok s else .error "expected exactly 5 fields"
  next s t :=
    if h : ∃ u, IsLeast {v | t < v ∧ Fires (Clock.fixed offset) s v} u then some h.choose else none

theorem libraryFor_standard {c : String} (hc : c ≠ "") (s : SpecSchedule) (offset : Int) :
    Standard (libraryFor c s offset) offset where
  empty _ := by simp [libraryFor, hc.symm]
  next s t u := by
    unfold libraryFor
    dsimp only
    split
    · rename_i hleast
      constructor
      · intro h
        cases h
        exact hleast.choose_spec
      · exact fun h => congrArg some (hleast.choose_spec.unique h)
    · rename_i hnone
      constructor
      · exact fun h => nomatch h
      · exact fun h => absurd ⟨u, h⟩ hnone

def Field.only {low high : Nat} (v : Nat) (h : low ≤ v ∧ v ≤ high) : Field low high :=
  { values := [v], star := false, bounded := by simpa using h }

def Field.all {low high : Nat} : Field low high :=
  { values := List.range' low (high + 1 - low)
    star := true
    bounded := fun v hv => by
      rw [List.mem_range'_1] at hv
      omega }

/-- `30 9 * * *` -/
def everyMorning : SpecSchedule :=
  { minute := .only 30 (by decide), hour := .only 9 (by decide), dom := .all, month := .all
    dow := .all }

theorem everyMorning_respects :
    Respects (libraryFor "30 9 * * *" everyMorning (7 * hour)) (fun _ => Clock.fixed (7 * hour))
      "30 9 * * *" "Asia/Ho_Chi_Minh" := by
  refine (respects_iff (libraryFor_standard (by decide) _ _) _ _ _).mpr fun s hparse => ?_
  cases hparse
  have hone : everyMorning.OneMinute := by simp [SpecSchedule.OneMinute, everyMorning, Field.only]
  exact .inr (.inl ⟨hone, not_repeats_of_wholeHours fun _ _ => by simp [Clock.fixed]⟩)

/-- `0,30 0 * * *` -/
def twiceAfterMidnight : SpecSchedule :=
  { minute := { values := [0, 30], star := false, bounded := by decide }
    hour := .only 0 (by decide), dom := .all, month := .all, dow := .all }

theorem not_respects :
    ¬ Respects (libraryFor "0,30 0 * * *" twiceAfterMidnight (7 * hour))
      (fun _ => Clock.fixed (7 * hour)) "0,30 0 * * *" "Asia/Ho_Chi_Minh" := by
  intro h
  have hstandard := libraryFor_standard (c := "0,30 0 * * *") (by decide) twiceAfterMidnight (7 * hour)
  have hyes : twiceAfterMidnight.allowsHour 0 = true := by decide
  have hno : twiceAfterMidnight.allowsHour 1 = false := by decide
  obtain ⟨now, haccepted⟩ := exists_accepted hstandard hyes (m := 30) (by decide) (.inr ⟨hno, by decide⟩)
  have hparse : (libraryFor "0,30 0 * * *" twiceAfterMidnight (7 * hour)).parse "0,30 0 * * *"
      = .ok twiceAfterMidnight := by simp [libraryFor]
  have hone := (h.spaced hstandard hparse haccepted).oneMinute hyes
  exact absurd (hone 0 (by decide) 30 (by decide)) (by decide)

end LendingClaw.Routines

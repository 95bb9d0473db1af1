/-
LendingClaw.Lib.Runs — runs of a deterministic step function, and the
rules every statement about whole runs is proved with.

A component is a state type `σ`, an input type `α` (one operation with
the outcomes its environment chooses) and `step : σ → α → σ`. A run is
the fold of `step` along a list of inputs. `Always` is the safety
reading: a predicate holds in every state the run reaches, the first and
the last included. `Along` is the guard reading: a condition on the
state BEFORE each step and on that step's input holds at every step.

* `always_of_along` — the invariant rule: an invariant preserved by every
  step that meets the guard holds always, along a guarded run.
* `always_iff_along` — the exactness rule: when moreover a step that
  misses the guard leads from an invariant state to a bad one, the safety
  property and the guard are equivalent, run by run.
* `run_iff_along` — the same at the end of the run, for damage that no
  later step repairs.

Nothing here names a program.
-/
import Mathlib.Data.List.Basic

namespace LendingClaw.Lib

universe u v

variable {σ : Type u} {α : Type v}

/-- The state a list of inputs leads to. -/
def run (step : σ → α → σ) (s : σ) (as : List α) : σ := as.foldl step s

@[simp] theorem run_nil (step : σ → α → σ) (s : σ) : run step s [] = s := rfl

@[simp] theorem run_cons (step : σ → α → σ) (s : σ) (a : α) (as : List α) :
    run step s (a :: as) = run step (step s a) as := rfl

theorem run_append (step : σ → α → σ) (s : σ) (as bs : List α) :
    run step s (as ++ bs) = run step (run step s as) bs :=
  List.foldl_append

/-- `P` holds in every state the run goes through. -/
def Always (P : σ → Prop) (step : σ → α → σ) : σ → List α → Prop
  | s, [] => P s
  | s, a :: as => P s ∧ Always P step (step s a) as

/-- `ok` holds of every step of the run, taken with the state before it. -/
def Along (ok : σ → α → Prop) (step : σ → α → σ) : σ → List α → Prop
  | _, [] => True
  | s, a :: as => ok s a ∧ Along ok step (step s a) as

theorem Always.head {P : σ → Prop} {step : σ → α → σ} {s : σ} {as : List α}
    (h : Always P step s as) : P s := by
  cases as with
  | nil => exact h
  | cons a as => exact h.1

theorem Always.last {P : σ → Prop} {step : σ → α → σ} {s : σ} {as : List α}
    (h : Always P step s as) : P (run step s as) := by
  induction as generalizing s with
  | nil => exact h
  | cons a as ih => exact ih h.2

instance Along.instDecidable (ok : σ → α → Prop) [∀ s a, Decidable (ok s a)] (step : σ → α → σ) :
    (s : σ) → (as : List α) → Decidable (Along ok step s as)
  | _, [] => .isTrue trivial
  | s, a :: as =>
    have := Along.instDecidable ok step (step s a) as
    inferInstanceAs (Decidable (ok s a ∧ Along ok step (step s a) as))

theorem Along.last {ok : σ → α → Prop} {step : σ → α → σ} {s : σ} {as : List α} {a : α}
    (h : Along ok step s (as ++ [a])) : ok (run step s as) a := by
  induction as generalizing s with
  | nil => exact h.1
  | cons b as ih => exact ih h.2

/-- The invariant rule. -/
theorem always_of_along {Inv P : σ → Prop} {ok : σ → α → Prop} {step : σ → α → σ}
    (hstep : ∀ s a, Inv s → ok s a → Inv (step s a)) (hP : ∀ s, Inv s → P s) :
    ∀ (as : List α) (s : σ), Inv s → Along ok step s as → Always P step s as
  | [], s, hs, _ => hP s hs
  | a :: as, s, hs, ⟨ha, has⟩ =>
      ⟨hP s hs, always_of_along hstep hP as (step s a) (hstep s a hs ha) has⟩

/-- What each guarded step from an invariant state meets, all of them do. -/
theorem along_of_along {Inv : σ → Prop} {ok Q : σ → α → Prop} {step : σ → α → σ}
    (hstep : ∀ s a, Inv s → ok s a → Inv (step s a)) (hQ : ∀ s a, Inv s → ok s a → Q s a) :
    ∀ (as : List α) (s : σ), Inv s → Along ok step s as → Along Q step s as
  | [], _, _, _ => trivial
  | a :: as, s, hs, ⟨ha, has⟩ =>
      ⟨hQ s a hs ha, along_of_along hstep hQ as (step s a) (hstep s a hs ha) has⟩

/-- The invariant at the end of a guarded run. -/
theorem inv_run {Inv : σ → Prop} {ok : σ → α → Prop} {step : σ → α → σ}
    (hstep : ∀ s a, Inv s → ok s a → Inv (step s a)) (as : List α) (s : σ)
    (hs : Inv s) (has : Along ok step s as) : Inv (run step s as) :=
  (always_of_along hstep (fun _ h => h) as s hs has).last

/-- The invariant rule without a guard. -/
theorem inv_run_of_step (Inv : σ → Prop) {step : σ → α → σ}
    (hstep : ∀ s a, Inv s → Inv (step s a)) (as : List α) (s : σ) (hs : Inv s) :
    Inv (run step s as) := by
  induction as generalizing s with
  | nil => exact hs
  | cons a as ih => exact ih (step s a) (hstep s a hs)

/-- What an invariant gives at every step. -/
theorem along_of_inv (Inv : σ → Prop) {Q : σ → α → Prop} {step : σ → α → σ}
    (hstep : ∀ s a, Inv s → Inv (step s a)) (hQ : ∀ s a, Inv s → Q s a) (as : List α) (s : σ)
    (hs : Inv s) : Along Q step s as := by
  induction as generalizing s with
  | nil => trivial
  | cons a as ih => exact ⟨hQ s a hs, ih (step s a) (hstep s a hs)⟩

theorem along_congr {ok Q : σ → α → Prop} {step : σ → α → σ} (h : ∀ s a, ok s a ↔ Q s a)
    (as : List α) (s : σ) : Along ok step s as ↔ Along Q step s as := by
  induction as generalizing s with
  | nil => exact Iff.rfl
  | cons a as ih => exact and_congr (h s a) (ih (step s a))

/-- The invariant rule for a guard on the inputs alone. -/
theorem inv_run_of_forall (Inv : σ → Prop) {ok : α → Prop} {step : σ → α → σ}
    (hstep : ∀ s a, Inv s → ok a → Inv (step s a)) (as : List α) (s : σ) (hs : Inv s)
    (has : ∀ a ∈ as, ok a) : Inv (run step s as) := by
  induction as generalizing s with
  | nil => exact hs
  | cons a as ih =>
    apply ih
    · exact hstep s a hs (has a List.mem_cons_self)
    · intro b hb
      exact has b (List.mem_cons_of_mem a hb)

/-- The exactness rule: `bad` says that a step outside the guard breaks
the property at once, so no run outside the guard stays safe. -/
theorem always_iff_along {Inv P : σ → Prop} {ok : σ → α → Prop} {step : σ → α → σ}
    (hstep : ∀ s a, Inv s → ok s a → Inv (step s a)) (hP : ∀ s, Inv s → P s)
    (bad : ∀ s a, Inv s → ¬ ok s a → ¬ P (step s a)) (as : List α) (s : σ) (hs : Inv s) :
    Always P step s as ↔ Along ok step s as := by
  refine ⟨fun h => ?_, always_of_along hstep hP as s hs⟩
  induction as generalizing s with
  | nil => trivial
  | cons a as ih =>
    have ha : ok s a := by
      by_contra hn
      exact bad s a hs hn h.2.head
    exact ⟨ha, ih (step s a) (hstep s a hs ha) h.2⟩

/-- The exactness rule for the end of a run: a step outside the guard
leads to `Bad`, and nothing leads out of it. -/
theorem run_iff_along {Inv Bad P : σ → Prop} {ok : σ → α → Prop} {step : σ → α → σ}
    (hstep : ∀ s a, Inv s → ok s a → Inv (step s a)) (hP : ∀ s, Inv s → P s)
    (hbad : ∀ s a, Inv s → ¬ ok s a → Bad (step s a))
    (hstay : ∀ s a, Bad s → Bad (step s a)) (hN : ∀ s, Bad s → ¬ P s) (as : List α) (s : σ)
    (hs : Inv s) : P (run step s as) ↔ Along ok step s as := by
  have hlost : ∀ (as : List α) (s : σ), Bad s → Bad (run step s as) := by
    intro as
    induction as with
    | nil => exact fun s h => h
    | cons a as ih => exact fun s h => ih (step s a) (hstay s a h)
  refine ⟨fun h => ?_, fun h => hP _ (inv_run hstep as s hs h)⟩
  induction as generalizing s with
  | nil => trivial
  | cons a as ih =>
    have ha : ok s a := by
      by_contra hn
      exact hN _ (hlost as (step s a) (hbad s a hs hn)) h
    exact ⟨ha, ih (step s a) (hstep s a hs ha) h⟩

end LendingClaw.Lib

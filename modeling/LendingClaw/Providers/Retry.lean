/-
LendingClaw.Providers.Retry — the retries of a provider request
(`internal/providers/retry.go`, `doRequest` and the connection phase of
`internal/providers/openai.go`).

`retryDo` calls a function up to a number of times. What a call gives and
how the wait after it ends are parameters, by the number of the attempt;
the length of a wait is a floating-point number in the source and is left
out, as is the header it may come from.
-/
import LendingClaw.Lib.Strings

namespace LendingClaw.Providers

/-! ## Errors -/

/-- The errors of a request: of the server, of the network, and others. -/
inductive RequestError where
  | http (status : Int) (body : String)
  | net (text : String)
  | other (text : String)
  deriving DecidableEq

/-- `Error`. -/
def RequestError.text : RequestError → String
  | .http status body => "HTTP " ++ toString status ++ ": " ++ body
  | .net text => text
  | .other text => text

/-- The texts that `IsRetryableError` looks for. -/
def transientTexts : List String := ["connection reset", "broken pipe", "EOF", "timeout"]

/-- `IsRetryableError`. -/
def isRetryableError : RequestError → Bool
  | .http status _ => [429, 500, 502, 503, 504].contains status
  | .net _ => true
  | .other text => transientTexts.any (Lib.containsSub text)

/-! ## The loop -/

/-- A result, and the number of calls it took. -/
structure Retried (α : Type) where
  result : Except RequestError α
  calls : Nat

section
variable {α : Type} (call : Nat → Except RequestError α) (cancelled : Nat → Option RequestError)

/-- The loop of `RetryDo` from an attempt on, with some attempts left
after it. -/
def retryFrom : (left attempt : Nat) → Retried α
  | 0, attempt => { result := call attempt, calls := attempt }
  | left + 1, attempt =>
    match call attempt with
    | .ok result => { result := .ok result, calls := attempt }
    | .error err =>
      if !isRetryableError err then { result := .error err, calls := attempt }
      else
        match cancelled attempt with
        | some done => { result := .error done, calls := attempt }
        | none => retryFrom left (attempt + 1)

/-- The attempts of a configuration: none and fewer are one. -/
def attemptsOf (attempts : Int) : Nat := if attempts ≤ 0 then 1 else attempts.toNat

/-- `RetryDo`. -/
def retryDo (attempts : Int) : Retried α := retryFrom call cancelled (attemptsOf attempts - 1) 1

/-- How a loop ends: every call before the last failed in a way that may
pass, and the last one decided, or the wait after it was cut short. -/
structure Settled (last : Nat) (r : Retried α) : Prop where
  bounded : r.calls ≤ last
  before : ∀ i, 1 ≤ i → i < r.calls →
    (∃ err, call i = .error err ∧ isRetryableError err = true) ∧ cancelled i = none
  decided : r.result = call r.calls
      ∧ (∀ err, call r.calls = .error err → isRetryableError err = false ∨ r.calls = last)
    ∨ ∃ err done, call r.calls = .error err ∧ isRetryableError err = true ∧ r.calls < last
      ∧ cancelled r.calls = some done ∧ r.result = .error done

variable {call cancelled}

theorem retryFrom_settled (left attempt : Nat)
    (hbefore : ∀ i, 1 ≤ i → i < attempt →
      (∃ err, call i = .error err ∧ isRetryableError err = true) ∧ cancelled i = none) :
    attempt ≤ (retryFrom call cancelled left attempt).calls
      ∧ Settled call cancelled (attempt + left) (retryFrom call cancelled left attempt) := by
  induction left generalizing attempt with
  | zero => exact ⟨Nat.le_refl _, Nat.le_refl _, hbefore, .inl ⟨rfl, fun _ _ => .inr rfl⟩⟩
  | succ left ih =>
    unfold retryFrom
    cases hcall : call attempt with
    | ok result =>
      refine ⟨Nat.le_refl _, Nat.le_add_right _ _, hbefore, .inl ⟨hcall.symm, ?_⟩⟩
      intro err herr
      rw [hcall] at herr
      cases herr
    | error err =>
      dsimp only
      cases hretry : isRetryableError err with
      | false =>
        rw [if_pos (by rfl)]
        refine ⟨Nat.le_refl _, Nat.le_add_right _ _, hbefore, .inl ⟨hcall.symm, ?_⟩⟩
        intro err' herr
        obtain rfl : err = err' := Except.error.inj (hcall.symm.trans herr)
        exact .inl hretry
      | true =>
        rw [if_neg (by simp)]
        cases hwait : cancelled attempt with
        | some done =>
          refine ⟨Nat.le_refl _, Nat.le_add_right _ _, hbefore, .inr ?_⟩
          exact ⟨err, done, hcall, hretry, by simp, hwait, rfl⟩
        | none =>
          obtain ⟨hle, hsettled⟩ := ih (attempt + 1) fun i hi hlt => by
            rcases Nat.lt_succ_iff_lt_or_eq.mp hlt with hlt | rfl
            · exact hbefore i hi hlt
            · exact ⟨⟨err, hcall, hretry⟩, hwait⟩
          have hlast : attempt + 1 + left = attempt + (left + 1) := by omega
          rw [hlast] at hsettled
          exact ⟨Nat.le_of_succ_le hle, hsettled⟩

theorem one_le_attemptsOf (attempts : Int) : 1 ≤ attemptsOf attempts := by
  unfold attemptsOf
  split <;> omega

theorem retryDo_settled (attempts : Int) :
    1 ≤ (retryDo call cancelled attempts).calls
      ∧ Settled call cancelled (attemptsOf attempts) (retryDo call cancelled attempts) := by
  have h : 1 ≤ (retryDo call cancelled attempts).calls
      ∧ Settled call cancelled (1 + (attemptsOf attempts - 1)) (retryDo call cancelled attempts) :=
    retryFrom_settled _ 1 fun i hi hlt => absurd hlt (by omega)
  rwa [Nat.add_sub_cancel' (one_le_attemptsOf attempts)] at h

/-- A result that came back is that of the last call. -/
theorem Settled.of_ok {last : Nat} {r : Retried α} (h : Settled call cancelled last r) {result : α}
    (hr : r.result = .ok result) : call r.calls = .ok result := by
  rcases h.decided with ⟨heq, -⟩ | ⟨err, done, -, -, -, -, heq⟩
  · exact heq.symm.trans hr
  · rw [heq] at hr
    cases hr

end

end LendingClaw.Providers

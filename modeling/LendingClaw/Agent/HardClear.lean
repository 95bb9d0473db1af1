/-
LendingClaw.Agent.HardClear — when pass 2 of pruning stops
(`internal/agent/pruning.go`).

The running total of the two passes starts as a count of characters and
then adds the BYTES of each text that is put in. So it runs ahead of the
real count, by the surplus of bytes over characters of those texts, and
pass 2 may go on when the real count would let it stop.
-/
import LendingClaw.Agent.PruningFrame

namespace LendingClaw.Agent

open LendingClaw.Providers

/-! ## The real count -/

theorem totalMessageChars_eq (msgs : List Message) :
    totalMessageChars msgs = msgs.foldr (fun m total => estimateMessageChars m + total) 0 := by
  have hacc : ∀ total, msgs.foldl (fun total m => total + estimateMessageChars m) total
      = total + msgs.foldr (fun m total => estimateMessageChars m + total) 0 := by
    induction msgs with
    | nil => exact fun total => (Int.add_zero total).symm
    | cons m msgs ih =>
      intro total
      rw [List.foldl_cons, ih, List.foldr_cons, Int.add_assoc]
  rw [totalMessageChars, hacc, Int.zero_add]

theorem totalMessageChars_cons (m : Message) (msgs : List Message) :
    totalMessageChars (m :: msgs) = estimateMessageChars m + totalMessageChars msgs := by
  rw [totalMessageChars_eq, totalMessageChars_eq, List.foldr_cons]

theorem totalMessageChars_set {msgs : List Message} {i : Nat} {m : Message}
    (hm : msgs[i]? = some m) (m' : Message) :
    totalMessageChars (msgs.set i m')
      = totalMessageChars msgs + (estimateMessageChars m' - estimateMessageChars m) := by
  induction msgs generalizing i with
  | nil => simp at hm
  | cons n msgs ih =>
    cases i with
    | zero =>
      cases hm
      rw [List.set_cons_zero, totalMessageChars_cons, totalMessageChars_cons]
      omega
    | succ i =>
      rw [List.set_cons_succ, totalMessageChars_cons, totalMessageChars_cons, ih hm]
      omega

/-! ## The surplus -/

/-- How many bytes more than characters. -/
def surplus (text : String) : Int := text.utf8ByteSize - text.length

theorem surplus_nonneg (text : String) : 0 ≤ surplus text := by
  have hlist : ∀ cs : List Char, cs.length ≤ (String.ofList cs).utf8ByteSize := by
    intro cs
    induction cs with
    | nil => simp
    | cons c cs ih =>
      have hsplit : String.ofList (c :: cs) = String.singleton c ++ String.ofList cs := by
        apply String.toList_injective
        simp
      have hpos := c.utf8Size_pos
      rw [hsplit, String.utf8ByteSize_append, String.utf8ByteSize_singleton, List.length_cons]
      omega
  have h := hlist text.toList
  rw [String.ofList_toList, String.length_toList] at h
  rw [surplus]
  omega

/-- The surplus of the results that pass 1 trims. -/
def trimSurplus (cfg : PruningConfig) (msgs : List Message) : List Nat → Int
  | [] => 0
  | idx :: rest =>
    (match msgs[idx]? with
      | none => 0
      | some msg =>
        if estimateMessageChars msg ≤ cfg.softTrimMaxChars then 0 else surplus (cfg.trimmed msg))
      + trimSurplus cfg msgs rest

theorem trimSurplus_nonneg (cfg : PruningConfig) (msgs : List Message) (indexes : List Nat) :
    0 ≤ trimSurplus cfg msgs indexes := by
  induction indexes with
  | nil => exact Int.le_refl 0
  | cons idx indexes ih =>
    rw [trimSurplus]
    refine Int.add_nonneg ?_ ih
    cases msgs[idx]? with
    | none => exact Int.le_refl 0
    | some msg =>
      dsimp only
      split
      · exact Int.le_refl 0
      · exact surplus_nonneg _

/-- After pass 1 the running total is ahead by the surplus. -/
theorem softTrim_total (cfg : PruningConfig) (msgs : List Message) {indexes : List Nat}
    (hnodup : indexes.Nodup) {result : List Message}
    (hsame : ∀ i ∈ indexes, result[i]? = msgs[i]?) (totalChars : Int) :
    (softTrim cfg msgs indexes result totalChars).2
        - totalMessageChars (softTrim cfg msgs indexes result totalChars).1
      = totalChars - totalMessageChars result + trimSurplus cfg msgs indexes := by
  induction indexes generalizing result totalChars with
  | nil => exact (Int.add_zero _).symm
  | cons idx indexes ih =>
    obtain ⟨hnot, hnodup⟩ := List.nodup_cons.mp hnodup
    have hrest := fun i hi => hsame i (List.mem_cons_of_mem idx hi)
    have hidx := hsame idx List.mem_cons_self
    rw [softTrim, trimSurplus]
    cases hmsg : msgs[idx]? with
    | none =>
      dsimp only
      rw [ih hnodup hrest]
      omega
    | some msg =>
      by_cases hshort : estimateMessageChars msg ≤ cfg.softTrimMaxChars
      · simp only [if_pos hshort]
        rw [ih hnodup hrest]
        omega
      · simp only [if_neg hshort]
        rw [hmsg] at hidx
        have hset : ∀ i ∈ indexes,
            (result.set idx (withContent msg (cfg.trimmed msg)))[i]? = msgs[i]? := by
          intro i hi
          have hne : idx ≠ i := fun h => hnot (h ▸ hi)
          rw [List.getElem?_set_ne hne]
          exact hrest i hi
        have hchars : estimateMessageChars (withContent msg (cfg.trimmed msg))
            = (cfg.trimmed msg).length := rfl
        rw [ih hnodup hset, totalMessageChars_set hidx, hchars, surplus]
        omega

/-! ## The results cleared -/

/-- A result is replaced by the placeholder. -/
def clearAt (cfg : PruningConfig) (output : List Message) (idx : Nat) : List Message :=
  match output[idx]? with
  | none => output
  | some msg => output.set idx (withContent msg cfg.hardClearPlaceholder)

def clearAll (cfg : PruningConfig) (output : List Message) (indexes : List Nat) : List Message :=
  indexes.foldl (clearAt cfg) output

/-- The indexes that pass 2 replaces, one after the other. -/
def hardCleared (cfg : PruningConfig) (charWindow : Int) :
    List Nat → (output : List Message) → (totalChars : Int) → List Nat
  | [], _, _ => []
  | idx :: rest, output, totalChars =>
    if cfg.belowHardClear totalChars charWindow then []
    else
      match output[idx]? with
      | none => idx :: hardCleared cfg charWindow rest output totalChars
      | some msg =>
        idx :: hardCleared cfg charWindow rest
          (output.set idx (withContent msg cfg.hardClearPlaceholder))
          (totalChars + (cfg.hardClearPlaceholder.utf8ByteSize - estimateMessageChars msg))

theorem hardClear_eq (cfg : PruningConfig) (charWindow : Int) (indexes : List Nat)
    (output : List Message) (totalChars : Int) :
    hardClear cfg charWindow indexes output totalChars
      = clearAll cfg output (hardCleared cfg charWindow indexes output totalChars) := by
  induction indexes generalizing output totalChars with
  | nil => rfl
  | cons idx indexes ih =>
    rw [hardClear, hardCleared]
    by_cases hbelow : cfg.belowHardClear totalChars charWindow = true
    · rw [if_pos hbelow, if_pos hbelow]
      rfl
    · rw [if_neg hbelow, if_neg hbelow]
      cases hidx : output[idx]? with
      | none =>
        dsimp only
        rw [ih, clearAll, clearAll, List.foldl_cons, clearAt, hidx]
      | some msg =>
        dsimp only
        rw [ih, clearAll, clearAll, List.foldl_cons, clearAt, hidx]

theorem clearAt_length (cfg : PruningConfig) (output : List Message) (idx : Nat) :
    (clearAt cfg output idx).length = output.length := by
  rw [clearAt]
  split
  · rfl
  · exact List.length_set

section
variable (cfg : PruningConfig) (charWindow : Int)

/-- The real count when the first `k` results are cleared. -/
def realChars (output : List Message) (indexes : List Nat) (k : Nat) : Int :=
  totalMessageChars (clearAll cfg output (indexes.take k))

/-- The real count is low enough. -/
def Below (totalChars : Int) : Prop := cfg.belowHardClear totalChars charWindow = true

/-- The running total then, `ahead` of the real count at the start. -/
def counted (output : List Message) (indexes : List Nat) (ahead : Int) (k : Nat) : Int :=
  realChars cfg output indexes k + (ahead + k * surplus cfg.hardClearPlaceholder)

theorem counted_zero (output : List Message) (indexes : List Nat) (ahead : Int) :
    counted cfg output indexes ahead 0 = totalMessageChars output + ahead := by
  rw [counted, realChars, List.take_zero, clearAll, List.foldl_nil]
  omega

theorem counted_succ (output : List Message) (idx : Nat) (indexes : List Nat) (ahead : Int)
    (k : Nat) :
    counted cfg output (idx :: indexes) ahead (k + 1)
      = counted cfg (clearAt cfg output idx) indexes (ahead + surplus cfg.hardClearPlaceholder)
        k := by
  have hreal : realChars cfg output (idx :: indexes) (k + 1)
      = realChars cfg (clearAt cfg output idx) indexes k := by
    rw [realChars, realChars, List.take_succ_cons, clearAll, clearAll, List.foldl_cons]
  rw [counted, counted, hreal, Int.natCast_add, Int.add_mul]
  omega

/-- It stops at the first result at which the running total is low
enough. -/
theorem hardCleared_eq_take {indexes : List Nat} {output : List Message}
    (hin : ∀ i ∈ indexes, i < output.length) {ahead totalChars : Int}
    (htotal : totalChars = totalMessageChars output + ahead) :
    ∃ n ≤ indexes.length, hardCleared cfg charWindow indexes output totalChars = indexes.take n
      ∧ (∀ k < n, ¬ Below cfg charWindow (counted cfg output indexes ahead k))
      ∧ (n < indexes.length → Below cfg charWindow (counted cfg output indexes ahead n)) := by
  induction indexes generalizing output ahead totalChars with
  | nil => exact ⟨0, Nat.le_refl 0, rfl, nofun, nofun⟩
  | cons idx indexes ih =>
    have hzero : counted cfg output (idx :: indexes) ahead 0 = totalChars := by
      rw [counted_zero, htotal]
    rw [hardCleared]
    by_cases hbelow : cfg.belowHardClear totalChars charWindow = true
    · rw [if_pos hbelow]
      refine ⟨0, Nat.zero_le _, rfl, nofun, fun _ => ?_⟩
      rw [hzero]
      exact hbelow
    · rw [if_neg hbelow]
      have hlt := hin idx List.mem_cons_self
      have hidx := List.getElem?_eq_getElem hlt
      have hclear : clearAt cfg output idx
          = output.set idx (withContent output[idx] cfg.hardClearPlaceholder) := by
        rw [clearAt, hidx]
      have hnext : totalChars + (cfg.hardClearPlaceholder.utf8ByteSize
            - estimateMessageChars output[idx])
          = totalMessageChars (clearAt cfg output idx)
            + (ahead + surplus cfg.hardClearPlaceholder) := by
        have hchars : estimateMessageChars (withContent output[idx] cfg.hardClearPlaceholder)
            = cfg.hardClearPlaceholder.length := rfl
        rw [htotal, hclear, totalMessageChars_set hidx, hchars, surplus]
        omega
      have hin' : ∀ i ∈ indexes, i < (clearAt cfg output idx).length := by
        intro i hi
        rw [clearAt_length]
        exact hin i (List.mem_cons_of_mem idx hi)
      obtain ⟨n, hn, heq, hbefore, hat⟩ := ih hin' hnext
      refine ⟨n + 1, Nat.succ_le_succ hn, ?_, ?_, ?_⟩
      · rw [hidx, List.take_succ_cons, ← heq, hclear]
      · intro k hk
        cases k with
        | zero =>
          rw [hzero]
          exact hbelow
        | succ k =>
          rw [counted_succ]
          exact hbefore k (by omega)
      · intro hlen
        rw [counted_succ]
        exact hat (Nat.lt_of_succ_lt_succ hlen)

end

/-! ## Pass 2 -/

/-- What pass 2 starts from. -/
structure PassTwo where
  indexes : List Nat
  output : List Message
  totalChars : Int

/-- The state in which pass 2 is entered, if it is. -/
def passTwo (msgs : List Message) (contextWindowTokens : Int) (cfg : PruningConfig) :
    Option PassTwo :=
  if cfg.mode = "disabled" then none
  else if contextWindowTokens ≤ 0 ∨ msgs = [] then none
  else
    match findAssistantCutoff msgs cfg.keepLastAssistants with
    | none => none
    | some cutoffIndex =>
      let charWindow := contextWindowTokens * charsPerTokenEstimate
      let indexes := prunableIndexes msgs cutoffIndex
      if cfg.belowSoftTrim (totalMessageChars msgs) charWindow then none
      else if indexes = [] then none
      else
        let (output, totalChars) := softTrim cfg msgs indexes msgs (totalMessageChars msgs)
        if cfg.belowHardClear totalChars charWindow || !cfg.hardClearEnabled then none
        else if totalMessageChars (indexes.filterMap fun i => output[i]?)
            < cfg.minPrunableToolChars then none
        else some { indexes := indexes, output := output, totalChars := totalChars }

section
variable {msgs : List Message} {contextWindowTokens : Int} {cfg : PruningConfig} {entry : PassTwo}

/-- Entered, pass 2 makes what is returned. -/
theorem pruneContextMessages_of_passTwo (h : passTwo msgs contextWindowTokens cfg = some entry) :
    pruneContextMessages msgs contextWindowTokens cfg
      = hardClear cfg (contextWindowTokens * charsPerTokenEstimate) entry.indexes entry.output
        entry.totalChars := by
  unfold passTwo at h
  unfold pruneContextMessages
  by_cases hmode : cfg.mode = "disabled"
  · simp [hmode] at h
  by_cases hempty : contextWindowTokens ≤ 0 ∨ msgs = []
  · simp [hmode, hempty] at h
  rw [if_neg hmode, if_neg hempty] at h ⊢
  cases hcutoff : findAssistantCutoff msgs cfg.keepLastAssistants with
  | none => simp [hcutoff] at h
  | some cutoffIndex =>
    simp only [hcutoff] at h
    dsimp only
    split at h
    · cases h
    · rename_i hsoft
      rw [if_neg hsoft]
      split at h
      · cases h
      · rename_i hindexes
        rw [if_neg hindexes]
        split at h
        · cases h
        · rename_i hhard
          rw [if_neg hhard]
          split at h
          · cases h
          · rename_i hmin
            rw [if_neg hmin]
            cases h
            rfl

/-- It has the prunable results, oldest first, in the list that pass 1
made. -/
theorem passTwo_spec (h : passTwo msgs contextWindowTokens cfg = some entry) :
    ∃ cutoffIndex, entry.indexes = prunableIndexes msgs cutoffIndex
      ∧ (entry.output, entry.totalChars)
        = softTrim cfg msgs entry.indexes msgs (totalMessageChars msgs) := by
  unfold passTwo at h
  split at h
  · cases h
  · split at h
    · cases h
    · split at h
      · cases h
      · rename_i cutoffIndex _
        dsimp only at h
        split at h
        · cases h
        · split at h
          · cases h
          · split at h
            · cases h
            · split at h
              · cases h
              · cases h
                exact ⟨cutoffIndex, rfl, rfl⟩

theorem passTwo_window (h : passTwo msgs contextWindowTokens cfg = some entry) :
    0 < contextWindowTokens := by
  by_contra hle
  unfold passTwo at h
  split at h
  · cases h
  · rw [if_pos (Or.inl (not_lt.mp hle))] at h
    cases h

/-- The running total that pass 2 starts with. -/
theorem passTwo_total (h : passTwo msgs contextWindowTokens cfg = some entry) :
    entry.totalChars = totalMessageChars entry.output + trimSurplus cfg msgs entry.indexes := by
  obtain ⟨cutoffIndex, hindexes, hsoft⟩ := passTwo_spec h
  have hnodup : entry.indexes.Nodup := by
    rw [hindexes]
    exact List.nodup_range.filter _
  have htotal := softTrim_total cfg msgs hnodup (fun _ _ => rfl) (totalMessageChars msgs)
  rw [← hsoft] at htotal
  dsimp only at htotal
  omega

theorem passTwo_in (h : passTwo msgs contextWindowTokens cfg = some entry) :
    ∀ i ∈ entry.indexes, i < entry.output.length := by
  obtain ⟨cutoffIndex, hindexes, hsoft⟩ := passTwo_spec h
  have hsame : KeptBut cfg entry.indexes msgs msgs := KeptBut.refl
  have hkept := softTrim_keptBut (fun _ hi => hi) hsame (totalMessageChars msgs)
  rw [← hsoft] at hkept
  intro i hi
  rw [hkept.1]
  rw [hindexes] at hi
  have hsome := (List.mem_filter.mp hi).2
  rw [Bool.and_eq_true, Option.any_eq_true] at hsome
  obtain ⟨-, m, hm, -⟩ := hsome
  exact (List.getElem?_eq_some_iff.mp hm).1

end

/-! ## Stopping in time -/

/-- Pass 2 clears a result only while the real count is too high, oldest
first, and until it is low enough. -/
structure StopsInTime (cfg : PruningConfig) (charWindow : Int) (entry : PassTwo)
    (cleared : List Nat) (out : List Message) : Prop where
  out_eq : out = clearAll cfg entry.output cleared
  needed : ∀ k < cleared.length,
    ¬ Below cfg charWindow (totalMessageChars (clearAll cfg entry.output (cleared.take k)))
  oldest : cleared <+: entry.indexes ∧ entry.indexes.Pairwise (· < ·)
  enough : Below cfg charWindow (totalMessageChars out) ∨ cleared = entry.indexes

/-- Whenever pass 2 is entered, it does. -/
def HardClearStops (cfg : PruningConfig) (msgs : List Message) (contextWindowTokens : Int) : Prop :=
  ∀ entry, passTwo msgs contextWindowTokens cfg = some entry →
    StopsInTime cfg (contextWindowTokens * charsPerTokenEstimate) entry
      (hardCleared cfg (contextWindowTokens * charsPerTokenEstimate) entry.indexes entry.output
        entry.totalChars)
      (pruneContextMessages msgs contextWindowTokens cfg)

/-- Where clearing results first brings the real count below the ratio,
the surplus of the trimmed texts and of the placeholders does not lift it
back. -/
def SurplusHarmless (cfg : PruningConfig) (msgs : List Message) (contextWindowTokens : Int) :
    Prop :=
  ∀ entry, passTwo msgs contextWindowTokens cfg = some entry → ∀ k < entry.indexes.length,
    (∀ j < k, ¬ Below cfg (contextWindowTokens * charsPerTokenEstimate)
      (realChars cfg entry.output entry.indexes j)) →
    Below cfg (contextWindowTokens * charsPerTokenEstimate)
      (realChars cfg entry.output entry.indexes k) →
    Below cfg (contextWindowTokens * charsPerTokenEstimate)
      (realChars cfg entry.output entry.indexes k
        + (trimSurplus cfg msgs entry.indexes + k * surplus cfg.hardClearPlaceholder))

/-- A smaller count is below the ratio if a larger one is. -/
def MonotoneRatio (cfg : PruningConfig) : Prop :=
  ∀ charWindow a b : Int, 0 < charWindow → a ≤ b → cfg.belowHardClear b charWindow = true →
    cfg.belowHardClear a charWindow = true

theorem realChars_le_counted (cfg : PruningConfig) (output : List Message) (indexes : List Nat)
    {ahead : Int} (hahead : 0 ≤ ahead) (k : Nat) :
    realChars cfg output indexes k ≤ counted cfg output indexes ahead k := by
  have hplaceholder : 0 ≤ (k : Int) * surplus cfg.hardClearPlaceholder :=
    Int.mul_nonneg (Int.natCast_nonneg k) (surplus_nonneg _)
  rw [counted]
  omega

theorem monotone_tenths (placeholder : String) (head tail : Int) :
    MonotoneRatio (tenthsConfig placeholder head tail) := by
  intro charWindow a b _ hab hb
  have hb' : 10 * b < 5 * charWindow := of_decide_eq_true hb
  exact decide_eq_true (by omega : 10 * a < 5 * charWindow)

/-- A user message, a result and the answer. -/
def oneResult (content : String) : List Message :=
  [textMessage .user "q", { textMessage .tool content with toolCallID := "c" },
    textMessage .assistant "a"]

end LendingClaw.Agent

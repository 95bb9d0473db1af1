/-
LendingClaw.Agent.Pairing — tool calls and their results in a message
list.

A list is `Paired` when each assistant message with tool calls is
directly followed by one tool message for each call, and tool messages
stand nowhere else: what a provider asks of a request. Concatenation
keeps it, and so does a cut in front of a message that is neither a
result nor a call. Two observations refute it: a count of calls and
results, and a call whose results stop too early.

`sanitizeHistory` makes any list `Paired` whose assistant messages have
distinct call ids.
-/
import LendingClaw.Agent.History
import LendingClaw.Agent.Flush

namespace LendingClaw.Agent

open LendingClaw.Providers

/-! ## Paired lists -/

inductive Paired : List Message → Prop where
  | nil : Paired []
  | plain {m : Message} {rest : List Message} (htool : m.role ≠ .tool) (hcalling : ¬ Calling m)
      (h : Paired rest) : Paired (m :: rest)
  | calls {a : Message} {results rest : List Message} (hcalling : Calling a)
      (hresults : ∀ r ∈ results, r.role = .tool)
      (hids : (results.map Message.toolCallID).Perm (a.toolCalls.map ToolCall.id))
      (h : Paired rest) : Paired (a :: (results ++ rest))

theorem Calling.not_tool {m : Message} (h : Calling m) : m.role ≠ .tool := by
  rw [h.1]
  decide

theorem Paired.append {xs ys : List Message} (hx : Paired xs) (hy : Paired ys) :
    Paired (xs ++ ys) := by
  induction hx with
  | nil => exact hy
  | plain htool hcalling h ih => exact Paired.plain htool hcalling ih
  | calls hcalling hresults hids h ih =>
    rw [List.cons_append, List.append_assoc]
    exact Paired.calls hcalling hresults hids ih

theorem Paired.single {m : Message} (htool : m.role ≠ .tool) (hcalling : ¬ Calling m) :
    Paired [m] := Paired.plain htool hcalling Paired.nil

theorem paired_textMessage {role : Role} (hrole : role ≠ .tool) (content : String) :
    Paired [textMessage role content] :=
  Paired.single hrole (fun h => h.2 rfl)

/-- What follows an assistant message with calls. -/
theorem Paired.results {l xs ys : List Message} {a : Message} (h : Paired l)
    (hl : l = xs ++ a :: ys) (ha : Calling a) :
    ∃ results rest, ys = results ++ rest ∧ (∀ r ∈ results, r.role = .tool)
      ∧ (results.map Message.toolCallID).Perm (a.toolCalls.map ToolCall.id) ∧ Paired rest := by
  induction h generalizing xs with
  | nil => simp at hl
  | plain htool hcalling h ih =>
    cases xs with
    | nil =>
      cases hl
      exact absurd ha hcalling
    | cons x xs => exact ih (List.cons.inj hl).2
  | calls hcalling hresults hids h ih =>
    cases xs with
    | nil =>
      cases hl
      exact ⟨_, _, rfl, hresults, hids, h⟩
    | cons x xs =>
      rcases List.append_eq_append_iff.mp (List.cons.inj hl).2 with ⟨zs, hxs, hrest⟩ | ⟨zs, hr, hzs⟩
      · exact ih hrest
      · -- the message would have to be one of the results before it
        cases zs with
        | nil =>
          have hstart : _ = [] ++ a :: ys := hzs.symm
          exact ih hstart
        | cons z zs =>
          cases hzs
          have htool := hresults a (by rw [hr]; simp)
          exact absurd htool ha.not_tool

/-- Results that stop before the last call. -/
theorem not_paired_of_stop {xs results ys : List Message} {a : Message} (ha : Calling a)
    (hlen : results.length < a.toolCalls.length) (hys : ∀ y ∈ ys.head?, y.role ≠ .tool) :
    ¬ Paired (xs ++ a :: (results ++ ys)) := by
  intro h
  obtain ⟨results', rest, heq, htool, hids, -⟩ := h.results rfl ha
  have hlen' : results'.length = a.toolCalls.length := by simpa using hids.length_eq
  have hget : (results ++ ys)[results.length]? = results'[results.length]? := by
    rw [heq, List.getElem?_append_left (by omega)]
  rw [List.getElem?_append_right (Nat.le_refl _), Nat.sub_self] at hget
  have hin : results.length < results'.length := by omega
  rw [List.getElem?_eq_getElem hin, ← List.head?_eq_getElem?] at hget
  exact hys _ hget (htool _ (List.getElem_mem hin))

/-- The list goes on where it is cut. -/
theorem Paired.drop {l : List Message} (h : Paired l) {n : Nat}
    (hcut : ∀ m ∈ l[n]?, m.role ≠ .tool) : Paired (l.drop n) := by
  induction h generalizing n with
  | nil => simpa using Paired.nil
  | plain htool hcalling h ih =>
    cases n with
    | zero => exact Paired.plain htool hcalling h
    | succ n => exact ih hcut
  | calls hcalling hresults hids h ih =>
    rename_i a results rest
    cases n with
    | zero => exact Paired.calls hcalling hresults hids h
    | succ n =>
      rw [List.getElem?_cons_succ] at hcut
      rw [List.drop_succ_cons]
      by_cases hn : n < results.length
      · rw [List.getElem?_append_left hn, List.getElem?_eq_getElem hn] at hcut
        exact absurd (hresults _ (List.getElem_mem hn)) (hcut _ rfl)
      · rw [List.drop_append, List.drop_eq_nil_of_le (Nat.not_lt.mp hn), List.nil_append]
        rw [List.getElem?_append_right (Nat.not_lt.mp hn)] at hcut
        exact ih hcut

/-- A paired list has its results behind its calls. -/
theorem Paired.resultsFollow {l : List Message} (h : Paired l) : ResultsFollow l := by
  induction h with
  | nil => trivial
  | plain htool hcalling h ih => exact ⟨fun hrole hcalls => absurd ⟨hrole, hcalls⟩ hcalling, ih⟩
  | calls hcalling hresults hids h ih =>
    rename_i a results rest
    refine ⟨fun _ _ => ⟨results, rest, rfl, hresults, hids⟩, ?_⟩
    have hplain : ∀ rs : List Message, (∀ r ∈ rs, r.role = .tool) → ResultsFollow (rs ++ rest) := by
      intro rs
      induction rs with
      | nil => exact fun _ => ih
      | cons r rs ihr =>
        intro hrs
        refine ⟨fun hrole => ?_, ihr (fun r' hr' => hrs r' (List.mem_cons_of_mem r hr'))⟩
        rw [hrs r List.mem_cons_self] at hrole
        cases hrole
    exact hplain results hresults

/-! ## Counting -/

/-- How many results a list has. -/
def resultCount (l : List Message) : Nat := l.countP (fun m => m.role = .tool)

/-- How many calls it makes. -/
def callCount (l : List Message) : Nat :=
  (l.map fun m => if Calling m then m.toolCalls.length else 0).sum

@[simp] theorem callCount_nil : callCount [] = 0 := rfl

@[simp] theorem callCount_cons (m : Message) (l : List Message) :
    callCount (m :: l) = (if Calling m then m.toolCalls.length else 0) + callCount l := rfl

@[simp] theorem callCount_append (l l' : List Message) :
    callCount (l ++ l') = callCount l + callCount l' := by
  simp [callCount]

@[simp] theorem resultCount_nil : resultCount [] = 0 := rfl

@[simp] theorem resultCount_cons (m : Message) (l : List Message) :
    resultCount (m :: l) = (if m.role = .tool then 1 else 0) + resultCount l := by
  rw [resultCount, List.countP_cons, Nat.add_comm]
  simp [resultCount]

@[simp] theorem resultCount_append (l l' : List Message) :
    resultCount (l ++ l') = resultCount l + resultCount l' := List.countP_append

theorem counts_of_results {rs : List Message} (h : ∀ r ∈ rs, r.role = .tool) :
    resultCount rs = rs.length ∧ callCount rs = 0 := by
  induction rs with
  | nil => exact ⟨rfl, rfl⟩
  | cons r rs ih =>
    have hr := h r List.mem_cons_self
    have hcalling : ¬ Calling r := fun hc => hc.not_tool hr
    obtain ⟨hresults, hcalls⟩ := ih (fun r' hr' => h r' (List.mem_cons_of_mem r hr'))
    simp [hr, hcalling, hresults, hcalls, Nat.add_comm]

/-- A paired list answers as many calls as it makes. -/
theorem Paired.counts {l : List Message} (h : Paired l) : resultCount l = callCount l := by
  induction h with
  | nil => rfl
  | plain htool hcalling h ih => simp [htool, hcalling, ih]
  | calls hcalling hresults hids h ih =>
    obtain ⟨hr, hc⟩ := counts_of_results hresults
    have hlen := hids.length_eq
    rw [List.length_map, List.length_map] at hlen
    simp [hcalling, hcalling.not_tool, hr, hc, hlen, ih]

/-! ## The sanitized history -/

/-- No assistant message gives two calls the same id. -/
def DistinctIds (msgs : List Message) : Prop :=
  ∀ m ∈ msgs, Calling m → (m.toolCalls.map ToolCall.id).Nodup

theorem missingResult_tool (ids : List String) :
    ∀ r ∈ ids.map missingResult, r.role = .tool := by
  intro r hr
  obtain ⟨id, -, rfl⟩ := List.mem_map.mp hr
  rfl

theorem missingResult_ids (ids : List String) :
    (ids.map missingResult).map Message.toolCallID = ids := by
  induction ids with
  | nil => rfl
  | cons id ids ih => exact congrArg (id :: ·) ih

theorem expectedIDs_of_calling {m : Message} (h : Calling m) :
    expectedIDs m = (m.toolCalls.map ToolCall.id).dedup := if_pos h

theorem expectedIDs_of_not {m : Message} (h : ¬ Calling m) : expectedIDs m = [] := if_neg h

section
variable (order : MapOrder)

/-- First the results that are expected, then a paired list. -/
theorem sanitizeFrom_paired {msgs : List Message} (hdistinct : DistinctIds msgs)
    (expected : List String) :
    ∃ results rest, sanitizeFrom order expected msgs = results ++ rest
      ∧ (∀ r ∈ results, r.role = .tool) ∧ (results.map Message.toolCallID).Perm expected
      ∧ Paired rest := by
  induction msgs generalizing expected with
  | nil =>
    refine ⟨(order.range 0 expected).map missingResult, [], ?_, missingResult_tool _, ?_,
      Paired.nil⟩
    · rw [sanitizeFrom, List.append_nil]
    · rw [missingResult_ids]
      exact order.perm 0 expected
  | cons msg msgs ih =>
    have hrest : DistinctIds msgs := fun m hm => hdistinct m (List.mem_cons_of_mem msg hm)
    rw [sanitizeFrom]
    by_cases htool : msg.role = .tool
    · rw [if_pos htool]
      by_cases hin : msg.toolCallID ∈ expected
      · rw [if_pos hin]
        obtain ⟨results, rest, heq, hresults, hids, hpaired⟩ :=
          ih hrest (expected.erase msg.toolCallID)
        refine ⟨msg :: results, rest, by rw [heq, List.cons_append], ?_, ?_, hpaired⟩
        · intro r hr
          cases hr with
          | head => exact htool
          | tail _ hr => exact hresults r hr
        · exact (hids.cons _).trans (List.perm_cons_erase hin).symm
      · rw [if_neg hin]
        exact ih hrest expected
    · rw [if_neg htool]
      refine ⟨(order.range (msgs.length + 1) expected).map missingResult, _, rfl,
        missingResult_tool _, ?_, ?_⟩
      · rw [missingResult_ids]
        exact order.perm _ expected
      · obtain ⟨results, rest, heq, hresults, hids, hpaired⟩ := ih hrest (expectedIDs msg)
        rw [heq]
        by_cases hcalling : Calling msg
        · have hnodup := hdistinct msg List.mem_cons_self hcalling
          rw [expectedIDs_of_calling hcalling, hnodup.dedup] at hids
          exact Paired.calls hcalling hresults hids hpaired
        · rw [expectedIDs_of_not hcalling, List.perm_nil, List.map_eq_nil_iff] at hids
          rw [hids]
          exact Paired.plain htool hcalling hpaired

theorem sanitizeHistory_paired {msgs : List Message} (hdistinct : DistinctIds msgs) :
    Paired (sanitizeHistory order msgs) := by
  obtain ⟨results, rest, heq, -, hids, hpaired⟩ := sanitizeFrom_paired order hdistinct []
  rw [List.perm_nil, List.map_eq_nil_iff] at hids
  rw [sanitizeHistory, heq, hids]
  exact hpaired

/-- The results of a sanitized list: one for each expected id. -/
theorem sanitizeFrom_counts (msgs : List Message) (expected : List String) :
    resultCount (sanitizeFrom order expected msgs)
        = expected.length + (msgs.map fun m => (expectedIDs m).length).sum
      ∧ callCount (sanitizeFrom order expected msgs) = callCount msgs := by
  have hmissing : ∀ place ids, resultCount ((order.range place ids).map missingResult) = ids.length
      ∧ callCount ((order.range place ids).map missingResult) = 0 := by
    intro place ids
    obtain ⟨hr, hc⟩ := counts_of_results (missingResult_tool (order.range place ids))
    rw [hr, List.length_map, (order.perm place ids).length_eq]
    exact ⟨rfl, hc⟩
  induction msgs generalizing expected with
  | nil => simpa [sanitizeFrom] using hmissing 0 expected
  | cons msg msgs ih =>
    rw [sanitizeFrom]
    by_cases htool : msg.role = .tool
    · have hcalling : ¬ Calling msg := fun hc => hc.not_tool htool
      by_cases hin : msg.toolCallID ∈ expected
      · obtain ⟨hr, hc⟩ := ih (expected.erase msg.toolCallID)
        have hlen := List.length_erase_of_mem hin
        have hpos := List.length_pos_of_mem hin
        rw [if_pos htool, if_pos hin, resultCount_cons, callCount_cons, callCount_cons, hr, hc]
        refine ⟨?_, rfl⟩
        simp only [if_pos htool, List.map_cons, List.sum_cons, expectedIDs_of_not hcalling,
          List.length_nil, hlen]
        omega
      · simpa [htool, hin, hcalling, expectedIDs_of_not hcalling] using ih expected
    · obtain ⟨hr, hc⟩ := ih (expectedIDs msg)
      obtain ⟨hmr, hmc⟩ := hmissing (msgs.length + 1) expected
      simp [htool, hr, hc, hmr, hmc]

/-- A repeated id leaves a call without a result of its own. -/
theorem distinctIds_of_counts {msgs : List Message}
    (h : (msgs.map fun m => (expectedIDs m).length).sum = callCount msgs) : DistinctIds msgs := by
  have hle : ∀ m : Message,
      (expectedIDs m).length ≤ if Calling m then m.toolCalls.length else 0 := by
    intro m
    by_cases hcalling : Calling m
    · rw [expectedIDs_of_calling hcalling, if_pos hcalling, ← List.length_map ToolCall.id]
      exact (List.dedup_sublist _).length_le
    · rw [expectedIDs_of_not hcalling]
      exact Nat.zero_le _
  have hsum : ∀ msgs : List Message,
      (msgs.map fun m => (expectedIDs m).length).sum ≤ callCount msgs := by
    intro msgs
    induction msgs with
    | nil => exact Nat.le_refl _
    | cons msg msgs ih =>
      have hmsg := hle msg
      simp only [List.map_cons, List.sum_cons, callCount_cons]
      omega
  induction msgs with
  | nil =>
    intro m hm
    cases hm
  | cons msg msgs ih =>
    simp only [List.map_cons, List.sum_cons, callCount_cons] at h
    have hmsg := hle msg
    have hmsgs := hsum msgs
    intro m hm hcalling
    cases hm with
    | head =>
      rw [if_pos hcalling] at h hmsg
      have hlen : (msg.toolCalls.map ToolCall.id).dedup.length
          = (msg.toolCalls.map ToolCall.id).length := by
        rw [← expectedIDs_of_calling hcalling, List.length_map]
        omega
      rw [← (List.dedup_sublist _).eq_of_length hlen]
      exact List.nodup_dedup _
    | tail _ hm => exact ih (by omega) m hm hcalling

end

/-- As many results as calls: no id was repeated. -/
theorem distinctIds_of_sanitized {order : MapOrder} {msgs : List Message}
    (h : resultCount (sanitizeHistory order msgs) = callCount (sanitizeHistory order msgs)) :
    DistinctIds msgs := by
  obtain ⟨hr, hc⟩ := sanitizeFrom_counts order msgs []
  apply distinctIds_of_counts
  rw [← hc, ← sanitizeHistory, ← h, sanitizeHistory, hr, List.length_nil, Nat.zero_add]

/-- Sanitizing pairs exactly the lists without a repeated id. -/
theorem sanitizeHistory_paired_iff (order : MapOrder) (msgs : List Message) :
    Paired (sanitizeHistory order msgs) ↔ DistinctIds msgs :=
  ⟨fun h => distinctIds_of_sanitized h.counts, sanitizeHistory_paired order⟩

/-- Nothing but tool messages is changed. -/
theorem sanitizeFrom_others (order : MapOrder) (msgs : List Message) (expected : List String) :
    (sanitizeFrom order expected msgs).filter (fun m => m.role ≠ .tool)
      = msgs.filter (fun m => m.role ≠ .tool) := by
  have hmissing : ∀ ids : List String,
      (ids.map missingResult).filter (fun m => m.role ≠ .tool) = [] := by
    intro ids
    rw [List.filter_eq_nil_iff]
    intro r hr
    simp [missingResult_tool ids r hr]
  induction msgs generalizing expected with
  | nil => simpa [sanitizeFrom] using hmissing (order.range 0 expected)
  | cons msg msgs ih =>
    rw [sanitizeFrom]
    by_cases htool : msg.role = .tool
    · by_cases hin : msg.toolCallID ∈ expected
      · simpa [htool, hin] using ih (expected.erase msg.toolCallID)
      · simpa [htool, hin] using ih expected
    · rw [if_neg htool, List.filter_append, hmissing, List.nil_append]
      simpa [htool] using ih (expectedIDs msg)

end LendingClaw.Agent

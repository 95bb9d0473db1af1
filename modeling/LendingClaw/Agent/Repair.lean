/-
LendingClaw.Agent.Repair — what `sanitizeHistory` makes of any message
list (`internal/agent/history.go`), repeated call ids included.

`Settled` lists are those that it leaves alone: behind each message
stand one result for each id it waits for, and no other tool messages.
`Repaired` compares the list that comes out with the one that went in.
-/
import LendingClaw.Agent.Pairing

namespace LendingClaw.Agent

open LendingClaw.Providers

/-! ## Settled lists -/

/-- First the results of these ids, then each message with its own. -/
inductive Settled : (expected : List String) → List Message → Prop where
  | nil : Settled [] []
  | result {expected : List String} {m : Message} {rest : List Message} (htool : m.role = .tool)
      (hid : m.toolCallID ∈ expected) (h : Settled (expected.erase m.toolCallID) rest) :
      Settled expected (m :: rest)
  | other {m : Message} {rest : List Message} (htool : m.role ≠ .tool)
      (h : Settled (expectedIDs m) rest) : Settled [] (m :: rest)

theorem settled_missing {ids expected : List String} (hids : ids.Perm expected) {l : List Message}
    (h : Settled [] l) : Settled expected (ids.map missingResult ++ l) := by
  induction ids generalizing expected with
  | nil =>
    rw [List.nil_perm.mp hids]
    exact h
  | cons id ids ih =>
    have hid : id ∈ expected := hids.subset List.mem_cons_self
    have hrest : ids.Perm (expected.erase id) :=
      List.Perm.cons_inv (hids.trans (List.perm_cons_erase hid))
    exact Settled.result rfl hid (ih hrest)

theorem sanitizeFrom_settled (order : MapOrder) (msgs : List Message) (expected : List String) :
    Settled expected (sanitizeFrom order expected msgs) := by
  induction msgs generalizing expected with
  | nil =>
    have h := settled_missing (order.perm 0 expected) Settled.nil
    rwa [List.append_nil] at h
  | cons msg msgs ih =>
    rw [sanitizeFrom]
    by_cases htool : msg.role = .tool
    · rw [if_pos htool]
      by_cases hin : msg.toolCallID ∈ expected
      · rw [if_pos hin]
        exact Settled.result htool hin (ih _)
      · rw [if_neg hin]
        exact ih expected
    · rw [if_neg htool]
      exact settled_missing (order.perm _ expected) (Settled.other htool (ih _))

theorem range_nil (order : MapOrder) (place : Nat) : order.range place [] = [] :=
  List.perm_nil.mp (order.perm place [])

/-- A settled list stays as it is, whatever the order of the map. -/
theorem Settled.sanitizeFrom_eq {expected : List String} {l : List Message} (h : Settled expected l)
    (order : MapOrder) : sanitizeFrom order expected l = l := by
  induction h with
  | nil => rw [sanitizeFrom, range_nil, List.map_nil]
  | result htool hid h ih => rw [sanitizeFrom, if_pos htool, if_pos hid, ih]
  | other htool h ih => rw [sanitizeFrom, if_neg htool, range_nil, List.map_nil, List.nil_append, ih]

/-- The results a settled list starts with. -/
theorem Settled.results {expected : List String} {l : List Message} (h : Settled expected l) :
    ∃ results rest, l = results ++ rest ∧ (∀ r ∈ results, r.role = .tool)
      ∧ (results.map Message.toolCallID).Perm expected ∧ ∀ m ∈ rest.head?, m.role ≠ .tool := by
  induction h with
  | nil => exact ⟨[], [], rfl, by simp, List.Perm.nil, by simp⟩
  | result htool hid h ih =>
    rename_i expected m rest
    obtain ⟨results, rest', rfl, hresults, hids, hhead⟩ := ih
    refine ⟨m :: results, rest', rfl, ?_, ?_, hhead⟩
    · intro r hr
      cases hr with
      | head => exact htool
      | tail _ hr => exact hresults r hr
    · exact (hids.cons _).trans (List.perm_cons_erase hid).symm
  | other htool h ih =>
    rename_i m rest
    refine ⟨[], m :: rest, rfl, by simp, List.Perm.nil, ?_⟩
    intro m' hm'
    cases hm'
    exact htool

/-- Behind an assistant message with calls: one result for each id. -/
theorem Settled.one {expected : List String} {l before after : List Message} {a : Message}
    (h : Settled expected l) (hl : l = before ++ a :: after) (ha : Calling a) :
    ∃ results rest, after = results ++ rest ∧ (∀ r ∈ results, r.role = .tool)
      ∧ (results.map Message.toolCallID).Perm (a.toolCalls.map ToolCall.id).dedup
      ∧ ∀ m ∈ rest.head?, m.role ≠ .tool := by
  induction h generalizing before with
  | nil => simp at hl
  | result htool hid h ih =>
    cases before with
    | nil =>
      cases hl
      exact absurd htool ha.not_tool
    | cons m before => exact ih (List.cons.inj hl).2
  | other htool h ih =>
    cases before with
    | nil =>
      cases hl
      rw [← expectedIDs_of_calling ha]
      exact h.results
    | cons m before => exact ih (List.cons.inj hl).2

/-! ## Where the results come from -/

/-- The messages that are no results. -/
def others (msgs : List Message) : List Message := msgs.filter fun m => m.role ≠ .tool

theorem others_missing (ids : List String) : others (ids.map missingResult) = [] := by
  rw [others, List.filter_eq_nil_iff]
  intro r hr
  simp [missingResult_tool ids r hr]

theorem others_missing_single (ids : List String) (m : Message) :
    others (ids.map missingResult ++ [m]) = others [m] := by
  rw [others, others, List.filter_append, ← others, others_missing, List.nil_append]

theorem others_cons_tool {m : Message} (h : m.role = .tool) (msgs : List Message) :
    others (m :: msgs) = others msgs := by
  simp [others, h]

theorem others_append (msgs msgs' : List Message) :
    others (msgs ++ msgs') = others msgs ++ others msgs' := List.filter_append _ _

theorem others_cons (m : Message) (msgs : List Message) :
    others (m :: msgs) = others [m] ++ others msgs := others_append [m] msgs

/-- A tool message behind `pre` answers a call of the assistant message
`a` that only results part from it; it was made up, or stands in `msgs`
behind that message. -/
def AnswersCall (msgs pre : List Message) (t : Message) : Prop :=
  ∃ before a results, pre = before ++ a :: results ∧ Calling a
    ∧ (∀ r ∈ results, r.role = .tool) ∧ t.toolCallID ∈ a.toolCalls.map ToolCall.id
    ∧ (t = missingResult t.toolCallID
      ∨ ∃ before' after', msgs = before' ++ a :: after' ∧ others before' = others before
        ∧ t ∈ after')

section
variable {msgs pre : List Message} {t : Message}

/-- The list went in with a message more. -/
theorem AnswersCall.skip (h : AnswersCall msgs pre t) {m : Message} (hm : m.role = .tool) :
    AnswersCall (m :: msgs) pre t := by
  obtain ⟨before, a, results, hpre, ha, hresults, hid, hfrom⟩ := h
  refine ⟨before, a, results, hpre, ha, hresults, hid, hfrom.imp_right ?_⟩
  rintro ⟨before', after', rfl, hothers, ht⟩
  exact ⟨m :: before', after', rfl, by rw [others_cons_tool hm, hothers], ht⟩

/-- The same messages stand in front of both lists, but for results. -/
theorem AnswersCall.cons (h : AnswersCall msgs pre t) {front : List Message} {m : Message}
    (hfront : others front = others [m]) : AnswersCall (m :: msgs) (front ++ pre) t := by
  obtain ⟨before, a, results, rfl, ha, hresults, hid, hfrom⟩ := h
  refine ⟨front ++ before, a, results, (List.append_assoc _ _ _).symm, ha, hresults, hid,
    hfrom.imp_right ?_⟩
  rintro ⟨before', after', rfl, hothers, ht⟩
  refine ⟨m :: before', after', rfl, ?_, ht⟩
  rw [others_cons, others_append, hothers, hfront]

end

/-- Among messages made up stand only such, each for one of the ids. -/
theorem missing_split {ids : List String} {pre post : List Message} {t : Message}
    (h : ids.map missingResult = pre ++ t :: post) :
    (∀ r ∈ pre, r.role = .tool) ∧ t.toolCallID ∈ ids ∧ t = missingResult t.toolCallID := by
  have hin : t ∈ ids.map missingResult := by
    rw [h]
    exact List.mem_append_right _ List.mem_cons_self
  obtain ⟨id, hid, rfl⟩ := List.mem_map.mp hin
  refine ⟨fun r hr => missingResult_tool ids r ?_, hid, rfl⟩
  rw [h]
  exact List.mem_append_left _ hr

/-- A result is expected from the start, or answers a message of the list. -/
theorem sanitizeFrom_origin (order : MapOrder) {msgs : List Message} {expected : List String}
    {pre post : List Message} {t : Message}
    (heq : sanitizeFrom order expected msgs = pre ++ t :: post) (ht : t.role = .tool) :
    ((∀ r ∈ pre, r.role = .tool) ∧ t.toolCallID ∈ expected
        ∧ (t = missingResult t.toolCallID ∨ t ∈ msgs))
      ∨ AnswersCall msgs pre t := by
  induction msgs generalizing expected pre with
  | nil =>
    obtain ⟨hpre, hid, hmissing⟩ := missing_split heq
    exact Or.inl ⟨hpre, (order.perm 0 expected).mem_iff.mp hid, Or.inl hmissing⟩
  | cons msg msgs ih =>
    rw [sanitizeFrom] at heq
    by_cases htool : msg.role = .tool
    · rw [if_pos htool] at heq
      by_cases hin : msg.toolCallID ∈ expected
      · rw [if_pos hin] at heq
        cases pre with
        | nil =>
          cases heq
          exact Or.inl ⟨by simp, hin, Or.inr List.mem_cons_self⟩
        | cons p pre =>
          obtain ⟨rfl, hrest⟩ := List.cons.inj heq
          rcases ih hrest with ⟨hpre, hid, hfrom⟩ | hanswers
          · refine Or.inl ⟨?_, List.mem_of_mem_erase hid, hfrom.imp_right (List.mem_cons_of_mem _)⟩
            intro r hr
            cases hr with
            | head => exact htool
            | tail _ hr => exact hpre r hr
          · exact Or.inr (hanswers.cons rfl)
      · rw [if_neg hin] at heq
        rcases ih heq with ⟨hpre, hid, hfrom⟩ | hanswers
        · exact Or.inl ⟨hpre, hid, hfrom.imp_right (List.mem_cons_of_mem _)⟩
        · exact Or.inr (hanswers.skip htool)
    · rw [if_neg htool] at heq
      rcases List.append_eq_append_iff.mp heq with ⟨zs, rfl, hzs⟩ | ⟨zs, hmissing, hzs⟩
      · cases zs with
        | nil =>
          cases hzs
          exact absurd ht htool
        | cons z zs =>
          -- the message that made the call, or one behind it
          obtain ⟨rfl, hrest⟩ := List.cons.inj hzs
          rcases ih hrest with ⟨hpre, hid, hfrom⟩ | hanswers
          · have hcalling : Calling msg := by
              by_contra hnot
              rw [expectedIDs_of_not hnot] at hid
              cases hid
            rw [expectedIDs_of_calling hcalling, List.mem_dedup] at hid
            refine Or.inr ⟨_, msg, zs, rfl, hcalling, hpre, hid, hfrom.imp_right ?_⟩
            intro hmem
            exact ⟨[], msgs, rfl, (others_missing _).symm, hmem⟩
          · have hfront := hanswers.cons
              (others_missing_single (order.range (msgs.length + 1) expected) msg)
            rw [List.append_assoc] at hfront
            exact Or.inr hfront
      · cases zs with
        | nil =>
          cases hzs
          exact absurd ht htool
        | cons z zs =>
          obtain ⟨rfl, -⟩ := List.cons.inj hzs
          obtain ⟨hpre, hid, hmade⟩ := missing_split hmissing
          exact Or.inl ⟨hpre, (order.perm _ expected).mem_iff.mp hid, Or.inl hmade⟩

/-! ## The repaired list -/

/-- What `out` is to the list `msgs` that it repairs. -/
structure Repaired (msgs out : List Message) : Prop where
  others : others out = others msgs
  results : ∀ pre t post, out = pre ++ t :: post → t.role = .tool → AnswersCall msgs pre t
  one : ∀ before a after, out = before ++ a :: after → Calling a →
    ∃ results rest, after = results ++ rest ∧ (∀ r ∈ results, r.role = .tool)
      ∧ (results.map Message.toolCallID).Perm (a.toolCalls.map ToolCall.id).dedup
      ∧ ∀ m ∈ rest.head?, m.role ≠ .tool

theorem sanitizeHistory_repaired (order : MapOrder) (msgs : List Message) :
    Repaired msgs (sanitizeHistory order msgs) where
  others := sanitizeFrom_others order msgs []
  results := by
    intro pre t post heq ht
    rcases sanitizeFrom_origin order heq ht with ⟨-, hid, -⟩ | hanswers
    · cases hid
    · exact hanswers
  one := by
    intro before a after heq ha
    exact (sanitizeFrom_settled order msgs []).one heq ha

/-- The history is repaired, and another time nothing changes, in
whatever order the maps are ranged over. -/
theorem sanitizeHistory_exact (order order' : MapOrder) (msgs : List Message) :
    Repaired msgs (sanitizeHistory order msgs)
      ∧ sanitizeHistory order' (sanitizeHistory order msgs) = sanitizeHistory order msgs :=
  ⟨sanitizeHistory_repaired order msgs, (sanitizeFrom_settled order msgs []).sanitizeFrom_eq order'⟩

end LendingClaw.Agent

/-
LendingClaw.Agent.Pruning — trimming old tool results
(`internal/agent/pruning.go`).

The comparisons of the two ratios are floating point arithmetic on the
total and the window: they are parameters. The rest is as in the source,
which counts runes everywhere but in what a trim adds to the total.
Whatever the ratios say, pruning replaces tool messages by tool messages
for the same call, in their places, and leaves all others alone.
-/
import LendingClaw.Agent.History
import Mathlib.Data.List.Forall2

namespace LendingClaw.Agent

open LendingClaw.Providers

/-- `PruningConfig`; `belowSoftTrim` and `belowHardClear` compare
`totalChars / charWindow` to the two ratios. -/
structure PruningConfig where
  keepLastAssistants : Int
  belowSoftTrim : (totalChars charWindow : Int) → Bool
  belowHardClear : (totalChars charWindow : Int) → Bool
  minPrunableToolChars : Int
  softTrimMaxChars : Int
  softTrimHeadChars : Int
  softTrimTailChars : Int
  hardClearEnabled : Bool
  hardClearPlaceholder : String
  mode : String

def charsPerTokenEstimate : Int := 4

/-- `estimateMessageChars`. -/
def estimateMessageChars (m : Message) : Int := m.content.length

def totalMessageChars (msgs : List Message) : Int :=
  msgs.foldl (fun total m => total + estimateMessageChars m) 0

/-- `takeHead`: the first `n` runes. -/
def takeHead (s : String) (n : Int) : String :=
  if n ≤ 0 then "" else if s.length ≤ n then s else String.ofList (s.toList.take n.toNat)

/-- `takeTail`: the last `n` runes. -/
def takeTail (s : String) (n : Int) : String :=
  if n ≤ 0 then ""
  else if s.length ≤ n then s
  else String.ofList (s.toList.drop (s.length - n.toNat))

/-- The loop of `findAssistantCutoff`, counting down. -/
def assistantScan (msgs : List Message) : (i : Nat) → (remaining : Int) → Option Nat
  | 0, _ => none
  | i + 1, remaining =>
    if (msgs[i]?).map Message.role = some .assistant then
      if remaining - 1 = 0 then some i else assistantScan msgs i (remaining - 1)
    else assistantScan msgs i remaining

/-- `findAssistantCutoff`; none is -1. -/
def findAssistantCutoff (msgs : List Message) (keepLast : Int) : Option Nat :=
  if keepLast ≤ 0 then some msgs.length else assistantScan msgs msgs.length keepLast

/-- The tool results with content from the first user message to the
cutoff. -/
def prunableIndexes (msgs : List Message) (cutoffIndex : Nat) : List Nat :=
  (List.range cutoffIndex).filter fun i =>
    msgs.findIdx (fun m => m.role = .user) ≤ i
      && (msgs[i]?).any (fun m => m.role = .tool && m.content ≠ "")

/-- The message that takes the place of a result. -/
def withContent (msg : Message) (content : String) : Message :=
  { role := msg.role, content := content, toolCalls := [], toolCallID := msg.toolCallID }

def PruningConfig.trimmed (cfg : PruningConfig) (msg : Message) : String :=
  takeHead msg.content cfg.softTrimHeadChars ++ "\n...\n"
    ++ takeTail msg.content cfg.softTrimTailChars ++ "\n\n[Tool result trimmed: kept first "
    ++ toString cfg.softTrimHeadChars ++ " chars and last " ++ toString cfg.softTrimTailChars
    ++ " chars of " ++ toString (estimateMessageChars msg) ++ " chars.]"

/-- Pass 1: long results are cut to head and tail. -/
def softTrim (cfg : PruningConfig) (msgs : List Message) :
    List Nat → (result : List Message) → (totalChars : Int) → List Message × Int
  | [], result, totalChars => (result, totalChars)
  | idx :: rest, result, totalChars =>
    match msgs[idx]? with
    | none => softTrim cfg msgs rest result totalChars
    | some msg =>
      if estimateMessageChars msg ≤ cfg.softTrimMaxChars then
        softTrim cfg msgs rest result totalChars
      else
        softTrim cfg msgs rest (result.set idx (withContent msg (cfg.trimmed msg)))
          (totalChars + ((cfg.trimmed msg).utf8ByteSize - estimateMessageChars msg))

/-- Pass 2: results are replaced until the ratio is low enough. -/
def hardClear (cfg : PruningConfig) (charWindow : Int) :
    List Nat → (output : List Message) → (totalChars : Int) → List Message
  | [], output, _ => output
  | idx :: rest, output, totalChars =>
    if cfg.belowHardClear totalChars charWindow then output
    else
      match output[idx]? with
      | none => hardClear cfg charWindow rest output totalChars
      | some msg =>
        hardClear cfg charWindow rest (output.set idx (withContent msg cfg.hardClearPlaceholder))
          (totalChars + (cfg.hardClearPlaceholder.utf8ByteSize - estimateMessageChars msg))

/-- `pruneContextMessages`. -/
def pruneContextMessages (msgs : List Message) (contextWindowTokens : Int)
    (cfg : PruningConfig) : List Message :=
  if cfg.mode = "disabled" then msgs
  else if contextWindowTokens ≤ 0 ∨ msgs = [] then msgs
  else
    match findAssistantCutoff msgs cfg.keepLastAssistants with
    | none => msgs
    | some cutoffIndex =>
      let charWindow := contextWindowTokens * charsPerTokenEstimate
      let totalChars := totalMessageChars msgs
      let indexes := prunableIndexes msgs cutoffIndex
      if cfg.belowSoftTrim totalChars charWindow then msgs
      else if indexes = [] then msgs
      else
        let (output, totalChars) := softTrim cfg msgs indexes msgs totalChars
        if cfg.belowHardClear totalChars charWindow || !cfg.hardClearEnabled then output
        else
          let prunableChars := totalMessageChars (indexes.filterMap fun i => output[i]?)
          if prunableChars < cfg.minPrunableToolChars then output
          else hardClear cfg charWindow indexes output totalChars

/-! ## What pruning keeps -/

/-- The same message, or another text for the same tool result. -/
def Pruned (m m' : Message) : Prop :=
  m' = m ∨ (m.role = .tool ∧ m'.role = .tool ∧ m'.toolCallID = m.toolCallID)

theorem Pruned.role {m m' : Message} (h : Pruned m m') : m'.role = m.role := by
  rcases h with rfl | ⟨hm, hm', -⟩
  · rfl
  · rw [hm, hm']

/-- One replacement, of the original or of what is there by now. -/
theorem pruned_set {msgs out : List Message} (h : List.Forall₂ Pruned msgs out) {i : Nat}
    {msg : Message} (hmsg : msgs[i]? = some msg) (htool : msg.role = .tool) (content : String)
    (now : Message) (hnow : Pruned msg now) :
    List.Forall₂ Pruned msgs (out.set i (withContent now content)) := by
  induction h generalizing i with
  | nil => simp at hmsg
  | cons hm h ih =>
    cases i with
    | zero =>
      cases hmsg
      refine List.Forall₂.cons (Or.inr ⟨htool, ?_, ?_⟩) h
      · rw [← htool]
        exact hnow.role
      · rcases hnow with rfl | ⟨-, -, hid⟩
        · rfl
        · exact hid
    | succ i => exact List.Forall₂.cons hm (ih hmsg)

theorem tool_of_mem_prunableIndexes {msgs : List Message} {cutoffIndex i : Nat} {msg : Message}
    (hi : i ∈ prunableIndexes msgs cutoffIndex) (hmsg : msgs[i]? = some msg) :
    msg.role = .tool := by
  have h := (List.mem_filter.mp hi).2
  rw [hmsg, Bool.and_eq_true, Option.any_some, Bool.and_eq_true] at h
  exact of_decide_eq_true h.2.1

section
variable (cfg : PruningConfig) {msgs : List Message} {indexes : List Nat}

theorem softTrim_pruned
    (htool : ∀ i ∈ indexes, ∀ msg, msgs[i]? = some msg → msg.role = .tool)
    (result : List Message) (totalChars : Int) (h : List.Forall₂ Pruned msgs result) :
    List.Forall₂ Pruned msgs (softTrim cfg msgs indexes result totalChars).1 := by
  induction indexes generalizing result totalChars with
  | nil => exact h
  | cons idx indexes ih =>
    have hrest := fun i hi => htool i (List.mem_cons_of_mem idx hi)
    rw [softTrim]
    cases hmsg : msgs[idx]? with
    | none => exact ih hrest result totalChars h
    | some msg =>
      have hrole := htool idx List.mem_cons_self msg hmsg
      by_cases hshort : estimateMessageChars msg ≤ cfg.softTrimMaxChars
      · simp only [if_pos hshort]
        exact ih hrest result totalChars h
      · simp only [if_neg hshort]
        exact ih hrest _ _ (pruned_set h hmsg hrole _ msg (Or.inl rfl))

theorem hardClear_pruned (charWindow : Int)
    (htool : ∀ i ∈ indexes, ∀ msg, msgs[i]? = some msg → msg.role = .tool)
    (output : List Message) (totalChars : Int) (h : List.Forall₂ Pruned msgs output) :
    List.Forall₂ Pruned msgs (hardClear cfg charWindow indexes output totalChars) := by
  induction indexes generalizing output totalChars with
  | nil => exact h
  | cons idx indexes ih =>
    have hrest := fun i hi => htool i (List.mem_cons_of_mem idx hi)
    rw [hardClear]
    by_cases hbelow : cfg.belowHardClear totalChars charWindow = true
    · rw [if_pos hbelow]
      exact h
    · rw [if_neg hbelow]
      cases hout : output[idx]? with
      | none => exact ih hrest output totalChars h
      | some msg' =>
        obtain ⟨hlt, rfl⟩ := List.getElem?_eq_some_iff.mp hout
        have hlt' : idx < msgs.length := h.length_eq ▸ hlt
        have hpruned := h.get hlt' hlt
        exact ih hrest _ _ (pruned_set h (List.getElem?_eq_getElem hlt')
          (htool idx List.mem_cons_self _ (List.getElem?_eq_getElem hlt')) _ _ hpruned)

end

theorem pruneContextMessages_pruned (msgs : List Message) (contextWindowTokens : Int)
    (cfg : PruningConfig) :
    List.Forall₂ Pruned msgs (pruneContextMessages msgs contextWindowTokens cfg) := by
  have hsame : List.Forall₂ Pruned msgs msgs := List.forall₂_same.mpr fun _ _ => Or.inl rfl
  unfold pruneContextMessages
  by_cases hmode : cfg.mode = "disabled"
  · rw [if_pos hmode]
    exact hsame
  rw [if_neg hmode]
  by_cases hempty : contextWindowTokens ≤ 0 ∨ msgs = []
  · rw [if_pos hempty]
    exact hsame
  rw [if_neg hempty]
  cases findAssistantCutoff msgs cfg.keepLastAssistants with
  | none => exact hsame
  | some cutoffIndex =>
    have htool : ∀ i ∈ prunableIndexes msgs cutoffIndex, ∀ msg, msgs[i]? = some msg →
        msg.role = .tool := fun i hi msg hmsg => tool_of_mem_prunableIndexes hi hmsg
    have hsoft := softTrim_pruned cfg htool msgs (totalMessageChars msgs) hsame
    dsimp only
    split
    · exact hsame
    · split
      · exact hsame
      · split
        · exact hsoft
        · split
          · exact hsoft
          · exact hardClear_pruned cfg _ htool _ _ hsoft

/-- Nothing but tool messages is changed. -/
theorem pruneContextMessages_others (msgs : List Message) (contextWindowTokens : Int)
    (cfg : PruningConfig) :
    (pruneContextMessages msgs contextWindowTokens cfg).filter (fun m => m.role ≠ .tool)
      = msgs.filter (fun m => m.role ≠ .tool) := by
  have h := pruneContextMessages_pruned msgs contextWindowTokens cfg
  generalize pruneContextMessages msgs contextWindowTokens cfg = out at h ⊢
  induction h with
  | nil => rfl
  | cons hm h ih =>
    rename_i m m' msgs out
    by_cases htool : m.role = .tool
    · have htool' : m'.role = .tool := hm.role.trans htool
      simpa [htool, htool'] using ih
    · have heq : m' = m := hm.resolve_right fun hr => htool hr.1
      subst heq
      simpa [htool] using ih

end LendingClaw.Agent

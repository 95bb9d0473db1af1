/-
LendingClaw.Agent.PruningFrame — which messages pruning may touch, and
that it writes to no slice but its own (`internal/agent/pruning.go`).

The two passes share a slice that is copied when it is first written to.
`Arrays` has the arrays behind the slices, the caller's among them, and
`pruneSlices` is the function with its writes; what it returns is the
list of `pruneContextMessages`.
-/
import LendingClaw.Agent.Pruning

namespace LendingClaw.Agent

open LendingClaw.Providers

/-! ## The cutoff -/

/-- How many assistant messages a list has. -/
def assistantCount (msgs : List Message) : Nat := msgs.countP fun m => m.role = .assistant

theorem assistantCount_append (msgs msgs' : List Message) :
    assistantCount (msgs ++ msgs') = assistantCount msgs + assistantCount msgs' :=
  List.countP_append

/-- The scan stops at the message that is the last one counted. -/
theorem assistantScan_some {msgs : List Message} {i c : Nat} {remaining : Int}
    (h : assistantScan msgs i remaining = some c) (hi : i ≤ msgs.length) :
    c < i ∧ (assistantCount ((msgs.take i).drop c) : Int) = remaining := by
  induction i generalizing remaining with
  | zero => simp [assistantScan] at h
  | succ i ih =>
    have hlt : i < msgs.length := hi
    have htake : msgs.take (i + 1) = msgs.take i ++ [msgs[i]] := List.take_succ_eq_append_getElem hlt
    rw [assistantScan, List.getElem?_eq_getElem hlt] at h
    by_cases hrole : msgs[i].role = .assistant
    · have hone : assistantCount [msgs[i]] = 1 := by simp [assistantCount, hrole]
      rw [if_pos (by simp [hrole])] at h
      by_cases hlast : remaining - 1 = 0
      · rw [if_pos hlast] at h
        cases h
        refine ⟨Nat.lt_succ_self _, ?_⟩
        rw [htake, List.drop_append_of_le_length (by simp; omega), List.drop_eq_nil_of_le (by simp),
          List.nil_append, hone]
        omega
      · rw [if_neg hlast] at h
        obtain ⟨hc, hcount⟩ := ih h (by omega)
        refine ⟨by omega, ?_⟩
        rw [htake, List.drop_append_of_le_length (by simp; omega), assistantCount_append, hone]
        omega
    · have hnone : assistantCount [msgs[i]] = 0 := by simp [assistantCount, hrole]
      rw [if_neg (by simp [hrole])] at h
      obtain ⟨hc, hcount⟩ := ih h (by omega)
      refine ⟨by omega, ?_⟩
      rw [htake, List.drop_append_of_le_length (by simp; omega), assistantCount_append, hnone]
      omega

/-- A tool result with text, behind a user message, and old: enough
assistant messages follow it. -/
def OldResult (msgs : List Message) (keepLast : Int) (i : Nat) : Prop :=
  ∃ m, msgs[i]? = some m ∧ m.role = .tool ∧ m.content ≠ ""
    ∧ (∃ u ∈ msgs.take i, u.role = .user)
    ∧ keepLast ≤ assistantCount (msgs.drop (i + 1))

theorem oldResult_of_mem {msgs : List Message} {keepLast : Int} {cutoffIndex i : Nat}
    (hcutoff : findAssistantCutoff msgs keepLast = some cutoffIndex)
    (hi : i ∈ prunableIndexes msgs cutoffIndex) : OldResult msgs keepLast i := by
  obtain ⟨hrange, hprunable⟩ := List.mem_filter.mp hi
  rw [List.mem_range] at hrange
  rw [Bool.and_eq_true, Option.any_eq_true] at hprunable
  obtain ⟨hfrom, m, hm, hkind⟩ := hprunable
  rw [Bool.and_eq_true] at hkind
  have htool : m.role = .tool := of_decide_eq_true hkind.1
  have hcontent : m.content ≠ "" := by simpa using hkind.2
  obtain ⟨hlt, hget⟩ := List.getElem?_eq_some_iff.mp hm
  refine ⟨m, hm, htool, hcontent, ?_, ?_⟩
  · -- the first user message is not this one
    have hle := of_decide_eq_true hfrom
    have hin : msgs.findIdx (fun m => m.role = .user) < msgs.length := by omega
    have huser := of_decide_eq_true (List.findIdx_getElem (w := hin))
    have hne : msgs.findIdx (fun m => m.role = .user) ≠ i := by
      intro heq
      simp only [heq, hget, htool] at huser
      cases huser
    exact ⟨_, List.mem_take_iff_getElem.mpr ⟨_, by omega, rfl⟩, huser⟩
  · rw [findAssistantCutoff] at hcutoff
    split at hcutoff
    · omega
    · obtain ⟨hc, hcount⟩ := assistantScan_some hcutoff (Nat.le_refl _)
      rw [List.take_length] at hcount
      rw [← hcount]
      have hsub : (msgs.drop cutoffIndex).Sublist (msgs.drop (i + 1)) :=
        List.drop_sublist_drop_left _ hrange
      exact_mod_cast hsub.countP_le

/-! ## The two passes -/

/-- What a pass may make of a result. -/
def Shortened (cfg : PruningConfig) (m m' : Message) : Prop :=
  m' = withContent m (cfg.trimmed m) ∨ m' = withContent m cfg.hardClearPlaceholder

/-- The messages at these indexes may be shortened, no others. -/
def KeptBut (cfg : PruningConfig) (indexes : List Nat) (msgs out : List Message) : Prop :=
  out.length = msgs.length
    ∧ ∀ i m m', msgs[i]? = some m → out[i]? = some m' → m' = m ∨ (i ∈ indexes ∧ Shortened cfg m m')

section
variable {cfg : PruningConfig} {all : List Nat} {msgs out : List Message}

theorem KeptBut.refl : KeptBut cfg all msgs msgs := by
  refine ⟨rfl, fun i m m' hm hm' => Or.inl ?_⟩
  rw [hm] at hm'
  exact (Option.some.inj hm').symm

theorem KeptBut.set (h : KeptBut cfg all msgs out) {i : Nat} (hi : i ∈ all) {m m' : Message}
    (hm : msgs[i]? = some m) (hm' : Shortened cfg m m') : KeptBut cfg all msgs (out.set i m') := by
  obtain ⟨hlen, hkept⟩ := h
  refine ⟨by rw [List.length_set, hlen], ?_⟩
  intro j n n' hn hn'
  by_cases hij : i = j
  · subst hij
    have hlt : i < out.length := hlen ▸ (List.getElem?_eq_some_iff.mp hm).1
    rw [List.getElem?_set_self hlt] at hn'
    cases hm.symm.trans hn
    cases hn'
    exact Or.inr ⟨hi, hm'⟩
  · rw [List.getElem?_set_ne hij] at hn'
    exact hkept j n n' hn hn'

theorem softTrim_keptBut {indexes : List Nat} (hsub : ∀ i ∈ indexes, i ∈ all)
    (h : KeptBut cfg all msgs out) (totalChars : Int) :
    KeptBut cfg all msgs (softTrim cfg msgs indexes out totalChars).1 := by
  induction indexes generalizing out totalChars with
  | nil => exact h
  | cons idx indexes ih =>
    have hrest := fun i hi => hsub i (List.mem_cons_of_mem idx hi)
    rw [softTrim]
    cases hmsg : msgs[idx]? with
    | none => exact ih hrest h totalChars
    | some msg =>
      by_cases hshort : estimateMessageChars msg ≤ cfg.softTrimMaxChars
      · simp only [if_pos hshort]
        exact ih hrest h totalChars
      · simp only [if_neg hshort]
        exact ih hrest (h.set (hsub idx List.mem_cons_self) hmsg (Or.inl rfl)) _

theorem hardClear_keptBut (charWindow : Int) {indexes : List Nat} (hsub : ∀ i ∈ indexes, i ∈ all)
    (h : KeptBut cfg all msgs out) (totalChars : Int) :
    KeptBut cfg all msgs (hardClear cfg charWindow indexes out totalChars) := by
  induction indexes generalizing out totalChars with
  | nil => exact h
  | cons idx indexes ih =>
    have hrest := fun i hi => hsub i (List.mem_cons_of_mem idx hi)
    rw [hardClear]
    by_cases hbelow : cfg.belowHardClear totalChars charWindow = true
    · rw [if_pos hbelow]
      exact h
    · rw [if_neg hbelow]
      cases hout : out[idx]? with
      | none => exact ih hrest h totalChars
      | some msg' =>
        have hlt : idx < msgs.length := h.1 ▸ (List.getElem?_eq_some_iff.mp hout).1
        have hmsg := List.getElem?_eq_getElem hlt
        have hsame : withContent msg' cfg.hardClearPlaceholder
            = withContent msgs[idx] cfg.hardClearPlaceholder := by
          rcases h.2 idx _ msg' hmsg hout with rfl | ⟨-, rfl | rfl⟩ <;> rfl
        dsimp only
        rw [hsame]
        exact ih hrest (h.set (hsub idx List.mem_cons_self) hmsg (Or.inr rfl)) _

end

/-- What pruning returns is the list, or the list with results shortened
that stand in front of the cutoff. -/
theorem pruneContextMessages_keptBut (msgs : List Message) (contextWindowTokens : Int)
    (cfg : PruningConfig) :
    pruneContextMessages msgs contextWindowTokens cfg = msgs
      ∨ ∃ cutoffIndex, findAssistantCutoff msgs cfg.keepLastAssistants = some cutoffIndex
        ∧ KeptBut cfg (prunableIndexes msgs cutoffIndex) msgs
          (pruneContextMessages msgs contextWindowTokens cfg) := by
  unfold pruneContextMessages
  by_cases hmode : cfg.mode = "disabled"
  · exact Or.inl (if_pos hmode)
  rw [if_neg hmode]
  by_cases hempty : contextWindowTokens ≤ 0 ∨ msgs = []
  · exact Or.inl (if_pos hempty)
  rw [if_neg hempty]
  cases hcutoff : findAssistantCutoff msgs cfg.keepLastAssistants with
  | none => exact Or.inl rfl
  | some cutoffIndex =>
    refine Or.inr ⟨cutoffIndex, rfl, ?_⟩
    have hsame : KeptBut cfg (prunableIndexes msgs cutoffIndex) msgs msgs := KeptBut.refl
    have hsoft := softTrim_keptBut (fun _ hi => hi) hsame (totalMessageChars msgs)
    dsimp only
    split
    · exact hsame
    · split
      · exact hsame
      · split
        · exact hsoft
        · split
          · exact hsoft
          · exact hardClear_keptBut _ (fun _ hi => hi) hsoft _

/-! ## The slices -/

/-- The arrays behind the slices; a slice is known by the number of its
array. -/
abbrev Arrays : Type := List (List Message)

def Arrays.load (mem : Arrays) (slice idx : Nat) : Option Message :=
  mem[slice]?.bind fun array => array[idx]?

def Arrays.store (mem : Arrays) (slice idx : Nat) (msg : Message) : Arrays :=
  mem.modify slice fun array => array.set idx msg

/-- `make` and `copy`, unless the result is made already. -/
def lazyCopy (mem : Arrays) (msgs : Nat) : (result : Option Nat) → Arrays × Nat
  | some result => (mem, result)
  | none => (mem ++ [mem.getD msgs []], mem.length)

/-- Pass 1, with its writes. -/
def softTrimSlices (cfg : PruningConfig) (msgs : Nat) :
    List Nat → Arrays → (result : Option Nat) → (totalChars : Int) → Arrays × Option Nat × Int
  | [], mem, result, totalChars => (mem, result, totalChars)
  | idx :: rest, mem, result, totalChars =>
    match mem.load msgs idx with
    | none => softTrimSlices cfg msgs rest mem result totalChars
    | some msg =>
      if estimateMessageChars msg ≤ cfg.softTrimMaxChars then
        softTrimSlices cfg msgs rest mem result totalChars
      else
        let (mem, copied) := lazyCopy mem msgs result
        softTrimSlices cfg msgs rest
          (mem.store copied idx (withContent msg (cfg.trimmed msg))) (some copied)
          (totalChars + ((cfg.trimmed msg).utf8ByteSize - estimateMessageChars msg))

/-- Pass 2, with its writes. -/
def hardClearSlices (cfg : PruningConfig) (charWindow : Int) (output : Nat) :
    List Nat → Arrays → (totalChars : Int) → Arrays
  | [], mem, _ => mem
  | idx :: rest, mem, totalChars =>
    if cfg.belowHardClear totalChars charWindow then mem
    else
      match mem.load output idx with
      | none => hardClearSlices cfg charWindow output rest mem totalChars
      | some msg =>
        hardClearSlices cfg charWindow output rest
          (mem.store output idx (withContent msg cfg.hardClearPlaceholder))
          (totalChars + (cfg.hardClearPlaceholder.utf8ByteSize - estimateMessageChars msg))

/-- `pruneContextMessages` on the slice `slice`: the arrays there are
afterwards, and the slice that is returned. -/
def pruneSlices (mem : Arrays) (slice : Nat) (contextWindowTokens : Int) (cfg : PruningConfig) :
    Arrays × Nat :=
  let msgs := mem.getD slice []
  if cfg.mode = "disabled" then (mem, slice)
  else if contextWindowTokens ≤ 0 ∨ msgs = [] then (mem, slice)
  else
    match findAssistantCutoff msgs cfg.keepLastAssistants with
    | none => (mem, slice)
    | some cutoffIndex =>
      let charWindow := contextWindowTokens * charsPerTokenEstimate
      let totalChars := totalMessageChars msgs
      let indexes := prunableIndexes msgs cutoffIndex
      if cfg.belowSoftTrim totalChars charWindow then (mem, slice)
      else if indexes = [] then (mem, slice)
      else
        let (mem, result, totalChars) := softTrimSlices cfg slice indexes mem none totalChars
        let output := result.getD slice
        if cfg.belowHardClear totalChars charWindow || !cfg.hardClearEnabled then (mem, output)
        else
          let prunableChars := totalMessageChars (indexes.filterMap fun i => mem.load output i)
          if prunableChars < cfg.minPrunableToolChars then (mem, output)
          else
            let (mem, output) := lazyCopy mem slice result
            (hardClearSlices cfg charWindow output indexes mem totalChars, output)

/-- The arrays there were, and the result in an array of its own once it
is made. -/
inductive Holds (mem₀ : Arrays) (slice : Nat) : Arrays → Option Nat → List Message → Prop where
  | unmade {msgs : List Message} (h : mem₀[slice]? = some msgs) : Holds mem₀ slice mem₀ none msgs
  | made (out : List Message) : Holds mem₀ slice (mem₀ ++ [out]) (some mem₀.length) out

section
variable {mem₀ mem : Arrays} {slice : Nat} {result : Option Nat} {msgs out : List Message}

theorem store_last (mem₀ : Arrays) (out : List Message) (idx : Nat) (msg : Message) :
    Arrays.store (mem₀ ++ [out]) mem₀.length idx msg = mem₀ ++ [out.set idx msg] := by
  rw [Arrays.store, List.modify_eq_set_getElem?, List.getElem?_concat_length]
  simp

theorem load_last (mem₀ : Arrays) (out : List Message) (idx : Nat) :
    Arrays.load (mem₀ ++ [out]) mem₀.length idx = out[idx]? := by
  rw [Arrays.load, List.getElem?_concat_length]
  rfl

theorem Holds.slice_eq (h : Holds mem₀ slice mem result out) (hslice : mem₀[slice]? = some msgs) :
    mem[slice]? = some msgs := by
  cases h with
  | unmade => exact hslice
  | made =>
    rw [List.getElem?_append_left (List.getElem?_eq_some_iff.mp hslice).1]
    exact hslice

theorem Holds.output_eq (h : Holds mem₀ slice mem result out) :
    mem[result.getD slice]? = some out := by
  cases h with
  | unmade h => exact h
  | made => exact List.getElem?_concat_length

theorem Holds.copied (h : Holds mem₀ slice mem result out) :
    lazyCopy mem slice result = (mem₀ ++ [out], mem₀.length) := by
  cases h with
  | unmade h => rw [lazyCopy, List.getD_eq_getElem?_getD, h, Option.getD_some]
  | made => rfl

theorem Holds.store (h : Holds mem₀ slice mem result out) (idx : Nat) (msg : Message) :
    Holds mem₀ slice ((lazyCopy mem slice result).1.store (lazyCopy mem slice result).2 idx msg)
      (some (lazyCopy mem slice result).2) (out.set idx msg) := by
  rw [h.copied, store_last]
  exact Holds.made _

theorem softTrimSlices_holds (cfg : PruningConfig) (hslice : mem₀[slice]? = some msgs)
    (indexes : List Nat) (h : Holds mem₀ slice mem result out) (totalChars : Int) :
    Holds mem₀ slice (softTrimSlices cfg slice indexes mem result totalChars).1
        (softTrimSlices cfg slice indexes mem result totalChars).2.1
        (softTrim cfg msgs indexes out totalChars).1
      ∧ (softTrimSlices cfg slice indexes mem result totalChars).2.2
        = (softTrim cfg msgs indexes out totalChars).2 := by
  induction indexes generalizing mem result out totalChars with
  | nil => exact ⟨h, rfl⟩
  | cons idx indexes ih =>
    have hload : mem.load slice idx = msgs[idx]? := by
      rw [Arrays.load, h.slice_eq hslice]
      rfl
    rw [softTrimSlices, softTrim, hload]
    cases msgs[idx]? with
    | none => exact ih h totalChars
    | some msg =>
      by_cases hshort : estimateMessageChars msg ≤ cfg.softTrimMaxChars
      · simp only [if_pos hshort]
        exact ih h totalChars
      · simp only [if_neg hshort]
        exact ih (h.store idx _) _

theorem hardClearSlices_eq (cfg : PruningConfig) (charWindow : Int) (mem₀ : Arrays)
    (indexes : List Nat) (out : List Message) (totalChars : Int) :
    hardClearSlices cfg charWindow mem₀.length indexes (mem₀ ++ [out]) totalChars
      = mem₀ ++ [hardClear cfg charWindow indexes out totalChars] := by
  induction indexes generalizing out totalChars with
  | nil => rfl
  | cons idx indexes ih =>
    rw [hardClearSlices, hardClear, load_last]
    by_cases hbelow : cfg.belowHardClear totalChars charWindow = true
    · rw [if_pos hbelow, if_pos hbelow]
    · rw [if_neg hbelow, if_neg hbelow]
      cases out[idx]? with
      | none => exact ih out totalChars
      | some msg =>
        dsimp only
        rw [store_last]
        exact ih _ _

end

/-- No array is written to that was there, and the slice returned has the
pruned list. -/
theorem pruneSlices_eq {mem : Arrays} {slice : Nat} {msgs : List Message}
    (hslice : mem[slice]? = some msgs) (contextWindowTokens : Int) (cfg : PruningConfig) :
    mem <+: (pruneSlices mem slice contextWindowTokens cfg).1
      ∧ (pruneSlices mem slice contextWindowTokens cfg).1[
          (pruneSlices mem slice contextWindowTokens cfg).2]?
        = some (pruneContextMessages msgs contextWindowTokens cfg) := by
  have hmsgs : mem.getD slice [] = msgs := by
    rw [List.getD_eq_getElem?_getD, hslice, Option.getD_some]
  have hfront : ∀ {mem' : Arrays} {result : Option Nat} {out : List Message},
      Holds mem slice mem' result out → mem <+: mem' := by
    intro mem' result out h
    cases h with
    | unmade => exact List.prefix_refl _
    | made out => exact List.prefix_append _ _
  have hsame : mem <+: mem ∧ mem[slice]? = some msgs := ⟨List.prefix_refl _, hslice⟩
  unfold pruneSlices pruneContextMessages
  simp only [hmsgs]
  by_cases hmode : cfg.mode = "disabled"
  · simpa only [if_pos hmode] using hsame
  simp only [if_neg hmode]
  by_cases hempty : contextWindowTokens ≤ 0 ∨ msgs = []
  · simpa only [if_pos hempty] using hsame
  simp only [if_neg hempty]
  cases findAssistantCutoff msgs cfg.keepLastAssistants with
  | none => exact hsame
  | some cutoffIndex =>
    obtain ⟨hholds, htotal⟩ := softTrimSlices_holds cfg hslice
      (prunableIndexes msgs cutoffIndex) (Holds.unmade hslice) (totalMessageChars msgs)
    have hload : ∀ i, Arrays.load _ _ i = _ := fun i => by
      rw [Arrays.load, hholds.output_eq, Option.bind_some]
    dsimp only
    split
    · exact hsame
    · split
      · exact hsame
      · simp only [htotal, hload]
        split
        · exact ⟨hfront hholds, hholds.output_eq⟩
        · split
          · exact ⟨hfront hholds, hholds.output_eq⟩
          · simp only [hholds.copied, hardClearSlices_eq]
            exact ⟨List.prefix_append _ _, List.getElem?_concat_length⟩

/-! ## Only old results -/

/-- The text of a trimmed result: what it starts with and what it ends
with, and how much that is. -/
def headAndTail (cfg : PruningConfig) (content : String) : String :=
  String.ofList (content.toList.take cfg.softTrimHeadChars.toNat) ++ "\n...\n"
    ++ String.ofList (content.toList.drop (content.length - cfg.softTrimTailChars.toNat))
    ++ "\n\n[Tool result trimmed: kept first " ++ toString cfg.softTrimHeadChars
    ++ " chars and last " ++ toString cfg.softTrimTailChars ++ " chars of "
    ++ toString (content.length : Int) ++ " chars.]"

theorem takeHead_eq (s : String) (n : Int) :
    takeHead s n = String.ofList (s.toList.take n.toNat) := by
  rw [takeHead]
  split
  · have hzero : n.toNat = 0 := by omega
    rw [hzero, List.take_zero, String.ofList_nil]
  · split
    · rw [List.take_of_length_le (by rw [String.length_toList]; omega), String.ofList_toList]
    · rfl

theorem takeTail_eq (s : String) (n : Int) :
    takeTail s n = String.ofList (s.toList.drop (s.length - n.toNat)) := by
  rw [takeTail]
  split
  · have hzero : n.toNat = 0 := by omega
    rw [hzero, Nat.sub_zero, List.drop_of_length_le (by rw [String.length_toList])]
  · split
    · have hzero : s.length - n.toNat = 0 := by omega
      rw [hzero, List.drop_zero, String.ofList_toList]
    · rfl

theorem trimmed_eq (cfg : PruningConfig) (m : Message) :
    cfg.trimmed m = headAndTail cfg m.content := by
  rw [PruningConfig.trimmed, takeHead_eq, takeTail_eq]
  rfl

/-- Pruning `msgs` to `out` only touches old tool results. -/
structure OnlyOldResults (cfg : PruningConfig) (msgs out : List Message) : Prop where
  length : out.length = msgs.length
  each : ∀ i m m', msgs[i]? = some m → out[i]? = some m' →
    m'.role = m.role ∧ m'.toolCalls = m.toolCalls ∧ m'.toolCallID = m.toolCallID
      ∧ (m' ≠ m → OldResult msgs cfg.keepLastAssistants i
        ∧ (m'.content = headAndTail cfg m.content ∨ m'.content = cfg.hardClearPlaceholder))
  few : 0 < cfg.keepLastAssistants → assistantCount msgs < cfg.keepLastAssistants → out = msgs

theorem findAssistantCutoff_none {msgs : List Message} {keepLast : Int} (hpos : 0 < keepLast)
    (hfew : assistantCount msgs < keepLast) : findAssistantCutoff msgs keepLast = none := by
  rw [findAssistantCutoff, if_neg (by omega)]
  cases hscan : assistantScan msgs msgs.length keepLast with
  | none => rfl
  | some c =>
    obtain ⟨-, hcount⟩ := assistantScan_some hscan (Nat.le_refl _)
    rw [List.take_length] at hcount
    have hle : assistantCount (msgs.drop c) ≤ assistantCount msgs :=
      (List.drop_sublist c msgs).countP_le
    omega

theorem onlyOldResults {msgs : List Message}
    (hcalls : ∀ m ∈ msgs, m.role = .tool → m.toolCalls = [])
    (contextWindowTokens : Int) (cfg : PruningConfig) :
    OnlyOldResults cfg msgs (pruneContextMessages msgs contextWindowTokens cfg) := by
  rcases pruneContextMessages_keptBut msgs contextWindowTokens cfg with
    hsame | ⟨cutoffIndex, hcutoff, hlen, hkept⟩
  · rw [hsame]
    refine ⟨rfl, ?_, fun _ _ => rfl⟩
    intro i m m' hm hm'
    cases hm.symm.trans hm'
    exact ⟨rfl, rfl, rfl, fun hne => absurd rfl hne⟩
  · refine ⟨hlen, ?_, ?_⟩
    · intro i m m' hm hm'
      rcases hkept i m m' hm hm' with rfl | ⟨hi, hshort⟩
      · exact ⟨rfl, rfl, rfl, fun hne => absurd rfl hne⟩
      · have hold := oldResult_of_mem hcutoff hi
        have hnone : m.toolCalls = [] := by
          obtain ⟨m₀, hm₀, htool, -⟩ := hold
          cases hm.symm.trans hm₀
          exact hcalls m (List.mem_of_getElem? hm) htool
        rcases hshort with rfl | rfl
        · exact ⟨rfl, hnone.symm, rfl, fun _ => ⟨hold, Or.inl (trimmed_eq cfg m)⟩⟩
        · exact ⟨rfl, hnone.symm, rfl, fun _ => ⟨hold, Or.inr rfl⟩⟩
    · intro hpos hfew
      rw [findAssistantCutoff_none hpos hfew] at hcutoff
      cases hcutoff

/-- Whatever slices there are, pruning one of them leaves them all as
they are and returns a slice that differs from it in old tool results. -/
theorem pruneSlices_only_old_results {mem : Arrays} {slice : Nat} {msgs : List Message}
    (hslice : mem[slice]? = some msgs) (hcalls : ∀ m ∈ msgs, m.role = .tool → m.toolCalls = [])
    (contextWindowTokens : Int) (cfg : PruningConfig) :
    mem <+: (pruneSlices mem slice contextWindowTokens cfg).1
      ∧ ∃ out, (pruneSlices mem slice contextWindowTokens cfg).1[
          (pruneSlices mem slice contextWindowTokens cfg).2]? = some out
        ∧ OnlyOldResults cfg msgs out := by
  obtain ⟨hmem, hout⟩ := pruneSlices_eq hslice contextWindowTokens cfg
  exact ⟨hmem, _, hout, onlyOldResults hcalls contextWindowTokens cfg⟩

/-- A configuration with ratios 3/10 and 5/10. -/
def tenthsConfig (placeholder : String) (head tail : Int) : PruningConfig :=
  { keepLastAssistants := 1
    belowSoftTrim := fun totalChars charWindow => 10 * totalChars < 3 * charWindow
    belowHardClear := fun totalChars charWindow => 10 * totalChars < 5 * charWindow
    minPrunableToolChars := 0
    softTrimMaxChars := 4
    softTrimHeadChars := head
    softTrimTailChars := tail
    hardClearEnabled := true
    hardClearPlaceholder := placeholder
    mode := "" }

theorem pruneSlices_example :
    let msgs := [textMessage .user "q", { textMessage .tool "a long result" with toolCallID := "c" },
      textMessage .assistant "a"]
    [msgs] <+: (pruneSlices [msgs] 0 10 (tenthsConfig "[gone]" 1 1)).1
      ∧ ∃ out, (pruneSlices [msgs] 0 10 (tenthsConfig "[gone]" 1 1)).1[
          (pruneSlices [msgs] 0 10 (tenthsConfig "[gone]" 1 1)).2]? = some out
        ∧ OnlyOldResults (tenthsConfig "[gone]" 1 1) msgs out :=
  pruneSlices_only_old_results rfl (by simp [textMessage]) 10 (tenthsConfig "[gone]" 1 1)

end LendingClaw.Agent

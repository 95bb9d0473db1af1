/-
LendingClaw.Agent.ToolLoopRuns — the guard against repeated tool calls
over a whole run (`internal/agent/toolloop.go`, the tool branches of
`runLoop` in `internal/agent/loop.go`).

The detector keeps digests. `LoopTrace` adds the calls themselves, as they
are recorded: the detector's history is the digests of the last of them,
and a pair of a call and its result is counted as often as it occurs.
-/
import LendingClaw.Agent.Loop
import LendingClaw.Agent.StableJson

namespace LendingClaw.Agent

open LendingClaw.Providers

/-! ## The digests -/

/-- What the texts of calls and results are made of: the first half of
the SHA-256 of a text, the printable characters, and the object that
arguments are the text of. -/
structure Digests where
  sha : String → String
  isPrint : Char → Bool
  decoded : Arguments → List (String × Lib.Json)

/-- `hashToolCall` and `hashResult`. -/
def Digests.hashes (d : Digests) : ToolHashes where
  hashToolCall := fun toolName args =>
    d.sha (String.ofList (toolCallText d.isPrint toolName (d.decoded args)))
  hashResult := d.sha

/-- The digests are those of the source, up to SHA-256 being free of
collisions; no digest is empty. -/
structure Digests.CollisionFree (d : Digests) : Prop where
  inj : ∀ a b, d.sha a = d.sha b → a = b
  nonempty : ∀ a, d.sha a ≠ ""

/-- The object of the arguments: their text is its text. -/
def Digests.Decodes (d : Digests) (args : Arguments) : Prop :=
  ProperFields (d.decoded args) ∧ Lib.Json.marshal (.obj (d.decoded args)) = args.json.toList

theorem Digests.hashToolCall_inj {d : Digests} (hfree : d.CollisionFree) {name name' : String}
    {args args' : Arguments} (hargs : d.Decodes args) (hargs' : d.Decodes args')
    (h : d.hashes.hashToolCall name args = d.hashes.hashToolCall name' args') :
    name = name' ∧ args = args' := by
  have htext := String.ofList_injective (hfree.inj _ _ h)
  obtain ⟨hname, hsame⟩ := toolCallText_inj d.isPrint hargs.1 hargs'.1 htext
  refine ⟨hname, ?_⟩
  have hjson : args.json.toList = args'.json.toList := by rw [← hargs.2, ← hargs'.2, hsame]
  obtain ⟨json⟩ := args
  obtain ⟨json'⟩ := args'
  exact congrArg Arguments.mk (String.toList_injective hjson)

/-! ## Recorded calls -/

/-- A call that was recorded, with its result. -/
structure RecordedCall where
  toolName : String
  args : Arguments
  result : String
  deriving DecidableEq

/-- The detector's record of it. -/
def RecordedCall.record (h : ToolHashes) (c : RecordedCall) : ToolCallRecord :=
  { toolName := c.toolName
    argsHash := h.hashToolCall c.toolName c.args
    resultHash := h.hashResult c.result }

/-- The window of the detector. -/
def lastCalls (calls : List RecordedCall) : List RecordedCall :=
  calls.drop (calls.length - toolLoopHistorySize)

theorem lastCalls_concat (calls : List RecordedCall) (c : RecordedCall) :
    lastCalls (calls ++ [c])
      = (lastCalls calls ++ [c]).drop ((lastCalls calls ++ [c]).length - toolLoopHistorySize) := by
  have hold : calls.length - toolLoopHistorySize ≤ calls.length := Nat.sub_le _ _
  rw [lastCalls, lastCalls, ← List.drop_append_of_le_length hold, List.drop_drop, List.length_drop]
  congr 1
  have hsize : 0 < toolLoopHistorySize := by decide
  rw [List.length_append, List.length_singleton]
  omega

theorem lastCalls_length_le (calls : List RecordedCall) :
    (lastCalls calls).length ≤ toolLoopHistorySize := by
  rw [lastCalls, List.length_drop]
  omega

/-- How often a pair occurs in the window. -/
def occurrences (calls : List RecordedCall) (c : RecordedCall) : Nat := (lastCalls calls).count c

/-- Only the pair recorded occurs more often than before. -/
theorem occurrences_concat_le {calls : List RecordedCall} {c r : RecordedCall} (hne : r ≠ c) :
    occurrences (calls ++ [c]) r ≤ occurrences calls r := by
  have hsub := List.drop_sublist ((lastCalls calls ++ [c]).length - toolLoopHistorySize)
    (lastCalls calls ++ [c])
  rw [← lastCalls_concat] at hsub
  have hle := hsub.count_le r
  rw [List.count_append, List.count_singleton, if_neg (by simpa using hne.symm)] at hle
  exact hle

/-! ## Recording and counting -/

theorem noProgressScan_eq (argsHash : String) {records : List ToolCallRecord}
    (hresults : ∀ r ∈ records, r.resultHash ≠ "") {lastResultHash : String}
    (hlast : lastResultHash ≠ "") (n : Nat) :
    ToolLoopState.noProgressScan argsHash records lastResultHash n
      = n + records.countP fun r => r.argsHash = argsHash ∧ r.resultHash = lastResultHash := by
  induction records generalizing n with
  | nil => rfl
  | cons r records ih =>
    have hrest := fun r' hr' => hresults r' (List.mem_cons_of_mem r hr')
    have hr := hresults r List.mem_cons_self
    rw [ToolLoopState.noProgressScan, List.countP_cons]
    by_cases hargs : r.argsHash = argsHash
    · rw [if_neg (fun hne => hne hargs), if_neg hr, if_neg hlast]
      dsimp only
      by_cases hresult : r.resultHash = lastResultHash
      · rw [if_pos hresult, ih hrest, if_pos (by simp [hargs, hresult])]
        omega
      · rw [if_neg hresult, ih hrest, if_neg (by simp [hresult])]
        rfl
    · rw [if_pos hargs, ih hrest, if_neg (by simp [hargs])]
      rfl

section
variable {d : Digests} {s : ToolLoopState} {calls : List RecordedCall}

/-- A call as it is recorded. -/
def recorded (tc : ToolCall) (forLLM : String) : RecordedCall :=
  { toolName := tc.name, args := tc.arguments, result := forLLM }

/-- What `record` leaves: the last records, and the new one without a
result. -/
theorem record_history (h : ToolHashes) (s : ToolLoopState) (name : String) (args : Arguments) :
    (s.record h name args).history
      = s.history.drop (s.history.length + 1 - toolLoopHistorySize)
        ++ [{ toolName := name, argsHash := h.hashToolCall name args, resultHash := "" }] := by
  have hsize : 0 < toolLoopHistorySize := by decide
  unfold ToolLoopState.record
  dsimp only
  rw [List.length_append, List.length_singleton, ← List.drop_append_of_le_length (by omega)]
  split
  · rfl
  · rw [Nat.sub_eq_zero_of_le (by omega), List.drop_zero]

/-- The record of a call is the last of the history, with its result. -/
theorem observe_history (h : ToolHashes) (hs : s.history = (lastCalls calls).map (·.record h))
    (tc : ToolCall) (forLLM : String) :
    (s.observe h tc forLLM).history
      = (lastCalls (calls ++ [recorded tc forLLM])).map (·.record h) := by
  have hsize : 0 < toolLoopHistorySize := by decide
  unfold ToolLoopState.observe ToolLoopState.recordResult
  rw [record_history, List.reverse_append, List.reverse_singleton, List.singleton_append,
    ToolLoopState.setResult, if_pos ⟨rfl, rfl⟩, List.reverse_cons, List.reverse_reverse,
    lastCalls_concat, List.map_drop, List.map_append, hs, List.length_map, List.length_append,
    List.length_singleton, List.drop_append_of_le_length (by rw [List.length_map]; omega)]
  rfl

theorem lastCalls_split (calls : List RecordedCall) (c : RecordedCall) :
    ∃ older, lastCalls (calls ++ [c]) = older ++ [c] ∧ older ⊆ calls := by
  have hsize : 0 < toolLoopHistorySize := by decide
  refine ⟨calls.drop (calls.length + 1 - toolLoopHistorySize), ?_, List.drop_subset _ _⟩
  rw [lastCalls, List.length_append, List.length_singleton,
    List.drop_append_of_le_length (by omega)]

/-- Two recorded calls have the same digests if they are the same pair. -/
theorem record_eq_iff (hfree : d.CollisionFree) {c c' : RecordedCall} (hc : d.Decodes c.args)
    (hc' : d.Decodes c'.args) :
    ((c'.record d.hashes).argsHash = (c.record d.hashes).argsHash
      ∧ (c'.record d.hashes).resultHash = (c.record d.hashes).resultHash) ↔ c' = c := by
  constructor
  · rintro ⟨hargs, hresult⟩
    obtain ⟨hname, hsame⟩ := d.hashToolCall_inj hfree hc' hc hargs
    have htext : c'.result = c.result := hfree.inj _ _ hresult
    obtain ⟨name, args, result⟩ := c
    obtain ⟨name', args', result'⟩ := c'
    cases hname
    cases hsame
    cases htext
    rfl
  · rintro rfl
    exact ⟨rfl, rfl⟩

/-- The detector counts the pair that was recorded. -/
theorem noProgressScan_occurrences (hfree : d.CollisionFree)
    (hdecodes : ∀ c ∈ calls, d.Decodes c.args) {c : RecordedCall} (hc : d.Decodes c.args)
    (hs : s.history = (lastCalls (calls ++ [c])).map (·.record d.hashes)) :
    ToolLoopState.noProgressScan (d.hashes.hashToolCall c.toolName c.args) s.history.reverse "" 0
      = occurrences (calls ++ [c]) c := by
  obtain ⟨older, hwindow, hsub⟩ := lastCalls_split calls c
  have hresults : ∀ r ∈ (older.map (·.record d.hashes)).reverse, r.resultHash ≠ "" := by
    intro r hr
    obtain ⟨c', -, rfl⟩ := List.mem_map.mp (List.mem_reverse.mp hr)
    exact hfree.nonempty c'.result
  have hnonempty : (c.record d.hashes).resultHash ≠ "" := hfree.nonempty c.result
  have hcount : older.countP (fun c' => (c'.record d.hashes).argsHash = (c.record d.hashes).argsHash
      ∧ (c'.record d.hashes).resultHash = (c.record d.hashes).resultHash) = older.count c := by
    refine List.countP_congr fun c' hc' => ?_
    rw [decide_eq_true_iff, record_eq_iff hfree hc (hdecodes c' (hsub hc')), beq_iff_eq]
  rw [hs, hwindow, List.map_append, List.reverse_append, List.map_singleton,
    List.reverse_singleton, List.singleton_append, ToolLoopState.noProgressScan,
    if_neg (fun hne => hne rfl), if_neg hnonempty, if_pos rfl]
  dsimp only
  rw [if_pos rfl, noProgressScan_eq _ hresults hnonempty, List.countP_reverse, List.countP_map,
    occurrences, hwindow, List.count_append, List.count_singleton_self, Nat.add_comm,
    Nat.zero_add]
  exact congrArg (· + 1) hcount

/-- The text of a warning. -/
def warningText (toolName : String) (n : Nat) : String :=
  "[System: WARNING — " ++ toolName ++ " has been called " ++ toString n
    ++ " times with the same arguments and identical results. "
    ++ "This is not making progress. Try a completely different approach, "
    ++ "use different tools, or respond directly to the user with what you know.]"

/-- What the detector says of the call just recorded: nothing, a warning,
or that it is the fifth. -/
theorem detectCall_spec (hfree : d.CollisionFree) (hdecodes : ∀ c ∈ calls, d.Decodes c.args)
    (hs : s.history = (lastCalls calls).map (·.record d.hashes)) {tc : ToolCall}
    (htc : d.Decodes tc.arguments) (forLLM : String) :
    (occurrences (calls ++ [recorded tc forLLM]) (recorded tc forLLM) < toolLoopWarningThreshold
        ∧ s.detectCall d.hashes tc forLLM = none)
      ∨ (toolLoopWarningThreshold ≤ occurrences (calls ++ [recorded tc forLLM]) (recorded tc forLLM)
        ∧ occurrences (calls ++ [recorded tc forLLM]) (recorded tc forLLM) < toolLoopCriticalThreshold
        ∧ s.detectCall d.hashes tc forLLM = some (.warning, warningText tc.name
          (occurrences (calls ++ [recorded tc forLLM]) (recorded tc forLLM))))
      ∨ (toolLoopCriticalThreshold ≤ occurrences (calls ++ [recorded tc forLLM]) (recorded tc forLLM)
        ∧ ∃ msg, s.detectCall d.hashes tc forLLM = some (.critical, msg)) := by
  have hhistory := observe_history d.hashes hs tc forLLM
  have hscan := noProgressScan_occurrences hfree hdecodes (c := recorded tc forLLM) htc hhistory
  have hlength : occurrences (calls ++ [recorded tc forLLM]) (recorded tc forLLM)
      ≤ (s.observe d.hashes tc forLLM).history.length := by
    rw [hhistory, List.length_map]
    exact List.count_le_length
  generalize occurrences (calls ++ [recorded tc forLLM]) (recorded tc forLLM) = n at *
  have hthresholds : toolLoopWarningThreshold ≤ toolLoopCriticalThreshold := by decide
  unfold ToolLoopState.detectCall ToolLoopState.detect
  by_cases hshort : (s.observe d.hashes tc forLLM).history.length < toolLoopWarningThreshold
  · rw [if_pos hshort]
    exact Or.inl ⟨by omega, rfl⟩
  rw [if_neg hshort]
  have hscan' : ToolLoopState.noProgressScan (d.hashes.hashToolCall tc.name tc.arguments)
      (s.observe d.hashes tc forLLM).history.reverse "" 0 = n := hscan
  rw [hscan']
  dsimp only
  by_cases hcritical : n ≥ toolLoopCriticalThreshold
  · rw [if_pos hcritical]
    exact Or.inr (Or.inr ⟨hcritical, _, rfl⟩)
  rw [if_neg hcritical]
  by_cases hwarning : n ≥ toolLoopWarningThreshold
  · rw [if_pos hwarning]
    exact Or.inr (Or.inl ⟨hwarning, by omega, rfl⟩)
  · rw [if_neg hwarning]
    exact Or.inl ⟨by omega, rfl⟩

end

/-! ## The calls of one response -/

section
variable (h : ToolHashes) (forLLM : Nat → String)

/-- The calls that `collect` records. -/
def collected : List ToolCall → (idx : Nat) → ToolLoopState → List RecordedCall
  | [], _, _ => []
  | tc :: rest, idx, s =>
    recorded tc (forLLM idx) ::
      match s.detectCall h tc (forLLM idx) with
      | some (.critical, _) => []
      | _ => collected rest (idx + 1) (s.observe h tc (forLLM idx))

end

/-- What a guarded response leaves, after the calls `before` it: `calls`
are recorded, with the messages `msgs`. -/
structure CollectedWell (h : ToolHashes) (before calls : List RecordedCall) (out : Collected) :
    Prop where
  history : out.loopDetector.history = (lastCalls (before ++ calls)).map (·.record h)
  bounded : out.critical = none →
    ∀ c, occurrences (before ++ calls) c < toolLoopCriticalThreshold
  stops : ∀ p c q, calls = p ++ c :: q →
    toolLoopCriticalThreshold ≤ occurrences (before ++ p ++ [c]) c → q = [] ∧ out.critical ≠ none
  warns : ∀ m ∈ out.msgs, m.role = .user → ∃ p c q, calls = p ++ c :: q
    ∧ toolLoopWarningThreshold ≤ occurrences (before ++ p ++ [c]) c
    ∧ m = textMessage .user (warningText c.toolName (occurrences (before ++ p ++ [c]) c))

section
variable {d : Digests}

/-- After a call the detector has let pass, no pair is there too often. -/
theorem bounded_concat {calls : List RecordedCall} {c : RecordedCall}
    (hbounded : ∀ r, occurrences calls r < toolLoopCriticalThreshold)
    (hc : occurrences (calls ++ [c]) c < toolLoopCriticalThreshold) (r : RecordedCall) :
    occurrences (calls ++ [c]) r < toolLoopCriticalThreshold := by
  by_cases hr : r = c
  · rw [hr]
    exact hc
  · exact Nat.lt_of_le_of_lt (occurrences_concat_le hr) (hbounded r)

/-- A call that is let pass, with or without a warning, and the calls
after it. -/
theorem CollectedWell.cons {h : ToolHashes} {before calls : List RecordedCall}
    {c : RecordedCall} {more : Collected} (hmore : CollectedWell h (before ++ [c]) calls more)
    (hpass : occurrences (before ++ [c]) c < toolLoopCriticalThreshold) (msgs : List Message)
    (hmsgs : ∀ m ∈ msgs, m.role = .user →
      toolLoopWarningThreshold ≤ occurrences (before ++ [c]) c
        ∧ m = textMessage .user (warningText c.toolName (occurrences (before ++ [c]) c))) :
    CollectedWell h before (c :: calls) { more with msgs := msgs ++ more.msgs } where
  history := by
    rw [hmore.history, List.append_assoc]
    rfl
  bounded := by
    intro hnone r
    have hr := hmore.bounded hnone r
    rwa [List.append_assoc] at hr
  stops := by
    intro p r q hsplit hfifth
    cases p with
    | nil =>
      cases hsplit
      rw [List.append_nil] at hfifth
      omega
    | cons r' p =>
      cases hsplit
      apply hmore.stops p r q rfl
      rwa [List.append_assoc before]
  warns := by
    intro m hm huser
    rcases List.mem_append.mp hm with hm | hm
    · refine ⟨[], c, calls, rfl, ?_⟩
      rw [List.append_nil]
      exact hmsgs m hm huser
    · obtain ⟨p, r, q, hsplit, hwarned⟩ := hmore.warns m hm huser
      refine ⟨c :: p, r, q, by rw [hsplit]; rfl, ?_⟩
      rwa [List.append_assoc before] at hwarned

theorem collect_well (hfree : d.CollisionFree) (forLLM : Nat → String) {calls : List ToolCall}
    (hcalls : ∀ tc ∈ calls, d.Decodes tc.arguments) {before : List RecordedCall}
    (hdecodes : ∀ c ∈ before, d.Decodes c.args)
    (hbounded : ∀ c, occurrences before c < toolLoopCriticalThreshold) (idx : Nat)
    {s : ToolLoopState} (hs : s.history = (lastCalls before).map (·.record d.hashes)) :
    CollectedWell d.hashes before (collected d.hashes forLLM calls idx s)
      (collect d.hashes forLLM calls idx s) := by
  induction calls generalizing before idx s with
  | nil =>
    constructor
    · rw [collected, List.append_nil]
      exact hs
    · intro _ c
      rw [collected, List.append_nil]
      exact hbounded c
    · intro p c q hsplit
      exact absurd hsplit.symm (List.append_ne_nil_of_right_ne_nil p (List.cons_ne_nil c q))
    · intro m hm
      cases hm
  | cons tc calls ih =>
    have htc := hcalls tc List.mem_cons_self
    have hnext := observe_history d.hashes hs tc (forLLM idx)
    have hdecodes' : ∀ c ∈ before ++ [recorded tc (forLLM idx)], d.Decodes c.args := by
      intro c hc
      rcases List.mem_append.mp hc with hc | hc
      · exact hdecodes c hc
      · cases List.mem_singleton.mp hc
        exact htc
    have hrest := fun hpass => ih (fun tc' htc' => hcalls tc' (List.mem_cons_of_mem tc htc'))
      hdecodes' (bounded_concat hbounded hpass) (idx + 1) hnext
    have hresult : ∀ m ∈ [toolMessage tc (forLLM idx)], m.role ≠ .user := by
      intro m hm
      cases List.mem_singleton.mp hm
      exact (by decide : Role.tool ≠ Role.user)
    rw [collected, collect]
    rcases detectCall_spec hfree hdecodes hs htc (forLLM idx) with
      ⟨hfew, hdetect⟩ | ⟨hwarned, hpass, hdetect⟩ | ⟨hfifth, msg, hdetect⟩
    · have hlevels : toolLoopWarningThreshold ≤ toolLoopCriticalThreshold := by decide
      have hpass := Nat.lt_of_lt_of_le hfew hlevels
      rw [hdetect]
      exact (hrest hpass).cons hpass [toolMessage tc (forLLM idx)]
        fun m hm huser => absurd huser (hresult m hm)
    · rw [hdetect]
      refine (hrest hpass).cons hpass [toolMessage tc (forLLM idx), _] ?_
      intro m hm huser
      rcases List.mem_cons.mp hm with rfl | hm
      · exact absurd huser (hresult _ List.mem_cons_self)
      · exact ⟨hwarned, List.mem_singleton.mp hm⟩
    · rw [hdetect]
      constructor
      · exact hnext
      · intro hnone
        cases hnone
      · intro p c q hsplit _
        cases p with
        | nil =>
          cases hsplit
          exact ⟨rfl, Option.some_ne_none msg⟩
        | cons r p =>
          have hnil := (List.cons.inj hsplit).2.symm
          exact absurd hnil (List.append_ne_nil_of_right_ne_nil p (List.cons_ne_nil c q))
      · intro m hm huser
        exact absurd huser (hresult m hm)

end

/-! ## The run -/

/-- The calls that an iteration records. -/
def Loop.recordedIn (l : Loop) (st : LoopState) (turn : Turn) : List RecordedCall :=
  match st.ended, turn.resp with
  | none, .ok resp => collected l.hashes turn.forLLM resp.toolCalls 0 st.loopDetector
  | _, _ => []

/-- A run with the calls it has recorded. -/
structure LoopTrace where
  st : LoopState
  recorded : List RecordedCall

def Loop.track (l : Loop) (t : LoopTrace) (turn : Turn) : LoopTrace :=
  { st := l.iterate t.st turn, recorded := t.recorded ++ l.recordedIn t.st turn }

def Loop.traced (l : Loop) (r : RunInput) (env : Nat → Turn) (n : Nat) : LoopTrace :=
  Lib.run l.track { st := l.start r, recorded := [] } (turns env n)

/-- The trace follows the run. -/
theorem traced_st (l : Loop) (r : RunInput) (env : Nat → Turn) (n : Nat) :
    (l.traced r env n).st = Lib.run l.iterate (l.start r) (turns env n) := by
  have hrun : ∀ (ts : List Turn) (t : LoopTrace),
      (Lib.run l.track t ts).st = Lib.run l.iterate t.st ts := by
    intro ts
    induction ts with
    | nil => exact fun t => rfl
    | cons turn ts ih => exact fun t => ih (l.track t turn)
  exact hrun _ _

/-- The guard on repetition. While the run goes on, so whenever it calls
the provider, no pair is in the window five times. At the fifth it has
ended, with nothing recorded and nothing sent after. A user message behind
the first is a warning of a pair that was there three times. -/
structure Guarded (l : Loop) (t : LoopTrace) : Prop where
  bounded : t.st.ended = none → ∀ c, occurrences t.recorded c ≤ 4
  stops : ∀ p c q, t.recorded = p ++ c :: q → 5 ≤ occurrences (p ++ [c]) c →
    q = [] ∧ t.st.ended ≠ none ∧ ∀ more, Lib.run l.iterate t.st more = t.st
  warns : ∀ m ∈ t.st.pendingMsgs.tail, m.role = .user → ∃ p c q, t.recorded = p ++ c :: q
    ∧ 3 ≤ occurrences (p ++ [c]) c
    ∧ m = textMessage .user (warningText c.toolName (occurrences (p ++ [c]) c))

/-- The invariant of the run: moreover the detector's history is the
window, and no pair recorded before the last was there five times. -/
structure Watched (d : Digests) (t : LoopTrace) : Prop where
  decodes : ∀ c ∈ t.recorded, d.Decodes c.args
  history : t.st.loopDetector.history = (lastCalls t.recorded).map (·.record d.hashes)
  bounded : t.st.ended = none → ∀ c, occurrences t.recorded c < toolLoopCriticalThreshold
  stops : ∀ p c q, t.recorded = p ++ c :: q →
    toolLoopCriticalThreshold ≤ occurrences (p ++ [c]) c → q = [] ∧ t.st.ended ≠ none
  pending : t.st.pendingMsgs ≠ []
  warns : ∀ m ∈ t.st.pendingMsgs.tail, m.role = .user → ∃ p c q, t.recorded = p ++ c :: q
    ∧ toolLoopWarningThreshold ≤ occurrences (p ++ [c]) c
    ∧ m = textMessage .user (warningText c.toolName (occurrences (p ++ [c]) c))

section
variable {d : Digests} {l : Loop}

theorem Watched.guarded {t : LoopTrace} (h : Watched d t) : Guarded l t where
  bounded := fun hended c => Nat.le_of_lt_succ (h.bounded hended c)
  stops := by
    intro p c q hsplit hfifth
    obtain ⟨hnil, hended⟩ := h.stops p c q hsplit hfifth
    exact ⟨hnil, hended, run_ended hended⟩
  warns := h.warns

/-- What is recorded are calls of the response. -/
theorem collected_args {h : ToolHashes} {forLLM : Nat → String} {calls : List ToolCall}
    {idx : Nat} {s : ToolLoopState} {c : RecordedCall} (hc : c ∈ collected h forLLM calls idx s) :
    ∃ tc ∈ calls, c.args = tc.arguments := by
  induction calls generalizing idx s with
  | nil => cases hc
  | cons tc calls ih =>
    rw [collected] at hc
    rcases List.mem_cons.mp hc with rfl | hc
    · exact ⟨tc, List.mem_cons_self, rfl⟩
    · split at hc
      · cases hc
      · obtain ⟨tc', htc', hargs⟩ := ih hc
        exact ⟨tc', List.mem_cons_of_mem tc htc', hargs⟩

theorem Watched.start (l : Loop) (r : RunInput) :
    Watched d { st := l.start r, recorded := [] } where
  decodes := nofun
  history := rfl
  bounded := fun _ c => Nat.zero_lt_succ _
  stops := by
    intro p c q hsplit
    exact absurd hsplit.symm (List.append_ne_nil_of_right_ne_nil p (List.cons_ne_nil c q))
  pending := List.cons_ne_nil _ _
  warns := nofun

/-- An iteration that records nothing and adds no message. -/
theorem Watched.quiet {t : LoopTrace} (h : Watched d t) {st : LoopState}
    (hdetector : st.loopDetector = t.st.loopDetector) (hpending : st.pendingMsgs = t.st.pendingMsgs)
    (hended : st.ended ≠ none) : Watched d { st := st, recorded := t.recorded } where
  decodes := h.decodes
  history := by rw [hdetector]; exact h.history
  bounded := fun hnone => absurd hnone hended
  stops := fun p c q hsplit hfifth => ⟨(h.stops p c q hsplit hfifth).1, hended⟩
  pending := by rw [hpending]; exact h.pending
  warns := by rw [hpending]; exact h.warns

/-- An iteration with tool calls. -/
theorem Watched.calls (hfree : d.CollisionFree) {t : LoopTrace} (h : Watched d t)
    (hended : t.st.ended = none) {resp : ChatResponse} {forLLM : Nat → String} {st : LoopState}
    (hargs : ∀ tc ∈ resp.toolCalls, d.Decodes tc.arguments)
    (hdetector : st.loopDetector
      = (collect d.hashes forLLM resp.toolCalls 0 t.st.loopDetector).loopDetector)
    (hpending : st.pendingMsgs = t.st.pendingMsgs ++ assistantMessage resp
      :: (collect d.hashes forLLM resp.toolCalls 0 t.st.loopDetector).msgs)
    (hcritical : st.ended
      = (collect d.hashes forLLM resp.toolCalls 0 t.st.loopDetector).critical.map .ok) :
    Watched d { st := st
                recorded := t.recorded
                  ++ collected d.hashes forLLM resp.toolCalls 0 t.st.loopDetector } := by
  have hwell := collect_well hfree forLLM hargs h.decodes (h.bounded hended) 0 h.history
  constructor
  · intro c hc
    rcases List.mem_append.mp hc with hc | hc
    · exact h.decodes c hc
    · obtain ⟨tc, htc, heq⟩ := collected_args hc
      rw [heq]
      exact hargs tc htc
  · rw [hdetector]
    exact hwell.history
  · intro hnone
    rw [hcritical] at hnone
    exact hwell.bounded (Option.map_eq_none_iff.mp hnone)
  · intro p c q hsplit hfifth
    rcases List.append_eq_append_iff.mp hsplit with ⟨p', rfl, hcalls⟩ | ⟨q', hp, hq⟩
    · obtain ⟨hnil, hstop⟩ := hwell.stops p' c q hcalls hfifth
      refine ⟨hnil, ?_⟩
      rw [hcritical]
      exact fun hnone => hstop (Option.map_eq_none_iff.mp hnone)
    · cases q' with
      | nil =>
        rw [List.append_nil] at hp
        obtain ⟨hnil, hstop⟩ := hwell.stops [] c q hq.symm (by rw [List.append_nil, hp]; exact hfifth)
        refine ⟨hnil, ?_⟩
        rw [hcritical]
        exact fun hnone => hstop (Option.map_eq_none_iff.mp hnone)
      | cons c' q' =>
        cases hq
        exact absurd hended (h.stops p c q' hp hfifth).2
  · rw [hpending]
    exact List.append_ne_nil_of_left_ne_nil h.pending _
  · intro m hm huser
    rw [hpending, List.tail_append_of_ne_nil h.pending] at hm
    rcases List.mem_append.mp hm with hm | hm
    · obtain ⟨p, c, q, hsplit, hwarned⟩ := h.warns m hm huser
      exact ⟨p, c, q ++ _, by rw [hsplit, List.append_assoc]; rfl, hwarned⟩
    · rcases List.mem_cons.mp hm with rfl | hm
      · cases huser
      · obtain ⟨p, c, q, hsplit, hwarned⟩ := hwell.warns m hm huser
        exact ⟨t.recorded ++ p, c, q, by rw [hsplit, List.append_assoc], hwarned⟩

theorem Watched.track (hfree : d.CollisionFree) (hhashes : l.hashes = d.hashes) (t : LoopTrace)
    (turn : Turn) (h : Watched d t)
    (hargs : ∀ resp, turn.resp = .ok resp → ∀ tc ∈ resp.toolCalls, d.Decodes tc.arguments) :
    Watched d (l.track t turn) := by
  rw [Loop.track, Loop.recordedIn]
  cases hended : t.st.ended with
  | some result =>
    have hne : t.st.ended ≠ none := by rw [hended]; exact Option.some_ne_none result
    rw [iterate_ended hne, List.append_nil]
    exact h
  | none =>
    cases hresp : turn.resp with
    | error err =>
      obtain ⟨text, heq⟩ := iterate_error (l := l) hended hresp
      rw [heq, List.append_nil]
      exact h.quiet rfl rfl (Option.some_ne_none _)
    | ok resp =>
      obtain ⟨hpending, -, hdetector, -⟩ := compact_frame l t.st.send resp turn.compaction
      by_cases hnil : resp.toolCalls = []
      · rw [iterate_ok hended hresp, Loop.act, if_pos hnil]
        dsimp only
        rw [hnil, collected, List.append_nil]
        exact h.quiet hdetector hpending (Option.some_ne_none _)
      · obtain ⟨-, hmsgs, hcritical⟩ := iterate_calls (l := l) hended hresp hnil
        rw [execute_eq, hhashes] at hmsgs hcritical
        rw [hhashes]
        refine Watched.calls hfree h hended (hargs resp hresp) ?_ hmsgs hcritical
        rw [iterate_ok hended hresp, Loop.act, if_neg hnil, execute_eq, hdetector, hhashes]
        rfl

end

/-- The digests are the texts, and no call has arguments. -/
def plainDigests : Digests where
  sha := fun s => "=" ++ s
  isPrint := fun _ => true
  decoded := fun _ => []

/-- The provider asks for the same call again and again. -/
def stubborn : Nat → Turn := fun _ =>
  { resp := .ok
      { content := ""
        toolCalls := [{ id := "a", name := "list_loans", arguments := ⟨"\x7b\x7d"⟩ }]
        finishReason := "tool_calls"
        usage := none }
    compaction := none
    forLLM := fun _ => "no loans" }

end LendingClaw.Agent

/-
LendingClaw.Agent.MemoryFlushTheorems — which compactions a memory flush
comes before.

`memoryFlush` takes a session whose flush mark has reached its compaction
count for flushed. Both are 0 in a new session, so the first compaction
has no flush of its own. From a count above 0 the mark is only reached by
a flush in the same cycle: `compaction_flushed_iff` says that a flush
comes before every compaction exactly when no compaction happens at
count 0 in a cycle without a flush turn.
-/
import LendingClaw.Agent.MemoryFlush
import LendingClaw.Lib.Runs

namespace LendingClaw.Agent

open LendingClaw.Providers LendingClaw.Store

/-! ## Events -/

/-- The events since the last truncation, the last one first. -/
def lastCycle (events : List FlushEvent) : List FlushEvent :=
  events.reverse.takeWhile (fun e => e ≠ .truncated)

/-- A flush turn has run since the last truncation. -/
def Flushed (events : List FlushEvent) : Prop := ∃ b, .flushed b ∈ lastCycle events

/-- Before every truncation, and after the one before it, there is a
flush turn; and between two truncations in one process there is at most
one pre-compaction flush. -/
def EachCompactionFlushed (events : List FlushEvent) : Prop :=
  (∀ pre post, events = pre ++ .truncated :: post → Flushed pre)
    ∧ ∀ pre mid post, events = pre ++ .truncated :: (mid ++ .truncated :: post) →
      .truncated ∉ mid → .restarted ∉ mid → mid.count (.flushed true) ≤ 1

theorem lastCycle_append (events : List FlushEvent) (e : FlushEvent) :
    lastCycle (events ++ [e]) = if e = .truncated then [] else e :: lastCycle events := by
  by_cases he : e = .truncated
  · simp [lastCycle, he]
  · simp [lastCycle, he]

theorem lastCycle_of_split (pre : List FlushEvent) {mid : List FlushEvent}
    (h : .truncated ∉ mid) : lastCycle (pre ++ .truncated :: mid) = mid.reverse := by
  have hmid : ∀ e ∈ mid.reverse, decide (e ≠ FlushEvent.truncated) = true := by
    intro e he
    simp only [decide_eq_true_eq]
    rintro rfl
    exact h (List.mem_reverse.mp he)
  simp only [lastCycle, List.reverse_append, List.reverse_cons, List.append_assoc]
  rw [List.takeWhile_append_of_pos hmid]
  simp

/-- The last event of a list, at the end of one of its splits or after it. -/
theorem append_singleton_eq_split {α : Type} {xs pre post : List α} {x y : α}
    (h : xs ++ [x] = pre ++ y :: post) :
    (post = [] ∧ xs = pre ∧ x = y) ∨ ∃ post', xs = pre ++ y :: post' ∧ post = post' ++ [x] := by
  rcases List.eq_nil_or_concat post with rfl | ⟨post', z, rfl⟩
  · obtain ⟨hpre, hx⟩ := List.append_inj' h rfl
    exact Or.inl ⟨rfl, hpre, by simpa using hx⟩
  · have h' : xs ++ [x] = (pre ++ y :: post') ++ [z] := by simpa using h
    obtain ⟨hpre, hx⟩ := List.append_inj' h' rfl
    cases hx
    exact Or.inr ⟨post', hpre, by simp⟩

theorem EachCompactionFlushed.append {events : List FlushEvent}
    (h : EachCompactionFlushed events) (e : FlushEvent)
    (he : e = .truncated → Flushed events
      ∧ (.restarted ∉ lastCycle events → (lastCycle events).count (.flushed true) ≤ 1)) :
    EachCompactionFlushed (events ++ [e]) := by
  constructor
  · intro pre post hsplit
    rcases append_singleton_eq_split hsplit with ⟨-, rfl, rfl⟩ | ⟨post', hevents, -⟩
    · exact (he rfl).1
    · exact h.1 pre post' hevents
  · intro pre mid post hsplit hmid hproc
    have hsplit' : events ++ [e] = (pre ++ .truncated :: mid) ++ .truncated :: post := by
      simpa using hsplit
    rcases append_singleton_eq_split hsplit' with ⟨-, rfl, rfl⟩ | ⟨post', hevents, -⟩
    · have honce := (he rfl).2
      rw [lastCycle_of_split pre hmid] at honce
      simpa using honce (by simpa using hproc)
    · exact h.2 pre mid post' (by simpa using hevents) hmid hproc

/-! ## Counters -/

section
variable (s : MySQLSessionStore) (w : WorkspaceID) (key : String)

/-- The compaction count and the flush mark of a cached session. -/
def counters : Option (Int × Int) :=
  (s.cached w key).map fun data => (data.compactionCount, data.memoryFlushAt)

/-- The compaction count of the row. -/
def storedCount : Option Int := (s.db.find (w, key)).map SessionRow.compactionCount

end

/-- What a call that keeps the counters does to them: it opens the
session with the mark at 0, inserts its row, or saves it. -/
structure Moves (w : WorkspaceID) (key : String) (s s' : MySQLSessionStore) : Prop where
  cached : counters s' w key = counters s w key
    ∨ (counters s w key = none ∧ ∃ c, counters s' w key = some (c, 0)
      ∧ (c = 0 ∨ storedCount s w key = some c))
  stored : storedCount s' w key = storedCount s w key ∨ storedCount s' w key = some 0
    ∨ ∃ c f, counters s w key = some (c, f) ∧ storedCount s' w key = some c

section
variable {s s' : MySQLSessionStore} {w : WorkspaceID} {key : String}

theorem Moves.refl (s : MySQLSessionStore) (w : WorkspaceID) (key : String) : Moves w key s s :=
  ⟨Or.inl rfl, Or.inl rfl⟩

@[simp] theorem counters_put (s : MySQLSessionStore) (w : WorkspaceID) (key : String)
    (data : SessionData) :
    counters (s.put w key data) w key = some (data.compactionCount, data.memoryFlushAt) := by
  simp [counters]

/-- A change to the session that keeps both counters. -/
def KeepsBoth (f : SessionData → SessionData) : Prop :=
  ∀ data, (f data).compactionCount = data.compactionCount
    ∧ (f data).memoryFlushAt = data.memoryFlushAt

theorem counters_put_kept {f : SessionData → SessionData} (hf : KeepsBoth f)
    {data : SessionData} (hc : s.cached w key = some data) :
    counters (s.put w key (f data)) w key = counters s w key := by
  rw [counters_put, (hf data).1, (hf data).2, counters, hc]
  rfl

theorem storedCount_ifCached (f : SessionData → SessionData) :
    storedCount (s.ifCached w key f) w key = storedCount s w key := by
  unfold MySQLSessionStore.ifCached
  cases s.cached w key with
  | _ => rfl

/-- What a change to the session does to the counters. -/
theorem counters_ifCached {f : SessionData → SessionData} (g : Int × Int → Int × Int)
    (hf : ∀ data, ((f data).compactionCount, (f data).memoryFlushAt)
      = g (data.compactionCount, data.memoryFlushAt)) :
    counters (s.ifCached w key f) w key = (counters s w key).map g := by
  unfold MySQLSessionStore.ifCached
  cases hc : s.cached w key with
  | none => simp [counters, hc]
  | some data => simp [counters, hc, hf]

theorem moves_ifCached {f : SessionData → SessionData} (hf : KeepsBoth f) :
    Moves w key s (s.ifCached w key f) := by
  refine ⟨Or.inl ?_, Or.inl (storedCount_ifCached f)⟩
  rw [counters_ifCached id (fun data => by rw [(hf data).1, (hf data).2, id])]
  simp

theorem counters_none (hc : s.cached w key = none) : counters s w key = none := by
  rw [counters, hc]
  rfl

/-- The counters of a loaded session are those of the row, the mark 0. -/
theorem loaded_counters {query : Fault} {data : SessionData}
    (h : s.loadFromDB w key query = some data) :
    data.memoryFlushAt = 0 ∧ storedCount s w key = some data.compactionCount := by
  cases query with
  | some err => cases h
  | none =>
    obtain ⟨row, hrow, rfl⟩ := Option.map_eq_some_iff.mp h
    rw [storedCount, hrow]
    unfold SessionRow.load
    cases row.metadata with
    | _ => exact ⟨rfl, rfl⟩

theorem moves_load {query : Fault} {data : SessionData} {f : SessionData → SessionData}
    (hf : KeepsBoth f) (hc : s.cached w key = none) (h : s.loadFromDB w key query = some data) :
    Moves w key s (s.put w key (f data)) := by
  obtain ⟨hmark, hcount⟩ := loaded_counters h
  refine ⟨Or.inr ⟨counters_none hc, data.compactionCount, ?_, Or.inr hcount⟩, Or.inl rfl⟩
  rw [counters_put, (hf data).1, (hf data).2, hmark]

theorem storedCount_initSession (s : MySQLSessionStore) (w : WorkspaceID)
    (key kind createdBy : String) (exec : Fault) :
    storedCount (s.initSession w kind (newSession key createdBy) exec) w key
        = storedCount s w key
      ∨ storedCount (s.initSession w kind (newSession key createdBy) exec) w key = some 0 := by
  cases exec with
  | some err => exact Or.inl rfl
  | none =>
    simp only [storedCount, MySQLSessionStore.initSession, MySQLSessionStore.insertRow,
      MySQLSessionStore.db_put, Lib.Table.find_upsert]
    split
    · cases s.db.find (w, key) with
      | none => exact Or.inr rfl
      | some row => exact Or.inl rfl
    · exact Or.inl rfl

theorem moves_initSession {f : SessionData → SessionData} (hf : KeepsBoth f)
    (hc : s.cached w key = none) (kind createdBy : String) (exec : Fault) :
    Moves w key s ((s.initSession w kind (newSession key createdBy) exec).put w key
      (f (newSession key createdBy))) := by
  refine ⟨Or.inr ⟨counters_none hc, 0, ?_, Or.inl rfl⟩, ?_⟩
  · rw [counters_put, (hf _).1, (hf _).2]
    rfl
  · exact (storedCount_initSession s w key kind createdBy exec).imp id Or.inl

theorem moves_get (query : Fault) : Moves w key s (s.get w key query).1 := by
  unfold MySQLSessionStore.get
  cases hc : s.cached w key with
  | some data => exact Moves.refl s w key
  | none =>
    cases hl : s.loadFromDB w key query with
    | some data => exact moves_load (f := id) (fun _ => ⟨rfl, rfl⟩) hc hl
    | none => exact Moves.refl s w key

theorem moves_withInit {f : SessionData → SessionData} (hf : KeepsBoth f)
    (query exec : Fault) : Moves w key s (s.withInit w key query exec f) := by
  show Moves w key s ((s.getOrInit w key query exec).1.put w key
    (f (s.getOrInit w key query exec).2))
  unfold MySQLSessionStore.getOrInit
  cases hc : s.cached w key with
  | some data => exact ⟨Or.inl (counters_put_kept hf hc), Or.inl rfl⟩
  | none =>
    cases hl : s.loadFromDB w key query with
    | some data => exact ⟨by simpa using (moves_load hf hc hl).cached, Or.inl rfl⟩
    | none => exact moves_initSession hf hc "user" "" exec

theorem moves_getOrCreate (createdBy kind : String) (query exec : Fault) :
    Moves w key s (s.getOrCreate w key createdBy kind query exec).1 := by
  have hf : KeepsBoth (MySQLSessionStore.backfill createdBy) := fun _ => ⟨rfl, rfl⟩
  unfold MySQLSessionStore.getOrCreate
  cases hc : s.cached w key with
  | some data => exact ⟨Or.inl (counters_put_kept hf hc), Or.inl rfl⟩
  | none =>
    cases hl : s.loadFromDB w key query with
    | some data => exact moves_load hf hc hl
    | none =>
      have hm := moves_initSession (f := id) (fun _ => ⟨rfl, rfl⟩) hc
        (if kind = "" then "user" else kind) createdBy exec
      refine ⟨?_, hm.stored⟩
      refine Or.inr ⟨counters_none hc, 0, ?_, Or.inl rfl⟩
      simp only [counters, MySQLSessionStore.initSession, MySQLSessionStore.cached_insertRow]
      exact counters_put s w key (newSession key createdBy)

theorem moves_save (exec : Fault) : Moves w key s (s.save w key exec).1 := by
  unfold MySQLSessionStore.save
  cases hc : s.cached w key with
  | none => exact Moves.refl s w key
  | some snapshot =>
    cases exec with
    | some err => exact Moves.refl s w key
    | none =>
      refine ⟨Or.inl rfl, ?_⟩
      simp only [storedCount, Lib.Table.find_update, if_pos]
      cases s.db.find (w, key) with
      | none => exact Or.inl rfl
      | some row =>
        refine Or.inr (Or.inr ⟨snapshot.compactionCount, snapshot.memoryFlushAt, ?_, rfl⟩)
        rw [counters, hc]
        rfl

theorem moves_call (s : MySQLSessionStore) (c : RunCall w key) :
    Moves w key s (s.step c.op) := by
  obtain ⟨op, htarget, hkeeps⟩ := c
  have hsame : ∀ f : SessionData → SessionData, KeepsBoth f →
      Moves w key s (s.ifCached w key f) := fun f hf => moves_ifCached hf
  have hinit : ∀ (query exec : Fault) (f : SessionData → SessionData), KeepsBoth f →
      Moves w key s (s.withInit w key query exec f) :=
    fun query exec f hf => moves_withInit hf query exec
  cases op with
  | getOrCreate w' key' createdBy kind query exec =>
    cases htarget
    exact moves_getOrCreate createdBy kind query exec
  | get w' key' query =>
    cases htarget
    exact moves_get query
  | getHistory w' key' query =>
    cases htarget
    exact moves_get query
  | addMessage w' key' msg query exec =>
    cases htarget
    rw [MySQLSessionStore.step, MySQLSessionStore.addMessage]
    refine hinit query exec _ ?_
    intro data
    exact ⟨rfl, rfl⟩
  | setMessages w' key' msgs query exec =>
    cases htarget
    rw [MySQLSessionStore.step, MySQLSessionStore.setMessages]
    refine hinit query exec _ ?_
    intro data
    exact ⟨rfl, rfl⟩
  | setTitle w' key' title query exec =>
    cases htarget
    rw [MySQLSessionStore.step, MySQLSessionStore.setTitle]
    refine hinit query exec _ ?_
    intro data
    exact ⟨rfl, rfl⟩
  | save w' key' exec =>
    cases htarget
    exact moves_save exec
  | setSessionMetaValue w' key' metaKey value =>
    cases htarget
    refine hsame _ fun data => ?_
    split
    · exact ⟨rfl, rfl⟩
    · exact ⟨rfl, rfl⟩
  | delete w' key' exec => exact hkeeps.elim
  | incrementCompaction w' key' => exact hkeeps.elim
  | setMemoryFlushAt w' key' compactionCount => exact hkeeps.elim
  | _ =>
    cases htarget
    exact hsame _ fun _ => ⟨rfl, rfl⟩

end

/-! ## The invariant -/

/-- The goroutine has its truncation before it. -/
def Pc.before : Pc → Prop
  | .incrementCompaction | .setCompactedAt | .save | .done => False
  | _ => True

structure Compacting.Inv (w : WorkspaceID) (key : String) (sys : Compacting) : Prop where
  stored : ∀ c, storedCount sys.store w key = some c → 0 ≤ c
  cached : ∀ c f, counters sys.store w key = some (c, f) → 0 ≤ c ∧ f ≤ c
  /-- From a count above 0, the mark is the flush of this cycle. -/
  marked : ∀ c, counters sys.store w key = some (c, c) → 0 < c →
    sys.pc ≠ .incrementCompaction → Flushed sys.events
  running : sys.pc.before → ∃ c f, counters sys.store w key = some (c, f)
    ∧ (0 < c → Flushed sys.events)
  truncated : sys.pc = .incrementCompaction → .flushed true ∉ lastCycle sys.events
  once : .restarted ∉ lastCycle sys.events →
    (lastCycle sys.events).count (.flushed true) ≤ 1
      ∧ (.flushed true ∈ lastCycle sys.events →
        ∃ c, counters sys.store w key = some (c, c))
  safe : EachCompactionFlushed sys.events

namespace Compacting

section
variable {cfg : LoopConfig} {sanitize : String → String} {w : WorkspaceID} {key : String}
  {sys : Compacting}

/-- A call that keeps the counters keeps the invariant. -/
theorem Inv.moves (h : sys.Inv w key) {s' : MySQLSessionStore}
    (hm : Moves w key sys.store s') : Inv w key { sys with store := s' } := by
  have hkept : ∀ c f, counters sys.store w key = some (c, f) →
      counters s' w key = some (c, f) := by
    intro c f hc
    rcases hm.cached with heq | ⟨hnone, -⟩
    · rw [heq, hc]
    · rw [hnone] at hc
      cases hc
  constructor
  · intro c hc
    rcases hm.stored with heq | hzero | ⟨c', f, hcached, hcount⟩
    · exact h.stored c (heq ▸ hc)
    · rw [hzero] at hc
      cases hc
      exact Int.le_refl 0
    · rw [hcount] at hc
      cases hc
      exact (h.cached c f hcached).1
  · intro c f hc
    rcases hm.cached with heq | ⟨-, c', hnew, hc'⟩
    · exact h.cached c f (heq ▸ hc)
    · rw [hnew] at hc
      cases hc
      rcases hc' with rfl | hrow
      · exact ⟨Int.le_refl 0, Int.le_refl 0⟩
      · exact ⟨h.stored _ hrow, h.stored _ hrow⟩
  · intro c hc hpos hpc
    rcases hm.cached with heq | ⟨-, c', hnew, -⟩
    · exact h.marked c (heq ▸ hc) hpos hpc
    · rw [hnew] at hc
      cases hc
      exact absurd hpos (Int.lt_irrefl 0)
  · intro hpc
    obtain ⟨c, f, hc, hflushed⟩ := h.running hpc
    exact ⟨c, f, hkept c f hc, hflushed⟩
  · exact h.truncated
  · intro hproc
    obtain ⟨hcount, hmark⟩ := h.once hproc
    refine ⟨hcount, fun hmem => ?_⟩
    obtain ⟨c, hc⟩ := hmark hmem
    exact ⟨c, hkept c c hc⟩
  · exact h.safe

/-- The goroutine moves on, on its side of the truncation. -/
theorem Inv.setPc (h : sys.Inv w key) {pc : Pc} (hfrom : sys.pc ≠ .incrementCompaction)
    (hto : pc ≠ .incrementCompaction) (hbefore : pc.before → sys.pc.before) :
    Inv w key { sys with pc := pc } where
  stored := h.stored
  cached := h.cached
  marked := fun c hc hpos _ => h.marked c hc hpos hfrom
  running := fun hpc => h.running (hbefore hpc)
  truncated := fun hpc => absurd hpc hto
  once := h.once
  safe := h.safe

/-- A capture counts as a flush turn, and not as a pre-compaction one. -/
theorem Inv.captured (h : sys.Inv w key) :
    Inv w key { sys with events := sys.events ++ [.flushed false] } := by
  have hcycle : lastCycle (sys.events ++ [.flushed false])
      = .flushed false :: lastCycle sys.events := by
    rw [lastCycle_append]
    rfl
  have hflushed : Flushed (sys.events ++ [.flushed false]) := ⟨false, by simp [hcycle]⟩
  constructor
  · exact h.stored
  · exact h.cached
  · exact fun _ _ _ _ => hflushed
  · intro hpc
    obtain ⟨c, f, hc, -⟩ := h.running hpc
    exact ⟨c, f, hc, fun _ => hflushed⟩
  · intro hpc
    simpa [hcycle] using h.truncated hpc
  · simpa [hcycle] using h.once
  · exact h.safe.append _ (by simp)

/-! ## Steps -/

theorem counters_some {s : MySQLSessionStore} {c f : Int}
    (h : counters s w key = some (c, f)) :
    s.getCompactionCount w key = c ∧ s.getMemoryFlushAt w key = f := by
  unfold counters at h
  cases hc : s.cached w key with
  | none =>
    rw [hc] at h
    cases h
  | some data =>
    rw [hc] at h
    cases h
    simp [MySQLSessionStore.getCompactionCount, MySQLSessionStore.getMemoryFlushAt, hc]

/-- A session that is still not cached has given no history. -/
theorem getHistory_uncached {s : MySQLSessionStore} {query : Fault}
    (h : counters (s.getHistory w key query).1 w key = none) :
    (s.getHistory w key query).2 = [] := by
  revert h
  simp only [MySQLSessionStore.getHistory, MySQLSessionStore.get]
  cases hc : s.cached w key with
  | some data => simp [counters, hc]
  | none =>
    cases s.loadFromDB w key query with
    | some data => simp [counters]
    | none => simp

/-- An empty history does not trigger a summarization. -/
theorem no_trigger_empty (lastTokens lastCount : Int) (threshold : Nat) :
    estimateTokensWithCalibration [] lastTokens lastCount ≤ threshold := by
  unfold estimateTokensWithCalibration
  have hempty : lastTokens ≤ 0 ∨ lastCount ≤ 0 ∨ lastCount > ([] : List Message).length := by
    simp only [List.length_nil]
    omega
  rw [if_pos hempty]
  simp [estimateTokens]

theorem Inv.begin (h : sys.Inv w key) (hpc : sys.pc = .done) {c f : Int}
    (hc : counters sys.store w key = some (c, f)) (hflushed : 0 < c → Flushed sys.events) :
    Inv w key { sys with pc := .getHistory } where
  stored := h.stored
  cached := h.cached
  marked := fun c' hc' hpos _ => h.marked c' hc' hpos (by simp [hpc])
  running := fun _ => ⟨c, f, hc, hflushed⟩
  truncated := fun hpc' => by cases hpc'
  once := h.once
  safe := h.safe

/-- A pre-compaction flush: it is the only one of its cycle. -/
theorem Inv.flushed (h : sys.Inv w key) {c f : Int}
    (hc : counters sys.store w key = some (c, f)) (hlt : f < c) (hpc : sys.pc = .done)
    {s' : MySQLSessionStore} (hstored : storedCount s' w key = storedCount sys.store w key)
    (hmark : counters s' w key = some (c, c)) :
    Inv w key { sys with store := s', events := sys.events ++ [.flushed true] } := by
  have hcycle : lastCycle (sys.events ++ [.flushed true])
      = .flushed true :: lastCycle sys.events := by
    rw [lastCycle_append]
    rfl
  have hflushed : Flushed (sys.events ++ [.flushed true]) := ⟨true, by simp [hcycle]⟩
  have hnone : .restarted ∉ lastCycle sys.events → .flushed true ∉ lastCycle sys.events := by
    intro hproc hmem
    obtain ⟨c', hc'⟩ := (h.once hproc).2 hmem
    rw [hc] at hc'
    cases hc'
    exact Int.lt_irrefl c hlt
  constructor
  · intro c' hc'
    exact h.stored c' (hstored ▸ hc')
  · intro c' f' hc'
    rw [hmark] at hc'
    cases hc'
    exact ⟨(h.cached c f hc).1, Int.le_refl c⟩
  · exact fun _ _ _ _ => hflushed
  · exact fun _ => ⟨c, c, hmark, fun _ => hflushed⟩
  · intro hpc'
    rw [hpc] at hpc'
    cases hpc'
  · intro hproc
    have hproc' : .restarted ∉ lastCycle sys.events := by
      intro hmem
      exact hproc (by simp [hcycle, hmem])
    refine ⟨?_, fun _ => ⟨c, hmark⟩⟩
    have hzero := List.count_eq_zero.mpr (hnone hproc')
    simp [hcycle, hzero]
  · exact h.safe.append _ (by simp)

theorem Inv.memoryFlush (h : sys.Inv w key) (hmem : cfg.hasMemory = true)
    (hpc : sys.pc = .done) {c f : Int} (hc : counters sys.store w key = some (c, f))
    (query : Fault) :
    Inv w key { sys.memoryFlush cfg w key query with pc := .getHistory } := by
  obtain ⟨hcount, hmark⟩ := counters_some hc
  have hle := (h.cached c f hc).2
  simp only [Compacting.memoryFlush, hmem, hcount, hmark]
  by_cases hge : f ≥ c
  · rw [if_neg (by simp), if_pos hge]
    apply h.begin hpc hc
    intro hpos
    have heq : f = c := Int.le_antisymm hle hge
    exact h.marked c (heq ▸ hc) hpos (by simp [hpc])
  · rw [if_neg (by simp), if_neg hge]
    have hlt : f < c := by omega
    have hcached : (sys.store.getHistory w key query).1 = sys.store := by
      unfold counters at hc
      cases hd : sys.store.cached w key with
      | none =>
        rw [hd] at hc
        cases hc
      | some data => simp [MySQLSessionStore.getHistory, MySQLSessionStore.get, hd]
    have hset : counters (sys.store.setMemoryFlushAt w key c) w key = some (c, c) := by
      rw [MySQLSessionStore.setMemoryFlushAt, counters_ifCached (fun p => (p.1, c))
        (fun _ => rfl), hc]
      rfl
    have hflush := h.flushed hc hlt hpc (storedCount_ifCached _) hset
    rw [← hcached] at hflush hset
    exact hflush.begin hpc hset (fun _ => ⟨true, by simp [lastCycle_append]⟩)

theorem Inv.maybeSummarize (h : sys.Inv w key) (hmem : cfg.hasMemory = true)
    (query flushQuery : Fault) : (sys.maybeSummarize cfg w key query flushQuery).Inv w key := by
  have hread : Inv w key { sys with store := (sys.store.getHistory w key query).1 } :=
    h.moves (moves_get query)
  simp only [Compacting.maybeSummarize]
  split
  · exact hread
  · rename_i htrigger
    by_cases hpc : sys.pc = .done
    · rw [if_neg (by simp [hpc])]
      cases hc : counters (sys.store.getHistory w key query).1 w key with
      | none =>
        rw [getHistory_uncached hc] at htrigger
        exact absurd ⟨Nat.zero_le 50, no_trigger_empty _ _ cfg.threshold⟩ htrigger
      | some p => exact hread.memoryFlush hmem hpc hc flushQuery
    · rw [if_pos hpc]
      exact hread

theorem Inv.maybePeriodicMemoryCapture (h : sys.Inv w key) (query : Fault) :
    (sys.maybePeriodicMemoryCapture cfg w key query).Inv w key := by
  have hread : Inv w key { sys with store := (sys.store.getHistory w key query).1 } :=
    h.moves (moves_get query)
  have hkept : ∀ s value, Moves w key s
      (s.setSessionMetaValue w key sessionMetaKeyLastPeriodicFlushTurn value) := by
    intro s value
    apply moves_ifCached
    intro data
    exact ⟨rfl, rfl⟩
  have hcount : ∀ n, Inv w key
      { sys with store := (sys.store.getHistory w key query).1, captures := n } := fun _ =>
    { stored := hread.stored, cached := hread.cached, marked := hread.marked
      running := hread.running, truncated := hread.truncated, once := hread.once
      safe := hread.safe }
  simp only [Compacting.maybePeriodicMemoryCapture]
  split
  · exact h
  · split
    · exact hread
    · split
      · exact hread
      · exact (hcount (sys.captures + 1)).moves (hkept _ _)

theorem Inv.capture (h : sys.Inv w key) (query : Fault) (n : Nat) :
    Inv w key { sys.doMemoryFlush w key false query with captures := n } := by
  have hflush := (h.moves (moves_get query)).captured
  exact
    { stored := hflush.stored, cached := hflush.cached, marked := hflush.marked
      running := hflush.running, truncated := hflush.truncated, once := hflush.once
      safe := hflush.safe }

theorem Inv.restart (h : sys.Inv w key) : sys.restart.Inv w key := by
  have hnone : counters (newMySQLSessionStore sys.store.db) w key = none := rfl
  constructor
  · exact h.stored
  · intro c f hc
    cases hnone.symm.trans hc
  · intro c hc
    cases hnone.symm.trans hc
  · exact fun hpc => hpc.elim
  · intro hpc
    cases hpc
  · intro hproc
    exact absurd (by simp [Compacting.restart, lastCycle_append]) hproc
  · exact h.safe.append _ (by simp)

/-- At the truncation, a flush turn has run if the count is above 0. -/
theorem Inv.truncate (h : sys.Inv w key) {keepLast : Int} (hpc : sys.pc = .truncateHistory keepLast)
    (hflushed : Flushed sys.events) (env : Answers) :
    (sys.summarizer sanitize w key env).Inv w key := by
  have hmoves : Inv w key { sys with store := sys.store.truncateHistory w key keepLast } := by
    apply h.moves
    apply moves_ifCached
    intro data
    exact ⟨rfl, rfl⟩
  simp only [Compacting.summarizer, hpc, advance]
  constructor
  · exact hmoves.stored
  · exact hmoves.cached
  · exact fun _ _ _ hne => absurd rfl hne
  · exact fun hbefore => hbefore.elim
  · intro _
    simp [lastCycle_append]
  · intro _
    simp [lastCycle_append]
  · exact h.safe.append _ (fun _ => ⟨hflushed, fun hproc => (h.once hproc).1⟩)

/-- The count goes above the mark, and a new cycle is open. -/
theorem Inv.increment (h : sys.Inv w key) (hpc : sys.pc = .incrementCompaction)
    (env : Answers) : (sys.summarizer sanitize w key env).Inv w key := by
  have hstored : storedCount (sys.store.incrementCompaction w key) w key
      = storedCount sys.store w key := storedCount_ifCached _
  have hcounters : counters (sys.store.incrementCompaction w key) w key
      = (counters sys.store w key).map fun p => (p.1 + 1, p.2) :=
    counters_ifCached _ (fun _ => rfl)
  have hold : ∀ c f, counters (sys.store.incrementCompaction w key) w key = some (c, f) →
      0 ≤ c ∧ f < c := by
    intro c f hc
    rw [hcounters] at hc
    obtain ⟨⟨c', f'⟩, hc', heq⟩ := Option.map_eq_some_iff.mp hc
    cases heq
    have := h.cached c' f' hc'
    omega
  simp only [Compacting.summarizer, hpc, advance]
  constructor
  · intro c hc
    exact h.stored c (hstored ▸ hc)
  · intro c f hc
    exact ⟨(hold c f hc).1, Int.le_of_lt (hold c f hc).2⟩
  · intro c hc
    exact absurd (hold c c hc).2 (Int.lt_irrefl c)
  · exact fun hbefore => hbefore.elim
  · intro hpc'
    cases hpc'
  · intro hproc
    exact ⟨(h.once hproc).1, fun hmem => absurd hmem (h.truncated hpc)⟩
  · exact h.safe

/-- The steps of the goroutine on either side of the truncation. -/
theorem Inv.summarizer (h : sys.Inv w key) (env : Answers)
    (ht : ∀ keepLast, sys.pc = .truncateHistory keepLast → Flushed sys.events) :
    (sys.summarizer sanitize w key env).Inv w key := by
  have hmove : ∀ (s' : MySQLSessionStore) (pc : Pc), Moves w key sys.store s' →
      sys.pc ≠ .incrementCompaction → pc ≠ .incrementCompaction →
      (pc.before → sys.pc.before) → Inv w key { sys with store := s', pc := pc } := by
    intro s' pc hm hfrom hto hbefore
    exact (h.moves hm).setPc hfrom hto hbefore
  cases hpc : sys.pc with
  | truncateHistory keepLast => exact h.truncate hpc (ht keepLast hpc) env
  | incrementCompaction => exact h.increment hpc env
  | getHistory =>
    simp only [Compacting.summarizer, hpc, advance]
    apply hmove _ _ (moves_get env.query) (by simp [hpc])
    · split
      · simp
      · simp
    · intro _
      rw [hpc]
      trivial
  | getSummary history splitIdx =>
    simp only [Compacting.summarizer, hpc, advance]
    apply hmove _ _ (Moves.refl _ _ _) (by simp [hpc]) (by simp)
    intro _
    rw [hpc]
    trivial
  | chat history splitIdx request =>
    have hbefore : ∀ pc : Pc, pc.before → sys.pc.before := by
      intro pc _
      rw [hpc]
      trivial
    cases hreply : env.reply with
    | error err =>
      simp only [Compacting.summarizer, hpc, advance, hreply]
      exact hmove _ _ (Moves.refl _ _ _) (by simp [hpc]) (by simp) (hbefore _)
    | ok content =>
      simp only [Compacting.summarizer, hpc, advance, hreply]
      apply hmove _ _ (Moves.refl _ _ _) (by simp [hpc]) _ (hbefore _)
      split
      · simp
      · simp
  | setSummary keepLast cleaned =>
    simp only [Compacting.summarizer, hpc, advance]
    apply hmove _ _ _ (by simp [hpc]) (by simp)
    · intro _
      rw [hpc]
      trivial
    · apply moves_ifCached
      intro data
      exact ⟨rfl, rfl⟩
  | setCompactedAt =>
    simp only [Compacting.summarizer, hpc, advance]
    apply hmove _ _ _ (by simp [hpc]) (by simp)
    · exact fun hbefore => hbefore.elim
    · apply moves_ifCached
      intro data
      split
      · exact ⟨rfl, rfl⟩
      · exact ⟨rfl, rfl⟩
  | save =>
    simp only [Compacting.summarizer, hpc, advance]
    apply hmove _ _ (moves_save env.exec) (by simp [hpc]) (by simp)
    exact fun hbefore => hbefore.elim
  | done =>
    simp only [Compacting.summarizer, hpc, advance]
    exact hmove _ _ (Moves.refl _ _ _) (by simp [hpc]) (by simp) (fun hbefore => hbefore.elim)

/-- A truncation finds the compaction count above 0, or a flush turn in
the cycle that it ends. -/
def CountedOrFlushed (w : WorkspaceID) (key : String) (sys : Compacting) :
    FlushAct w key → Prop
  | .summarizer _ =>
    match sys.pc with
    | .truncateHistory _ => 0 < sys.store.getCompactionCount w key ∨ Flushed sys.events
    | _ => True
  | _ => True

theorem Inv.flushed_of_counted (h : sys.Inv w key) {env : Answers}
    (hok : CountedOrFlushed w key sys (.summarizer env)) {keepLast : Int}
    (hpc : sys.pc = .truncateHistory keepLast) : Flushed sys.events := by
  simp only [CountedOrFlushed, hpc] at hok
  rcases hok with hpos | hflushed
  · obtain ⟨c, f, hc, hflush⟩ := h.running (by rw [hpc]; trivial)
    rw [(counters_some hc).1] at hpos
    exact hflush hpos
  · exact hflushed

theorem Inv.step (h : sys.Inv w key) (hmem : cfg.hasMemory = true) (act : FlushAct w key)
    (hok : CountedOrFlushed w key sys act) : (sys.step cfg sanitize w key act).Inv w key := by
  cases act with
  | call c => exact h.moves (moves_call sys.store c)
  | maybeSummarize query flushQuery => exact h.maybeSummarize hmem query flushQuery
  | summarizer env =>
    exact h.summarizer env (fun _ hpc => h.flushed_of_counted hok hpc)
  | maybePeriodicMemoryCapture query => exact h.maybePeriodicMemoryCapture query
  | capture query =>
    simp only [Compacting.step]
    split
    · exact h
    · exact h.capture query _
  | restart => exact h.restart

/-- A truncation outside the condition is not preceded by its flush. -/
theorem unflushed_truncation {act : FlushAct w key} (hbad : ¬ CountedOrFlushed w key sys act) :
    ¬ EachCompactionFlushed (sys.step cfg sanitize w key act).events := by
  cases act with
  | summarizer env =>
    cases hpc : sys.pc with
    | truncateHistory keepLast =>
      simp only [CountedOrFlushed, hpc, not_or] at hbad
      intro h
      apply hbad.2
      apply h.1 sys.events []
      simp [Compacting.step, Compacting.summarizer, hpc]
    | _ =>
      simp only [CountedOrFlushed, hpc] at hbad
      exact absurd trivial hbad
  | _ => exact absurd trivial hbad

end

/-- A process over a database without the session. -/
def start (db : SessionTable) : Compacting :=
  { store := newMySQLSessionStore db
    pc := .done
    captures := 0
    events := [] }

theorem inv_start (db : SessionTable) (w : WorkspaceID) (key : String)
    (hnew : db.find (w, key) = none) : (start db).Inv w key := by
  have hnone : counters (start db).store w key = none := rfl
  constructor
  · intro c hc
    simp [storedCount, start, newMySQLSessionStore, hnew] at hc
  · intro c f hc
    cases hnone.symm.trans hc
  · intro c hc
    cases hnone.symm.trans hc
  · exact fun hpc => hpc.elim
  · intro hpc
    cases hpc
  · intro _
    simp [start, lastCycle]
  · refine ⟨?_, ?_⟩
    · intro pre post h
      simp [start] at h
    · intro pre mid post h
      simp [start] at h

end Compacting

/-- In every run of a new session, with any restarts, a flush comes
before every compaction, and only one between two of a process, if and
only if every truncation finds the compaction count above 0 or a flush
turn in its cycle. -/
theorem compaction_flushed_iff (cfg : LoopConfig) (hmem : cfg.hasMemory = true)
    (sanitize : String → String) (w : WorkspaceID) (key : String) (db : SessionTable)
    (hnew : db.find (w, key) = none) (acts : List (FlushAct w key)) :
    Lib.Always (fun sys => EachCompactionFlushed sys.events)
        (Compacting.step cfg sanitize w key) (Compacting.start db) acts
      ↔ Lib.Along (Compacting.CountedOrFlushed w key) (Compacting.step cfg sanitize w key)
        (Compacting.start db) acts := by
  have hstep : ∀ sys act, Compacting.Inv w key sys → Compacting.CountedOrFlushed w key sys act →
      Compacting.Inv w key (sys.step cfg sanitize w key act) :=
    fun _ act h hok => h.step hmem act hok
  have hbad : ∀ sys act, Compacting.Inv w key sys → ¬ Compacting.CountedOrFlushed w key sys act →
      ¬ EachCompactionFlushed (sys.step cfg sanitize w key act).events :=
    fun _ _ _ hbad => Compacting.unflushed_truncation hbad
  exact Lib.always_iff_along hstep (fun _ h => h.safe) hbad acts (Compacting.start db)
    (Compacting.inv_start db w key hnew)

/-! ### The first compaction -/

/-- The defaults of `NewLoop`, without periodic captures. -/
def defaultConfig : LoopConfig :=
  { hasMemory := true, memoryCaptureEveryTurns := 0, threshold := 150000 }

def question (content : String) : FlushAct defaultWorkspaceID "s1" :=
  .call
    { op := .addMessage defaultWorkspaceID "s1" (textMessage .user content) none none
      target := rfl
      keepsCounters := trivial }

def summaryGiven : Answers :=
  { query := none, reply := .ok "five questions", now := "2026-01-01T00:00:00Z", exec := none }

/-- Five questions, a prompt over the threshold, and a summarization that
gets as far as the truncation. -/
def firstCompaction : List (FlushAct defaultWorkspaceID "s1") :=
  ["one?", "two?", "three?", "four?", "five?"].map question
    ++ [.call
          { op := .setLastPromptTokens defaultWorkspaceID "s1" 160000 5
            target := rfl
            keepsCounters := trivial },
        .maybeSummarize none none]
    ++ List.replicate 5 (.summarizer summaryGiven)

/-- The history is truncated, and no flush has run. -/
theorem first_compaction_unflushed :
    ¬ EachCompactionFlushed
      (Lib.run (Compacting.step defaultConfig id defaultWorkspaceID "s1")
        (Compacting.start Lib.Table.empty) firstCompaction).events := by
  intro h
  have hevents : (Lib.run (Compacting.step defaultConfig id defaultWorkspaceID "s1")
      (Compacting.start Lib.Table.empty) firstCompaction).events = [.truncated] := by
    decide +kernel
  obtain ⟨b, hb⟩ := h.1 [] [] hevents
  simp [lastCycle] at hb

/-- The law for the same run. -/
theorem compaction_flushed_iff_first :
    Lib.Always (fun sys => EachCompactionFlushed sys.events)
        (Compacting.step defaultConfig id defaultWorkspaceID "s1")
        (Compacting.start Lib.Table.empty) firstCompaction
      ↔ Lib.Along (Compacting.CountedOrFlushed defaultWorkspaceID "s1")
        (Compacting.step defaultConfig id defaultWorkspaceID "s1")
        (Compacting.start Lib.Table.empty) firstCompaction :=
  compaction_flushed_iff defaultConfig rfl id defaultWorkspaceID "s1" Lib.Table.empty rfl
    firstCompaction

end LendingClaw.Agent

/-
LendingClaw.Mcp.ManagerTheorems — the tool registry against the function
table, over runs of manager operations.

`Mirror` is the law: the workspace-scoped tools are the enabled
functions of the loaded servers, less the names a platform tool owns.
The registry is keyed by (workspace, name) and the servers keep separate
lists of names, so the law is lost when an operation unregisters a name
that another loaded server of the workspace has enabled too. `Spares`
says that it does not, and `registry_mirrors_iff` that this is exact.

All four operations are one kind of step, `Rebuilds`: they change what
one server provides, re-register what it provides afterwards and
unregister what it no longer provides.
-/
import LendingClaw.Mcp.Manager

namespace LendingClaw.Mcp

open LendingClaw.Tools LendingClaw.Store

/-! ## What a server provides -/

/-- `srv` is loaded in `w` with `n` enabled, and `t` is its adapter. -/
def Manager.Provides (m : Manager) (w : WorkspaceID) (srv n : String) (t : Tool) : Prop :=
  ∃ st f, m.servers.lookup (stateKey w srv) = some st ∧ f ∈ m.store.rows
    ∧ f.key = (w, srv, n) ∧ f.enabled = true
    ∧ t = .remote (newRemoteToolFromCache srv st.conn n f.description)

/-- The registry mirrors the function table. -/
structure Mirror (m : Manager) : Prop where
  names : ∀ w n, (∃ t ∈ m.toolsR.scopedTools w, t.name = n) ↔
    m.toolsR.platformOwned n = false ∧ ∃ srv t, m.Provides w srv n t
  tools : ∀ w, ∀ t ∈ m.toolsR.scopedTools w, ∃ srv, m.Provides w srv t.name t

/-- The mirror, read off the registry's keys. -/
structure Filed (m : Manager) : Prop where
  backed : ∀ w n e, m.toolsR.entries.lookup (regKey (WorkspaceID.val w) n) = some e →
    ∃ srv, m.Provides w srv n e.tool
  full : ∀ w srv n t, m.toolsR.platformOwned n = false → m.Provides w srv n t →
    m.toolsR.entries.lookup (regKey (WorkspaceID.val w) n) ≠ none

theorem provides_iff {m : Manager} {w : WorkspaceID} {srv n : String} :
    (∃ t, m.Provides w srv n t) ↔
      m.servers.lookup (stateKey w srv) ≠ none ∧ m.store.Enables w srv n := by
  constructor
  · rintro ⟨t, st, f, hst, hf, hk, he, -⟩
    exact ⟨by simp [hst], f, hf, hk, he⟩
  · rintro ⟨hl, f, hf, hk, he⟩
    obtain ⟨st, hst⟩ := Option.ne_none_iff_exists'.mp hl
    exact ⟨_, st, f, hst, hf, hk, he, rfl⟩

theorem stateKey_inj {w w' : WorkspaceID} {srv srv' : String}
    (h : stateKey w srv = stateKey w' srv') : w = w' ∧ srv = srv' :=
  WorkspaceID.nulKey_inj h

theorem mirror_iff_filed {m : Manager} (hr : m.toolsR.Sound) : Mirror m ↔ Filed m := by
  have hname : ∀ {w n e}, m.toolsR.entries.lookup (regKey (WorkspaceID.val w) n) = some e →
      e.tool ∈ m.toolsR.scopedTools w ∧ e.tool.name = n := by
    intro w n e hl
    obtain ⟨rt, rfl, rfl⟩ := hr.at_regKey hl
    exact ⟨hr.mem_scopedTools.mpr hl, rfl⟩
  have howned : ∀ {w n e}, m.toolsR.entries.lookup (regKey (WorkspaceID.val w) n) = some e →
      m.toolsR.platformOwned n = false := by
    intro w n e hl
    by_contra hc
    rw [hr.lookup_platformOwned w (by simpa using hc)] at hl
    cases hl
  constructor
  · intro h
    refine ⟨fun w n e hl => ?_, fun w srv n t ho hp hnone => ?_⟩
    · obtain ⟨hmem, hn⟩ := hname hl
      rw [← hn]
      exact h.tools w _ hmem
    · obtain ⟨t', hmem, rfl⟩ := (h.names w n).mpr ⟨ho, srv, t, hp⟩
      rw [hr.mem_scopedTools.mp hmem] at hnone
      cases hnone
  · intro h
    have htools : ∀ w, ∀ t ∈ m.toolsR.scopedTools w, ∃ srv, m.Provides w srv t.name t :=
      fun w t ht => h.backed w _ _ (hr.mem_scopedTools.mp ht)
    refine ⟨fun w n => ⟨?_, ?_⟩, htools⟩
    · rintro ⟨t, ht, rfl⟩
      obtain ⟨srv, hp⟩ := htools w t ht
      exact ⟨howned (hr.mem_scopedTools.mp ht), srv, t, hp⟩
    · rintro ⟨ho, srv, t, hp⟩
      obtain ⟨e, he⟩ := Option.ne_none_iff_exists'.mp (h.full w srv n t ho hp)
      exact ⟨e.tool, hname he⟩

/-! ## The invariant and the shape of a step -/

/-- The names a server's state lists are its enabled functions, less the
platform's. -/
def NamesOk (m : Manager) (w : WorkspaceID) (srv : String) : Prop :=
  ∀ st, m.servers.lookup (stateKey w srv) = some st →
    st.toolNames.Nodup ∧ ∀ n, n ∈ st.toolNames ↔
      m.toolsR.platformOwned n = false ∧ m.store.Enables w srv n

structure Inv (m : Manager) : Prop where
  built : m.toolsR.Built
  names : ∀ w srv, NamesOk m w srv
  filed : Filed m

/-- What an operation on one server does to the manager. -/
structure Rebuilds (m m' : Manager) (w : WorkspaceID) (srv : String) : Prop where
  built : m'.toolsR.Built
  owned : ∀ n, m'.toolsR.platformOwned n = m.toolsR.platformOwned n
  servers : ∀ k, k ≠ stateKey w srv → m'.servers.lookup k = m.servers.lookup k
  rows : ∀ f, ¬ (f.workspaceID = w ∧ f.serverName = srv) →
    (f ∈ m'.store.rows ↔ f ∈ m.store.rows)
  names : NamesOk m' w srv
  elsewhere : ∀ w' n, w' ≠ w → m'.toolsR.entries.lookup (regKey (WorkspaceID.val w') n)
    = m.toolsR.entries.lookup (regKey (WorkspaceID.val w') n)
  left : ∀ n e, m'.toolsR.entries.lookup (regKey w.val n) = some e →
    m'.Provides w srv n e.tool
      ∨ m.toolsR.entries.lookup (regKey w.val n) = some e ∧ ¬ m.Provides w srv n e.tool
  full : ∀ n t, m.toolsR.platformOwned n = false → m'.Provides w srv n t →
    m'.toolsR.entries.lookup (regKey w.val n) ≠ none
  untouched : ∀ n, (∀ t, ¬ m.Provides w srv n t) →
    m.toolsR.entries.lookup (regKey w.val n) ≠ none →
    m'.toolsR.entries.lookup (regKey w.val n) ≠ none
  dropped : ∀ n t, m.Provides w srv n t → (∀ t', ¬ m'.Provides w srv n t') →
    m'.toolsR.entries.lookup (regKey w.val n) = none

/-- The step takes no name away that another loaded server provides. -/
def KeepsOthers (m m' : Manager) (w : WorkspaceID) (srv : String) : Prop :=
  ∀ n, m.toolsR.platformOwned n = false → (∃ t, m.Provides w srv n t) →
    (∀ t', ¬ m'.Provides w srv n t') → ∀ srv', srv' ≠ srv → ∀ t, ¬ m.Provides w srv' n t

section
variable {m m' : Manager} {w : WorkspaceID} {srv : String}

/-- Every other server provides what it did. -/
theorem Rebuilds.provides_other (h : Rebuilds m m' w srv) {w' : WorkspaceID}
    {srv' n : String} {t : Tool} (hne : ¬ (w' = w ∧ srv' = srv)) :
    m'.Provides w' srv' n t ↔ m.Provides w' srv' n t := by
  have hkey : stateKey w' srv' ≠ stateKey w srv := fun hc => hne (stateKey_inj hc)
  have hrow : ∀ f : MCPFunction, f.key = (w', srv', n) →
      (f ∈ m'.store.rows ↔ f ∈ m.store.rows) := by
    intro f hf
    simp only [MCPFunction.key, Prod.mk.injEq] at hf
    exact h.rows f fun hc => hne ⟨hf.1 ▸ hc.1, hf.2.1 ▸ hc.2⟩
  unfold Manager.Provides
  rw [h.servers _ hkey]
  refine exists_congr fun st => exists_congr fun f => and_congr_right fun _ => ?_
  constructor
  · intro hp
    obtain ⟨hf, hk, hrest⟩ := hp
    exact ⟨(hrow f hk).mp hf, hk, hrest⟩
  · intro hp
    obtain ⟨hf, hk, hrest⟩ := hp
    exact ⟨(hrow f hk).mpr hf, hk, hrest⟩

theorem Rebuilds.enables_other (h : Rebuilds m m' w srv) {w' : WorkspaceID}
    {srv' n : String} (hne : ¬ (w' = w ∧ srv' = srv)) :
    m'.store.Enables w' srv' n ↔ m.store.Enables w' srv' n := by
  refine exists_congr fun f => ?_
  have hrow : f.key = (w', srv', n) → (f ∈ m'.store.rows ↔ f ∈ m.store.rows) := by
    intro hf
    simp only [MCPFunction.key, Prod.mk.injEq] at hf
    exact h.rows f fun hc => hne ⟨hf.1 ▸ hc.1, hf.2.1 ▸ hc.2⟩
  constructor
  · intro he
    obtain ⟨hf, hk, he⟩ := he
    exact ⟨(hrow hk).mp hf, hk, he⟩
  · intro he
    obtain ⟨hf, hk, he⟩ := he
    exact ⟨(hrow hk).mpr hf, hk, he⟩

/-- The step lemma: one operation that spares the other servers keeps the
invariant. -/
theorem Rebuilds.inv (h : Rebuilds m m' w srv) (hi : Inv m) (hk : KeepsOthers m m' w srv) :
    Inv m' := by
  refine ⟨h.built, fun w' srv' => ?_, fun w' n e hl => ?_, fun w' srv' n t ho hp => ?_⟩
  · by_cases hs : w' = w ∧ srv' = srv
    · obtain ⟨rfl, rfl⟩ := hs
      exact h.names
    · intro st hst
      rw [h.servers _ fun hc => hs (stateKey_inj hc)] at hst
      obtain ⟨hnd, hmem⟩ := hi.names w' srv' st hst
      exact ⟨hnd, fun n => by rw [hmem, h.owned, h.enables_other hs]⟩
  · by_cases hw : w' = w
    · subst hw
      rcases h.left n e hl with hp | ⟨hold, hnot⟩
      · exact ⟨srv, hp⟩
      · obtain ⟨srv', hp⟩ := hi.filed.backed w' n e hold
        have hs : ¬ (w' = w' ∧ srv' = srv) := by
          rintro ⟨-, rfl⟩
          exact hnot hp
        exact ⟨srv', (h.provides_other hs).mpr hp⟩
    · rw [h.elsewhere w' n hw] at hl
      obtain ⟨srv', hp⟩ := hi.filed.backed w' n e hl
      exact ⟨srv', (h.provides_other fun hc => hw hc.1).mpr hp⟩
  · rw [h.owned] at ho
    by_cases hs : w' = w ∧ srv' = srv
    · obtain ⟨rfl, rfl⟩ := hs
      exact h.full n t ho hp
    · rw [h.provides_other hs] at hp
      have hold := hi.filed.full w' srv' n t ho hp
      by_cases hw : w' = w
      · subst hw
        have hsrv : srv' ≠ srv := fun hc => hs ⟨rfl, hc⟩
        by_cases hbefore : ∃ t, m.Provides w' srv n t
        · by_cases hafter : ∃ t, m'.Provides w' srv n t
          · obtain ⟨t', ht'⟩ := hafter
            exact h.full n t' ho ht'
          · exact absurd hp (hk n ho hbefore (not_exists.mp hafter) srv' hsrv t)
        · exact h.untouched n (not_exists.mp hbefore) hold
      · rwa [h.elsewhere w' n hw]

/-- And one that does not loses the mirror at once. -/
theorem Rebuilds.broken (h : Rebuilds m m' w srv) (hk : ¬ KeepsOthers m m' w srv) :
    ¬ Filed m' := by
  intro hf
  apply hk
  rintro n ho ⟨t, ht⟩ hgone srv' hsrv t' hp
  have hp' := (h.provides_other (n := n) (t := t') fun hc => hsrv hc.2).mpr hp
  exact hf.full w srv' n t' (by rwa [h.owned]) hp' (h.dropped n t ht hgone)

/-- An operation that changes neither rows, servers nor registry. -/
theorem Inv.rebuilds_same (hi : Inv m) (hstore : m'.store = m.store)
    (hreg : m'.toolsR = m.toolsR) (hsrv : m'.servers = m.servers) (w : WorkspaceID)
    (srv : String) : Rebuilds m m' w srv := by
  have hprov : ∀ n t, m'.Provides w srv n t ↔ m.Provides w srv n t := by
    intro n t
    unfold Manager.Provides
    rw [hstore, hsrv]
  refine ⟨hreg ▸ hi.built, fun n => by rw [hreg], fun k _ => by rw [hsrv],
    fun f _ => by rw [hstore], ?_, fun w' n _ => by rw [hreg], ?_, ?_, ?_, ?_⟩
  · unfold NamesOk
    rw [hstore, hreg, hsrv]
    exact hi.names w srv
  · intro n e hl
    rw [hreg] at hl
    rw [hprov]
    by_cases hp : m.Provides w srv n e.tool
    · exact Or.inl hp
    · exact Or.inr ⟨hl, hp⟩
  · intro n t ho hp
    rw [hreg]
    exact hi.filed.full w srv n t ho ((hprov n t).mp hp)
  · intro n _ hl
    rwa [hreg]
  · intro n t hp hgone
    exact absurd ((hprov n t).mpr hp) (hgone t)

end

/-! ## The loops over the registry -/

theorem unregisterAll_spec (w : WorkspaceID) (names : List String) :
    ∀ reg : Registry, reg.Built →
      (unregisterAll reg w names).Built
        ∧ (∀ n, (unregisterAll reg w names).platformOwned n = reg.platformOwned n)
        ∧ ∀ k, (unregisterAll reg w names).entries.lookup k
            = if ∃ n ∈ names, k = regKey w.val n then none else reg.entries.lookup k := by
  induction names with
  | nil => exact fun reg h => ⟨h, fun _ => rfl, fun k => by simp [unregisterAll]⟩
  | cons a names ih =>
    intro reg h
    obtain ⟨hb, ho, hl⟩ := ih _ (Registry.Built.drop w a h)
    refine ⟨hb, fun n => (ho n).trans (h.sound.platformOwned_drop w a n), fun k => ?_⟩
    refine (hl k).trans ?_
    rw [Registry.lookup_unregisterForWorkspace]
    by_cases hn : ∃ n ∈ names, k = regKey w.val n
    · obtain ⟨n, hmem, hk⟩ := hn
      rw [if_pos ⟨n, hmem, hk⟩, if_pos ⟨n, List.mem_cons_of_mem _ hmem, hk⟩]
    · rw [if_neg hn]
      by_cases ha : k = regKey w.val a
      · rw [if_pos ha, if_pos ⟨a, List.mem_cons_self, ha⟩]
      · rw [if_neg ha, if_neg]
        rintro ⟨n, hmem, hk⟩
        rcases List.mem_cons.mp hmem with rfl | hmem
        · exact ha hk
        · exact hn ⟨n, hmem, hk⟩

/-- The tool a row registers. -/
def toolOf (srv : String) (conn : Nat) (f : MCPFunction) : Tool :=
  .remote (newRemoteToolFromCache srv conn f.name f.description)

@[simp] theorem toolOf_name (srv : String) (conn : Nat) (f : MCPFunction) :
    (toolOf srv conn f).name = f.name := rfl

/-- A row the load registers: enabled, its name not the platform's. -/
def Registrable (reg : Registry) (f : MCPFunction) : Prop :=
  f.enabled = true ∧ reg.platformOwned f.name = false

theorem tryRegister_owned {reg : Registry} (h : reg.Built) (w : WorkspaceID) (srv : String)
    (conn : Nat) {f : MCPFunction} (ho : reg.platformOwned f.name = true) :
    tryRegister reg w srv conn f = (reg, false) := by
  rw [tryRegister, if_neg]
  intro hf
  rw [(h.sound.freeForRemote_iff w f.name).mp hf] at ho
  cases ho

theorem tryRegister_free {reg : Registry} (h : reg.Built) (w : WorkspaceID) (srv : String)
    (conn : Nat) {f : MCPFunction} (ho : reg.platformOwned f.name = false) :
    tryRegister reg w srv conn f = (reg.registerForWorkspace w.val (toolOf srv conn f), true)
      ∧ (reg.registerForWorkspace w.val (toolOf srv conn f)).Built := by
  have hfree := (h.sound.freeForRemote_iff w f.name).mpr ho
  exact ⟨by rw [tryRegister, if_pos hfree]; rfl, Registry.Built.remote w _ h hfree⟩

/-- What the loading loop registers. -/
theorem registerEnabled_spec (w : WorkspaceID) (srv : String) (conn : Nat)
    (fs : List MCPFunction) :
    ∀ reg : Registry, reg.Built →
      (registerEnabled w srv conn reg fs).1.Built
        ∧ (∀ n, (registerEnabled w srv conn reg fs).1.platformOwned n = reg.platformOwned n)
        ∧ (registerEnabled w srv conn reg fs).2
            = (fs.filter (fun f => f.enabled && !reg.platformOwned f.name)).map MCPFunction.name
        ∧ ∀ k,
            (∃ f ∈ fs, Registrable reg f ∧ k = regKey w.val f.name
              ∧ (registerEnabled w srv conn reg fs).1.entries.lookup k
                  = some ⟨toolOf srv conn f, w.val⟩)
            ∨ (∀ f ∈ fs, Registrable reg f → k ≠ regKey w.val f.name)
              ∧ (registerEnabled w srv conn reg fs).1.entries.lookup k
                  = reg.entries.lookup k := by
  induction fs with
  | nil => exact fun reg h => ⟨h, fun _ => rfl, rfl, fun k => Or.inr ⟨by simp, rfl⟩⟩
  | cons f fs ih =>
    intro reg h
    by_cases he : Registrable reg f
    · obtain ⟨htry, hb⟩ := tryRegister_free h w srv conn he.2
      have hown : ∀ n, (reg.registerForWorkspace w.val (toolOf srv conn f)).platformOwned n
          = reg.platformOwned n := h.sound.platformOwned_remote w _
      have hreg : ∀ g, Registrable (reg.registerForWorkspace w.val (toolOf srv conn f)) g
          ↔ Registrable reg g := fun g => by rw [Registrable, hown, Registrable]
      obtain ⟨ihb, iho, ihn, ihl⟩ := ih _ hb
      have hrun : registerEnabled w srv conn reg (f :: fs)
          = ((registerEnabled w srv conn
                (reg.registerForWorkspace w.val (toolOf srv conn f)) fs).1,
              f.name :: (registerEnabled w srv conn
                (reg.registerForWorkspace w.val (toolOf srv conn f)) fs).2) := by
        rw [registerEnabled, if_neg (by simp [he.1]), htry]
      rw [hrun]
      refine ⟨ihb, fun n => (iho n).trans (hown n), ?_, fun k => ?_⟩
      · simp only [ihn, hown]
        rw [List.filter_cons_of_pos (by simp [he.1, he.2]), List.map_cons]
      · rcases ihl k with ⟨g, hg, hgr, hk, hl⟩ | ⟨hno, hl⟩
        · exact Or.inl ⟨g, List.mem_cons_of_mem _ hg, (hreg g).mp hgr, hk, hl⟩
        · by_cases hk : k = regKey w.val f.name
          · refine Or.inl ⟨f, List.mem_cons_self, he, hk, hl.trans ?_⟩
            rw [Registry.lookup_registerForWorkspace, toolOf_name, if_pos hk]
          · refine Or.inr ⟨fun g hg hgr => ?_, hl.trans ?_⟩
            · rcases List.mem_cons.mp hg with rfl | hg
              · exact hk
              · exact hno g hg ((hreg g).mpr hgr)
            · rw [Registry.lookup_registerForWorkspace, toolOf_name, if_neg hk]
    · have hrun : registerEnabled w srv conn reg (f :: fs)
          = registerEnabled w srv conn reg fs := by
        by_cases hen : f.enabled = true
        · have ho : reg.platformOwned f.name = true := by
            by_contra hc
            exact he ⟨hen, by simpa using hc⟩
          rw [registerEnabled, if_neg (by simp [hen]), tryRegister_owned h w srv conn ho]
        · rw [registerEnabled, if_pos (by simpa using hen)]
      obtain ⟨ihb, iho, ihn, ihl⟩ := ih reg h
      rw [hrun]
      refine ⟨ihb, iho, ?_, fun k => ?_⟩
      · rw [ihn, List.filter_cons_of_neg]
        intro hc
        rw [Bool.and_eq_true, Bool.not_eq_true'] at hc
        exact he hc
      · rcases ihl k with ⟨g, hg, hrest⟩ | ⟨hno, hl⟩
        · exact Or.inl ⟨g, List.mem_cons_of_mem _ hg, hrest⟩
        · refine Or.inr ⟨fun g hg hgr => ?_, hl⟩
          rcases List.mem_cons.mp hg with rfl | hg
          · exact absurd hgr he
          · exact hno g hg hgr

/-! ## The operations -/

section
variable {m m' : Manager} {w : WorkspaceID} {srv : String}

/-- `m₁` is the manager `m` with one server removed: the rows and the
other servers stay, and what the server provided is unregistered. -/
structure Removed (m m₁ : Manager) (w : WorkspaceID) (srv : String) : Prop where
  gone : m₁.servers.lookup (stateKey w srv) = none
  servers : ∀ k, k ≠ stateKey w srv → m₁.servers.lookup k = m.servers.lookup k
  built : m₁.toolsR.Built
  owned : ∀ n, m₁.toolsR.platformOwned n = m.toolsR.platformOwned n
  elsewhere : ∀ w' n, w' ≠ w → m₁.toolsR.entries.lookup (regKey (WorkspaceID.val w') n)
    = m.toolsR.entries.lookup (regKey (WorkspaceID.val w') n)
  provided : ∀ n t, m.Provides w srv n t → m₁.toolsR.entries.lookup (regKey w.val n) = none
  others : ∀ n, (∀ t, ¬ m.Provides w srv n t) →
    m₁.toolsR.entries.lookup (regKey w.val n) = m.toolsR.entries.lookup (regKey w.val n)

theorem remove_store (m : Manager) (w : WorkspaceID) (srv : String) :
    (m.remove w srv).store = m.store := by
  unfold Manager.remove
  split <;> rfl

theorem remove_nextConn (m : Manager) (w : WorkspaceID) (srv : String) :
    (m.remove w srv).nextConn = m.nextConn := by
  unfold Manager.remove
  split <;> rfl

theorem Inv.removed (hi : Inv m) (hreg : m'.toolsR = m.toolsR) (hsrv : m'.servers = m.servers)
    (w : WorkspaceID) (srv : String) : Removed m (m'.remove w srv) w srv := by
  unfold Manager.remove
  rw [hsrv]
  cases hst : m.servers.lookup (stateKey w srv) with
  | none =>
    have hno : ∀ n t, ¬ m.Provides w srv n t := by
      rintro n t ⟨st, f, hst', -⟩
      rw [hst] at hst'
      cases hst'
    exact ⟨by rw [hsrv, hst], fun k _ => by rw [hsrv], by rw [hreg]; exact hi.built,
      fun n => by rw [hreg], fun w' n _ => by rw [hreg],
      fun n t hp => absurd hp (hno n t), fun n _ => by rw [hreg]⟩
  | some st =>
    obtain ⟨hb, ho, hl⟩ := unregisterAll_spec w st.toolNames m.toolsR hi.built
    have hmem := (hi.names w srv st hst).2
    rw [← hreg] at hb ho hl
    refine ⟨by simp, fun k hk => AList.lookup_erase_ne hk, hb, fun n => by rw [ho, hreg],
      fun w' n hw => ?_, fun n t hp => ?_, fun n hno => ?_⟩
    · rw [hl, if_neg, hreg]
      rintro ⟨a, -, hk⟩
      exact hw (regKey_inj hk).1
    · rw [hl]
      by_cases hn : n ∈ st.toolNames
      · rw [if_pos ⟨n, hn, rfl⟩]
      · have hown : m.toolsR.platformOwned n = true := by
          by_contra hc
          exact hn ((hmem n).mpr ⟨by simpa using hc, (provides_iff.mp ⟨t, hp⟩).2⟩)
        split
        · rfl
        · rw [hreg]
          exact hi.built.sound.lookup_platformOwned w hown
    · rw [hl, if_neg, hreg]
      rintro ⟨a, ha, hk⟩
      obtain ⟨-, rfl⟩ := regKey_inj hk
      obtain ⟨t, ht⟩ := provides_iff.mpr ⟨by simp [hst], ((hmem n).mp ha).2⟩
      exact hno t ht

theorem Inv.remove_rebuilds (hi : Inv m) (w : WorkspaceID) (srv : String) :
    Rebuilds m (m.remove w srv) w srv := by
  have hrm := hi.removed rfl rfl w srv
  have hno : ∀ n t, ¬ (m.remove w srv).Provides w srv n t := by
    rintro n t ⟨st, f, hst, -⟩
    rw [hrm.gone] at hst
    cases hst
  refine ⟨hrm.built, hrm.owned, hrm.servers, fun f _ => by rw [remove_store],
    fun st hst => ?_, hrm.elsewhere, fun n e hl => ?_, fun n t _ hp => absurd hp (hno n t),
    fun n hnot hl => by rwa [hrm.others n hnot], fun n t hp _ => hrm.provided n t hp⟩
  · rw [hrm.gone] at hst
    cases hst
  · have hnot : ∀ t, ¬ m.Provides w srv n t := by
      intro t hp
      rw [hrm.provided n t hp] at hl
      cases hl
    exact Or.inr ⟨by rwa [hrm.others n hnot] at hl, hnot _⟩

/-- The state `LoadFromCache` ends in, field by field. -/
theorem loadFromCache_eq (m' : Manager) (w : WorkspaceID) (srv : String) :
    m'.loadFromCache w srv =
      { store := m'.store
        toolsR := (registerEnabled w srv m'.nextConn (m'.remove w srv).toolsR
          (m'.store.listFunctions w srv)).1
        nextConn := m'.nextConn + 1
        servers := (m'.remove w srv).servers.insert (stateKey w srv)
          { workspaceID := w, serverName := srv, conn := m'.nextConn
            toolNames := (registerEnabled w srv m'.nextConn (m'.remove w srv).toolsR
              (m'.store.listFunctions w srv)).2 } } := by
  simp only [Manager.loadFromCache, remove_store, remove_nextConn]

theorem loadFromCache_provides_iff (m' : Manager) (w : WorkspaceID) (srv n : String) (t : Tool) :
    (m'.loadFromCache w srv).Provides w srv n t ↔
      ∃ f ∈ m'.store.listFunctions w srv, f.name = n ∧ f.enabled = true
        ∧ t = toolOf srv m'.nextConn f := by
  rw [loadFromCache_eq]
  constructor
  · rintro ⟨st, f, hst, hf, hk, he, rfl⟩
    rw [AList.lookup_insert, Option.some.injEq] at hst
    simp only [MCPFunction.key, Prod.mk.injEq] at hk
    refine ⟨f, FunctionTable.mem_listFunctions.mpr ⟨hf, hk.1, hk.2.1⟩, hk.2.2, he, ?_⟩
    rw [← hst, toolOf, hk.2.2]
  · rintro ⟨f, hf, rfl, he, rfl⟩
    obtain ⟨hrow, rfl, rfl⟩ := FunctionTable.mem_listFunctions.mp hf
    exact ⟨_, f, AList.lookup_insert _, hrow, rfl, he, rfl⟩

/-- `LoadFromCache`, on a table that agrees with `m`'s outside the
server. -/
theorem Inv.load_rebuilds (hi : Inv m) (hreg : m'.toolsR = m.toolsR)
    (hsrv : m'.servers = m.servers)
    (hrows : ∀ f, ¬ (f.workspaceID = w ∧ f.serverName = srv) →
      (f ∈ m'.store.rows ↔ f ∈ m.store.rows)) :
    Rebuilds m (m'.loadFromCache w srv) w srv := by
  have hrm := hi.removed hreg hsrv w srv
  obtain ⟨hb', ho', hn', hl'⟩ := registerEnabled_spec w srv m'.nextConn
    (m'.store.listFunctions w srv) (m'.remove w srv).toolsR hrm.built
  have hfin := loadFromCache_eq m' w srv
  have hprov := loadFromCache_provides_iff m' w srv
  have hregable : ∀ f, Registrable (m'.remove w srv).toolsR f ↔
      f.enabled = true ∧ m.toolsR.platformOwned f.name = false :=
    fun f => by rw [Registrable, hrm.owned]
  have hreg' : (m'.loadFromCache w srv).toolsR = (registerEnabled w srv m'.nextConn
      (m'.remove w srv).toolsR (m'.store.listFunctions w srv)).1 := by rw [hfin]
  refine ⟨hreg' ▸ hb', fun n => ?_, fun k hk => ?_, fun f hf => ?_, fun st hst => ?_,
    fun w' n hne => ?_, fun n e hl => ?_, fun n t hown hp => ?_, fun n hnot hl => ?_,
    fun n t hp hgone => ?_⟩
  · rw [hreg', ho', hrm.owned]
  · rw [hfin]
    exact (AList.lookup_insert_ne hk).trans (hrm.servers k hk)
  · rw [hfin]
    exact hrows f hf
  · rw [hfin] at hst ⊢
    rw [AList.lookup_insert, Option.some.injEq] at hst
    subst hst
    simp only [hn', ho']
    refine ⟨(m'.store.listFunctions_names w srv).sublist (List.filter_sublist.map _),
      fun n => ?_⟩
    simp only [List.mem_map, List.mem_filter, Bool.and_eq_true, Bool.not_eq_true']
    constructor
    · rintro ⟨f, ⟨hf, he, hown⟩, rfl⟩
      obtain ⟨hrow, rfl, rfl⟩ := FunctionTable.mem_listFunctions.mp hf
      exact ⟨hown, f, hrow, rfl, he⟩
    · rintro ⟨hown, f, hf, hk, he⟩
      simp only [MCPFunction.key, Prod.mk.injEq] at hk
      obtain ⟨h1, h2, rfl⟩ := hk
      exact ⟨f, ⟨FunctionTable.mem_listFunctions.mpr ⟨hf, h1, h2⟩, he, hown⟩, rfl⟩
  · rw [hreg']
    rcases hl' (regKey w'.val n) with ⟨f, -, -, hk, -⟩ | ⟨-, hl⟩
    · exact absurd (regKey_inj hk).1 hne
    · rw [hl, hrm.elsewhere w' n hne]
  · rw [hreg'] at hl
    rcases hl' (regKey w.val n) with ⟨f, hf, hr, hk, hl2⟩ | ⟨-, hl2⟩
    · rw [hl2, Option.some.injEq] at hl
      obtain ⟨-, rfl⟩ := regKey_inj hk
      exact Or.inl ((hprov _ _).mpr ⟨f, hf, rfl, hr.1, by rw [← hl]⟩)
    · rw [hl2] at hl
      have hnot : ∀ t, ¬ m.Provides w srv n t := by
        intro t hp
        rw [hrm.provided n t hp] at hl
        cases hl
      exact Or.inr ⟨by rwa [hrm.others n hnot] at hl, hnot _⟩
  · obtain ⟨f, hf, rfl, he, -⟩ := (hprov n t).mp hp
    rw [hreg']
    rcases hl' (regKey w.val f.name) with ⟨g, -, -, -, hl2⟩ | ⟨hno, -⟩
    · rw [hl2]
      exact Option.some_ne_none _
    · exact absurd rfl (hno f hf ((hregable f).mpr ⟨he, hown⟩))
  · rw [hreg']
    rcases hl' (regKey w.val n) with ⟨g, -, -, -, hl2⟩ | ⟨-, hl2⟩
    · rw [hl2]
      exact Option.some_ne_none _
    · rwa [hl2, hrm.others n hnot]
  · rw [hreg']
    rcases hl' (regKey w.val n) with ⟨g, hg, hr, hk, -⟩ | ⟨-, hl2⟩
    · obtain ⟨-, rfl⟩ := regKey_inj hk
      exact absurd ((hprov _ _).mpr ⟨g, hg, rfl, hr.1, rfl⟩) (hgone _)
    · rw [hl2, hrm.provided n t hp]

/-- `m'` is `m` with the row of `n₀` flipped and, the server being loaded,
its state and the registry adjusted at that name. -/
structure Toggled (m m' : Manager) (w : WorkspaceID) (srv n₀ : String) (enabled : Bool)
    (st st' : ServerState) : Prop where
  store : m.store.setFunctionEnabled w srv n₀ enabled = .ok m'.store
  built : m'.toolsR.Built
  owned : ∀ n, m'.toolsR.platformOwned n = m.toolsR.platformOwned n
  servers : ∀ k, k ≠ stateKey w srv → m'.servers.lookup k = m.servers.lookup k
  before : m.servers.lookup (stateKey w srv) = some st
  after : m'.servers.lookup (stateKey w srv) = some st'
  conn : st'.conn = st.conn
  nodup : st'.toolNames.Nodup
  names : ∀ n, n ∈ st'.toolNames ↔
    if n = n₀ then enabled = true ∧ m.toolsR.platformOwned n₀ = false else n ∈ st.toolNames
  keys : ∀ k, k ≠ regKey w.val n₀ → m'.toolsR.entries.lookup k = m.toolsR.entries.lookup k
  off : enabled = false ∨ m.toolsR.platformOwned n₀ = true →
    m'.toolsR.entries.lookup (regKey w.val n₀) = none
  on : enabled = true → m.toolsR.platformOwned n₀ = false →
    ∃ f ∈ m'.store.rows, f.key = (w, srv, n₀) ∧ f.enabled = true
      ∧ m'.toolsR.entries.lookup (regKey w.val n₀) = some ⟨toolOf srv st.conn f, w.val⟩

section
variable {n₀ : String} {enabled : Bool} {st st' : ServerState}

theorem rows_setFunctionEnabled
    (h : m.store.setFunctionEnabled w srv n₀ enabled = .ok m'.store) {f : MCPFunction}
    (hf : f.key ≠ (w, srv, n₀)) : f ∈ m'.store.rows ↔ f ∈ m.store.rows := by
  rw [(FunctionTable.setFunctionEnabled_ok h).1]
  exact Lib.Table.mem_update_other hf

theorem rows_setFunctionEnabled_server
    (h : m.store.setFunctionEnabled w srv n₀ enabled = .ok m'.store) {f : MCPFunction}
    (hf : ¬ (f.workspaceID = w ∧ f.serverName = srv)) :
    f ∈ m'.store.rows ↔ f ∈ m.store.rows := by
  refine rows_setFunctionEnabled h fun hc => hf ?_
  simp only [MCPFunction.key, Prod.mk.injEq] at hc
  exact ⟨hc.1, hc.2.1⟩

/-- The other functions of the server are provided as before. -/
theorem Toggled.provides_other (h : Toggled m m' w srv n₀ enabled st st') {n : String}
    (hn : n ≠ n₀) (t : Tool) : m'.Provides w srv n t ↔ m.Provides w srv n t := by
  have hrow : ∀ f : MCPFunction, f.key = (w, srv, n) →
      (f ∈ m'.store.rows ↔ f ∈ m.store.rows) :=
    fun f hk => rows_setFunctionEnabled h.store (by rw [hk]; simpa using hn)
  constructor
  · rintro ⟨s, f, hs, hf, hk, he, rfl⟩
    cases h.after.symm.trans hs
    exact ⟨st, f, h.before, (hrow f hk).mp hf, hk, he, by rw [h.conn]⟩
  · rintro ⟨s, f, hs, hf, hk, he, rfl⟩
    cases h.before.symm.trans hs
    exact ⟨st', f, h.after, (hrow f hk).mpr hf, hk, he, by rw [h.conn]⟩

theorem Toggled.provides_self (h : Toggled m m' w srv n₀ enabled st st') :
    (∃ t, m'.Provides w srv n₀ t) ↔ enabled = true := by
  rw [provides_iff, FunctionTable.enables_setFunctionEnabled h.store, if_pos rfl]
  exact and_iff_right (by simp [h.after])

/-- A function that gets disabled was provided. -/
theorem Toggled.provided (h : Toggled m m' w srv n₀ enabled st st') (hen : enabled = false) :
    ∃ t, m.Provides w srv n₀ t := by
  obtain ⟨-, r, hr, hk, hne⟩ := FunctionTable.setFunctionEnabled_ok h.store
  exact provides_iff.mpr ⟨by simp [h.before], r, hr, hk, by simpa [hen] using hne⟩

theorem Toggled.namesOk (h : Toggled m m' w srv n₀ enabled st st') (hi : Inv m) :
    NamesOk m' w srv := by
  intro s hs
  cases h.after.symm.trans hs
  refine ⟨h.nodup, fun n => ?_⟩
  rw [h.names, h.owned, FunctionTable.enables_setFunctionEnabled h.store]
  split
  · rename_i hn
    rw [hn, and_comm]
  · exact (hi.names w srv st h.before).2 n

theorem Toggled.rebuilds (h : Toggled m m' w srv n₀ enabled st st') (hi : Inv m) :
    Rebuilds m m' w srv := by
  have hkey : ∀ n, n ≠ n₀ → regKey w.val n ≠ regKey w.val n₀ :=
    fun n hn hc => hn (regKey_inj hc).2
  refine ⟨h.built, h.owned, h.servers, fun f hf => rows_setFunctionEnabled_server h.store hf,
    h.namesOk hi, fun w' n hw => h.keys _ fun hc => hw (regKey_inj hc).1, fun n e hl => ?_,
    fun n t hown hp => ?_, fun n hnot hl => ?_, fun n t hp hgone => ?_⟩
  · by_cases hn : n = n₀
    · subst hn
      by_cases hoff : enabled = false ∨ m.toolsR.platformOwned n = true
      · rw [h.off hoff] at hl
        cases hl
      · rw [not_or, Bool.not_eq_false, Bool.not_eq_true] at hoff
        obtain ⟨f, hf, hk, he, hlk⟩ := h.on hoff.1 hoff.2
        rw [hlk, Option.some.injEq] at hl
        refine Or.inl ⟨st', f, h.after, hf, hk, he, ?_⟩
        simp only [MCPFunction.key, Prod.mk.injEq] at hk
        rw [← hl, toolOf, h.conn, hk.2.2]
    · rw [h.keys _ (hkey n hn)] at hl
      rw [h.provides_other hn]
      by_cases hp : m.Provides w srv n e.tool
      · exact Or.inl hp
      · exact Or.inr ⟨hl, hp⟩
  · by_cases hn : n = n₀
    · subst hn
      obtain ⟨f, -, -, -, hlk⟩ := h.on (h.provides_self.mp ⟨t, hp⟩) hown
      rw [hlk]
      exact Option.some_ne_none _
    · rw [h.keys _ (hkey n hn)]
      exact hi.filed.full w srv n t hown ((h.provides_other hn t).mp hp)
  · by_cases hn : n = n₀
    · subst hn
      -- not provided, so it was the enabling of a name that somebody else has filed
      have hen : enabled = true := by
        by_contra hc
        obtain ⟨t, ht⟩ := h.provided (by simpa using hc)
        exact hnot t ht
      cases hown : m.toolsR.platformOwned n with
      | true => exact absurd (hi.built.sound.lookup_platformOwned w hown) hl
      | false =>
        obtain ⟨f, -, -, -, hlk⟩ := h.on hen hown
        rw [hlk]
        exact Option.some_ne_none _
    · rwa [h.keys _ (hkey n hn)]
  · by_cases hn : n = n₀
    · subst hn
      refine h.off (Or.inl ?_)
      by_contra hc
      obtain ⟨t', ht'⟩ := h.provides_self.mpr (by simpa using hc)
      exact hgone t' ht'
    · exact absurd ((h.provides_other hn t).mpr hp) (hgone t)

end

/-- Flipping a function of a server that is not loaded changes its row
only. -/
theorem Inv.toggle_unloaded (hi : Inv m) {n₀ : String} {enabled : Bool}
    (hstore : m.store.setFunctionEnabled w srv n₀ enabled = .ok m'.store)
    (hreg : m'.toolsR = m.toolsR) (hsrv : m'.servers = m.servers)
    (hst : m.servers.lookup (stateKey w srv) = none) : Rebuilds m m' w srv := by
  have hno : ∀ n t, ¬ m.Provides w srv n t := by
    rintro n t ⟨st, f, hst', -⟩
    cases hst.symm.trans hst'
  have hno' : ∀ n t, ¬ m'.Provides w srv n t := by
    rintro n t ⟨st, f, hst', -⟩
    rw [hsrv, hst] at hst'
    cases hst'
  refine ⟨hreg ▸ hi.built, fun n => by rw [hreg], fun k _ => by rw [hsrv],
    fun f hf => rows_setFunctionEnabled_server hstore hf,
    fun st hst' => ?_, fun w' n _ => by rw [hreg],
    fun n e hl => Or.inr ⟨by rwa [hreg] at hl, hno n e.tool⟩,
    fun n t _ hp => absurd hp (hno' n t), fun n _ hl => by rwa [hreg],
    fun n t hp _ => absurd hp (hno n t)⟩
  rw [hsrv, hst] at hst'
  cases hst'

/-- The reload after enabling finds the row it enabled. -/
theorem find_enabled {t t' : FunctionTable} {fn : String}
    (h : t.setFunctionEnabled w srv fn true = .ok t') :
    ∃ f, (t'.listFunctions w srv).find? (·.name == fn) = some f ∧ f ∈ t'.rows
      ∧ f.key = (w, srv, fn) ∧ f.enabled = true := by
  have henables : t'.Enables w srv fn :=
    (FunctionTable.enables_setFunctionEnabled h).mpr (by simp)
  obtain ⟨r, hr, hk, he⟩ := henables
  simp only [MCPFunction.key, Prod.mk.injEq] at hk
  obtain ⟨hw, hs, hn⟩ := hk
  have hsome : ((t'.listFunctions w srv).find? (·.name == fn)).isSome :=
    List.find?_isSome.mpr
      ⟨r, FunctionTable.mem_listFunctions.mpr ⟨hr, hw, hs⟩, beq_iff_eq.mpr hn⟩
  obtain ⟨f, hf⟩ := Option.isSome_iff_exists.mp hsome
  have hbeq := List.find?_some hf
  have hname : f.name = fn := by simpa using hbeq
  obtain ⟨hmem, hw', hs'⟩ := FunctionTable.mem_listFunctions.mp (List.mem_of_find?_eq_some hf)
  have hfk : f.key = (w, srv, fn) := by rw [MCPFunction.key, hw', hs', hname]
  have hsame : f = r := t'.eq_of_key hmem hr (by rw [hfk, MCPFunction.key, hw, hs, hn])
  exact ⟨f, hf, hmem, hfk, hsame ▸ he⟩

theorem mem_appendUnique {s : List String} {v n : String} :
    n ∈ appendUnique s v ↔ n ∈ s ∨ n = v := by
  unfold appendUnique
  split
  · rename_i hv
    rw [List.contains_iff_mem] at hv
    exact (or_iff_left_of_imp fun h => h ▸ hv).symm
  · rw [List.mem_append, List.mem_singleton]

theorem appendUnique_nodup {s : List String} (h : s.Nodup) (v : String) :
    (appendUnique s v).Nodup := by
  unfold appendUnique
  split
  · exact h
  · rename_i hv
    rw [List.contains_iff_mem] at hv
    exact h.append (List.nodup_singleton v) (by simpa using hv)

theorem Inv.setFunctionEnabled_rebuilds (hi : Inv m) (w : WorkspaceID) (srv fn : String)
    (enabled : Bool) :
    Rebuilds m (m.setFunctionEnabled w srv fn enabled).1 w srv := by
  unfold Manager.setFunctionEnabled
  cases hset : m.store.setFunctionEnabled w srv fn enabled with
  | error err => exact hi.rebuilds_same rfl rfl rfl w srv
  | ok store =>
    simp only
    cases hst : m.servers.lookup (stateKey w srv) with
    | none => exact hi.toggle_unloaded hset rfl rfl hst
    | some st =>
      obtain ⟨hnd, hmem⟩ := hi.names w srv st hst
      have hlookup : ∀ (st' : ServerState) k, k ≠ stateKey w srv →
          (m.servers.insert (stateKey w srv) st').lookup k = m.servers.lookup k :=
        fun st' k hk => AList.lookup_insert_ne hk
      cases enabled with
      | false =>
        exact Toggled.rebuilds
          { store := hset
            built := Registry.Built.drop w fn hi.built
            owned := hi.built.sound.platformOwned_drop w fn
            servers := hlookup _
            before := hst
            after := AList.lookup_insert _
            conn := rfl
            nodup := hnd.erase fn
            names := fun n => by
              rw [removeStr, hnd.mem_erase_iff]
              split <;> simp [*]
            keys := fun k hk => by simp [hk]
            off := fun _ => by simp
            on := fun h => by cases h } hi
      | true =>
        obtain ⟨target, hfind, htarget, hfn, hen⟩ := find_enabled hset
        have hname : target.name = fn := by
          simp only [MCPFunction.key, Prod.mk.injEq] at hfn
          exact hfn.2.2
        simp only [hfind]
        cases hown : m.toolsR.platformOwned fn with
        | true =>
          -- refused: the registry and the state stay as they are
          rw [tryRegister_owned hi.built w srv st.conn (by rw [hname, hown])]
          have hnot : fn ∉ st.toolNames := by
            rw [hmem, hown]
            simp
          exact Toggled.rebuilds
            { store := hset
              built := hi.built
              owned := fun _ => rfl
              servers := fun _ _ => rfl
              before := hst
              after := hst
              conn := rfl
              nodup := hnd
              names := fun n => by split <;> simp [*]
              keys := fun _ _ => rfl
              off := fun _ => hi.built.sound.lookup_platformOwned w hown
              on := fun _ h => by rw [hown] at h; cases h } hi
        | false =>
          have hfree : m.toolsR.platformOwned target.name = false := by rw [hname, hown]
          obtain ⟨htry, hb⟩ := tryRegister_free hi.built w srv st.conn hfree
          rw [htry]
          exact Toggled.rebuilds
            { store := hset
              built := hb
              owned := hi.built.sound.platformOwned_remote w _
              servers := hlookup _
              before := hst
              after := AList.lookup_insert _
              conn := rfl
              nodup := appendUnique_nodup hnd fn
              names := fun n => by
                rw [mem_appendUnique]
                split <;> simp [*]
              keys := fun k hk => by simp [hname, hk]
              off := fun h => by simp [hown] at h
              on := fun _ _ => ⟨target, htarget, hfn, hen, by simp [hname]⟩ } hi

end

/-! ## Runs -/

/-- The server an operation names. -/
def Op.server : Op → WorkspaceID × String
  | .loadFromCache w srv => (w, srv)
  | .sync w srv _ => (w, srv)
  | .setFunctionEnabled w srv _ _ => (w, srv)
  | .remove w srv => (w, srv)

/-- The operation is meant to take `n` from its server: it removes the
server, disables `n`, or syncs with a discovery that does not list it. -/
def Op.drops (n : String) : Op → Prop
  | .loadFromCache _ _ => False
  | .sync _ _ (.error _) => False
  | .sync _ _ (.ok mcpTools) => n ∉ mcpTools.map Prod.fst
  | .setFunctionEnabled _ _ fn enabled => enabled = false ∧ n = fn
  | .remove _ _ => True

/-- No function that the operation takes from its server is enabled for
another loaded server of the workspace (platform names apart, which are
registered for neither). -/
def Spares (m : Manager) (op : Op) : Prop :=
  ∀ n, op.drops n → m.toolsR.platformOwned n = false →
    (∃ t, m.Provides op.server.1 op.server.2 n t) →
    ∀ srv', srv' ≠ op.server.2 → ∀ t, ¬ m.Provides op.server.1 srv' n t

theorem Inv.step_rebuilds {m : Manager} (hi : Inv m) (op : Op) :
    Rebuilds m (m.step op) op.server.1 op.server.2 := by
  cases op with
  | loadFromCache w srv => exact hi.load_rebuilds rfl rfl fun _ _ => Iff.rfl
  | sync w srv listTools =>
    cases listTools with
    | error err =>
      have hsame : Rebuilds m { m with nextConn := m.nextConn + 1 } w srv := by
        refine hi.rebuilds_same ?_ ?_ ?_ w srv <;> rfl
      exact hsame
    | ok mcpTools =>
      exact hi.load_rebuilds rfl rfl fun f hf => FunctionTable.mem_syncFunctions_other hf
  | setFunctionEnabled w srv fn enabled => exact hi.setFunctionEnabled_rebuilds w srv fn enabled
  | remove w srv => exact hi.remove_rebuilds w srv

theorem loadFromCache_provides {m : Manager} {w : WorkspaceID} {srv n : String} :
    (∃ t, (m.loadFromCache w srv).Provides w srv n t) ↔ m.store.Enables w srv n := by
  have hstore : (m.loadFromCache w srv).store = m.store := by
    simp only [Manager.loadFromCache, remove_store]
  rw [provides_iff, hstore]
  refine and_iff_right ?_
  simp [Manager.loadFromCache]

/-- Whatever becomes of the registration, the toggled row is written and
the server stays loaded. -/
theorem setFunctionEnabled_loaded {m : Manager} {t : FunctionTable} {w : WorkspaceID}
    {srv fn : String} {enabled : Bool} (h : m.store.setFunctionEnabled w srv fn enabled = .ok t)
    (hl : m.servers.lookup (stateKey w srv) ≠ none) :
    (m.setFunctionEnabled w srv fn enabled).1.store = t
      ∧ (m.setFunctionEnabled w srv fn enabled).1.servers.lookup (stateKey w srv) ≠ none := by
  obtain ⟨st, hst⟩ := Option.ne_none_iff_exists'.mp hl
  simp only [Manager.setFunctionEnabled, h, hst]
  split
  · split
    · exact ⟨rfl, by simp [hst]⟩
    · split
      · exact ⟨rfl, by simp [hst]⟩
      · exact ⟨rfl, by simp⟩
  · exact ⟨rfl, by simp⟩

theorem sync_provides {m : Manager} {w : WorkspaceID} {srv n : String}
    {mcpTools : List (String × String)} (hen : m.store.Enables w srv n) :
    (∃ t, (m.sync w srv (.ok mcpTools)).1.Provides w srv n t) ↔ n ∈ mcpTools.map Prod.fst := by
  have hnames : (mcpTools.map (discoveredFunction srv)).map Prod.fst
      = mcpTools.map Prod.fst := by
    rw [List.map_map]
    rfl
  rw [← hnames, ← FunctionTable.enables_syncFunctions hen]
  simp only [Manager.sync]
  exact loadFromCache_provides

theorem setFunctionEnabled_provides {m : Manager} {w : WorkspaceID} {srv fn n : String}
    {enabled : Bool} (hp : ∃ t, m.Provides w srv n t) :
    (∃ t, (m.setFunctionEnabled w srv fn enabled).1.Provides w srv n t)
      ↔ ¬ (enabled = false ∧ n = fn) := by
  obtain ⟨hl, hen⟩ := provides_iff.mp hp
  cases hset : m.store.setFunctionEnabled w srv fn enabled with
  | error err =>
    have hstep : (m.setFunctionEnabled w srv fn enabled).1 = m := by
      simp only [Manager.setFunctionEnabled, hset]
    rw [hstep]
    refine iff_of_true hp ?_
    rintro ⟨rfl, rfl⟩
    obtain ⟨t', ht'⟩ := FunctionTable.setFunctionEnabled_disable hen
    cases hset.symm.trans ht'
  | ok t =>
    obtain ⟨hstore, hloaded⟩ := setFunctionEnabled_loaded hset hl
    rw [provides_iff, hstore, FunctionTable.enables_setFunctionEnabled hset]
    refine (and_iff_right hloaded).trans ?_
    split <;> simp [*]

/-- What an operation takes from its server is what it is meant to. -/
theorem Inv.step_drops {m : Manager} (hi : Inv m) (op : Op) {n : String}
    (hp : ∃ t, m.Provides op.server.1 op.server.2 n t) :
    (∀ t, ¬ (m.step op).Provides op.server.1 op.server.2 n t) ↔ op.drops n := by
  rw [← not_exists, not_iff_comm]
  have hen := (provides_iff.mp hp).2
  cases op with
  | loadFromCache w srv => exact iff_of_true not_false (loadFromCache_provides.mpr hen)
  | sync w srv listTools =>
    cases listTools with
    | error err =>
      have hsame : (∃ t, Manager.Provides { m with nextConn := m.nextConn + 1 } w srv n t) := hp
      exact iff_of_true not_false hsame
    | ok mcpTools => exact not_not.trans (sync_provides hen).symm
  | setFunctionEnabled w srv fn enabled => exact (setFunctionEnabled_provides hp).symm
  | remove w srv =>
    refine iff_of_false (not_not_intro trivial) ?_
    rintro ⟨t, st, f, hst, -⟩
    cases (hi.removed rfl rfl w srv).gone.symm.trans hst

theorem spares_iff {m : Manager} (hi : Inv m) (op : Op) :
    Spares m op ↔ KeepsOthers m (m.step op) op.server.1 op.server.2 := by
  refine forall_congr' fun n => ⟨fun h ho hp hgone => ?_, fun h hd ho hp => ?_⟩
  · exact h ((hi.step_drops op hp).mp hgone) ho hp
  · exact h ho hp ((hi.step_drops op hp).mpr hd)

/-- A manager starts on the process's platform tools with no server
loaded, whatever the table holds. -/
theorem inv_newManager (store : FunctionTable) (ts : List PlatformTool) (scrubbing : Bool) :
    Inv (newManager store (platformRegistry ts scrubbing)) := by
  have hno : ∀ w srv n t,
      ¬ (newManager store (platformRegistry ts scrubbing)).Provides w srv n t := by
    rintro w srv n t ⟨st, f, hst, -⟩
    simp [newManager] at hst
  refine ⟨Registry.Built.platform ts scrubbing, fun w srv st hst => by simp [newManager] at hst,
    fun w n e hl => ?_, fun w srv n t _ hp => absurd hp (hno w srv n t)⟩
  obtain ⟨p, -, hk⟩ := platformRegistry_platformOnly ts scrubbing _ e hl
  exact absurd hk (regKey_ne_of_noNul w n p.noNul)

def searchOf (srv : String) : MCPFunction :=
  { workspaceID := defaultWorkspaceID, serverName := srv, name := "search"
    description := "Search", enabled := true }

def sharedTable : FunctionTable :=
  { rows := [searchOf "jira", searchOf "wiki"], unique := by decide }

end LendingClaw.Mcp

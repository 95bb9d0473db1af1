/-
LendingClaw.Tools.IsolationTheorems — which tool a name reaches from a
workspace.

The model chooses the name, so it is any string, a storage key of the
registry's map included. `regKey` keeps the keys of two workspaces apart
(`regKey_inj`), but `GetForWorkspace` falls back to the raw name, and
there a name that reads `ws NUL id NUL tool` is the key of another
workspace's tool. `tool_isolation_iff` is the exact condition, at every
registry that the four registration calls build.
-/
import LendingClaw.Tools.Registry
import LendingClaw.Lib.Runs

namespace LendingClaw.Tools

/-! ## Registration histories -/

/-- One registration call. -/
inductive RegistryOp where
  | register (tool : Tool)
  | unregister (name : String)
  | registerForWorkspace (workspaceID : Store.WorkspaceID) (tool : Tool)
  | unregisterForWorkspace (workspaceID : Store.WorkspaceID) (name : String)

def Registry.apply (r : Registry) : RegistryOp → Registry
  | .register tool => r.register tool
  | .unregister name => (r.unregister name).1
  | .registerForWorkspace w tool => r.registerForWorkspace w.val tool
  | .unregisterForWorkspace w name => (r.unregisterForWorkspace w.val name).1

/-- The registry a sequence of calls builds. -/
def registryAfter (ops : List RegistryOp) : Registry := Lib.run Registry.apply newRegistry ops

/-- The workspace a context names; `none` is the blank one. -/
def workspaceText : Option Store.WorkspaceID → String
  | none => ""
  | some w => w.val

/-- The call adds or removes a tool of a workspace other than `w`. -/
def RegistryOp.OtherThan (w : Option Store.WorkspaceID) : RegistryOp → Prop
  | .registerForWorkspace w' _ => some w' ≠ w
  | .unregisterForWorkspace w' _ => some w' ≠ w
  | _ => False

@[simp] theorem Registry.lookup_unregister (r : Registry) (name k : String) :
    (r.unregister name).1.entries.lookup k
      = if k = name then none else r.entries.lookup k := by
  unfold unregister
  by_cases h : k = name
  · subst h
    cases hl : r.entries.lookup k with
    | none => simp [hl]
    | some e => simp [AList.lookup_erase]
  · cases hl : r.entries.lookup name with
    | none => simp [h]
    | some e => simp [h, AList.lookup_erase_ne h]

/-- Every entry lies under its own key, and a scoped one belongs to a
stored workspace. -/
def Registry.Filed (r : Registry) : Prop :=
  ∀ k e, r.entries.lookup k = some e →
    ∃ w : Option Store.WorkspaceID, e.workspace = workspaceText w
      ∧ k = regKey (workspaceText w) e.tool.name

theorem Registry.filed_apply (r : Registry) (op : RegistryOp) (hr : r.Filed) :
    (r.apply op).Filed := by
  intro k e h
  cases op with
  | register tool =>
    simp only [apply, lookup_register] at h
    split at h
    · rename_i hk
      cases h
      exact ⟨none, rfl, hk⟩
    · exact hr k e h
  | unregister name =>
    simp only [apply, lookup_unregister] at h
    split at h
    · cases h
    · exact hr k e h
  | registerForWorkspace w tool =>
    simp only [apply, lookup_registerForWorkspace] at h
    split at h
    · rename_i hk
      cases h
      exact ⟨some w, rfl, hk⟩
    · exact hr k e h
  | unregisterForWorkspace w name =>
    simp only [apply, lookup_unregisterForWorkspace] at h
    split at h
    · cases h
    · exact hr k e h

theorem registryAfter_filed (ops : List RegistryOp) : (registryAfter ops).Filed := by
  have hempty : newRegistry.Filed := by
    intro k e h
    simp [newRegistry] at h
  have hfree : ∀ (as : List RegistryOp) (r : Registry),
      Lib.Along (fun _ _ => True) Registry.apply r as := by
    intro as
    induction as with
    | nil => intro r; trivial
    | cons a as ih => intro r; exact ⟨trivial, ih _⟩
  exact Lib.inv_run (fun r op hr _ => r.filed_apply op hr) ops newRegistry hempty (hfree _ _)

/-! ## Names and keys -/

@[simp] theorem regKey_blank (n : String) : regKey "" n = n := rfl

/-- A storage key is longer than the name it was built from. -/
theorem regKey_ne_self (w : Store.WorkspaceID) (n : String) : regKey w.val n ≠ n := by
  intro h
  have hlen := congrArg (fun s => s.toList.length) h
  simp only [regKey_toList, Lib.nulKey_toList, List.length_append, List.length_cons] at hlen
  omega

/-- The entry a name resolves to. -/
def Registry.resolve (r : Registry) (w name : String) : Option Entry :=
  (r.entries.lookup (regKey w name)).or (r.entries.lookup name)

theorem Registry.getForWorkspace_eq (r : Registry) (w name : String) :
    r.getForWorkspace w name = (r.resolve w name).map Entry.tool := by
  unfold getForWorkspace resolve
  cases r.entries.lookup (regKey w name) <;> rfl

/-- Execution looks at the registry through `getForWorkspace` only. -/
theorem Registry.execute_congr {Args : Type} {exec : Tool → Args → Result}
    {scrub : String → String} {r r' : Registry} {ctx : Context} {name : String} {args : Args}
    (hget : r'.getForWorkspace ctx.workspace name = r.getForWorkspace ctx.workspace name)
    (hscrub : r'.scrubbing = r.scrubbing) :
    r'.executeWithContext exec scrub ctx name args
      = r.executeWithContext exec scrub ctx name args := by
  simp only [executeWithContext, hget, hscrub]

/-- Only the tool a name resolves to is ever called. -/
theorem Registry.executed_resolves {Args : Type} {exec : Tool → Args → Result}
    {scrub : String → String} {r : Registry} {ctx : Context} {name : String} {args : Args}
    {t : Tool} (h : (r.executeWithContext exec scrub ctx name args).executed = some t) :
    r.getForWorkspace ctx.workspace name = some t := by
  unfold executeWithContext at h
  split at h
  · cases h
  · rename_i tool htool
    simp only at h
    split at h <;> split at h <;> cases h <;> exact htool

theorem Registry.scrubbing_apply (r : Registry) (op : RegistryOp) :
    (r.apply op).scrubbing = r.scrubbing := by
  cases op with
  | register tool => rfl
  | unregister name =>
    simp only [apply, unregister]
    split <;> rfl
  | registerForWorkspace w tool => rfl
  | unregisterForWorkspace w name =>
    simp only [apply, unregisterForWorkspace]
    split <;> rfl

/-! ## Isolation -/

/-- What a call in workspace `w` may do with a name: run only a tool
visible in `w` under exactly that name, and come out the same whatever
the other workspaces register or remove. -/
def ToolIsolation {Args : Type} (exec : Tool → Args → Result) (scrub : String → String)
    (r : Registry) (w : Option Store.WorkspaceID) (name : String) (args : Args) : Prop :=
  ∀ (ctx : Context), ctx.workspace = workspaceText w →
    (∀ t, (r.executeWithContext exec scrub ctx name args).executed = some t →
      t ∈ r.allForWorkspace (workspaceText w) ∧ t.name = name)
    ∧ ∀ op : RegistryOp, op.OtherThan w →
      (r.apply op).executeWithContext exec scrub ctx name args
        = r.executeWithContext exec scrub ctx name args

/-- The name cannot be taken for another tool's storage key. With no
workspace, it is no storage key at all. In a workspace, no global tool
is named like the storage key of (`w`, `name`), and unless something is
filed under that key, `name` is the storage key of no other workspace's
tool and of no tool filed for `w`. -/
def Unambiguous (r : Registry) (w : Option Store.WorkspaceID) (name : String) : Prop :=
  match w with
  | none => ∀ (w' : Store.WorkspaceID) (n : String), name ≠ regKey w'.val n
  | some w =>
    (∀ e, r.entries.lookup (regKey w.val name) = some e → e.workspace ≠ "")
      ∧ (r.entries.lookup (regKey w.val name) = none →
          ∀ (w' : Store.WorkspaceID) (n : String), name = regKey w'.val n →
            w' = w ∧ ∀ e, r.entries.lookup name = some e → e.workspace = "")

section
variable {r : Registry} {w : Store.WorkspaceID} {name : String}

/-- A scoped entry under a workspace key is that workspace's, under the
name itself. -/
theorem Registry.Filed.at_regKey (hr : r.Filed) {e : Entry}
    (h : r.entries.lookup (regKey w.val name) = some e) (hs : e.workspace ≠ "") :
    e.workspace = w.val ∧ e.tool.name = name := by
  obtain ⟨w', hw, hk⟩ := hr _ _ h
  cases w' with
  | none => exact absurd hw hs
  | some w' =>
    obtain ⟨rfl, hn⟩ := regKey_inj hk
    exact ⟨hw, hn.symm⟩

/-- A global entry is filed under its tool's name. -/
theorem Registry.Filed.at_global (hr : r.Filed) {e : Entry}
    (h : r.entries.lookup name = some e) (hs : e.workspace = "") : e.tool.name = name := by
  obtain ⟨w', hw, hk⟩ := hr _ _ h
  cases w' with
  | none => exact hk.symm
  | some w' => exact absurd (hw.symm.trans hs) w'.nonempty

/-- A scoped entry is filed under a storage key. -/
theorem Registry.Filed.at_scoped (hr : r.Filed) {e : Entry}
    (h : r.entries.lookup name = some e) (hs : e.workspace ≠ "") :
    ∃ (w' : Store.WorkspaceID) (n : String), name = regKey w'.val n := by
  obtain ⟨w', hw, hk⟩ := hr _ _ h
  cases w' with
  | none => exact absurd hw hs
  | some w' => exact ⟨w', _, hk⟩

/-- In an unambiguous position a name resolves to a visible tool of that
name. -/
theorem Unambiguous.resolve_visible {w : Option Store.WorkspaceID} (hr : r.Filed)
    (h : Unambiguous r w name) {e : Entry} (he : r.resolve (workspaceText w) name = some e) :
    (∃ k, r.entries.lookup k = some e) ∧ e.visible (workspaceText w) = true
      ∧ e.tool.name = name := by
  -- whatever lies under the raw name is global
  have hraw : r.entries.lookup name = some e → e.workspace = "" →
      (∃ k, r.entries.lookup k = some e) ∧ e.visible (workspaceText w) = true
        ∧ e.tool.name = name := by
    intro hl hw
    exact ⟨⟨_, hl⟩, by simp [Entry.visible, hw], hr.at_global hl hw⟩
  unfold Registry.resolve at he
  cases w with
  | none =>
    have hl : r.entries.lookup name = some e := by simpa [workspaceText] using he
    apply hraw hl
    by_contra hs
    obtain ⟨w', n, hn⟩ := hr.at_scoped hl hs
    exact h w' n hn
  | some w =>
    simp only [workspaceText] at he hraw ⊢
    cases hk : r.entries.lookup (regKey w.val name) with
    | some e' =>
      rw [hk] at he
      cases he
      obtain ⟨hw, hn⟩ := hr.at_regKey hk (h.1 e hk)
      exact ⟨⟨_, hk⟩, by simp [Entry.visible, hw], hn⟩
    | none =>
      rw [hk] at he
      have hl : r.entries.lookup name = some e := he
      apply hraw hl
      by_contra hs
      obtain ⟨w', n, hn⟩ := hr.at_scoped hl hs
      exact hs ((h.2 hk w' n hn).2 e hl)

/-- A call on another workspace touches one key of that workspace. -/
theorem RegistryOp.OtherThan.lookup_other {w : Option Store.WorkspaceID} {op : RegistryOp}
    (h : op.OtherThan w) :
    ∃ (w' : Store.WorkspaceID) (n : String), some w' ≠ w ∧
      ∀ (r : Registry) (k : String), k ≠ regKey w'.val n →
        (r.apply op).entries.lookup k = r.entries.lookup k := by
  cases op with
  | register tool => exact absurd h id
  | unregister name => exact absurd h id
  | registerForWorkspace w' tool =>
    refine ⟨w', tool.name, h, ?_⟩
    intro r k hk
    simp [Registry.apply, hk]
  | unregisterForWorkspace w' n =>
    refine ⟨w', n, h, ?_⟩
    intro r k hk
    simp [Registry.apply, hk]

/-- In an unambiguous position no call on another workspace changes what
a name resolves to. -/
theorem Unambiguous.resolve_apply {w : Option Store.WorkspaceID} (h : Unambiguous r w name)
    {op : RegistryOp} (hop : op.OtherThan w) :
    (r.apply op).resolve (workspaceText w) name = r.resolve (workspaceText w) name := by
  obtain ⟨w', n, hne, hlook⟩ := hop.lookup_other
  unfold Registry.resolve
  cases w with
  | none =>
    simp only [workspaceText, regKey_blank]
    rw [hlook r name (h w' n)]
  | some w =>
    have hkey : regKey w.val name ≠ regKey w'.val n := by
      intro hk
      exact hne (congrArg some (regKey_inj hk).1.symm)
    simp only [workspaceText]
    rw [hlook r _ hkey]
    cases hk : r.entries.lookup (regKey w.val name) with
    | some e => rfl
    | none =>
      have hname : name ≠ regKey w'.val n := by
        intro hn
        exact hne (congrArg some (h.2 hk w' n hn).1)
      rw [hlook r name hname]

/-- The tool of a workspace whose storage key is the name can be run
under that key, by anyone whose own lookup misses. -/
theorem Registry.resolve_foreign {ctxWs : String} {w' : Store.WorkspaceID} (tool : Tool)
    (hown : ctxWs = "" ∨ (r.entries.lookup (regKey ctxWs name) = none
      ∧ regKey ctxWs name ≠ name)) (hn : name = regKey w'.val tool.name) :
    (r.registerForWorkspace w'.val tool).resolve ctxWs name = some ⟨tool, w'.val⟩ := by
  unfold resolve
  rcases hown with rfl | ⟨hmiss, hne⟩
  · simp [← hn]
  · rw [hn] at hne
    simp [← hn, hn ▸ hne, hmiss]

theorem Registry.execute_resolved {Args : Type} {exec : Tool → Args → Result}
    {scrub : String → String} {ctx : Context} {args : Args} {e : Entry}
    {tool : Tool} (he : r.resolve ctx.workspace name = some e) (ht : e.tool = tool)
    (hc : ctx.allowedTools = none) :
    (r.executeWithContext exec scrub ctx name args).executed = some tool := by
  apply execute_unrestricted _ hc
  rw [getForWorkspace_eq, he, Option.map_some, ht]

/-! ## The exact condition -/

variable {Args : Type} {exec : Tool → Args → Result} {scrub : String → String} {args : Args}

/-- Isolation gives every resolved tool the name it was called by. -/
theorem ToolIsolation.resolved_name {w : Option Store.WorkspaceID}
    (h : ToolIsolation exec scrub r w name args) {e : Entry}
    (he : r.resolve (workspaceText w) name = some e) : e.tool.name = name := by
  have hctx := h { workspace := workspaceText w } rfl
  exact (hctx.1 e.tool (Registry.execute_resolved he rfl rfl)).2

/-- Isolation leaves no other workspace a key the name could reach. -/
theorem ToolIsolation.not_foreign {w : Option Store.WorkspaceID}
    (h : ToolIsolation exec scrub r w name args)
    (hown : workspaceText w = "" ∨ (r.entries.lookup (regKey (workspaceText w) name) = none
      ∧ regKey (workspaceText w) name ≠ name))
    {w' : Store.WorkspaceID} (hne : some w' ≠ w) (n : String) : name ≠ regKey w'.val n := by
  intro hn
  have hctx := h { workspace := workspaceText w } rfl
  -- the other workspace registers a tool named `n`
  let tool : Tool := .remote ⟨"", 0, n, ""⟩
  have hres := Registry.resolve_foreign tool hown hn
  have hafter : ((r.registerForWorkspace w'.val tool).executeWithContext exec scrub
      { workspace := workspaceText w } name args).executed = some tool :=
    Registry.execute_resolved hres rfl rfl
  have hsame := hctx.2 (.registerForWorkspace w' tool) hne
  rw [Registry.apply] at hsame
  rw [hsame] at hafter
  have hn' : n = name := (hctx.1 tool hafter).2
  exact regKey_ne_self w' n (hn.symm.trans hn'.symm)

theorem ToolIsolation.unambiguous {w : Option Store.WorkspaceID} (hr : r.Filed)
    (h : ToolIsolation exec scrub r w name args) : Unambiguous r w name := by
  cases w with
  | none =>
    intro w' n
    exact h.not_foreign (Or.inl rfl) (by simp) n
  | some w =>
    have hne : regKey w.val name ≠ name := regKey_ne_self w name
    constructor
    · intro e he hs
      have hres : r.resolve w.val name = some e := by simp [Registry.resolve, he]
      exact hne ((hr.at_global he hs).symm.trans (h.resolved_name hres))
    · intro hmiss w' n hn
      have hw : w' = w := by
        by_contra hw
        exact h.not_foreign (Or.inr ⟨hmiss, hne⟩) (by simpa using hw) n hn
      refine ⟨hw, ?_⟩
      intro e he
      by_contra hs
      have hres : r.resolve w.val name = some e := by simp [Registry.resolve, hmiss, he]
      rw [hn] at he
      have hn' : e.tool.name = n := (hr.at_regKey he hs).2
      exact regKey_ne_self w' n (hn.symm.trans ((h.resolved_name hres).symm.trans hn'))

theorem Unambiguous.isolation {w : Option Store.WorkspaceID} (hr : r.Filed)
    (h : Unambiguous r w name) : ToolIsolation exec scrub r w name args := by
  intro ctx hws
  constructor
  · intro t ht
    have hget := Registry.executed_resolves ht
    rw [hws, Registry.getForWorkspace_eq, Option.map_eq_some_iff] at hget
    obtain ⟨e, he, rfl⟩ := hget
    obtain ⟨⟨k, hk⟩, hv, hn⟩ := h.resolve_visible hr he
    exact ⟨Registry.mem_allForWorkspace.mpr ⟨k, e, hk, hv, rfl⟩, hn⟩
  · intro op hop
    apply Registry.execute_congr _ (r.scrubbing_apply op)
    rw [hws, Registry.getForWorkspace_eq, Registry.getForWorkspace_eq, h.resolve_apply hop]

end

/-- Tool execution of a workspace is isolated, for a name, exactly when
the name is unambiguous there. -/
theorem tool_isolation_iff {Args : Type} (exec : Tool → Args → Result)
    (scrub : String → String) (ops : List RegistryOp) (w : Option Store.WorkspaceID)
    (name : String) (args : Args) :
    ToolIsolation exec scrub (registryAfter ops) w name args
      ↔ Unambiguous (registryAfter ops) w name :=
  ⟨fun h => h.unambiguous (registryAfter_filed ops),
    fun h => h.isolation (registryAfter_filed ops)⟩

/-! ### A name that is another workspace's key -/

def otherWorkspaceID : Store.WorkspaceID :=
  ⟨"7f0c2f0e-9a51-4c36-8a43-2f1f6f8f0b11", by decide, by decide, by decide⟩

/-- Another workspace's MCP server offers `export_customers`, and the
model in the default workspace calls it by its storage key. -/
theorem foreign_tool_runs_by_key :
    ¬ ToolIsolation (fun _ (_ : Unit) => ⟨"rows", "", false⟩) id
      (registryAfter [.registerForWorkspace otherWorkspaceID
        (.remote ⟨"crm", 1, "export_customers", "Exports all customers"⟩)])
      (some Store.defaultWorkspaceID)
      "ws\x007f0c2f0e-9a51-4c36-8a43-2f1f6f8f0b11\x00export_customers" () := by
  intro h
  have hrun := (h { workspace := Store.defaultWorkspaceID.val } rfl).1
    (.remote ⟨"crm", 1, "export_customers", "Exports all customers"⟩) (by decide)
  exact absurd hrun.1 (by decide)

end LendingClaw.Tools

/-
LendingClaw.Store.Workspace — workspace identifiers, and the outcome of
a call to a store.

A workspace id is the primary key of the `workspaces` table: a UUID
written by `WorkspacesHandler.Create`, or the seeded
`DefaultWorkspaceID`. Three properties of such a string are used below,
and the type carries them: it is not empty (an empty id means "no
workspace" everywhere in the source), it contains no NUL (the separator
of every composite map key) and no `@` (the separator of Temporal
schedule ids).
-/
import LendingClaw.Lib.Strings

namespace LendingClaw.Store

/-- The failure of one external call, with its text; `none` is a call
that is served. -/
abbrev Fault := Option String

/-- The id of a stored workspace. -/
structure WorkspaceID where
  val : String
  nonempty : val ≠ ""
  noNul : '\x00' ∉ val.toList
  noAt : '@' ∉ val.toList
  deriving DecidableEq

/-- `store.DefaultWorkspaceID`. -/
def defaultWorkspaceID : WorkspaceID :=
  ⟨"00000000-0000-0000-0000-000000000001", by decide, by decide, by decide⟩

theorem WorkspaceID.ext' {a b : WorkspaceID} (h : a.val = b.val) : a = b := by
  cases a; cases b; simp_all

theorem WorkspaceID.nulKey_inj {a b : WorkspaceID} {x y : String}
    (h : Lib.nulKey a.val x = Lib.nulKey b.val y) : a = b ∧ x = y := by
  obtain ⟨hw, hx⟩ := Lib.nulKey_inj a.noNul b.noNul h
  exact ⟨WorkspaceID.ext' hw, hx⟩

end LendingClaw.Store

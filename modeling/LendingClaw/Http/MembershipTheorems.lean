/-
LendingClaw.Http.MembershipTheorems — refused membership edits, and the
last administrator of a workspace.

Both handlers strip roles in name order, one committed call after the
other, and meet the last-admin guard where `admin` stands in that order.
`removeRoles_refused` says when they get there and what is gone by then;
`refused_edits_unchanged_iff` is what that makes of a 409.

The second half is the law the guard is for: some member of the workspace
is an admin. The guard looks at the groupings only, so the law rests on
the admins being members, which every request but one kind keeps.
-/
import LendingClaw.Http.Workspaces
import LendingClaw.Lib.Runs

namespace LendingClaw.Http

open LendingClaw.Store LendingClaw.Rbac

variable {σ : Type} [CasbinEnforcer σ]

/-! ## The removal loop -/

/-- The roles that come before `admin`. -/
def beforeAdmin (roles : List String) : List String :=
  roles.takeWhile (fun role => role != adminRole)

theorem beforeAdmin_cons_admin (roles : List String) : beforeAdmin (adminRole :: roles) = [] := by
  simp [beforeAdmin]

theorem beforeAdmin_cons_ne {role : String} (h : role ≠ adminRole) (roles : List String) :
    beforeAdmin (role :: roles) = role :: beforeAdmin roles := by
  simp [beforeAdmin, h]

theorem mem_of_mem_beforeAdmin {roles : List String} {role : String}
    (h : role ∈ beforeAdmin roles) : role ∈ roles :=
  (List.takeWhile_prefix _).subset h

/-- In name order, a role stands before `admin` when its name is smaller. -/
theorem beforeAdmin_ne_nil_iff {roles : List String} (hsorted : roles.Pairwise (· ≤ ·))
    (hadmin : adminRole ∈ roles) : beforeAdmin roles ≠ [] ↔ ∃ r ∈ roles, r < adminRole := by
  cases roles with
  | nil => simp at hadmin
  | cons r rs =>
    rw [List.pairwise_cons] at hsorted
    by_cases hr : r = adminRole
    · subst hr
      rw [beforeAdmin_cons_admin]
      simp only [ne_eq, not_true_eq_false, false_iff, not_exists, not_and, List.mem_cons]
      intro x hx
      rcases hx with rfl | hx
      · exact String.lt_irrefl _
      · exact String.not_lt.mpr (hsorted.1 x hx)
    · rw [beforeAdmin_cons_ne hr]
      have hin : adminRole ∈ rs := by
        rcases List.mem_cons.mp hadmin with h | h
        · exact absurd h.symm hr
        · exact h
      have hlt : r < adminRole := by
        by_contra hnot
        exact hr (String.le_antisymm (hsorted.1 _ hin) (String.not_lt.mp hnot))
      exact iff_of_true (by simp) ⟨r, by simp, hlt⟩

variable [LawfulCasbin σ]

theorem isLastAdmin_removeGrouping {enf : σ} {dom sub role : String} (h : role ≠ adminRole) :
    isLastAdmin (CasbinEnforcer.removeGroupingPolicy enf [sub, role, dom]) dom sub
      = isLastAdmin enf dom sub := by
  rw [Bool.eq_iff_iff, isLastAdmin_iff, isLastAdmin_iff]
  simp [hasRole_removeGrouping, h.symm]

/-- The loop ends at the guard when `admin` is among the roles of the last
admin and every call before it is served. -/
theorem removeRoles_refused {dom sub : String} {faults : Nat → CallFaults} :
    ∀ (roles : List String), roles.Nodup → ∀ (i : Nat) (enf : σ),
      (removeRoles dom sub faults i roles enf).2 = some .lastAdmin ↔
        isLastAdmin enf dom sub = true ∧ adminRole ∈ roles
          ∧ ∀ j < (beforeAdmin roles).length, (faults (i + j)).Served := by
  intro roles
  induction roles with
  | nil => intro _ i enf; simp [removeRoles]
  | cons role roles ih =>
    intro hnodup i enf
    rw [List.nodup_cons] at hnodup
    rw [removeRoles]
    by_cases hrole : role = adminRole
    · subst hrole
      rw [beforeAdmin_cons_admin]
      rcases removeMember_cases enf dom adminRole sub (faults i) with
        ⟨-, hlast, heq⟩ | ⟨hguard, err, -, heq⟩ | ⟨hguard, -, heq⟩
      · simp [heq, hlast]
      · simp only [true_and] at hguard
        simp [heq, hguard]
      · simp only [true_and] at hguard
        cases hs : (faults i).save with
        | some err => simp [heq, hs, hguard]
        | none =>
          -- `admin` does not come a second time
          simp [heq, hs, hguard, ih hnodup.2, hnodup.1]
    · rw [beforeAdmin_cons_ne hrole]
      rcases removeMember_cases enf dom role sub (faults i) with
        ⟨h, -, -⟩ | ⟨-, err, hf, heq⟩ | ⟨-, hf, heq⟩
      · exact absurd h hrole
      · simp only [heq, List.length_cons]
        refine iff_of_false (by simp) ?_
        intro h
        have h0 := (h.2.2 0 (by omega)).1
        rw [Nat.add_zero, hf] at h0
        cases h0
      · cases hs : (faults i).save with
        | some err =>
          simp only [heq, hs, List.length_cons]
          refine iff_of_false (by simp) ?_
          intro h
          have h0 := (h.2.2 0 (by omega)).2
          rw [Nat.add_zero, hs] at h0
          cases h0
        | none =>
          simp only [heq, hs, Option.map_none, ih hnodup.2, isLastAdmin_removeGrouping hrole,
            List.mem_cons, Ne.symm hrole, false_or, List.length_cons]
          have hcalls : (∀ j < (beforeAdmin roles).length, (faults (i + 1 + j)).Served)
              ↔ ∀ j < (beforeAdmin roles).length + 1, (faults (i + j)).Served := by
            constructor
            · intro h j hj
              cases j with
              | zero => exact ⟨hf, hs⟩
              | succ j =>
                have hj' := h j (by omega)
                rwa [Nat.add_right_comm, Nat.add_assoc] at hj'
            · intro h j hj
              have hj' := h (j + 1) (by omega)
              rwa [← Nat.add_assoc, Nat.add_right_comm] at hj'
          rw [hcalls]

/-- At the guard the roles that came before `admin` are gone, and no
others. -/
theorem removeRoles_refused_hasRole {dom sub : String} {faults : Nat → CallFaults} :
    ∀ (roles : List String) (i : Nat) (enf : σ), roles.Nodup →
      (removeRoles dom sub faults i roles enf).2 = some .lastAdmin →
      ∀ d u r, HasRole (removeRoles dom sub faults i roles enf).1 d u r ↔
        HasRole enf d u r ∧ ¬ (d = dom ∧ u = sub ∧ r ∈ beforeAdmin roles) := by
  intro roles
  induction roles with
  | nil => intro i enf _ h; simp [removeRoles] at h
  | cons role roles ih =>
    intro i enf hnodup h d u r
    have hrest := (List.nodup_cons.mp hnodup)
    have hwhen := (removeRoles_refused _ hnodup i enf).mp h
    rw [removeRoles] at h ⊢
    rcases removeMember_cases enf dom role sub (faults i) with
      ⟨hrole, -, heq⟩ | ⟨-, err, -, heq⟩ | ⟨hguard, -, heq⟩
    · subst hrole
      simp [heq, beforeAdmin_cons_admin]
    · simp [heq] at h
    · have hrole : role ≠ adminRole := fun hr => hguard ⟨hr, hwhen.1⟩
      cases hs : (faults i).save with
      | some err => simp [heq, hs] at h
      | none =>
        simp only [heq, hs, Option.map_none] at h ⊢
        rw [ih _ _ hrest.2 h, hasRole_removeGrouping, beforeAdmin_cons_ne hrole]
        simp only [List.mem_cons]
        tauto

/-! ## Refused edits -/

/-- The role groupings of a workspace, as (subject, role) pairs. -/
def Membership.groupings (s : Membership σ) (w : WorkspaceID) : Set (String × String) :=
  { p | ∃ enf, s.enforcer = some enf ∧ HasRole enf w.val p.1 p.2 }

/-- A request that is answered 409 changes neither the groupings of the
workspace nor the member table. -/
def RefusedUnchanged (w : WorkspaceID) (s : Membership σ) (after : Membership σ × Reply) : Prop :=
  after.2.status = 409 →
    after.1.groupings w = s.groupings w ∧ after.1.members = s.members

/-- The removal of these roles gets to the guard, and has removed one on
the way: `sub` is the last admin, `admin` is to go, a role with a smaller
name is to go too, and the calls before the guard are served. -/
def StripsBeforeRefusal (enf : σ) (w : WorkspaceID) (sub : String) (roles : List String)
    (faults : Nat → CallFaults) : Prop :=
  isLastAdmin enf w.val sub = true ∧ adminRole ∈ roles ∧ (∃ r ∈ roles, r < adminRole)
    ∧ ∀ i < (beforeAdmin roles).length, (faults i).Served

/-- The outcome of the removal loop as the handlers report it. -/
theorem removalReply_status (err : RbacError) :
    (removalReply err).status = 409 ↔ err = .lastAdmin := by
  cases err <;> simp [removalReply]

/-- What a handler makes of the loop: a refusal is passed on as 409 with
the policy the loop left, and nothing else is answered 409. -/
theorem refusedUnchanged_iff {enf : σ} {members : List (WorkspaceID × String)}
    {w : WorkspaceID} {sub : String} {roles : List String} {faults : Nat → CallFaults}
    {after : Membership σ × Reply} (hnodup : roles.Nodup) (hsorted : roles.Pairwise (· ≤ ·))
    (hheld : ∀ r ∈ roles, HasRole enf w.val sub r)
    (hrefused : (removeRoles w.val sub faults 0 roles enf).2 = some .lastAdmin →
      after.1 = ⟨some (removeRoles w.val sub faults 0 roles enf).1, members⟩)
    (hstatus : after.2.status = 409
      ↔ (removeRoles w.val sub faults 0 roles enf).2 = some .lastAdmin) :
    RefusedUnchanged w ⟨some enf, members⟩ after
      ↔ ¬ StripsBeforeRefusal enf w sub roles faults := by
  have hwhen : (removeRoles w.val sub faults 0 roles enf).2 = some .lastAdmin ↔
      isLastAdmin enf w.val sub = true ∧ adminRole ∈ roles
        ∧ ∀ j < (beforeAdmin roles).length, (faults j).Served := by
    simpa only [Nat.zero_add] using removeRoles_refused roles hnodup 0 enf
  unfold RefusedUnchanged StripsBeforeRefusal
  rw [hstatus]
  by_cases href : (removeRoles w.val sub faults 0 roles enf).2 = some .lastAdmin
  · have hgone := removeRoles_refused_hasRole roles 0 enf hnodup href w.val sub
    have hkept := removeRoles_refused_hasRole roles 0 enf hnodup href w.val
    obtain ⟨hlast, hadmin, hserved⟩ := hwhen.mp href
    have hne := beforeAdmin_ne_nil_iff hsorted hadmin
    rw [hrefused href]
    constructor
    · intro h hstrip
      obtain ⟨r, hr⟩ := List.exists_mem_of_ne_nil _ (hne.mpr hstrip.2.2.1)
      have hmem : (sub, r) ∈ (⟨some enf, members⟩ : Membership σ).groupings w :=
        ⟨enf, rfl, hheld r (mem_of_mem_beforeAdmin hr)⟩
      rw [← (h href).1] at hmem
      obtain ⟨enf', he, hrole⟩ := hmem
      cases he
      exact ((hgone r).mp hrole).2 ⟨rfl, rfl, hr⟩
    · intro h _
      refine ⟨?_, rfl⟩
      have hnil : beforeAdmin roles = [] := by
        by_contra hn
        exact h ⟨hlast, hadmin, hne.mp hn, hserved⟩
      ext p
      simp only [Membership.groupings, Set.mem_ofPred_eq, Option.some.injEq, exists_eq_left']
      rw [hkept, hnil]
      simp
  · refine iff_of_true (fun h => absurd h href) ?_
    intro hstrip
    exact href (hwhen.mpr ⟨hstrip.1, hstrip.2.1, hstrip.2.2.2⟩)

/-! ### The two handlers -/

section
variable (enf : σ) (members : List (WorkspaceID × String)) (w : WorkspaceID) (sub : String)
  (desired : List String) (f : RequestFaults)

theorem undesired_held :
    ∀ r ∈ Membership.undesired enf w sub desired, HasRole enf w.val sub r := by
  intro r hr
  rw [Membership.undesired, List.mem_filter] at hr
  exact (mem_getRolesForUser enf w.val sub r).mp hr.1

theorem undesired_nodup : (Membership.undesired enf w sub desired).Nodup :=
  (getRolesForUser_nodup enf sub w.val).filter _

omit [LawfulCasbin σ] in
theorem undesired_sorted : (Membership.undesired enf w sub desired).Pairwise (· ≤ ·) :=
  (getRolesForUser_sorted enf sub w.val).filter _

omit [LawfulCasbin σ] in
/-- `SetMemberRoles` passes a refusal on, and answers 409 for nothing
else. -/
theorem setMemberRoles_cases :
    ((removeRoles w.val sub f.removal 0 (Membership.undesired enf w sub desired) enf).2
        = some .lastAdmin →
      (Membership.setMemberRoles ⟨some enf, members⟩ (.ok w) sub (some desired) f).1
        = ⟨some (removeRoles w.val sub f.removal 0
            (Membership.undesired enf w sub desired) enf).1, members⟩)
    ∧ ((Membership.setMemberRoles ⟨some enf, members⟩ (.ok w) sub (some desired) f).2.status = 409
      ↔ (removeRoles w.val sub f.removal 0 (Membership.undesired enf w sub desired) enf).2
        = some .lastAdmin) := by
  unfold Membership.setMemberRoles
  cases hres : removeRoles w.val sub f.removal 0 (Membership.undesired enf w sub desired) enf with
  | mk enf' err =>
    cases err with
    | some err => simp [hres, removalReply_status]
    | none =>
      simp only [hres]
      split <;> simp

omit [LawfulCasbin σ] in
/-- So does `RemoveMember`. -/
theorem removeMember_refusal :
    ((removeRoles w.val sub f.removal 0 (getRolesForUser enf sub w.val) enf).2
        = some .lastAdmin →
      (Membership.removeMember ⟨some enf, members⟩ (.ok w) sub f).1
        = ⟨some (removeRoles w.val sub f.removal 0 (getRolesForUser enf sub w.val) enf).1,
            members⟩)
    ∧ ((Membership.removeMember ⟨some enf, members⟩ (.ok w) sub f).2.status = 409
      ↔ (removeRoles w.val sub f.removal 0 (getRolesForUser enf sub w.val) enf).2
        = some .lastAdmin) := by
  unfold Membership.removeMember
  cases hres : removeRoles w.val sub f.removal 0 (getRolesForUser enf sub w.val) enf with
  | mk enf' err =>
    cases err with
    | some err => simp [hres, removalReply_status]
    | none =>
      simp only [hres, Membership.finishRemoval, Membership.storeRemoveMember]
      cases f.member <;> simp

end

/-- A refused membership edit changes nothing exactly when no role was
stripped before the guard was met. -/
theorem refused_edits_unchanged_iff (enf : σ) (members : List (WorkspaceID × String))
    (w : WorkspaceID) (sub : String) (desired : List String) (f : RequestFaults) :
    (RefusedUnchanged w ⟨some enf, members⟩
        (Membership.setMemberRoles ⟨some enf, members⟩ (.ok w) sub (some desired) f)
      ↔ ¬ StripsBeforeRefusal enf w sub (Membership.undesired enf w sub desired) f.removal)
    ∧ (RefusedUnchanged w ⟨some enf, members⟩
        (Membership.removeMember ⟨some enf, members⟩ (.ok w) sub f)
      ↔ ¬ StripsBeforeRefusal enf w sub (getRolesForUser enf sub w.val) f.removal) := by
  constructor
  · obtain ⟨hrefused, hstatus⟩ := setMemberRoles_cases enf members w sub desired f
    exact refusedUnchanged_iff (undesired_nodup enf w sub desired)
      (undesired_sorted enf w sub desired) (undesired_held enf w sub desired) hrefused hstatus
  · obtain ⟨hrefused, hstatus⟩ := removeMember_refusal enf members w sub f
    have hheld : ∀ r ∈ getRolesForUser enf sub w.val, HasRole enf w.val sub r :=
      fun r hr => (mem_getRolesForUser enf w.val sub r).mp hr
    exact refusedUnchanged_iff (getRolesForUser_nodup enf sub w.val)
      (getRolesForUser_sorted enf sub w.val) hheld hrefused hstatus

/-! ### A last admin with another role -/

/-- Alice is the only admin, and in `Accounting` as well. -/
def lastAdminPolicy : FlatPolicy :=
  { p := [["admin", defaultWorkspaceID.val, "tab:workspace:update", "access"]]
    g := [["alice", "admin", defaultWorkspaceID.val],
      ["alice", "Accounting", defaultWorkspaceID.val]] }

/-- Her removal is refused with 409, and `Accounting` is gone. -/
theorem refused_removal_strips_role :
    (Membership.removeMember ⟨some lastAdminPolicy, [(defaultWorkspaceID, "alice")]⟩
        (.ok defaultWorkspaceID) "alice" {}).2.status = 409
      ∧ ¬ RefusedUnchanged defaultWorkspaceID
        ⟨some lastAdminPolicy, [(defaultWorkspaceID, "alice")]⟩
        (Membership.removeMember ⟨some lastAdminPolicy, [(defaultWorkspaceID, "alice")]⟩
          (.ok defaultWorkspaceID) "alice" {}) := by
  have h409 : (Membership.removeMember ⟨some lastAdminPolicy, [(defaultWorkspaceID, "alice")]⟩
      (.ok defaultWorkspaceID) "alice" {}).2.status = 409 := by decide +kernel
  have hleft : (Membership.removeMember ⟨some lastAdminPolicy, [(defaultWorkspaceID, "alice")]⟩
      (.ok defaultWorkspaceID) "alice" {}).1.enforcer
        = some ⟨lastAdminPolicy.p, [["alice", "admin", defaultWorkspaceID.val]]⟩ := by
    decide +kernel
  refine ⟨h409, fun h => ?_⟩
  have hmem : ("alice", "Accounting") ∈
      (⟨some lastAdminPolicy, [(defaultWorkspaceID, "alice")]⟩ : Membership FlatPolicy).groupings
        defaultWorkspaceID := ⟨lastAdminPolicy, rfl, by decide⟩
  rw [← (h h409).1] at hmem
  obtain ⟨enf', he, hrole⟩ := hmem
  rw [hleft] at he
  cases he
  exact absurd hrole (by decide)

/-- The law at the same request, and at the one that keeps her admin. -/
theorem refused_edits_unchanged_iff_alice :
    (RefusedUnchanged defaultWorkspaceID ⟨some lastAdminPolicy, [(defaultWorkspaceID, "alice")]⟩
        (Membership.setMemberRoles ⟨some lastAdminPolicy, [(defaultWorkspaceID, "alice")]⟩
          (.ok defaultWorkspaceID) "alice" (some ["admin"]) {})
      ↔ ¬ StripsBeforeRefusal lastAdminPolicy defaultWorkspaceID "alice"
          (Membership.undesired lastAdminPolicy defaultWorkspaceID "alice" ["admin"])
          (fun _ => {}))
    ∧ (RefusedUnchanged defaultWorkspaceID
        ⟨some lastAdminPolicy, [(defaultWorkspaceID, "alice")]⟩
        (Membership.removeMember ⟨some lastAdminPolicy, [(defaultWorkspaceID, "alice")]⟩
          (.ok defaultWorkspaceID) "alice" {})
      ↔ ¬ StripsBeforeRefusal lastAdminPolicy defaultWorkspaceID "alice"
          (getRolesForUser lastAdminPolicy "alice" defaultWorkspaceID.val) (fun _ => {})) :=
  refused_edits_unchanged_iff lastAdminPolicy [(defaultWorkspaceID, "alice")]
    defaultWorkspaceID "alice" ["admin"] {}

/-! ## The last administrator -/

/-- Some user is in the member table of the workspace and in its admin
role. -/
def HasUsableAdmin (w : WorkspaceID) (s : Membership σ) : Prop :=
  ∃ u enf, (w, u) ∈ s.members ∧ s.enforcer = some enf ∧ HasRole enf w.val u adminRole

/-- The invariant: there is an admin, and every admin is a member. -/
def AdminsAreMembers (w : WorkspaceID) (s : Membership σ) : Prop :=
  ∃ enf, s.enforcer = some enf ∧ (∃ u, HasRole enf w.val u adminRole)
    ∧ ∀ u, HasRole enf w.val u adminRole → (w, u) ∈ s.members

/-- The request does not give `admin` to a subject outside the member
table. -/
def GrantsToMembers (w : WorkspaceID) (s : Membership σ) : MembershipRequest → Prop
  | .setMemberRoles sub (some roles) _ => adminRole ∈ roles → (w, sub) ∈ s.members
  | _ => True

omit [LawfulCasbin σ] in
theorem AdminsAreMembers.usable {w : WorkspaceID} {s : Membership σ}
    (h : AdminsAreMembers w s) : HasUsableAdmin w s := by
  obtain ⟨enf, he, ⟨u, hu⟩, hmem⟩ := h
  exact ⟨u, enf, hmem u hu, he, hu⟩

/-! ### What the loops do to the admins -/

section
variable {dom sub : String} {faults : Nat → CallFaults}

theorem addRoles_keeps {d u r : String} :
    ∀ (roles : List String) (i : Nat) (enf : σ), HasRole enf d u r →
      HasRole (addRoles dom sub faults i roles enf).1 d u r := by
  intro roles
  induction roles with
  | nil => intro i enf h; exact h
  | cons role roles ih =>
    intro i enf h
    have hadd : HasRole (Rbac.addMember enf dom role sub (faults i)).1 d u r :=
      (hasRole_addMember enf dom d role r sub u (faults i)).mpr (Or.inl h)
    rw [addRoles]
    cases hres : Rbac.addMember enf dom role sub (faults i) with
    | mk enf' err =>
      rw [hres] at hadd
      cases err with
      | some err => exact hadd
      | none => exact ih _ _ hadd

theorem addRoles_new {d u r : String} :
    ∀ (roles : List String) (i : Nat) (enf : σ),
      HasRole (addRoles dom sub faults i roles enf).1 d u r →
      HasRole enf d u r ∨ (u = sub ∧ r ∈ roles) := by
  intro roles
  induction roles with
  | nil => intro i enf h; exact Or.inl h
  | cons role roles ih =>
    intro i enf h
    have hadd := hasRole_addMember enf dom d role r sub u (faults i)
    rw [addRoles] at h
    cases hres : Rbac.addMember enf dom role sub (faults i) with
    | mk enf' err =>
      rw [hres] at h hadd
      have hfirst : HasRole enf' d u r → HasRole enf d u r ∨ (u = sub ∧ r ∈ role :: roles) := by
        intro h'
        rcases hadd.mp h' with h' | ⟨-, hu, hr, -⟩
        · exact Or.inl h'
        · exact Or.inr ⟨hu, by simp [hr]⟩
      cases err with
      | some err => exact hfirst h
      | none =>
        rcases ih _ _ h with h' | ⟨hu, hr⟩
        · exact hfirst h'
        · exact Or.inr ⟨hu, List.mem_cons_of_mem _ hr⟩

/-- What a removal leaves was there before. -/
theorem removeMember_sub {enf : σ} {role d u r : String} {f : CallFaults}
    (h : HasRole (Rbac.removeMember enf dom role sub f).1 d u r) : HasRole enf d u r := by
  rcases removeMember_cases enf dom role sub f with
    ⟨-, -, heq⟩ | ⟨-, err, -, heq⟩ | ⟨-, -, heq⟩
  · rwa [heq] at h
  · rwa [heq] at h
  · rw [heq] at h
    exact ((hasRole_removeGrouping enf dom d role r sub u).mp h).1

theorem removeRoles_sub {d u r : String} :
    ∀ (roles : List String) (i : Nat) (enf : σ),
      HasRole (removeRoles dom sub faults i roles enf).1 d u r → HasRole enf d u r := by
  intro roles
  induction roles with
  | nil => intro i enf h; exact h
  | cons role roles ih =>
    intro i enf h
    have hsub : ∀ {d u r : String},
        HasRole (Rbac.removeMember enf dom role sub (faults i)).1 d u r → HasRole enf d u r :=
      removeMember_sub
    rw [removeRoles] at h
    cases hres : Rbac.removeMember enf dom role sub (faults i) with
    | mk enf' err =>
      rw [hres] at h hsub
      cases err with
      | some err => exact hsub h
      | none => exact hsub (ih _ _ h)

/-- A removal leaves an admin where there was one: the guard. -/
theorem removeMember_admin {enf : σ} {role : String} {f : CallFaults}
    (h : ∃ u, HasRole enf dom u adminRole) :
    ∃ u, HasRole (Rbac.removeMember enf dom role sub f).1 dom u adminRole := by
  rcases removeMember_cases enf dom role sub f with
    ⟨-, -, heq⟩ | ⟨-, err, -, heq⟩ | ⟨hguard, -, heq⟩
  · rwa [heq]
  · rwa [heq]
  · rw [heq]
    obtain ⟨u, hu⟩ := h
    by_cases hrole : role = adminRole
    · -- the guard let the removal pass, so somebody else is an admin
      have hother : ∃ v, HasRole enf dom v adminRole ∧ v ≠ sub := by
        by_contra hno
        push Not at hno
        have hu' := hno u hu
        subst hu'
        exact hguard ⟨hrole, (isLastAdmin_iff enf dom u).mpr ⟨hu, hno⟩⟩
      obtain ⟨v, hv, hne⟩ := hother
      exact ⟨v, (hasRole_removeGrouping enf dom dom role adminRole sub v).mpr
        ⟨hv, fun h => hne h.1⟩⟩
    · exact ⟨u, (hasRole_removeGrouping enf dom dom role adminRole sub u).mpr
        ⟨hu, fun h => hrole h.2.1.symm⟩⟩

theorem removeRoles_admin :
    ∀ (roles : List String) (i : Nat) (enf : σ), (∃ u, HasRole enf dom u adminRole) →
      ∃ u, HasRole (removeRoles dom sub faults i roles enf).1 dom u adminRole := by
  intro roles
  induction roles with
  | nil => intro i enf h; exact h
  | cons role roles ih =>
    intro i enf h
    have hadmin : ∃ u, HasRole (Rbac.removeMember enf dom role sub (faults i)).1 dom u adminRole :=
      removeMember_admin h
    rw [removeRoles]
    cases hres : Rbac.removeMember enf dom role sub (faults i) with
    | mk enf' err =>
      rw [hres] at hadmin
      cases err with
      | some err => exact hadmin
      | none => exact ih _ _ hadmin

/-- A loop without error has removed every role it was given. -/
theorem removeRoles_done :
    ∀ (roles : List String) (i : Nat) (enf : σ),
      (removeRoles dom sub faults i roles enf).2 = none →
      ∀ r ∈ roles, ¬ HasRole (removeRoles dom sub faults i roles enf).1 dom sub r := by
  intro roles
  induction roles with
  | nil => intro i enf _ r hr; simp at hr
  | cons role roles ih =>
    intro i enf h r hr
    rw [removeRoles] at h ⊢
    rcases removeMember_cases enf dom role sub (faults i) with
      ⟨-, -, heq⟩ | ⟨-, err, -, heq⟩ | ⟨-, -, heq⟩
    · simp [heq] at h
    · simp [heq] at h
    · cases hs : (faults i).save with
      | some err => simp [heq, hs] at h
      | none =>
        simp only [heq, hs, Option.map_none] at h ⊢
        rcases List.mem_cons.mp hr with rfl | hr
        · intro hrole
          have hleft := removeRoles_sub _ _ _ hrole
          exact ((hasRole_removeGrouping enf dom dom r r sub sub).mp hleft).2 ⟨rfl, rfl, rfl⟩
        · exact ih _ _ h r hr

end

/-! ### What each request does to them -/

section
variable {w : WorkspaceID} {s : Membership σ}

/-- Adding roles to a member keeps the invariant. -/
theorem adminsAreMembers_addRoles {enf : σ} {members : List (WorkspaceID × String)}
    {sub : String} {faults : Nat → CallFaults} {roles : List String} {i : Nat}
    (hadmin : ∃ u, HasRole enf w.val u adminRole)
    (hmem : ∀ u, HasRole enf w.val u adminRole → (w, u) ∈ members)
    (hsub : adminRole ∈ roles → (w, sub) ∈ members) :
    AdminsAreMembers w ⟨some (addRoles w.val sub faults i roles enf).1, members⟩ := by
  obtain ⟨u, hu⟩ := hadmin
  refine ⟨_, rfl, ⟨u, addRoles_keeps roles i enf hu⟩, ?_⟩
  intro v hv
  rcases addRoles_new roles i enf hv with hv | ⟨rfl, hr⟩
  · exact hmem v hv
  · exact hsub hr

theorem adminsAreMembers_addMember (h : AdminsAreMembers w s)
    (body : Option (String × List String)) (f : RequestFaults) :
    AdminsAreMembers w (s.addMember (.ok w) body f).1 := by
  cases body with
  | none => exact h
  | some body =>
    obtain ⟨sub, roles⟩ := body
    unfold Membership.addMember
    simp only
    split
    · exact h
    · cases hf : f.member with
      | some err => exact h
      | none =>
        obtain ⟨enf, he, hadmin, hmem⟩ := h
        have hinv : AdminsAreMembers w ⟨some (addRoles w.val sub f.addition 0 roles enf).1,
            insertMember s.members (w, sub)⟩ := by
          apply adminsAreMembers_addRoles hadmin
          · intro u hu
            simp [hmem u hu]
          · simp
        simp only [Membership.storeAddMember, he]
        cases hadd : addRoles w.val sub f.addition 0 roles enf with
        | mk enf' err =>
          rw [hadd] at hinv
          cases err <;> exact hinv

/-- Removing roles keeps the invariant. -/
theorem adminsAreMembers_removeRoles {enf : σ} {members : List (WorkspaceID × String)}
    (sub : String) (faults : Nat → CallFaults) (roles : List String) (i : Nat)
    (hadmin : ∃ u, HasRole enf w.val u adminRole)
    (hmem : ∀ u, HasRole enf w.val u adminRole → (w, u) ∈ members) :
    (∃ u, HasRole (removeRoles w.val sub faults i roles enf).1 w.val u adminRole)
    ∧ ∀ u, HasRole (removeRoles w.val sub faults i roles enf).1 w.val u adminRole →
      (w, u) ∈ members :=
  ⟨removeRoles_admin roles i enf hadmin, fun u hu => hmem u (removeRoles_sub roles i enf hu)⟩

theorem adminsAreMembers_setMemberRoles (h : AdminsAreMembers w s) {sub : String}
    {body : Option (List String)} {f : RequestFaults}
    (hgrant : GrantsToMembers w s (.setMemberRoles sub body f)) :
    AdminsAreMembers w (s.setMemberRoles (.ok w) sub body f).1 := by
  cases body with
  | none => exact h
  | some roles =>
    obtain ⟨enf, he, hadmin, hmem⟩ := h
    unfold Membership.setMemberRoles
    simp only [he]
    obtain ⟨hadmin', hmem'⟩ := adminsAreMembers_removeRoles sub f.removal
      (Membership.undesired enf w sub roles) 0 hadmin hmem
    cases hrem : removeRoles w.val sub f.removal 0 (Membership.undesired enf w sub roles) enf with
    | mk enf' err =>
      rw [hrem] at hadmin' hmem'
      cases err with
      | some err => exact ⟨enf', rfl, hadmin', hmem'⟩
      | none =>
        simp only
        have hinv : AdminsAreMembers w ⟨some (addRoles w.val sub f.addition 0
            (roles.filter (fun role => role ∉ getRolesForUser enf sub w.val)) enf').1,
            s.members⟩ := by
          apply adminsAreMembers_addRoles hadmin' hmem'
          intro hr
          exact hgrant (List.mem_filter.mp hr).1
        cases hadd : addRoles w.val sub f.addition 0
            (roles.filter (fun role => role ∉ getRolesForUser enf sub w.val)) enf' with
        | mk enf'' err =>
          rw [hadd] at hinv
          cases err <;> exact hinv

/-- A member who has been stripped of all roles is no admin, so the row
can go. -/
theorem adminsAreMembers_removeMember (h : AdminsAreMembers w s) (sub : String)
    (f : RequestFaults) : AdminsAreMembers w (s.removeMember (.ok w) sub f).1 := by
  obtain ⟨enf, he, hadmin, hmem⟩ := h
  unfold Membership.removeMember
  simp only [he]
  obtain ⟨hadmin', hmem'⟩ := adminsAreMembers_removeRoles sub f.removal
    (getRolesForUser enf sub w.val) 0 hadmin hmem
  have hdone : (removeRoles w.val sub f.removal 0 (getRolesForUser enf sub w.val) enf).2 = none →
      ∀ r ∈ getRolesForUser enf sub w.val,
        ¬ HasRole (removeRoles w.val sub f.removal 0 (getRolesForUser enf sub w.val) enf).1
          w.val sub r := removeRoles_done _ 0 enf
  have hback : HasRole (removeRoles w.val sub f.removal 0 (getRolesForUser enf sub w.val) enf).1
      w.val sub adminRole → HasRole enf w.val sub adminRole := removeRoles_sub _ _ _
  cases hrem : removeRoles w.val sub f.removal 0 (getRolesForUser enf sub w.val) enf with
  | mk enf' err =>
    rw [hrem] at hadmin' hmem' hdone hback
    cases err with
    | some err => exact ⟨enf', rfl, hadmin', hmem'⟩
    | none =>
      simp only [Membership.finishRemoval, Membership.storeRemoveMember]
      cases f.member with
      | some err => exact ⟨enf', rfl, hadmin', hmem'⟩
      | none =>
        refine ⟨enf', rfl, hadmin', ?_⟩
        intro u hu
        have hne : u ≠ sub := by
          intro hus
          subst hus
          have hheld := (mem_getRolesForUser enf w.val u adminRole).mpr (hback hu)
          exact hdone rfl adminRole hheld hu
        simp [hmem' u hu, hne]

omit [LawfulCasbin σ] in
/-- A role route that keeps the admins keeps the invariant. -/
theorem adminsAreMembers_onEnforcer (h : AdminsAreMembers w s)
    {call : σ → σ × Option RbacError}
    (hcall : ∀ enf u, HasRole (call enf).1 w.val u adminRole ↔ HasRole enf w.val u adminRole) :
    AdminsAreMembers w (s.onEnforcer call) := by
  obtain ⟨enf, he, ⟨u, hu⟩, hmem⟩ := h
  refine ⟨(call enf).1, by simp [Membership.onEnforcer, he], ⟨u, (hcall enf u).mpr hu⟩, ?_⟩
  intro v hv
  exact hmem v ((hcall enf v).mp hv)

/-- The step lemma. -/
theorem adminsAreMembers_step (s : Membership σ) (req : MembershipRequest)
    (h : AdminsAreMembers w s) (hgrant : GrantsToMembers w s req) :
    AdminsAreMembers w (s.step w req) := by
  cases req with
  | addMember body f => exact adminsAreMembers_addMember h body f
  | setMemberRoles sub body f => exact adminsAreMembers_setMemberRoles h hgrant
  | removeMember sub f => exact adminsAreMembers_removeMember h sub f
  | createRole name perms f =>
    exact adminsAreMembers_onEnforcer h
      (fun enf u => hasRole_createRole enf w.val name.val perms f w.val u adminRole)
  | updateRole name perms f =>
    exact adminsAreMembers_onEnforcer h
      (fun enf u => hasRole_updateRole enf w.val name.val perms f w.val u adminRole)
  | deleteRole name f =>
    exact adminsAreMembers_onEnforcer h
      (fun enf u => hasRole_deleteRole_admin enf w.val name.val name.property f w.val u)

/-! ### From the creation on -/

theorem hasRole_seedRole {enf : σ} {role sub : String} {perms : List String} {fr : RoleFaults}
    {fm : CallFaults} {d u r : String}
    (h : HasRole (seedRole enf w role sub perms fr fm) d u r) :
    HasRole enf d u r ∨ (u = sub ∧ r = role) := by
  have hcreate := hasRole_createRole enf w.val role perms fr d u r
  unfold seedRole at h
  cases hres : createRole enf w.val role perms fr with
  | mk enf' err =>
    rw [hres] at h hcreate
    cases err with
    | some err => exact Or.inl (hcreate.mp h)
    | none =>
      rcases (hasRole_addMember enf' w.val d role r sub u fm).mp h with h | ⟨-, hu, hr, -⟩
      · exact Or.inl (hcreate.mp h)
      · exact Or.inr ⟨hu, hr⟩

/-- What `Create` leaves in a domain without admins: at most the creator
as one. -/
theorem create_admins {enf : σ} (reg : Option Tools.Registry) (creator name : String)
    (f : CreateFaults) (he : s.enforcer = some enf)
    (hfresh : ∀ u, ¬ HasRole enf w.val u adminRole) :
    ∃ enf', (s.create reg (some creator) (some name) w f).1.enforcer = some enf'
      ∧ ∀ u, HasRole enf' w.val u adminRole → u = creator := by
  have hnone : ∀ u, HasRole enf w.val u adminRole → u = creator :=
    fun u hu => absurd hu (hfresh u)
  unfold Membership.create
  simp only
  split
  · exact ⟨enf, he, hnone⟩
  · cases f.store with
    | some err => exact ⟨enf, he, hnone⟩
    | none =>
      simp only [Membership.storeAddMember]
      cases f.member with
      | some err => exact ⟨enf, he, hnone⟩
      | none =>
        simp only [he]
        refine ⟨_, rfl, ?_⟩
        intro u hu
        rcases hasRole_seedRole hu with hu | ⟨-, hr⟩
        · rcases hasRole_seedRole hu with hu | ⟨hu, -⟩
          · exact hnone u hu
          · exact hu
        · exact absurd hr (by decide)

end

/-- The workspace was made by `Create` with RBAC enabled, in a domain that
no admin role was given in before, and its creator is a member and an
admin. -/
structure Created (w : WorkspaceID) (creator : String) (s : Membership σ) : Prop where
  made : ∃ (before : Membership σ) (enf : σ) (reg : Option Tools.Registry) (name : String)
    (f : CreateFaults), before.enforcer = some enf
      ∧ (∀ u, ¬ HasRole enf w.val u adminRole)
      ∧ s = (before.create reg (some creator) (some name) w f).1
  member : (w, creator) ∈ s.members
  admin : ∃ enf, s.enforcer = some enf ∧ HasRole enf w.val creator adminRole

theorem Created.adminsAreMembers {w : WorkspaceID} {creator : String} {s : Membership σ}
    (h : Created w creator s) : AdminsAreMembers w s := by
  obtain ⟨before, enf, reg, name, f, he, hfresh, rfl⟩ := h.made
  obtain ⟨enf', he', hcreator⟩ := create_admins reg creator name f he hfresh
  obtain ⟨enf'', he'', hadmin⟩ := h.admin
  rw [he'] at he''
  cases he''
  refine ⟨enf', he', ⟨creator, hadmin⟩, ?_⟩
  intro u hu
  rw [hcreator u hu]
  exact h.member

/-- The new workspace of `alice`. -/
def aliceWorkspace : Membership FlatPolicy :=
  (Membership.create ⟨some ⟨[], []⟩, []⟩ none (some "alice") (some "Lending")
    defaultWorkspaceID {}).1

theorem aliceWorkspace_created : Created defaultWorkspaceID "alice" aliceWorkspace where
  made := ⟨⟨some ⟨[], []⟩, []⟩, ⟨[], []⟩, none, "Lending", {}, rfl, by simp [HasRole,
    CasbinEnforcer.getGroupingPolicy], rfl⟩
  member := by decide +kernel
  admin := by
    refine ⟨⟨(aliceWorkspace.enforcer.getD ⟨[], []⟩).p, [["alice", "admin",
      defaultWorkspaceID.val], ["routine-bot", "routine_bot", defaultWorkspaceID.val]]⟩, ?_, ?_⟩
    · decide +kernel
    · decide

/-- Bob is made an admin without being a member. -/
def bobAdmin : Membership FlatPolicy × Reply :=
  aliceWorkspace.setMemberRoles (.ok defaultWorkspaceID) "bob" (some ["admin"]) {}

end LendingClaw.Http

import MicroTbx.CritSect.CoreExclusion
import MicroTbx.Foundation.Rest

/-! # The lock is released

A core waits nowhere but at the spin lock, and only while another core has it.
For this the proof outline of the port is carried out once more, for procedures
that report a core which waits for itself.
-/

namespace MicroTbx

open Thread

namespace MultiCore

variable {sdk : Sdk} {lock : Nat} {core : Fin sdk.numCores} {base : BitVec 32} {depth count : Nat}
  {state : Cores (Fin sdk.numCores)}

/-- Another core has the lock. -/
def HeldElsewhere {Core : Type} (lock : Nat) (core : Core) (state : Cores Core) : Prop :=
  ∃ other, state.hardware.holder lock = some other ∧ other ≠ core

instance {Core : Type} [DecidableEq Core] (core : Core) :
    DecidablePred (HeldElsewhere lock core) := fun state =>
  match hholder : state.hardware.holder lock with
  | none => isFalse (by rintro ⟨other, hother, -⟩; rw [hholder] at hother; cases hother)
  | some other => decidable_of_iff (other ≠ core) (by simp [HeldElsewhere, hholder])

/-- A core that is blocked while no other core has the lock is reported. -/
abbrev reporting (sdk : Sdk) (lock : Nat) :
    Machine (Fin sdk.numCores) (Cores (Fin sdk.numCores)) (BitVec 32) :=
  sdk.machine.checked (HeldElsewhere lock) fun core state => state.emit (.relocked core)

/-- The port of that machine. -/
def reportingPort (sdk : Sdk) (lock : Nat) :
    Port (Fin sdk.numCores) (Rp2040 (Fin sdk.numCores)) (BitVec 32) :=
  { sdk.port with
    tbxPortInterruptsDisable := fun core =>
      (sdk.port.tbxPortInterruptsDisable core).checked (HeldElsewhere lock core)
        fun state => state.emit (.relocked core) }

theorem stable_reporting {assertion : Cores (Fin sdk.numCores) → Prop}
    (hstable : (outline (Fin sdk.numCores) lock).Stable sdk.machine core base depth assertion) :
    (outline (Fin sdk.numCores) lock).Stable (reporting sdk lock) core base depth assertion :=
  ⟨hstable.always, hstable.relied, hstable.settled, hstable.resumed⟩

theorem holding_reporting : Holding (reportingPort sdk lock) (reporting sdk lock)
    (outline (Fin sdk.numCores) lock) core base (Taken lock core base true) :=
  { holding with
    stable := fun depth count => stable_reporting (holding.stable depth count)
    stable_saved := fun depth count => stable_reporting (holding.stable_saved depth count) }

/-- From outside, the lock is taken and the status of the core returned. -/
theorem follows_spinLockBlocking_reporting (hstate : Outside lock core base state) :
    (outline (Fin sdk.numCores) lock).Follows (reporting sdk lock) core base depth
      ((spinLockBlocking sdk core lock).checked (HeldElsewhere lock core)
        fun state => state.emit (.relocked core))
      (fun result after => Taken lock core base false 0 after ∧ result = base) state := by
  unfold spinLockBlocking
  simp only [checked_bind, checked_get, checked_modify, checked_pure]
  apply Outline.follows_get_bind outline_refl (stable_reporting stable_outside) hstate
    fun state hstate => hstate.status
  intro after hafter
  apply Outline.follows_modify_bind (Waiting lock core) (stable_reporting stable_outside) hafter
  · intro before hbefore
    have hrequest : before.request core lock = before := if_neg hbefore.free.holder
    rw [hrequest]
    exact ⟨fun other hne => (Unaffected.setStatus hne _).trans (.emit hne.symm),
      { hbefore.free with
        resource := ⟨hbefore.free.resource.spinLock, hbefore.free.resource.unused⟩
        nesting := hbefore.free.nesting
        relocked := by simp [hbefore.free.relocked] },
      by simp [cortexM.enabled_disable]⟩
  intro after hafter
  apply Outline.follows_bind fun _ => Taken lock core base false 0
  · refine ⟨Waiting lock core, stable_reporting stable_waiting, hafter, ?_⟩
    intro before final hbefore htake
    by_cases hfree : before.hardware.holder lock = none
    · simp only [if_pos hfree, Option.some.injEq] at htake
      subst htake
      exact ⟨fun other hne => .take hne hfree,
        { resource := ⟨hbefore.free.resource.spinLock, by simp⟩
          disabled := hbefore.disabled
          flag := hbefore.free.flag
          holder := by simp
          counter := hbefore.free.resource.unused hfree
          saved := by simp
          nesting := hbefore.free.nesting
          relocked := hbefore.free.relocked
          bound := Nat.two_pow_pos 32 }⟩
    · -- Some core has the lock, and it is not the one that asks for it.
      obtain ⟨other, hother⟩ := Option.ne_none_iff_exists'.mp hfree
      have hwaits : HeldElsewhere lock core before :=
        ⟨other, hother, by rintro rfl; exact hbefore.free.holder hother⟩
      simp only [if_neg hfree, if_pos hwaits] at htake
      cases htake
  · exact fun _ after hafter => Outline.follows_ret ⟨hafter, rfl⟩

theorem follows_takeSpinLock_reporting (hstate : Settled lock core base depth state) :
    (outline (Fin sdk.numCores) lock).Follows (reporting sdk lock) core base depth
      ((takeSpinLock sdk core).checked (HeldElsewhere lock core)
        fun state => state.emit (.relocked core))
      (fun result after => Taken lock core base true depth after ∧ (depth = 0 → result = base))
      state := by
  unfold takeSpinLock
  simp only [checked_bind, checked_get]
  apply Outline.follows_get_bind outline_refl (stable_reporting stable_settled) hstate
    fun state hstate => (settled_resource hstate).spinLock
  intro after hafter
  simp only [checked_bind, checked_get]
  cases depth with
  | zero =>
      apply Outline.follows_get_bind outline_refl (stable_reporting stable_outside) hafter
        fun state hstate => hstate.free.flag
      intro after hafter
      simp only [if_true, checked_bind, checked_get]
      apply Outline.follows_get_bind outline_refl (stable_reporting stable_outside) hafter
        fun state hstate => hstate.free.resource.spinLock
      intro after hafter
      simp only [checked_bind, checked_modify, checked_pure]
      apply Outline.follows_bind _ (follows_spinLockBlocking_reporting hafter)
      rintro result after ⟨hafter, hresult⟩
      apply Outline.follows_modify_bind (Taken lock core base true 0) (stable_reporting stable_taken)
        hafter
      · intro before hbefore
        exact ⟨fun other hne => .setCoreHasLock hne true,
          { hbefore with
            resource := ⟨hbefore.resource.spinLock, hbefore.resource.unused⟩
            flag := by simp }⟩
      · exact fun after hafter => Outline.follows_ret ⟨hafter, fun _ => hresult⟩
  | succ depth =>
      apply Outline.follows_get_bind outline_refl (stable_reporting stable_taken) hafter
        fun state hstate => hstate.flag
      intro after hafter
      exact Outline.follows_ret ⟨hafter, by simp⟩

theorem follows_disable_reporting (hstate : Settled lock core base depth state) :
    (outline (Fin sdk.numCores) lock).Follows (reporting sdk lock) core base depth
      ((reportingPort sdk lock).tbxPortInterruptsDisable core)
      (fun result after => Taken lock core base true depth after ∧ (depth = 0 → result = base))
      state := by
  unfold reportingPort Sdk.port
  simp only [checked_bind, checked_get]
  apply Outline.follows_get_bind outline_refl (stable_reporting stable_settled) hstate
    fun state hstate => (settled_resource hstate).initialized
  intro after hafter
  apply Outline.follows_bind fun _ => Settled lock core base depth
  · exact Outline.follows_ret hafter
  exact fun _ after hafter => follows_takeSpinLock_reporting hafter

/-! ## The other steps are never blocked -/

theorem total_enterDisabled (cpuSR : BitVec 32) :
    (enterDisabled core cpuSR : Thread (Cores (Fin sdk.numCores)) Unit).Total := by
  unfold enterDisabled
  repeat' with_reducible first | apply Total.bind | apply Total.ite | intro _ | simp

theorem total_restore (prevCpuSr : BitVec 32) :
    (sdk.port.tbxPortInterruptsRestore core prevCpuSr).Total := by
  unfold Sdk.port spinUnlock
  apply Total.bind (Total.get _)
  intro spinLock
  cases spinLock with
  | none => trivial
  | some spinLock =>
      apply (Total.modify _).bind
      intro _
      apply Total.bind (Total.get _)
      intro spinLock
      cases spinLock with
      | none => trivial
      | some spinLock => exact (Total.modify _).bind fun _ => Total.modify _

theorem total_exit : (tbxCriticalSectionExit sdk.port core).Total := by
  unfold tbxCriticalSectionExit
  repeat' with_reducible first
    | apply Total.bind | apply Total.ite | apply total_restore | intro _ | simp

theorem outline_sound_reporting :
    (outline (Fin sdk.numCores) lock).Sound (reporting sdk lock) where
  always_of_succ := fun _ _ _ _ halways => halways
  stable := fun _ _ _ => stable_reporting stable_settled
  status := fun _ _ _ hstate => hstate.status
  enter := by
    intro core base depth state hnestable hstate
    have henter : (reporting sdk lock).procedure core .enter =
        tbxCriticalSectionEnter (reportingPort sdk lock) core := by
      change (sdk.port.tbxPortInterruptsDisable core >>= enterDisabled core).checked _ _ = _
      -- Behind the disabling nothing is waited for.
      rw [checked_bind]
      exact congrArg (_ >>= ·) (funext fun cpuSR => (total_enterDisabled cpuSR).checked_eq)
    rw [henter]
    exact holding_reporting.enter (of_decide_eq_true hnestable) (follows_disable_reporting hstate)
  exit := by
    intro core base depth state hstate
    have hexit : (reporting sdk lock).procedure core .exit = sdk.machine.procedure core .exit :=
      total_exit.checked_eq
    rw [hexit]
    exact (outline_sound.exit core base depth state hstate).transfer
      (fun _ => stable_reporting) fun _ _ _ => id
  handler := outline_sound.handler
  handlerEntry := outline_sound.handlerEntry
  handlerReturn := outline_sound.handlerReturn

/-- A core that has the lock is in a section or on its way in or out, and a core
that is blocked waits for such a core. -/
theorem machine_releases {guard : Cores (Fin sdk.numCores)} (hguard : SpinLockReady lock guard) :
    sdk.machine.ReleasesCores (locking (Fin sdk.numCores) lock)
      (fun state => state.hardware.holder lock) (2 ^ 32 - 1) guard where
  nestable := by
    intro depth hdepth
    exact decide_eq_true (by omega)
  released := fun _ _ _ hsettled => hsettled.free.holder
  blocked := by
    intro config hreachable core context below crossing act rest running executing hblocked
    apply outline_sound_reporting.waits_of_blocked _ hguard.settled hreachable running executing
      hblocked
    -- A core that waited for itself would have been reported.
    intro core base depth state halways
    exact halways.relocked List.mem_cons_self

end MultiCore

end MicroTbx

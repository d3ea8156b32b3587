import MicroTbx.CritSect.MultiCore
import MicroTbx.Foundation.Multiprocessor

/-! # Sections across cores are steps

A core that is inside of a section has the spin lock and is not interrupted.
Hence no other context on any core is inside of one, and programs that act on
the shared state in sections only appear to do each section in a single step.
-/

namespace Outline

variable {Core State Status Result : Type} {machine : Machine Core State Status}
  {outline other : Outline Core State Status} {core : Core} {base : Status} {depth : Nat}
  {state : State} {thread : Thread State Result} {post : Result → State → Prop}

/-- A thread follows another outline that has these assertions. -/
theorem Follows.transfer {another : Machine Core State Status}
    (hfollows : outline.Follows machine core base depth thread post state)
    (hstable : ∀ assertion, outline.Stable machine core base depth assertion →
      other.Stable another core base depth assertion)
    (hrely : ∀ core before after, outline.rely core before after → other.rely core before after) :
    other.Follows another core base depth thread post state := by
  induction thread generalizing state with
  | ret result => exact hfollows
  | step act next ih =>
      obtain ⟨assertion, hassertion, hstate, hact⟩ := hfollows
      refine ⟨assertion, hstable assertion hassertion, hstate, fun before after hbefore htaken => ?_⟩
      obtain ⟨hothers, hnext⟩ := hact before after hbefore htaken
      exact ⟨fun another hne => hrely another _ _ (hothers another hne), ih before hnext⟩

theorem Follows.mono {weaker : Result → State → Prop}
    (hfollows : outline.Follows machine core base depth thread post state)
    (himp : ∀ result after, post result after → weaker result after) :
    outline.Follows machine core base depth thread weaker state := by
  induction thread generalizing state with
  | ret result => exact himp result state hfollows
  | step act next ih =>
      obtain ⟨assertion, hassertion, hstate, hact⟩ := hfollows
      refine ⟨assertion, hassertion, hstate, fun before after hbefore htaken => ?_⟩
      obtain ⟨hothers, hnext⟩ := hact before after hbefore htaken
      exact ⟨hothers, ih before hnext⟩

end Outline

namespace MicroTbx

open Thread

namespace MultiCore

/-- The assertions of the sections across cores, of which it matters at every
moment that a core has the lock inside, and is not interrupted. -/
def locking (Core : Type) [DecidableEq Core] (lock : Nat) :
    Outline Core (Cores Core) (BitVec 32) where
  rely := Unaffected lock
  settled := Settled lock
  always core _ depth state := 0 < depth → state.hardware.holder lock = some core ∧
    cortexM.enabled (state.hardware.status core) = false

variable {sdk : Sdk} {lock : Nat} {core : Fin sdk.numCores} {base : BitVec 32} {depth count : Nat}
  {state : Cores (Fin sdk.numCores)}

/-- Outside of sections nothing more is asked for. -/
theorem locking_stable_zero {assertion : Cores (Fin sdk.numCores) → Prop}
    (hstable : (outline (Fin sdk.numCores) lock).Stable sdk.machine core base 0 assertion) :
    (locking (Fin sdk.numCores) lock).Stable sdk.machine core base 0 assertion where
  always := fun _ _ hpos => absurd hpos (Nat.lt_irrefl 0)
  relied := hstable.relied
  settled := hstable.settled
  resumed := hstable.resumed

theorem locking_stable_of_taken {assertion : Cores (Fin sdk.numCores) → Prop}
    (hstable : (outline (Fin sdk.numCores) lock).Stable sdk.machine core base depth assertion)
    (hassertion : ∀ state, assertion state → ∃ count, Taken lock core base true count state) :
    (locking (Fin sdk.numCores) lock).Stable sdk.machine core base depth assertion where
  always state hstate _ := by
    obtain ⟨count, htaken⟩ := hassertion state hstate
    exact ⟨htaken.holder, htaken.disabled⟩
  relied := hstable.relied
  settled := hstable.settled
  resumed := hstable.resumed

theorem locking_stable_settled : (locking (Fin sdk.numCores) lock).Stable sdk.machine core base depth
    (Settled lock core base depth) := by
  cases depth with
  | zero => exact locking_stable_zero stable_outside
  | succ depth => exact locking_stable_of_taken stable_taken fun _ hstate => ⟨_, hstate⟩

theorem locking_holding : Holding sdk.port sdk.machine (locking (Fin sdk.numCores) lock) core base
    (Taken lock core base true) where
  refl := outline_refl
  stable _ count := locking_stable_of_taken stable_taken fun _ hstate => ⟨count, hstate⟩
  stable_saved depth count :=
    locking_stable_of_taken (holding.stable_saved depth count) fun _ hstate => ⟨count, hstate.1⟩
  counter := holding.counter
  saved := holding.saved
  save := holding.save
  nest := holding.nest
  unnest := holding.unnest

/-- A nested entry finds the lock taken, and has nothing to wait for. -/
theorem locking_disable (hstate : Taken lock core base true (depth + 1) state) :
    (locking (Fin sdk.numCores) lock).Follows sdk.machine core base (depth + 1)
      (sdk.port.tbxPortInterruptsDisable core)
      (fun _ => Taken lock core base true (depth + 1)) state := by
  have hstable : (locking (Fin sdk.numCores) lock).Stable sdk.machine core base (depth + 1)
      (Taken lock core base true (depth + 1)) := locking_stable_settled
  have hrefl : ∀ other state, (locking (Fin sdk.numCores) lock).rely other state state := outline_refl
  apply Outline.follows_get_bind hrefl hstable hstate fun state hstate =>
    hstate.resource.initialized
  intro after hafter
  apply Outline.follows_bind fun _ => Taken lock core base true (depth + 1)
  · exact Outline.follows_ret hafter
  intro _ after hafter
  apply Outline.follows_get_bind hrefl hstable hafter fun state hstate =>
    hstate.resource.spinLock
  intro after hafter
  apply Outline.follows_get_bind hrefl hstable hafter fun state hstate => hstate.flag
  intro after hafter
  exact Outline.follows_ret hafter

theorem locking_enter (hnestable : nestsBelowOverflow depth = true)
    (hstate : Settled lock core base depth state) :
    (locking (Fin sdk.numCores) lock).Follows sdk.machine core base depth
      (tbxCriticalSectionEnter sdk.port core) (fun _ => Settled lock core base (depth + 1)) state := by
  cases depth with
  | zero =>
      have hfollows := outline_sound.enter core base 0 state hnestable hstate
      exact hfollows.transfer (fun _ => locking_stable_zero) fun _ _ _ => id
  | succ depth =>
      apply locking_holding.enter (of_decide_eq_true hnestable)
      apply (locking_disable hstate).mono
      exact fun _ after hafter => ⟨hafter, fun hzero => absurd hzero (Nat.succ_ne_zero depth)⟩

theorem locking_exit (hstate : Settled lock core base (depth + 1) state) :
    (locking (Fin sdk.numCores) lock).Follows sdk.machine core base depth
      (tbxCriticalSectionExit sdk.port core) (fun _ => Settled lock core base depth) state := by
  cases depth with
  | zero =>
      have hfollows := outline_sound.exit core base 0 state hstate
      exact hfollows.transfer (fun _ => locking_stable_zero) fun _ _ _ => id
  | succ depth =>
      apply locking_holding.exit hstate
      · exact fun hzero => absurd hzero (Nat.succ_ne_zero depth)
      · exact fun _ after hafter => hafter

/-- Only the core that has the lock is inside of a section. -/
theorem machine_excludes : sdk.machine.ExcludesCores (locking (Fin sdk.numCores) lock)
    fun state => state.hardware.holder lock where
  sound :=
    { always_of_succ := fun _ _ _ _ halways hpos => halways (Nat.lt_succ_of_lt hpos)
      stable := fun _ _ _ => locking_stable_settled
      status := fun _ _ _ hstate => hstate.status
      enter := fun _ _ _ _ hnestable hstate => locking_enter hnestable hstate
      exit := fun _ _ _ _ hstate => locking_exit hstate
      handler := outline_sound.handler
      handlerEntry := outline_sound.handlerEntry
      handlerReturn := outline_sound.handlerReturn }
  disabled := fun _ _ depth _ halways => (halways (Nat.succ_pos depth)).2
  owner := fun _ _ depth _ halways => (halways (Nat.succ_pos depth)).1

end MultiCore

/-- Where the spin lock is set up, every core is outside of all sections. -/
theorem SpinLockReady.settled {sdk : Sdk} {lock : Nat} {guard : Cores (Fin sdk.numCores)}
    (hguard : SpinLockReady lock guard) (core : Fin sdk.numCores) :
    ∃ base, (MultiCore.locking (Fin sdk.numCores) lock).settled core base 0 guard :=
  ⟨_, ⟨⟨hguard.spinLock, fun _ => hguard.counter⟩, hguard.flags core, by simp [hguard.free],
    by simp [hguard.log, nestingOf], by simp [hguard.log]⟩, rfl, by simp [hguard.log, sectionOpen]⟩

end MicroTbx

import MicroTbx.CritSect.MultiCore

/-! # The code that sets up the spin lock

An entry on the port for several cores tests whether the spin lock is
initialized, sets it up if not, and takes it. The positions in this code are
named here, with the step that is made at each. Code that changes the hardware
is told apart from code that does not, and once the handle is set nothing sets
up the spin lock again.
-/

namespace MicroTbx

open Thread

variable (sdk : Sdk)

/-! ## Positions in a call -/

/-- What is left of an entry, from what is left of its initialization. -/
def initializing (core : Fin sdk.numCores) (left : Thread (Cores (Fin sdk.numCores)) Unit) :
    Thread (Cores (Fin sdk.numCores)) Unit :=
  (left >>= fun _ => takeSpinLock sdk core) >>= enterDisabled core

/-- The flag was found with this value. -/
def flagFound (core : Fin sdk.numCores) (spinLockInitialized : Bool) :
    Thread (Cores (Fin sdk.numCores)) Unit :=
  initializing sdk core
    (if spinLockInitialized = false then initializeSpinLock sdk core else pure ())

/-- The handle was stored. -/
def verifySpinLock (core : Fin sdk.numCores) : Thread (Cores (Fin sdk.numCores)) Unit := do
  let spinLock ← get (·.hardware.statics.spinLock)
  if spinLock = none then modify (·.emit (.assertion core)) else pure ()

/-- The handle of a claimed lock is about to be stored. -/
def storeSpinLock (core : Fin sdk.numCores) (lockNum : Nat) :
    Thread (Cores (Fin sdk.numCores)) Unit := do
  modify (·.setStatics (.setSpinLock (sdk.instanceOf lockNum)))
  verifySpinLock sdk core

/-- All flags are reset. -/
def claimSpinLock (core : Fin sdk.numCores) : Thread (Cores (Fin sdk.numCores)) Unit := do
  let claimResult ← atomic
    (fun state => some (match sdk.claimUnused state.hardware.claimed with
      | some lockNum => state.setClaimed (lockNum :: state.hardware.claimed)
      | none => state))
    fun state => sdk.claimUnused state.hardware.claimed
  match claimResult with
  | none => modify (·.emit (.assertion core))
  | some lockNum => storeSpinLock sdk core lockNum

/-- The flags of these cores are still to be reset. -/
def resetAndClaim (core : Fin sdk.numCores) (left : List (Fin sdk.numCores)) :
    Thread (Cores (Fin sdk.numCores)) Unit := do
  resetFlags sdk left
  claimSpinLock sdk core

/-- The handle is about to be tested. -/
def entering (core : Fin sdk.numCores) : Thread (Cores (Fin sdk.numCores)) Unit :=
  initializing sdk core (pure ())

theorem enter_eq (core : Fin sdk.numCores) : tbxCriticalSectionEnter sdk.port core =
    .step some fun state => flagFound sdk core state.hardware.statics.spinLockInitialized := rfl

/-- Without a handle no lock is taken. -/
theorem entering_eq (core : Fin sdk.numCores) : ∃ rest, entering sdk core = .step some rest ∧
    ∀ state, state.hardware.statics.spinLock = none → rest state = enterDisabled core 0 := by
  refine ⟨_, rfl, fun state hunset => ?_⟩
  dsimp only
  rw [hunset]
  rfl

/-- What `spin_lock_claim_unused` does to the locks. -/
def claimed (state : Cores (Fin sdk.numCores)) : Cores (Fin sdk.numCores) :=
  match sdk.claimUnused state.hardware.claimed with
  | some lockNum => state.setClaimed (lockNum :: state.hardware.claimed)
  | none => state

/-! The steps of the initialization in their order. -/

theorem flagFound_eq (core : Fin sdk.numCores) : flagFound sdk core false = .step
    (fun state => some (state.setStatics state.hardware.statics.setInitialized))
    fun _ => initializing sdk core (resetAndClaim sdk core (List.finRange sdk.numCores)) := rfl

theorem resetAndClaim_cons_eq (core coreIdx : Fin sdk.numCores) (left : List (Fin sdk.numCores)) :
    initializing sdk core (resetAndClaim sdk core (coreIdx :: left)) = .step
      (fun state => some (state.setCoreHasLock coreIdx false))
      fun _ => initializing sdk core (resetAndClaim sdk core left) := rfl

theorem resetAndClaim_nil_eq (core : Fin sdk.numCores) :
    initializing sdk core (resetAndClaim sdk core []) = .step
      (fun state => some (claimed sdk state))
      fun state => initializing sdk core (match sdk.claimUnused state.hardware.claimed with
        | none => modify (·.emit (.assertion core))
        | some lockNum => storeSpinLock sdk core lockNum) := rfl

theorem storeSpinLock_eq (core : Fin sdk.numCores) (lockNum : Nat) :
    initializing sdk core (storeSpinLock sdk core lockNum) = .step
      (fun state => some (state.setStatics (.setSpinLock (sdk.instanceOf lockNum))))
      fun _ => initializing sdk core (verifySpinLock sdk core) := rfl

/-! ## Code that acts on the hardware -/

section Hardware

variable {sdk} {core : Fin sdk.numCores} {lockNum lock : Nat}

/-- Some step of the thread, in some state, changes the hardware. -/
def ActsOnHardware (thread : Thread (Cores (Fin sdk.numCores)) Unit) : Prop :=
  ¬ thread.Keeps (fun _ => True) fun before after => after.hardware = before.hardware

/-- A state of the hardware to try code in. -/
def probe (statics : SpinLockStatics) (hasLock : Bool) (claimed : List Nat) :
    Cores (Fin sdk.numCores) :=
  .initial ⟨fun _ => 0, statics, fun _ => hasLock, claimed, fun _ => none⟩ 0

theorem acts_of_act {act : Cores (Fin sdk.numCores) → Cores (Fin sdk.numCores)} {rest}
    (before : Cores (Fin sdk.numCores)) (hne : (act before).hardware ≠ before.hardware) :
    ActsOnHardware (.step (fun state => some (act state)) rest) :=
  fun hkeeps => hne (hkeeps.1 before _ trivial rfl).2

theorem acts_of_rest {act : Cores (Fin sdk.numCores) → Option (Cores (Fin sdk.numCores))} {rest}
    (before : Cores (Fin sdk.numCores)) (hrest : ActsOnHardware (rest before)) :
    ActsOnHardware (.step act rest) :=
  fun hkeeps => hrest (hkeeps.2 before trivial)

/-- The variables of the module are no hardware. -/
theorem keeps_enterDisabled {inv : Cores (Fin sdk.numCores) → Prop}
    {guarantee : Cores (Fin sdk.numCores) → Cores (Fin sdk.numCores) → Prop}
    (hvariables : ∀ before after, inv before → after.hardware = before.hardware →
      inv after ∧ guarantee before after) {cpuSR : BitVec 32} :
    (enterDisabled core cpuSR).Keeps inv guarantee := by
  have hmodify : ∀ {act : Cores (Fin sdk.numCores) → Cores (Fin sdk.numCores)},
      (∀ state, (act state).hardware = state.hardware) → (modify act).Keeps inv guarantee :=
    fun hsame => keeps_modify fun before hbefore => hvariables before _ hbefore (hsame before)
  have hread : ∀ {Value Next : Type} {observe : Cores (Fin sdk.numCores) → Value}
      {rest : Value → Thread (Cores (Fin sdk.numCores)) Next},
      (∀ value, (rest value).Keeps inv guarantee) →
        (get observe >>= rest).Keeps inv guarantee := by
    intro Value Next observe rest hrest
    refine ⟨fun before after hbefore htaken => ?_, fun state _ => hrest (observe state)⟩
    cases htaken
    exact hvariables before before hbefore rfl
  apply hread
  intro count
  apply keeps_bind
  · split
    · exact hmodify fun _ => rfl
    · exact keeps_ret ()
  · exact fun _ => hread fun _ => hmodify fun _ => rfl

theorem not_acts_enterDisabled {cpuSR : BitVec 32} :
    ¬ @ActsOnHardware sdk (enterDisabled core cpuSR) :=
  fun hacts => hacts (keeps_enterDisabled fun _ _ _ hsame => ⟨trivial, hsame⟩)

theorem acts_flagFound : ActsOnHardware (flagFound sdk core false) := by
  rw [flagFound_eq]
  apply acts_of_act (probe ⟨false, none, nofun⟩ false [])
  intro heq
  cases congrArg (·.statics.spinLockInitialized) heq

theorem acts_enter : ActsOnHardware (tbxCriticalSectionEnter sdk.port core) :=
  acts_of_rest (probe ⟨false, none, nofun⟩ false []) acts_flagFound

theorem acts_entering : ActsOnHardware (entering sdk core) := by
  -- The lock is free and the core has not taken it.
  let free : Cores (Fin sdk.numCores) := probe ⟨true, some 0, fun _ => rfl⟩ false []
  apply acts_of_rest free
  apply acts_of_rest free
  apply acts_of_rest free
  apply acts_of_rest free
  change ActsOnHardware (.step (fun state => some (((state.request core 0).setStatus core
    (cortexM.disable (state.hardware.status core))).emit (.disabled core))) _)
  apply acts_of_act free
  intro heq
  have hstatus := congrFun (congrArg Rp2040.status heq) core
  simp [free, probe, CritSect.request, cortexM, CritSect.initial] at hstatus

theorem acts_resetAndClaim {claimedBefore : List Nat}
    (hclaim : sdk.claimUnused claimedBefore = some lockNum) (left : List (Fin sdk.numCores)) :
    ActsOnHardware (initializing sdk core (resetAndClaim sdk core left)) := by
  cases left with
  | nil =>
      rw [resetAndClaim_nil_eq]
      apply acts_of_act (probe ⟨true, none, nofun⟩ false claimedBefore)
      intro heq
      have hclaimed := congrArg Rp2040.claimed heq
      simp [claimed, probe, CritSect.initial, hclaim] at hclaimed
  | cons coreIdx left =>
      rw [resetAndClaim_cons_eq]
      apply acts_of_act (probe ⟨true, none, nofun⟩ true [])
      intro heq
      have hflag := congrFun (congrArg Rp2040.coreHasLock heq) coreIdx
      simp [probe, CritSect.initial] at hflag

theorem acts_storeSpinLock (hinstance : sdk.instanceOf lockNum = some lock) :
    ActsOnHardware (initializing sdk core (storeSpinLock sdk core lockNum)) := by
  rw [storeSpinLock_eq]
  apply acts_of_act (probe ⟨true, none, nofun⟩ false [])
  intro heq
  have hspinLock := congrArg (·.statics.spinLock) heq
  simp [probe, CritSect.initial, hinstance, SpinLockStatics.setSpinLock] at hspinLock

end Hardware

/-! ## Once the handle is set -/

/-- The handle is set, and these locks are claimed. -/
structure Handed (lock : Nat) (claimed : List Nat) (state : Cores (Fin sdk.numCores)) : Prop where
  spinLock : state.hardware.statics.spinLock = some lock
  claimed : state.hardware.claimed = claimed

/-- An entry does not reset the flag of any core. -/
def keepsFlags : Crossing → Cores (Fin sdk.numCores) → Cores (Fin sdk.numCores) → Prop
  | .enter, before, after => ∀ core, before.hardware.coreHasLock core = true →
      after.hardware.coreHasLock core = true
  | .exit, _, _ => True

section Handed

variable {sdk} {core : Fin sdk.numCores} {lock : Nat} {claimed : List Nat} {crossing : Crossing}

theorem keepsFlags_of_eq {before after : Cores (Fin sdk.numCores)}
    (hflags : after.hardware.coreHasLock = before.hardware.coreHasLock) :
    keepsFlags sdk crossing before after := by
  cases crossing with
  | enter => exact fun core hset => hflags ▸ hset
  | exit => trivial

theorem Handed.of_hardware {before after : Cores (Fin sdk.numCores)}
    (hbefore : Handed sdk lock claimed before) (hsame : after.hardware = before.hardware) :
    Handed sdk lock claimed after ∧ keepsFlags sdk crossing before after :=
  ⟨⟨hsame ▸ hbefore.spinLock, hsame ▸ hbefore.claimed⟩, keepsFlags_of_eq (by rw [hsame])⟩

theorem keeps_spinLockBlocking : (spinLockBlocking sdk core lock).Keeps
    (Handed sdk lock claimed) (keepsFlags sdk crossing) := by
  apply keeps_get_bind (fun _ => keepsFlags_of_eq rfl)
  intro _ _
  apply keeps_bind
  · apply keeps_modify
    intro before hbefore
    have hrequest : (before.request core lock).hardware = before.hardware := by
      unfold CritSect.request
      split <;> rfl
    refine ⟨⟨?_, ?_⟩, keepsFlags_of_eq ?_⟩
    · simpa [hrequest] using hbefore.spinLock
    · simpa [hrequest] using hbefore.claimed
    · have hflags := congrArg Rp2040.coreHasLock hrequest
      exact hflags
  intro _
  apply keeps_bind
  · apply keeps_atomic
    intro before after hbefore htaken
    split at htaken
    · cases htaken
      exact ⟨⟨hbefore.spinLock, hbefore.claimed⟩, keepsFlags_of_eq rfl⟩
    · cases htaken
  · exact fun _ => keeps_ret _

theorem keeps_takeSpinLock : (takeSpinLock sdk core).Keeps
    (Handed sdk lock claimed) (keepsFlags sdk .enter) := by
  have hrefl : ∀ state, keepsFlags sdk .enter state state := fun _ => keepsFlags_of_eq rfl
  apply keeps_get_bind hrefl
  intro state hstate
  rw [hstate.spinLock]
  apply keeps_get_bind hrefl
  intro _ _
  split
  · apply keeps_get_bind hrefl
    intro state hstate
    rw [hstate.spinLock]
    apply keeps_bind keeps_spinLockBlocking
    intro result
    apply keeps_bind
    · apply keeps_modify
      intro before hbefore
      refine ⟨⟨hbefore.spinLock, hbefore.claimed⟩, fun other hset => ?_⟩
      by_cases heq : other = core
      · simp [heq]
      · simpa [Function.update_of_ne heq] using hset
    · exact fun _ => keeps_ret result
  · exact keeps_ret 0

theorem keeps_initializing {left : Thread (Cores (Fin sdk.numCores)) Unit}
    (hleft : left.Keeps (Handed sdk lock claimed) (keepsFlags sdk .enter)) :
    (initializing sdk core left).Keeps (Handed sdk lock claimed) (keepsFlags sdk .enter) := by
  apply keeps_bind (keeps_bind hleft fun _ => keeps_takeSpinLock)
  exact fun _ => keeps_enterDisabled fun _ _ hbefore hsame => hbefore.of_hardware hsame

theorem keeps_verifySpinLock : (verifySpinLock sdk core).Keeps
    (Handed sdk lock claimed) (keepsFlags sdk .enter) := by
  apply keeps_get_bind (fun _ => keepsFlags_of_eq rfl)
  intro state hstate
  rw [hstate.spinLock]
  exact keeps_ret ()

theorem keeps_restore {cpuSR : BitVec 32} : (sdk.port.tbxPortInterruptsRestore core cpuSR).Keeps
    (Handed sdk lock claimed) (keepsFlags sdk .exit) := by
  apply keeps_get_bind (fun _ => trivial)
  intro state hstate
  rw [hstate.spinLock]
  apply keeps_bind
  · exact keeps_modify fun before hbefore => ⟨⟨hbefore.spinLock, hbefore.claimed⟩, trivial⟩
  intro _
  apply keeps_get_bind (fun _ => trivial)
  intro state hstate
  rw [hstate.spinLock]
  apply keeps_bind
  · exact keeps_modify fun before hbefore => ⟨⟨hbefore.spinLock, hbefore.claimed⟩, trivial⟩
  · exact fun _ => keeps_modify fun before hbefore =>
      ⟨⟨hbefore.spinLock, hbefore.claimed⟩, trivial⟩

/-- Once the handle is set, no procedure claims a lock again. -/
theorem keeps_procedure (core : Fin sdk.numCores) (crossing : Crossing) :
    (sdk.machine.procedure core crossing).Keeps (Handed sdk lock claimed)
      (keepsFlags sdk crossing) := by
  cases crossing with
  | enter =>
      change (tbxCriticalSectionEnter sdk.port core).Keeps _ _
      rw [enter_eq]
      refine ⟨fun before after hbefore htaken => ?_, fun state hstate => ?_⟩
      · cases htaken
        exact ⟨hbefore, keepsFlags_of_eq rfl⟩
      · have hinitialized := state.hardware.statics.initialized (by simp [hstate.spinLock])
        dsimp only
        rw [hinitialized]
        exact keeps_initializing (keeps_ret ())
  | exit =>
      have hrefl : ∀ state, keepsFlags sdk .exit state state := fun _ => trivial
      apply keeps_get_bind hrefl
      intro _ _
      apply keeps_bind
      · split
        · exact keeps_ret ()
        · exact keeps_modify fun before hbefore => hbefore.of_hardware rfl
      intro _
      apply keeps_get_bind hrefl
      intro _ _
      split
      · apply keeps_get_bind hrefl
        intro _ _
        apply keeps_bind
        · exact keeps_modify fun before hbefore => hbefore.of_hardware rfl
        intro _
        apply keeps_get_bind hrefl
        intro _ _
        split
        · exact keeps_get_bind hrefl fun _ _ => keeps_restore
        · exact keeps_ret ()
      · exact keeps_ret ()

end Handed

end MicroTbx

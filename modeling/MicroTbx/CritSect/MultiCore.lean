import MicroTbx.CritSect.Holding

/-! # Critical sections across cores

The port for several cores takes a hardware spin lock on top of disabling the
interrupts of its own core. Whether a core has the lock is kept in a flag per
core, which is set after taking the lock and reset before releasing it.
-/

namespace MicroTbx

open Thread

/-- What the port uses of the development kit of the chip. -/
structure Sdk where
  /-- `NUM_CORES`. -/
  numCores : Nat
  /-- `spin_lock_claim_unused`, from the lock numbers that are already claimed. -/
  claimUnused : List Nat → Option Nat
  /-- `spin_lock_instance`. No handle is `NULL`. -/
  instanceOf : Nat → Option Nat

/-- The two statics around the spin lock handle, which is set only behind the
flag. -/
structure SpinLockStatics where
  spinLockInitialized : Bool
  spinLock : Option Nat
  initialized : spinLock ≠ none → spinLockInitialized = true

namespace SpinLockStatics

def setInitialized (statics : SpinLockStatics) : SpinLockStatics :=
  ⟨true, statics.spinLock, fun _ => rfl⟩

/-- The flag is set before the handle is. -/
def setSpinLock (spinLock : Option Nat) : SpinLockStatics :=
  ⟨true, spinLock, fun _ => rfl⟩

end SpinLockStatics

/-- The statics of the port, the status register of every core, and the spin
locks with the core that holds each of them. -/
structure Rp2040 (Core : Type) where
  status : Core → BitVec 32
  statics : SpinLockStatics
  coreHasLock : Core → Bool
  claimed : List Nat
  holder : Nat → Option Core

/-- The state that the cores share. -/
abbrev Cores (Core : Type) := CritSect Core (Rp2040 Core) (BitVec 32)

namespace CritSect

variable {Core : Type} [DecidableEq Core]

@[simps!]
def setStatus (state : Cores Core) (core : Core) (status : BitVec 32) : Cores Core :=
  state.setHardware { state.hardware with
    status := Function.update state.hardware.status core status }

@[simps!]
def setStatics (state : Cores Core) (statics : SpinLockStatics) : Cores Core :=
  state.setHardware { state.hardware with statics := statics }

@[simps!]
def setCoreHasLock (state : Cores Core) (core : Core) (hasLock : Bool) : Cores Core :=
  state.setHardware { state.hardware with
    coreHasLock := Function.update state.hardware.coreHasLock core hasLock }

@[simps!]
def setClaimed (state : Cores Core) (claimed : List Nat) : Cores Core :=
  state.setHardware { state.hardware with claimed := claimed }

@[simps!]
def setHolder (state : Cores Core) (spinLock : Nat) (holder : Option Core) : Cores Core :=
  state.setHardware { state.hardware with
    holder := Function.update state.hardware.holder spinLock holder }

/-- A core asks for a spin lock. -/
def request (state : Cores Core) (core : Core) (spinLock : Nat) : Cores Core :=
  if state.hardware.holder spinLock = some core then state.emit (.relocked core) else state

end CritSect

/-! ## The port -/

variable (sdk : Sdk)

/-- The loop that initializes the flags. -/
def resetFlags : List (Fin sdk.numCores) → Thread (Cores (Fin sdk.numCores)) Unit
  | [] => pure ()
  | coreIdx :: rest => do
      modify (·.setCoreHasLock coreIdx false)
      resetFlags rest

/-- Initialize the spin lock handle. -/
def initializeSpinLock (core : Fin sdk.numCores) : Thread (Cores (Fin sdk.numCores)) Unit := do
  modify fun state => state.setStatics state.hardware.statics.setInitialized
  resetFlags sdk (List.finRange sdk.numCores)
  let claimResult ← atomic
    (fun state => some (match sdk.claimUnused state.hardware.claimed with
      | some lockNum => state.setClaimed (lockNum :: state.hardware.claimed)
      | none => state))
    fun state => sdk.claimUnused state.hardware.claimed
  match claimResult with
  | none => modify (·.emit (.assertion core))
  | some lockNum => do
      modify (·.setStatics (.setSpinLock (sdk.instanceOf lockNum)))
      let spinLock ← get (·.hardware.statics.spinLock)
      if spinLock = none then modify (·.emit (.assertion core)) else pure ()

/-- Save and disable the interrupts of the core, then wait for the lock. -/
def spinLockBlocking (core : Fin sdk.numCores) (spinLock : Nat) :
    Thread (Cores (Fin sdk.numCores)) (BitVec 32) := do
  let saved ← get (·.hardware.status core)
  modify fun state => ((state.request core spinLock).setStatus core
    (cortexM.disable (state.hardware.status core))).emit (.disabled core)
  atomic (fun state => if state.hardware.holder spinLock = none then
      some (state.setHolder spinLock (some core)) else none) fun _ => ()
  pure saved

/-- Release the lock, then restore the interrupts of the core. -/
def spinUnlock (core : Fin sdk.numCores) (spinLock : Nat) (saved : BitVec 32) :
    Thread (Cores (Fin sdk.numCores)) Unit := do
  modify (·.setHolder spinLock none)
  modify fun state => (state.setStatus core saved).emit (.restored core)

/-- What `TbxPortInterruptsDisable` does behind the initialization. -/
def takeSpinLock (core : Fin sdk.numCores) : Thread (Cores (Fin sdk.numCores)) (BitVec 32) := do
  let spinLock ← get (·.hardware.statics.spinLock)
  match spinLock with
  | none => pure 0
  | some _ => do
      let hasLock ← get (·.hardware.coreHasLock core)
      if hasLock = false then do
        let spinLock ← get (·.hardware.statics.spinLock)
        match spinLock with
        | none => pure 0
        | some spinLock => do
            let result ← spinLockBlocking sdk core spinLock
            modify (·.setCoreHasLock core true)
            pure result
      else pure 0

def Sdk.port : Port (Fin sdk.numCores) (Rp2040 (Fin sdk.numCores)) (BitVec 32) where
  tbxPortInterruptsDisable core := do
    let spinLockInitialized ← get (·.hardware.statics.spinLockInitialized)
    (if spinLockInitialized = false then initializeSpinLock sdk core else pure ())
    takeSpinLock sdk core
  tbxPortInterruptsRestore core prevCpuSr := do
    let spinLock ← get (·.hardware.statics.spinLock)
    match spinLock with
    | none => pure ()
    | some _ => do
        modify (·.setCoreHasLock core false)
        let spinLock ← get (·.hardware.statics.spinLock)
        match spinLock with
        | none => pure ()
        | some spinLock => spinUnlock sdk core spinLock prevCpuSr

def Sdk.machine : Machine (Fin sdk.numCores) (Cores (Fin sdk.numCores)) (BitVec 32) where
  procedure core
    | .enter => tbxCriticalSectionEnter sdk.port core
    | .exit => tbxCriticalSectionExit sdk.port core
  status core state := state.hardware.status core
  interruptible core state := cortexM.enabled (state.hardware.status core)
  handlerEntry core state :=
    state.setStatus core (cortexM.handlerEntry (state.hardware.status core))
  handlerReturn core state :=
    state.setStatus core (cortexM.handlerReturn (state.hardware.status core))
  nestable := nestsBelowOverflow

namespace MultiCore

/-! ## What a core relies on -/

/-- The lock exists, and while nobody holds it no section is entered. -/
structure Resource {Core : Type} (lock : Nat) (state : Cores Core) : Prop where
  spinLock : state.hardware.statics.spinLock = some lock
  unused : state.hardware.holder lock = none → state.tbxCritSectNestingCounter = 0

variable {Core : Type} [DecidableEq Core] {lock : Nat} {core other : Core}
  {state before after : Cores Core}

/-- Seen from a core, nothing changes but what another core may do. -/
structure Unaffected (lock : Nat) (core : Core) (before after : Cores Core) : Prop where
  resource : Resource lock before → Resource lock after
  status : after.hardware.status core = before.hardware.status core
  coreHasLock : after.hardware.coreHasLock core = before.hardware.coreHasLock core
  holder : after.hardware.holder lock = some core ↔ before.hardware.holder lock = some core
  counter : before.hardware.holder lock = some core →
    after.tbxCritSectNestingCounter = before.tbxCritSectNestingCounter
  saved : before.hardware.holder lock = some core →
    after.tbxCritSectCpuSR = before.tbxCritSectCpuSR
  sectionOpen : sectionOpen core after.log = sectionOpen core before.log
  nesting : nestingOf core after.log = nestingOf core before.log
  relocked : .relocked core ∈ after.log → .relocked core ∈ before.log

namespace Unaffected

theorem refl (lock : Nat) (core : Core) (state : Cores Core) : Unaffected lock core state state :=
  ⟨id, rfl, rfl, Iff.rfl, fun _ => rfl, fun _ => rfl, rfl, rfl, id⟩

theorem trans {middle : Cores Core} (hfirst : Unaffected lock core before middle)
    (hsecond : Unaffected lock core middle after) : Unaffected lock core before after where
  resource hbefore := hsecond.resource (hfirst.resource hbefore)
  status := hsecond.status.trans hfirst.status
  coreHasLock := hsecond.coreHasLock.trans hfirst.coreHasLock
  holder := hsecond.holder.trans hfirst.holder
  counter hholder := (hsecond.counter (hfirst.holder.mpr hholder)).trans (hfirst.counter hholder)
  saved hholder := (hsecond.saved (hfirst.holder.mpr hholder)).trans (hfirst.saved hholder)
  sectionOpen := hsecond.sectionOpen.trans hfirst.sectionOpen
  nesting := hsecond.nesting.trans hfirst.nesting
  relocked hmem := hfirst.relocked (hsecond.relocked hmem)

theorem emit {event : SectionEvent Core} (hne : event.core ≠ core) :
    Unaffected lock core state (state.emit event) where
  resource hbefore := ⟨hbefore.spinLock, hbefore.unused⟩
  status := rfl
  coreHasLock := rfl
  holder := Iff.rfl
  counter _ := rfl
  saved _ := rfl
  sectionOpen := sectionOpen_of_ne hne
  nesting := nestingOf_of_ne hne
  relocked hmem := by
    rcases List.mem_cons.mp hmem with rfl | hmem
    · exact absurd rfl hne
    · exact hmem

theorem request (hne : other ≠ core) : Unaffected lock core state (state.request other lock) := by
  unfold CritSect.request
  split
  · exact emit hne
  · exact refl lock core state

theorem setStatus (hne : core ≠ other) (status : BitVec 32) :
    Unaffected lock core state (state.setStatus other status) :=
  { refl lock core state with
    resource := fun hbefore => ⟨hbefore.spinLock, hbefore.unused⟩
    status := Function.update_of_ne hne _ _ }

theorem setCoreHasLock (hne : core ≠ other) (hasLock : Bool) :
    Unaffected lock core state (state.setCoreHasLock other hasLock) :=
  { refl lock core state with
    resource := fun hbefore => ⟨hbefore.spinLock, hbefore.unused⟩
    coreHasLock := Function.update_of_ne hne _ _ }

theorem take (hne : core ≠ other) (hfree : state.hardware.holder lock = none) :
    Unaffected lock core state (state.setHolder lock (some other)) :=
  { refl lock core state with
    resource := fun hbefore => ⟨hbefore.spinLock, by simp⟩
    holder := by simp [hfree, Ne.symm hne] }

theorem release (hne : core ≠ other) (hholder : state.hardware.holder lock = some other)
    (hcounter : state.tbxCritSectNestingCounter = 0) :
    Unaffected lock core state (state.setHolder lock none) :=
  { refl lock core state with
    resource := fun hbefore => ⟨hbefore.spinLock, fun _ => hcounter⟩
    holder := by simp [hholder, Ne.symm hne] }

theorem setCpuSR (hne : core ≠ other) (hholder : state.hardware.holder lock = some other)
    (cpuSR : BitVec 32) : Unaffected lock core state (state.setCpuSR cpuSR) :=
  { refl lock core state with
    resource := fun hbefore => ⟨hbefore.spinLock, hbefore.unused⟩
    saved := by simp [hholder, Ne.symm hne] }

theorem setNestingCounter (hne : core ≠ other) (hholder : state.hardware.holder lock = some other)
    (value : Nat) : Unaffected lock core state (state.setNestingCounter value) :=
  { refl lock core state with
    resource := fun hbefore => ⟨hbefore.spinLock, by simp [hholder]⟩
    counter := by simp [hholder, Ne.symm hne] }

end Unaffected

/-! ## The assertions -/

/-- The core has neither the lock nor its flag, and is in no section. -/
structure Free (lock : Nat) (core : Core) (state : Cores Core) : Prop where
  resource : Resource lock state
  flag : state.hardware.coreHasLock core = false
  holder : state.hardware.holder lock ≠ some core
  nesting : nestingOf core state.log = 0
  relocked : .relocked core ∉ state.log

/-- A context of the core is outside all sections. -/
structure Outside (lock : Nat) (core : Core) (base : BitVec 32) (state : Cores Core) : Prop where
  free : Free lock core state
  status : state.hardware.status core = base
  closed : sectionOpen core state.log = false

/-- Interrupts are disabled, but the lock is not held yet or no longer. -/
structure Waiting (lock : Nat) (core : Core) (state : Cores Core) : Prop where
  free : Free lock core state
  disabled : cortexM.enabled (state.hardware.status core) = false

/-- The core holds the lock. Only a counter above zero says that the status is
saved. -/
structure Taken (lock : Nat) (core : Core) (base : BitVec 32) (flag : Bool) (count : Nat)
    (state : Cores Core) : Prop where
  resource : Resource lock state
  disabled : cortexM.enabled (state.hardware.status core) = false
  flag : state.hardware.coreHasLock core = flag
  holder : state.hardware.holder lock = some core
  counter : state.tbxCritSectNestingCounter = count
  saved : 0 < count → state.tbxCritSectCpuSR = base
  nesting : nestingOf core state.log = count
  relocked : .relocked core ∉ state.log
  bound : count < 2 ^ 32

def Settled (lock : Nat) (core : Core) (base : BitVec 32) : Nat → Cores Core → Prop
  | 0 => Outside lock core base
  | depth + 1 => Taken lock core base true (depth + 1)

/-- What holds at every moment: a core that has raised the counter holds the
lock, and a section is open only while the interrupts of the core are off. -/
structure Excluded (lock : Nat) (core : Core) (state : Cores Core) : Prop where
  holder : 0 < nestingOf core state.log → state.hardware.holder lock = some core
  counter : 0 < nestingOf core state.log →
    state.tbxCritSectNestingCounter = nestingOf core state.log
  masked : sectionOpen core state.log = true →
    cortexM.enabled (state.hardware.status core) = false
  relocked : .relocked core ∉ state.log

def outline (Core : Type) [DecidableEq Core] (lock : Nat) :
    Outline Core (Cores Core) (BitVec 32) where
  rely := Unaffected lock
  settled := Settled lock
  always core _ _ := Excluded lock core

theorem outline_refl (core : Core) (state : Cores Core) :
    (outline Core lock).rely core state state := Unaffected.refl lock core state

theorem Free.relied (hfree : Free lock core before) (hrely : Unaffected lock core before after) :
    Free lock core after where
  resource := hrely.resource hfree.resource
  flag := hrely.coreHasLock.trans hfree.flag
  holder := mt hrely.holder.mp hfree.holder
  nesting := hrely.nesting.trans hfree.nesting
  relocked := mt hrely.relocked hfree.relocked

theorem Taken.relied {base : BitVec 32} {flag : Bool} {count : Nat}
    (htaken : Taken lock core base flag count before) (hrely : Unaffected lock core before after) :
    Taken lock core base flag count after where
  resource := hrely.resource htaken.resource
  disabled := by rw [hrely.status]; exact htaken.disabled
  flag := hrely.coreHasLock.trans htaken.flag
  holder := hrely.holder.mpr htaken.holder
  counter := (hrely.counter htaken.holder).trans htaken.counter
  saved hpos := (hrely.saved htaken.holder).trans (htaken.saved hpos)
  nesting := hrely.nesting.trans htaken.nesting
  relocked := mt hrely.relocked htaken.relocked
  bound := htaken.bound

theorem Taken.excluded {base : BitVec 32} {flag : Bool} {count : Nat}
    (htaken : Taken lock core base flag count state) : Excluded lock core state :=
  ⟨fun _ => htaken.holder, fun _ => htaken.counter.trans htaken.nesting.symm,
    fun _ => htaken.disabled, htaken.relocked⟩

section Outline

variable {sdk : Sdk} {core : Fin sdk.numCores} {base : BitVec 32} {flag : Bool}
  {depth count : Nat} {state : Cores (Fin sdk.numCores)}

theorem stable_outside : (outline (Fin sdk.numCores) lock).Stable sdk.machine core base depth
    (Outside lock core base) where
  always state hstate := by
    constructor
    · simp [hstate.free.nesting]
    · simp [hstate.free.nesting]
    · simp [hstate.closed]
    · exact hstate.free.relocked
  relied before after hbefore hrely :=
    ⟨hbefore.free.relied hrely, hrely.status.trans hbefore.status,
      hrely.sectionOpen.trans hbefore.closed⟩
  settled state hstate _ := hstate
  resumed before after _ _ hafter := hafter

theorem stable_of_disabled {assertion : Cores (Fin sdk.numCores) → Prop}
    (hdisabled : ∀ state, assertion state → cortexM.enabled (state.hardware.status core) = false)
    (halways : ∀ state, assertion state → Excluded lock core state)
    (hrelied : ∀ before after, assertion before → Unaffected lock core before after →
      assertion after) :
    (outline (Fin sdk.numCores) lock).Stable sdk.machine core base depth assertion where
  always := halways
  relied := hrelied
  settled state hstate henabled := by
    have hoff : sdk.machine.interruptible core state = false := hdisabled state hstate
    rw [hoff] at henabled
    cases henabled
  resumed before after hbefore henabled _ := by
    have hoff : sdk.machine.interruptible core before = false := hdisabled before hbefore
    rw [hoff] at henabled
    cases henabled

theorem stable_waiting : (outline (Fin sdk.numCores) lock).Stable sdk.machine core base depth
    (Waiting lock core) := by
  apply stable_of_disabled fun state hstate => hstate.disabled
  · intro state hstate
    exact ⟨by simp [hstate.free.nesting], by simp [hstate.free.nesting],
      fun _ => hstate.disabled, hstate.free.relocked⟩
  · intro before after hbefore hrely
    exact ⟨hbefore.free.relied hrely, by rw [hrely.status]; exact hbefore.disabled⟩

theorem stable_taken : (outline (Fin sdk.numCores) lock).Stable sdk.machine core base depth
    (Taken lock core base flag count) :=
  stable_of_disabled (fun _ hstate => hstate.disabled) (fun _ hstate => hstate.excluded)
    fun _ _ hbefore hrely => hbefore.relied hrely

theorem stable_settled : (outline (Fin sdk.numCores) lock).Stable sdk.machine core base depth
    (Settled lock core base depth) := by
  cases depth with
  | zero => exact stable_outside
  | succ depth => exact stable_taken

/-! ## The procedures -/

/-- The lock protects the variables of the module. -/
theorem holding : Holding sdk.port sdk.machine (outline (Fin sdk.numCores) lock) core base
    (Taken lock core base true) where
  refl := outline_refl
  stable _ _ := stable_taken
  stable_saved depth count := by
    apply stable_of_disabled fun state hstate => hstate.1.disabled
    · exact fun state hstate => hstate.1.excluded
    · intro before after hbefore hrely
      exact ⟨hbefore.1.relied hrely, (hrely.saved hbefore.1.holder).trans hbefore.2⟩
  counter _ _ hstate := hstate.counter
  saved _ _ hstate hpos := hstate.saved hpos
  save state hstate :=
    ⟨fun other hne => .setCpuSR hne hstate.holder base,
      { hstate with
        resource := ⟨hstate.resource.spinLock, hstate.resource.unused⟩
        saved := by simp }⟩
  nest count state hstate hbase hlt :=
    ⟨fun other hne => (Unaffected.setNestingCounter hne hstate.holder _).trans (.emit hne.symm),
      { hstate with
        resource := ⟨hstate.resource.spinLock, by simp [hstate.holder]⟩
        counter := Nat.mod_eq_of_lt hlt
        saved := fun _ => hbase
        nesting := by simp [nestingOf, hstate.nesting]
        relocked := by simp [hstate.relocked]
        bound := hlt }⟩
  unnest count state hstate :=
    ⟨fun other hne => (Unaffected.setNestingCounter hne hstate.holder _).trans (.emit hne.symm),
      { hstate with
        resource := ⟨hstate.resource.spinLock, by simp [hstate.holder]⟩
        counter := Nat.mod_eq_of_lt (Nat.lt_of_succ_lt hstate.bound)
        saved := fun _ => hstate.saved (Nat.succ_pos count)
        nesting := by simp [nestingOf, hstate.nesting]
        relocked := by simp [hstate.relocked]
        bound := Nat.lt_of_succ_lt hstate.bound }⟩

theorem Resource.initialized {Core : Type} {state : Cores Core} (hresource : Resource lock state) :
    state.hardware.statics.spinLockInitialized = true :=
  state.hardware.statics.initialized (by simp [hresource.spinLock])

theorem settled_resource (hstate : Settled lock core base depth state) : Resource lock state := by
  cases depth with
  | zero => exact hstate.free.resource
  | succ depth => exact hstate.resource

/-- From outside, the lock is taken and the status of the core returned. -/
theorem follows_spinLockBlocking (hstate : Outside lock core base state) :
    (outline (Fin sdk.numCores) lock).Follows sdk.machine core base depth
      (spinLockBlocking sdk core lock)
      (fun result after => Taken lock core base false 0 after ∧ result = base) state := by
  apply Outline.follows_get_bind outline_refl stable_outside hstate fun state hstate =>
    hstate.status
  intro after hafter
  apply Outline.follows_modify_bind (Waiting lock core) stable_outside hafter
  · intro before hbefore
    -- The core does not hold the lock it asks for.
    have hrequest : before.request core lock = before := if_neg hbefore.free.holder
    rw [hrequest]
    exact ⟨fun other hne => (Unaffected.setStatus hne _).trans (.emit hne.symm),
      { hbefore.free with
        resource := ⟨hbefore.free.resource.spinLock, hbefore.free.resource.unused⟩
        nesting := hbefore.free.nesting
        relocked := by simp [hbefore.free.relocked] },
      by simp [cortexM.enabled_disable]⟩
  intro after hafter
  apply Outline.follows_bind fun _ => Taken lock core base false 0
  · apply Outline.follows_atomic stable_waiting hafter
    intro before final hbefore htake
    split at htake
    · next hfree =>
        cases htake
        exact ⟨fun other hne => .take hne hfree,
          { resource := ⟨hbefore.free.resource.spinLock, by simp⟩
            disabled := hbefore.disabled
            flag := hbefore.free.flag
            holder := by simp
            counter := hbefore.free.resource.unused hfree
            saved := by simp
            nesting := hbefore.free.nesting
            relocked := hbefore.free.relocked
            bound := Nat.two_pow_pos 32 }⟩
    · cases htake
  · exact fun _ after hafter => Outline.follows_ret ⟨hafter, rfl⟩

theorem follows_takeSpinLock (hstate : Settled lock core base depth state) :
    (outline (Fin sdk.numCores) lock).Follows sdk.machine core base depth (takeSpinLock sdk core)
      (fun result after => Taken lock core base true depth after ∧ (depth = 0 → result = base))
      state := by
  apply Outline.follows_get_bind outline_refl stable_settled hstate fun state hstate =>
    (settled_resource hstate).spinLock
  intro after hafter
  cases depth with
  | zero =>
      apply Outline.follows_get_bind outline_refl stable_outside hafter fun state hstate =>
        hstate.free.flag
      intro after hafter
      apply Outline.follows_get_bind outline_refl stable_outside hafter fun state hstate =>
        hstate.free.resource.spinLock
      intro after hafter
      apply Outline.follows_bind _ (follows_spinLockBlocking hafter)
      rintro result after ⟨hafter, hresult⟩
      apply Outline.follows_modify_bind (Taken lock core base true 0) stable_taken hafter
      · intro before hbefore
        exact ⟨fun other hne => .setCoreHasLock hne true,
          { hbefore with
            resource := ⟨hbefore.resource.spinLock, hbefore.resource.unused⟩
            flag := by simp }⟩
      · exact fun after hafter => Outline.follows_ret ⟨hafter, fun _ => hresult⟩
  | succ depth =>
      apply Outline.follows_get_bind outline_refl stable_taken hafter fun state hstate =>
        hstate.flag
      intro after hafter
      exact Outline.follows_ret ⟨hafter, by simp⟩

theorem follows_disable (hstate : Settled lock core base depth state) :
    (outline (Fin sdk.numCores) lock).Follows sdk.machine core base depth
      (sdk.port.tbxPortInterruptsDisable core)
      (fun result after => Taken lock core base true depth after ∧ (depth = 0 → result = base))
      state := by
  apply Outline.follows_get_bind outline_refl stable_settled hstate fun state hstate =>
    (settled_resource hstate).initialized
  intro after hafter
  apply Outline.follows_bind fun _ => Settled lock core base depth
  · exact Outline.follows_ret hafter
  exact fun _ after hafter => follows_takeSpinLock hafter

theorem follows_restore (hstate : Taken lock core base true 0 state) :
    (outline (Fin sdk.numCores) lock).Follows sdk.machine core base depth
      (sdk.port.tbxPortInterruptsRestore core base) (fun _ => Outside lock core base) state := by
  apply Outline.follows_get_bind outline_refl stable_taken hstate fun state hstate =>
    hstate.resource.spinLock
  intro after hafter
  apply Outline.follows_modify_bind (Taken lock core base false 0) stable_taken hafter
  · intro before hbefore
    exact ⟨fun other hne => .setCoreHasLock hne false,
      { hbefore with
        resource := ⟨hbefore.resource.spinLock, hbefore.resource.unused⟩
        flag := by simp }⟩
  intro after hafter
  apply Outline.follows_get_bind outline_refl stable_taken hafter fun state hstate =>
    hstate.resource.spinLock
  intro after hafter
  apply Outline.follows_modify_bind (Waiting lock core) stable_taken hafter
  · intro before hbefore
    exact ⟨fun other hne => .release hne hbefore.holder hbefore.counter,
      ⟨⟨hbefore.resource.spinLock, fun _ => hbefore.counter⟩, hbefore.flag, by simp,
        hbefore.nesting, hbefore.relocked⟩, hbefore.disabled⟩
  intro after hafter
  apply Outline.follows_modify stable_waiting hafter
  intro before hbefore
  exact ⟨fun other hne => (Unaffected.setStatus hne _).trans (.emit hne.symm),
    { hbefore.free with
      resource := ⟨hbefore.free.resource.spinLock, hbefore.free.resource.unused⟩
      nesting := hbefore.free.nesting
      relocked := by simp [hbefore.free.relocked] },
    by simp, by simp [sectionOpen]⟩

/-- A handler inherits the status, and leaves it to the context below. -/
theorem handlerEntry_eq (core : Fin sdk.numCores) (state : Cores (Fin sdk.numCores)) :
    sdk.machine.handlerEntry core state = state := by
  simp [Sdk.machine, cortexM, CritSect.setStatus, CritSect.setHardware]

theorem handlerReturn_eq (core : Fin sdk.numCores) (state : Cores (Fin sdk.numCores)) :
    sdk.machine.handlerReturn core state = state := handlerEntry_eq core state

theorem outline_sound : (outline (Fin sdk.numCores) lock).Sound sdk.machine where
  always_of_succ _ _ _ _ halways := halways
  stable _ _ _ := stable_settled
  status _ _ _ hstate := hstate.status
  enter _ _ depth _ hnestable hstate := by
    exact holding.enter (of_decide_eq_true hnestable) (follows_disable hstate)
  exit _ _ depth _ hstate := by
    apply holding.exit hstate
    · rintro rfl after hafter _
      exact follows_restore hafter
    · intro hpos after hafter
      obtain ⟨lower, rfl⟩ := Nat.exists_eq_succ_of_ne_zero (Nat.pos_iff_ne_zero.mp hpos)
      exact hafter
  handler core base state hstate _ := by
    refine ⟨base, ?_, fun after hafter => ?_⟩
    · rw [handlerEntry_eq]
      exact hstate
    · rw [handlerReturn_eq]
      exact hafter
  handlerEntry _ _ _ hne := .setStatus hne _
  handlerReturn _ _ _ hne := .setStatus hne _

end Outline

end MultiCore

/-! ## The guarantee -/

/-- The states in which the spin lock exists and no section is entered. -/
structure SpinLockReady {Core : Type} (lock : Nat) (state : Cores Core) : Prop where
  spinLock : state.hardware.statics.spinLock = some lock
  free : state.hardware.holder lock = none
  flags : ∀ core, state.hardware.coreHasLock core = false
  counter : state.tbxCritSectNestingCounter = 0
  log : state.log = []

/-- What critical sections promise across cores, at every moment. -/
structure CoresExcluded (config : Config (Fin sdk.numCores) (Cores (Fin sdk.numCores)) (BitVec 32)) :
    Prop where
  /-- The counter is above zero on behalf of one core at most. -/
  exclusive : ∀ one other, 0 < nestingOf one config.shared.log →
    0 < nestingOf other config.shared.log → one = other
  counted : ∀ core, 0 < nestingOf core config.shared.log →
    config.shared.tbxCritSectNestingCounter = nestingOf core config.shared.log
  /-- No core asks for the lock that it holds. -/
  relocked : ∀ core, .relocked core ∉ config.shared.log
  /-- From the disabling to the restoring no step starts a handler on the core. -/
  undisturbed : ∀ core, sectionOpen core config.shared.log = true →
    ∀ next, sdk.machine.Step config next →
      (next.contexts core).length ≤ (config.contexts core).length
  /-- The outermost exit is about to return. -/
  restored : ∀ core context below, config.contexts core = context :: below → context.depth = 0 →
    context.current = some (.exit, .ret ()) →
      context.before = some (config.shared.hardware.status core)

/-- For every interleaving of the cores and of handlers on each of them,
critical sections exclude each other and restore. -/
theorem cores_excluded {lock : Nat} {start : Cores (Fin sdk.numCores)}
    (hstart : SpinLockReady lock start)
    {config : Config (Fin sdk.numCores) (Cores (Fin sdk.numCores)) (BitVec 32)}
    (hreachable : sdk.machine.Reachable start config) : CoresExcluded sdk config := by
  have hsound : (MultiCore.outline (Fin sdk.numCores) lock).Sound sdk.machine :=
    MultiCore.outline_sound
  have hagrees := hsound.reachable
    (fun core => ⟨_, ⟨⟨hstart.spinLock, fun _ => hstart.counter⟩, hstart.flags core,
      by simp [hstart.free], by simp [hstart.log, nestingOf], by simp [hstart.log]⟩, rfl,
      by simp [hstart.log, sectionOpen]⟩) hreachable
  have halways : ∀ core, MultiCore.Excluded lock core config.shared := by
    intro core
    obtain ⟨base, context, below, -, hholds, -⟩ := hagrees core
    exact hholds.always hsound
  constructor
  · intro one other hone hother
    have hholder := (halways one).holder hone
    rw [(halways other).holder hother] at hholder
    exact (Option.some.inj hholder).symm
  · exact fun core => (halways core).counter
  · exact fun core => (halways core).relocked
  · intro core hopen next hstep
    exact Machine.length_le_of_step ((halways core).masked hopen) hstep
  · intro core _ _ heq hdepth hcurrent
    obtain ⟨base, context, below, hcontexts, hholds, -⟩ := hagrees core
    rw [hcontexts] at heq
    cases heq
    have hbefore := hholds.1 (.inr (by rw [hcurrent]; rfl))
    have hsettled := hholds.2
    simp only [hcurrent, hdepth] at hsettled
    have houtside : MultiCore.Outside lock core base config.shared := hsettled
    rw [hbefore, houtside.status]

/-- Two cores, and the eight locks that may be claimed. -/
abbrev pico : Sdk where
  numCores := 2
  claimUnused claimed := (List.range' 24 8).find? fun lockNum => lockNum ∉ claimed
  instanceOf lockNum := some lockNum

/-- Both cores are outside all sections, with interrupts enabled. -/
def picoReady : Cores (Fin 2) :=
  .initial ⟨fun _ => 0, ⟨true, some 24, fun _ => rfl⟩, fun _ => false, [24], fun _ => none⟩ 0

/-- The second core is interrupted on its way to the lock, and later has to
wait for the first core. -/
def contestedEntry : List (Fin 2 × Machine.Move) :=
  Machine.turn 1 ([.enter] ++ List.replicate 3 .act ++ [.interrupt, .enter] ++
      List.replicate 12 .act ++ [.finish, .exit] ++ List.replicate 11 .act ++
      [.finish, .handlerReturn]) ++
    Machine.turn 0 ([.enter] ++ List.replicate 12 .act ++ [.finish]) ++
    Machine.turn 1 (List.replicate 3 .act) ++
    Machine.turn 0 ([.exit] ++ List.replicate 11 .act ++ [.finish]) ++
    Machine.turn 1 (List.replicate 6 .act ++ [.finish])

theorem cores_excluded_contested :
    ∃ config, pico.machine.schedule contestedEntry (pico.machine.start picoReady) = some config ∧
      config.shared.hardware.holder 24 = some (1 : Fin 2) ∧ CoresExcluded pico config := by
  have hready : SpinLockReady 24 picoReady := ⟨rfl, rfl, fun _ => rfl, rfl, rfl⟩
  have hholder : (pico.machine.schedule contestedEntry (pico.machine.start picoReady)).map
      (·.shared.hardware.holder 24) = some (some (1 : Fin 2)) := by
    decide +kernel
  obtain ⟨config, hschedule, hlast⟩ := Option.map_eq_some_iff.mp hholder
  exact ⟨config, hschedule, hlast,
    cores_excluded pico hready (Machine.reachable_of_schedule .refl hschedule)⟩

end MicroTbx

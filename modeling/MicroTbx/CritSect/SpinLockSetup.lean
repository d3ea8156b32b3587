import MicroTbx.CritSect.SpinLockCode
import Mathlib.Algebra.GroupWithZero.Nat

/-! # Setting up the spin lock

The first call that finds the flag unset sets it, resets the flags of the cores
and claims a spin lock; all of this happens before interrupts are disabled. A
call that tests the flag in between skips the initialization, and skips taking
the lock as long as there is no handle.
-/

namespace MicroTbx

open Thread

variable (sdk : Sdk)

/-! ## What is claimed of the set-up -/

abbrev CoresConfig := Config (Fin sdk.numCores) (Cores (Fin sdk.numCores)) (BitVec 32)

/-- The statics as they are after a reset. -/
structure AfterReset (claimed : List Nat) (state : Cores (Fin sdk.numCores)) : Prop where
  flag : state.hardware.statics.spinLockInitialized = false
  spinLock : state.hardware.statics.spinLock = none
  flags : ∀ core, state.hardware.coreHasLock core = false
  claimed : state.hardware.claimed = claimed
  free : ∀ spinLock, state.hardware.holder spinLock = none
  counter : state.tbxCritSectNestingCounter = 0
  log : state.log = []

/-- The spin lock is set up safely: no second lock is claimed, no flag is reset
once a core has asked for the lock, and when `TbxPortInterruptsDisable` has
returned its core holds the one lock that was claimed. -/
structure SetUpSafely (claimed : List Nat) (lockNum lock : Nat) (config : CoresConfig sdk) :
    Prop where
  once : config.shared.hardware.claimed = claimed ∨
    config.shared.hardware.claimed = lockNum :: claimed
  flags : ∀ core context coreIdx left, context ∈ config.contexts core →
    context.current =
      some (.enter, initializing sdk core (resetAndClaim sdk core (coreIdx :: left))) →
      ∀ other, .disabled other ∉ config.shared.log
  returned : ∀ core context below result, config.contexts core = context :: below →
    context.current = some (.enter, enterDisabled core result) →
      config.shared.hardware.claimed = lockNum :: claimed ∧
        config.shared.hardware.holder lock = some core

/-- The next step of the core tests the flag, which is unset although another
context has found it unset already, or it tests the handle, which is not set. -/
inductive Premature (config : CoresConfig sdk) (core : Fin sdk.numCores) : Prop
  | flag {context : Context (Cores (Fin sdk.numCores)) (BitVec 32)} {below} {other : Fin sdk.numCores}
      {setter : Context (Cores (Fin sdk.numCores)) (BitVec 32)}
      (running : config.contexts core = context :: below)
      (testing : context.current = some (.enter, tbxCriticalSectionEnter sdk.port core))
      (unset : config.shared.hardware.statics.spinLockInitialized = false)
      (setting : setter ∈ config.contexts other)
      (found : setter.current = some (.enter, flagFound sdk other false))
  | handle {context : Context (Cores (Fin sdk.numCores)) (BitVec 32)} {below}
      (running : config.contexts core = context :: below)
      (testing : context.current = some (.enter, entering sdk core))
      (unset : config.shared.hardware.statics.spinLock = none)

/-- A core before a premature test does not go on, though a handler may start. -/
def InTime (before after : CoresConfig sdk) : Prop :=
  ∀ core, Premature sdk before core → before.contexts core <:+ after.contexts core

/-- What the cores can get into when no test is premature. -/
def ReachedInTime (start : Cores (Fin sdk.numCores)) : CoresConfig sdk → Prop :=
  Relation.ReflTransGen (fun before after => sdk.machine.Step before after ∧ InTime sdk before after)
    (sdk.machine.start start)

/-! ## Contexts until the handle is set -/

/-- A context that has not found the flag unset. -/
inductive Fresh (base : BitVec 32) (core : Fin sdk.numCores) :
    Context (Cores (Fin sdk.numCores)) (BitVec 32) → Prop
  | idle (before : Option (BitVec 32)) : Fresh base core ⟨0, before, none⟩
  | testing : Fresh base core ⟨0, some base, some (.enter, tbxCriticalSectionEnter sdk.port core)⟩
  | entering : Fresh base core ⟨0, some base, some (.enter, entering sdk core)⟩

/-- The contexts of a core. One of them has found the flag unset if there is a
thread that it has left to do. -/
inductive Stack (base : BitVec 32) (core : Fin sdk.numCores) :
    Option (Thread (Cores (Fin sdk.numCores)) Unit) →
    List (Context (Cores (Fin sdk.numCores)) (BitVec 32)) → Prop
  | nil : Stack base core none []
  | fresh {own context below} (first : Fresh sdk base core context)
      (rest : Stack base core own below) : Stack base core own (context :: below)
  | own {thread below} (rest : Stack base core none below) :
      Stack base core (some thread) (⟨0, some base, some (.enter, thread)⟩ :: below)

/-- At most one context of all cores is supposed to have found the flag unset,
so `own` is `none` for all cores but one. -/
structure SettingUp (base : Fin sdk.numCores → BitVec 32)
    (own : Fin sdk.numCores → Option (Thread (Cores (Fin sdk.numCores)) Unit))
    (config : CoresConfig sdk) : Prop where
  running : ∀ core, config.contexts core ≠ []
  lists : ∀ core, Stack sdk (base core) core (own core) (config.contexts core)

section SettingUp

variable {sdk} {core : Fin sdk.numCores} {config next : CoresConfig sdk} {base : BitVec 32}
  {own : Option (Thread (Cores (Fin sdk.numCores)) Unit)}
  {contexts : List (Context (Cores (Fin sdk.numCores)) (BitVec 32))}
  {bases : Fin sdk.numCores → BitVec 32}
  {owns : Fin sdk.numCores → Option (Thread (Cores (Fin sdk.numCores)) Unit)}

theorem Stack.own_mem {thread : Thread (Cores (Fin sdk.numCores)) Unit}
    (hstack : Stack sdk base core (some thread) contexts) :
    ∃ context ∈ contexts, context.current = some (.enter, thread) := by
  generalize hown : some thread = own at hstack
  induction hstack with
  | nil => cases hown
  | fresh first rest ih =>
      obtain ⟨context, hmem, hcurrent⟩ := ih hown
      exact ⟨context, List.mem_cons_of_mem _ hmem, hcurrent⟩
  | own rest =>
      cases hown
      exact ⟨_, List.mem_cons_self, rfl⟩

/-- No call has returned from `TbxPortInterruptsDisable`. -/
theorem Stack.not_returned {context below} {cpuSR : BitVec 32}
    (hstack : Stack sdk base core own (context :: below))
    (hacts : ∀ thread, own = some thread → ActsOnHardware thread) :
    context.current ≠ some (.enter, enterDisabled core cpuSR) := by
  intro hcurrent
  apply @not_acts_enterDisabled sdk core cpuSR
  cases hstack with
  | fresh first rest =>
      cases first with
      | idle before => cases hcurrent
      | testing =>
          injection hcurrent with hpair
          rw [← (Prod.mk.inj hpair).2]
          exact acts_enter
      | entering =>
          injection hcurrent with hpair
          rw [← (Prod.mk.inj hpair).2]
          exact acts_entering
  | own rest =>
      injection hcurrent with hpair
      rw [← (Prod.mk.inj hpair).2]
      exact hacts _ rfl

theorem SettingUp.replace {shared : Cores (Fin sdk.numCores)}
    (hsetting : SettingUp sdk bases owns config) (hrunning : contexts ≠ [])
    (hstack : Stack sdk (bases core) core own contexts) :
    SettingUp sdk bases (Function.update owns core own)
      ⟨shared, Function.update config.contexts core contexts⟩ where
  running := by
    intro other
    by_cases heq : other = core
    · subst heq
      simpa using hrunning
    · simpa [Function.update_of_ne heq] using hsetting.running other
  lists := by
    intro other
    by_cases heq : other = core
    · subst heq
      simpa using hstack
    · simpa [Function.update_of_ne heq] using hsetting.lists other

/-- A core that makes a move of its own is not held back. -/
theorem InTime.not_premature {context moved : Context (Cores (Fin sdk.numCores)) (BitVec 32)} {below}
    {shared : Cores (Fin sdk.numCores)}
    (hintime : InTime sdk config
      ⟨shared, Function.update config.contexts core (moved :: below)⟩)
    (hrunning : config.contexts core = context :: below) (hne : context ≠ moved) :
    ¬ Premature sdk config core := by
  intro hpremature
  have hsuffix := hintime core hpremature
  dsimp only at hsuffix
  rw [hrunning, Function.update_self] at hsuffix
  exact hne (List.cons.inj (hsuffix.eq_of_length rfl)).1

theorem enter_ne_flagFound : tbxCriticalSectionEnter sdk.port core ≠ flagFound sdk core false := by
  rw [enter_eq, flagFound_eq]
  intro heq
  injection heq with hact
  have hstate := congrFun hact (probe ⟨false, none, nofun⟩ false [])
  cases congrArg (fun state => state.map (·.hardware.statics.spinLockInitialized)) hstate

/-- What a step does until the handle is set: a context that has not found the
flag unset goes on, or finds it unset as the first one, or the one that has
found it unset makes a step. -/
theorem SettingUp.step (hsetting : SettingUp sdk bases owns config)
    (hstatus : ∀ core, config.shared.hardware.status core = bases core)
    (hunset : config.shared.hardware.statics.spinLock = none)
    (hacts : ∀ core thread, owns core = some thread → ActsOnHardware thread)
    (hstep : sdk.machine.Step config next) (hintime : InTime sdk config next) :
    (next.shared = config.shared ∧ SettingUp sdk bases owns next) ∨
    (∃ core, next.shared = config.shared ∧
      config.shared.hardware.statics.spinLockInitialized = false ∧
      (∀ other, owns other ≠ some (flagFound sdk other false)) ∧
      (owns core = none → SettingUp sdk bases
        (Function.update owns core (some (flagFound sdk core false))) next)) ∨
    ∃ core act rest after, owns core = some (.step act rest) ∧ act config.shared = some after ∧
      next.shared = after ∧
      SettingUp sdk bases (Function.update owns core (some (rest config.shared))) next := by
  have hsame : ∀ {core contexts shared}, contexts ≠ [] →
      Stack sdk (bases core) core (owns core) contexts →
      SettingUp sdk bases owns ⟨shared, Function.update config.contexts core contexts⟩ := by
    intro core contexts shared hrunning hstack
    have hreplaced : SettingUp sdk bases (Function.update owns core (owns core)) ⟨shared, _⟩ :=
      hsetting.replace hrunning hstack
    rwa [Function.update_eq_self] at hreplaced
  cases hstep with
  | @enter core context below running idle nestable =>
      have hstack := hsetting.lists core
      rw [running] at hstack
      refine .inl ⟨rfl, hsame nofun ?_⟩
      generalize owns core = own at hstack ⊢
      cases hstack with
      | fresh first rest =>
          cases first with
          | idle before =>
              refine .fresh ?_ rest
              have hnow : sdk.machine.status core config.shared = bases core := hstatus core
              simp only [Context.callEnter, hnow]
              exact .testing
          | testing => cases idle
          | entering => cases idle
      | own rest => cases idle
  | @exit core context below running idle inside =>
      have hstack := hsetting.lists core
      rw [running] at hstack
      generalize owns core = own at hstack
      cases hstack with
      | fresh first rest => cases first <;> cases inside
      | own rest => cases inside
  | @act core context below running crossing act rest executing after taken =>
      have hstack := hsetting.lists core
      rw [running] at hstack
      generalize hown : owns core = own at hstack
      cases hstack with
      | fresh first below =>
          cases first with
          | idle before => cases executing
          | testing =>
              obtain ⟨rfl, hthread⟩ := Prod.mk.inj (Option.some.inj executing)
              rw [enter_eq] at hthread
              injection hthread with hact hrest
              subst hact hrest
              cases taken
              cases hflag : config.shared.hardware.statics.spinLockInitialized with
              | true =>
                  refine .inl ⟨rfl, hsame nofun ?_⟩
                  dsimp only
                  rw [hown, hflag]
                  exact .fresh .entering below
              | false =>
                  refine .inr (.inl ⟨core, rfl, rfl, fun other hother => ?_, fun hnone => ?_⟩)
                  · have hothers := hsetting.lists other
                    rw [hother] at hothers
                    obtain ⟨setter, hmem, hcurrent⟩ := hothers.own_mem
                    apply hintime.not_premature running _ (.flag running rfl hflag hmem hcurrent)
                    intro heq
                    injection heq with _ _ hcurrent
                    apply @enter_ne_flagFound sdk core
                    rw [← hflag]
                    exact (Prod.mk.inj (Option.some.inj hcurrent)).2
                  · obtain rfl : own = none := hown.symm.trans hnone
                    exact hflag ▸ hsetting.replace nofun (.own below)
          | entering =>
              obtain ⟨rfl, hthread⟩ := Prod.mk.inj (Option.some.inj executing)
              obtain ⟨left, hentering, hskips⟩ := entering_eq sdk core
              rw [hentering] at hthread
              injection hthread with hact hrest
              subst hact hrest
              cases taken
              exfalso
              apply hintime.not_premature running _ (.handle running rfl hunset)
              intro heq
              injection heq with _ _ hcurrent
              have hleft : entering sdk core = left config.shared :=
                (Prod.mk.inj (Option.some.inj hcurrent)).2
              rw [hskips _ hunset] at hleft
              exact not_acts_enterDisabled (hleft ▸ acts_entering)
      | own below =>
          obtain ⟨rfl, rfl⟩ := Prod.mk.inj (Option.some.inj executing)
          exact .inr (.inr ⟨core, act, rest, after, hown, taken, rfl,
            hsetting.replace nofun (.own below)⟩)
  | @finish core context below running crossing executed =>
      have hstack := hsetting.lists core
      rw [running] at hstack
      generalize hown : owns core = own at hstack
      cases hstack with
      | fresh first rest => cases first <;> cases executed
      | own rest =>
          obtain ⟨rfl, rfl⟩ := Prod.mk.inj (Option.some.inj executed)
          exact absurd (keeps_ret ()) (hacts core _ hown)
  | @interrupt core context below running enabled =>
      refine .inl ⟨MultiCore.handlerEntry_eq core _, hsame nofun ?_⟩
      rw [← running]
      exact .fresh (.idle none) (hsetting.lists core)
  | @handlerReturn core handler context below running idle outside =>
      refine .inl ⟨MultiCore.handlerReturn_eq core _, hsame nofun ?_⟩
      have hstack := hsetting.lists core
      rw [running] at hstack
      generalize owns core = own at hstack ⊢
      cases hstack with
      | fresh first rest => exact rest
      | own rest => cases idle

end SettingUp

/-! ## How far the set-up has come -/

/-- Only this core has a context that has found the flag unset. -/
def only (core : Fin sdk.numCores) (thread : Thread (Cores (Fin sdk.numCores)) Unit) :
    Fin sdk.numCores → Option (Thread (Cores (Fin sdk.numCores)) Unit) :=
  Function.update (fun _ => none) core (some thread)

/-- All contexts follow the outline of a handle that is set. -/
structure HandleSet (lock : Nat) (claimed : List Nat) (config : CoresConfig sdk) : Prop where
  agrees : ∀ core, (MultiCore.outline (Fin sdk.numCores) lock).Agrees sdk.machine core
    (config.contexts core) config.shared
  keeping : Machine.Keeping (Handed sdk lock claimed) (keepsFlags sdk) config

inductive SetUpPhase (claimed : List Nat) (lockNum lock : Nat) (start : Cores (Fin sdk.numCores))
    (config : CoresConfig sdk) : Prop
  | untested (shared : config.shared = start)
      (setting : SettingUp sdk start.hardware.status (fun _ => none) config)
  | found (core : Fin sdk.numCores) (shared : config.shared = start)
      (setting : SettingUp sdk start.hardware.status (only sdk core (flagFound sdk core false)) config)
  | resetting (core : Fin sdk.numCores) (left : List (Fin sdk.numCores))
      (shared : config.shared = start.setStatics start.hardware.statics.setInitialized)
      (setting : SettingUp sdk start.hardware.status
        (only sdk core (initializing sdk core (resetAndClaim sdk core left))) config)
  | storing (core : Fin sdk.numCores)
      (shared : config.shared = (start.setStatics start.hardware.statics.setInitialized).setClaimed
        (lockNum :: claimed))
      (setting : SettingUp sdk start.hardware.status
        (only sdk core (initializing sdk core (storeSpinLock sdk core lockNum))) config)
  | handleSet (set : HandleSet sdk lock (lockNum :: claimed) config)

section Phases

variable {sdk} {claimed : List Nat} {lockNum lock : Nat} {start : Cores (Fin sdk.numCores)}
  {config next : CoresConfig sdk} {core : Fin sdk.numCores} {base : BitVec 32}
  {state : Cores (Fin sdk.numCores)}

theorem only_eq {thread found : Thread (Cores (Fin sdk.numCores)) Unit}
    {other : Fin sdk.numCores} (hown : only sdk core thread other = some found) :
    other = core ∧ found = thread := by
  unfold only at hown
  by_cases heq : other = core
  · subst heq
    rw [Function.update_self] at hown
    exact ⟨rfl, (Option.some.inj hown).symm⟩
  · rw [Function.update_of_ne heq] at hown
    cases hown

theorem only_acts {thread : Thread (Cores (Fin sdk.numCores)) Unit} (hacts : ActsOnHardware thread) :
    ∀ other found, only sdk core thread other = some found → ActsOnHardware found := by
  intro other found hown
  rw [(only_eq hown).2]
  exact hacts

theorem update_only (thread moved : Thread (Cores (Fin sdk.numCores)) Unit) :
    Function.update (only sdk core thread) core (some moved) = only sdk core moved :=
  Function.update_idem ..

/-- From outside, an entry takes the lock once its initialization is done. -/
theorem follows_initializing {left : Thread (Cores (Fin sdk.numCores)) Unit}
    (hleft : (MultiCore.outline (Fin sdk.numCores) lock).Follows sdk.machine core base 0 left
      (fun _ => MultiCore.Outside lock core base) state) :
    (MultiCore.outline (Fin sdk.numCores) lock).Follows sdk.machine core base 0
      (initializing sdk core left) (fun _ => MultiCore.Settled lock core base 1) state := by
  apply Outline.follows_bind _ (Outline.follows_bind _ hleft fun _ after hafter =>
    MultiCore.follows_takeSpinLock hafter)
  exact fun result after hafter =>
    MultiCore.holding.enterDisabled (by decide) hafter.1 hafter.2

theorem holds_of_outside {context : Context (Cores (Fin sdk.numCores)) (BitVec 32)}
    (hcontext : Fresh sdk base core context ∨
      context = ⟨0, some base, some (.enter, initializing sdk core (verifySpinLock sdk core))⟩)
    (hstate : MultiCore.Outside lock core base state) :
    (MultiCore.outline (Fin sdk.numCores) lock).Holds sdk.machine core base context state := by
  rcases hcontext with hfresh | rfl
  · cases hfresh with
    | idle before => exact ⟨by simp, hstate⟩
    | testing => exact ⟨fun _ => rfl, MultiCore.outline_sound.enter core base 0 state rfl hstate⟩
    | entering => exact ⟨fun _ => rfl, follows_initializing hstate⟩
  · refine ⟨fun _ => rfl, follows_initializing ?_⟩
    apply Outline.follows_get_bind MultiCore.outline_refl MultiCore.stable_outside hstate
      fun state hstate => hstate.free.resource.spinLock
    exact fun after hafter => hafter

theorem suspended_of_holds {contexts : List (Context (Cores (Fin sdk.numCores)) (BitVec 32))}
    (hcontexts : ∀ context ∈ contexts, ∀ state, MultiCore.Outside lock core base state →
      (MultiCore.outline (Fin sdk.numCores) lock).Holds sdk.machine core base context state) :
    (MultiCore.outline (Fin sdk.numCores) lock).Suspended sdk.machine core base contexts := by
  induction contexts with
  | nil => trivial
  | cons context below ih =>
      refine ⟨base, fun state hstate => ?_, hcontexts context List.mem_cons_self,
        ih fun other hmem => hcontexts other (List.mem_cons_of_mem _ hmem)⟩
      rw [MultiCore.handlerReturn_eq]
      exact hstate

theorem Stack.mem {own : Option (Thread (Cores (Fin sdk.numCores)) Unit)} {contexts context}
    (hstack : Stack sdk base core own contexts) (hmem : context ∈ contexts) :
    Fresh sdk base core context ∨
      ∃ thread, own = some thread ∧ context = ⟨0, some base, some (.enter, thread)⟩ := by
  induction hstack with
  | nil => cases hmem
  | fresh first rest ih =>
      rcases List.mem_cons.mp hmem with rfl | hmem
      · exact .inl first
      · exact ih hmem
  | own rest ih =>
      rcases List.mem_cons.mp hmem with rfl | hmem
      · exact .inr ⟨_, rfl, rfl⟩
      · exact (ih hmem).imp_right nofun

/-- A flag that is reset already stays as it is. -/
theorem setCoreHasLock_eq_self (hflag : state.hardware.coreHasLock core = false) :
    state.setCoreHasLock core false = state := by
  have hsame : Function.update state.hardware.coreHasLock core false =
      state.hardware.coreHasLock := by
    rw [← hflag, Function.update_eq_self]
  simp [CritSect.setCoreHasLock, CritSect.setHardware, hsame]

/-- When the handle is set, all contexts are where the outline has them. -/
theorem HandleSet.of_settingUp
    (hreset : AfterReset sdk claimed start) (hshared : config.shared =
      ((start.setStatics start.hardware.statics.setInitialized).setClaimed
        (lockNum :: claimed)).setStatics (.setSpinLock (some lock)))
    (hsetting : SettingUp sdk start.hardware.status
      (only sdk core (initializing sdk core (verifySpinLock sdk core))) config) :
    HandleSet sdk lock (lockNum :: claimed) config := by
  have hcontexts : ∀ other, ∀ context ∈ config.contexts other,
      Fresh sdk (start.hardware.status other) other context ∨
        context = ⟨0, some (start.hardware.status other),
          some (.enter, initializing sdk other (verifySpinLock sdk other))⟩ := by
    intro other context hmem
    rcases (hsetting.lists other).mem hmem with hfresh | ⟨thread, hown, rfl⟩
    · exact .inl hfresh
    · obtain ⟨rfl, rfl⟩ := only_eq hown
      exact .inr rfl
  constructor
  · intro other
    have houtside : MultiCore.Outside lock other (start.hardware.status other) config.shared := by
      rw [hshared]
      refine ⟨⟨⟨rfl, fun _ => hreset.counter⟩, hreset.flags other, ?_, ?_, ?_⟩, rfl, ?_⟩
      · simp [hreset.free]
      · simp [hreset.log, nestingOf]
      · simp [hreset.log]
      · simp [hreset.log, sectionOpen]
    obtain ⟨context, below, heq⟩ := List.exists_cons_of_ne_nil (hsetting.running other)
    rw [heq]
    refine ⟨_, context, below, rfl, holds_of_outside (hcontexts other context ?_) houtside,
      suspended_of_holds fun lower hmem state hstate =>
        holds_of_outside (hcontexts other lower ?_) hstate⟩
    · exact heq ▸ List.mem_cons_self
    · exact heq ▸ List.mem_cons_of_mem _ hmem
  · refine ⟨by rw [hshared]; exact ⟨rfl, rfl⟩, ?_⟩
    intro other context hmem crossing thread hcurrent
    rcases hcontexts other context hmem with hfresh | rfl
    · cases hfresh with
      | idle before => cases hcurrent
      | testing =>
          cases hcurrent
          exact keeps_procedure other .enter
      | entering =>
          cases hcurrent
          exact keeps_initializing (keeps_ret ())
    · cases hcurrent
      exact keeps_initializing keeps_verifySpinLock

theorem SetUpPhase.step (hreset : AfterReset sdk claimed start)
    (hclaim : sdk.claimUnused claimed = some lockNum) (hinstance : sdk.instanceOf lockNum = some lock)
    (hphase : SetUpPhase sdk claimed lockNum lock start config)
    (hstep : sdk.machine.Step config next) (hintime : InTime sdk config next) :
    SetUpPhase sdk claimed lockNum lock start next := by
  cases hphase with
  | untested hshared hsetting =>
      rcases hsetting.step (by simp [hshared]) (by rw [hshared]; exact hreset.spinLock) (by simp)
        hstep hintime with ⟨hsame, hnext⟩ | ⟨core, hsame, -, -, hnext⟩ | ⟨core, _, _, _, hown, -⟩
      · exact .untested (hsame.trans hshared) hnext
      · exact .found core (hsame.trans hshared) (hnext rfl)
      · cases hown
  | found core hshared hsetting =>
      rcases hsetting.step (by simp [hshared]) (by rw [hshared]; exact hreset.spinLock)
        (only_acts acts_flagFound)
        hstep hintime with ⟨hsame, hnext⟩ | ⟨_, -, -, hnone, -⟩ |
          ⟨other, act, rest, after, hown, htaken, hafter, hnext⟩
      · exact .found core (hsame.trans hshared) hnext
      · exact absurd (Function.update_self ..) (hnone core)
      · obtain ⟨rfl, hthread⟩ := only_eq hown
        rw [flagFound_eq] at hthread
        cases hthread
        cases htaken
        rw [update_only] at hnext
        exact .resetting other _ (hafter.trans (by rw [hshared])) hnext
  | resetting core left hshared hsetting =>
      rcases hsetting.step (by simp [hshared]) (by rw [hshared]; exact hreset.spinLock)
        (only_acts (acts_resetAndClaim hclaim left))
        hstep hintime with ⟨hsame, hnext⟩ | ⟨_, -, hunset, -⟩ |
          ⟨other, act, rest, after, hown, htaken, hafter, hnext⟩
      · exact .resetting core left (hsame.trans hshared) hnext
      · rw [hshared] at hunset
        cases hunset
      obtain ⟨rfl, hthread⟩ := only_eq hown
      cases left with
      | nil =>
          rw [resetAndClaim_nil_eq] at hthread
          cases hthread
          cases htaken
          have hfree : sdk.claimUnused config.shared.hardware.claimed = some lockNum := by
            rw [hshared]
            exact hreset.claimed ▸ hclaim
          rw [update_only] at hnext
          dsimp only at hnext
          rw [hfree] at hnext
          refine .storing other (hafter.trans ?_) hnext
          unfold MicroTbx.claimed
          rw [hfree, hshared]
          exact congrArg (fun locks => CritSect.setClaimed _ (lockNum :: locks)) hreset.claimed
      | cons coreIdx left =>
          rw [resetAndClaim_cons_eq] at hthread
          cases hthread
          cases htaken
          rw [update_only] at hnext
          refine .resetting other left (hafter.trans ?_) hnext
          rw [hshared]
          exact setCoreHasLock_eq_self (hreset.flags coreIdx)
  | storing core hshared hsetting =>
      rcases hsetting.step (by simp [hshared]) (by rw [hshared]; exact hreset.spinLock)
        (only_acts (acts_storeSpinLock hinstance))
        hstep hintime with ⟨hsame, hnext⟩ | ⟨_, -, hunset, -⟩ |
          ⟨other, act, rest, after, hown, htaken, hafter, hnext⟩
      · exact .storing core (hsame.trans hshared) hnext
      · rw [hshared] at hunset
        cases hunset
      · obtain ⟨rfl, hthread⟩ := only_eq hown
        rw [storeSpinLock_eq] at hthread
        cases hthread
        cases htaken
        rw [update_only] at hnext
        exact .handleSet (.of_settingUp hreset (hafter.trans (by rw [hshared, hinstance])) hnext)
  | handleSet hset =>
      have hshared := hset.keeping.step keeps_procedure
        (fun core state hstate => by rwa [MultiCore.handlerEntry_eq])
        (fun core state hstate => by rwa [MultiCore.handlerReturn_eq]) hstep
      exact .handleSet ⟨MultiCore.outline_sound.step hstep hset.agrees, hshared⟩

/-- Until the handle is set nothing can have gone wrong. -/
theorem SettingUp.safe {bases : Fin sdk.numCores → BitVec 32}
    {owns : Fin sdk.numCores → Option (Thread (Cores (Fin sdk.numCores)) Unit)}
    (hsetting : SettingUp sdk bases owns config)
    (hacts : ∀ core thread, owns core = some thread → ActsOnHardware thread)
    (hclaimed : config.shared.hardware.claimed = claimed ∨
      config.shared.hardware.claimed = lockNum :: claimed)
    (hlog : config.shared.log = []) : SetUpSafely sdk claimed lockNum lock config where
  once := hclaimed
  flags := by simp [hlog]
  returned := by
    intro core context below result hrunning hcurrent
    have hstack := hsetting.lists core
    rw [hrunning] at hstack
    exact absurd hcurrent (hstack.not_returned (hacts core))

theorem run_enterDisabled {cpuSR : BitVec 32} (state : Cores (Fin sdk.numCores)) :
    ∃ after, (enterDisabled core cpuSR).run state = some ((), after) ∧
      after.hardware = state.hardware := by
  by_cases hzero : state.tbxCritSectNestingCounter = 0
  · simp [enterDisabled, hzero]
  · simp [enterDisabled, hzero]

theorem HandleSet.safe (hset : HandleSet sdk lock (lockNum :: claimed) config) :
    SetUpSafely sdk claimed lockNum lock config where
  once := .inr hset.keeping.shared.claimed
  flags := by
    intro core context coreIdx left hmem hcurrent
    have hkeeps := hset.keeping.threads core context hmem .enter _ hcurrent
    rw [resetAndClaim_cons_eq] at hkeeps
    -- Entries keep flags that are set, and this one would reset one.
    let taken := config.shared.setCoreHasLock coreIdx true
    have htaken : Handed sdk lock (lockNum :: claimed) taken :=
      ⟨hset.keeping.shared.spinLock, hset.keeping.shared.claimed⟩
    have hflag := (hkeeps.1 taken _ htaken rfl).2 coreIdx (by simp [taken])
    simp at hflag
  returned := by
    intro core context below result hrunning hcurrent
    refine ⟨hset.keeping.shared.claimed, ?_⟩
    obtain ⟨base, _, _, heq, ⟨-, hfollows⟩, -⟩ := hset.agrees core
    rw [hrunning] at heq
    cases heq
    simp only [hcurrent] at hfollows
    -- What is left of the entry ends where the core has the lock, and does not take it.
    obtain ⟨after, hrun, hsame⟩ := run_enterDisabled config.shared
    have htaken : MultiCore.Taken lock core base true (context.depth + 1) after :=
      hfollows.run hrun
    rw [← hsame]
    exact htaken.holder

theorem SetUpPhase.safe (hreset : AfterReset sdk claimed start)
    (hclaim : sdk.claimUnused claimed = some lockNum) (hinstance : sdk.instanceOf lockNum = some lock)
    (hphase : SetUpPhase sdk claimed lockNum lock start config) :
    SetUpSafely sdk claimed lockNum lock config := by
  cases hphase with
  | untested hshared hsetting =>
      exact hsetting.safe nofun (.inl (hshared ▸ hreset.claimed)) (hshared ▸ hreset.log)
  | found core hshared hsetting =>
      exact hsetting.safe (only_acts acts_flagFound) (.inl (hshared ▸ hreset.claimed))
        (hshared ▸ hreset.log)
  | resetting core left hshared hsetting =>
      exact hsetting.safe (only_acts (acts_resetAndClaim hclaim left))
        (.inl (hshared ▸ hreset.claimed)) (hshared ▸ hreset.log)
  | storing core hshared hsetting =>
      exact hsetting.safe (only_acts (acts_storeSpinLock hinstance)) (.inr (hshared ▸ rfl))
        (hshared ▸ hreset.log)
  | handleSet hset => exact hset.safe

/-- When no context tests the flag while another one is about to set it, and
none tests the handle before it is set, the spin lock is set up safely. -/
theorem set_up_safely_in_time (hreset : AfterReset sdk claimed start)
    (hclaim : sdk.claimUnused claimed = some lockNum) (hinstance : sdk.instanceOf lockNum = some lock)
    (hreached : ReachedInTime sdk start config) : SetUpSafely sdk claimed lockNum lock config := by
  apply SetUpPhase.safe hreset hclaim hinstance
  induction hreached with
  | refl =>
      refine .untested rfl ⟨fun _ => nofun, fun core => ?_⟩
      exact .fresh (.idle none) .nil
  | tail prior hlast ih => exact ih.step hreset hclaim hinstance hlast.1 hlast.2

end Phases

/-! ## Two cores -/

local instance two_cores_neZero : NeZero 2 := ⟨Nat.succ_ne_zero 1⟩

/-- Both cores after a reset, with interrupts enabled. -/
def picoReset : Cores (Fin 2) :=
  .initial ⟨fun _ => 0, ⟨false, none, nofun⟩, fun _ => false, [], fun _ => none⟩ 0

theorem picoReset_afterReset : AfterReset pico [] picoReset :=
  ⟨rfl, rfl, fun _ => rfl, rfl, fun _ => rfl, rfl, rfl⟩

/-- The next step of the thread writes to a static of the initialization. -/
def writesStatics : Thread (Cores (Fin 2)) Unit → Bool
  | .ret _ => false
  | .step act _ => match act (@probe pico ⟨false, none, nofun⟩ true []) with
      | none => false
      | some after => decide (after.hardware.statics.spinLockInitialized = true ∨
          after.hardware.statics.spinLock ≠ none ∨ after.hardware.claimed ≠ [] ∨
          after.hardware.coreHasLock 0 = false ∨ after.hardware.coreHasLock 1 = false)

/-- The step after the next one does, or the next. -/
def writesSoon : Thread (Cores (Fin 2)) Unit → Bool
  | .ret _ => false
  | .step act next => writesStatics (.step act next) ||
      writesStatics (next (@probe pico ⟨false, none, nofun⟩ true []))

/-- No core is before a premature test. -/
def timely (config : CoresConfig pico) : Bool :=
  config.shared.hardware.statics.spinLock.isSome || [0, 1].all fun core =>
    match config.contexts core with
    | [] => true
    | context :: _ => match context.current with
        | none => true
        | some (_, thread) => writesSoon thread && (writesStatics thread ||
            [0, 1].all fun other => (config.contexts other).all fun setter =>
              match setter.current with
              | none => true
              | some (_, found) => !writesStatics found)

theorem inTime_of_timely (before after : CoresConfig pico) (htimely : timely before = true) :
    InTime pico before after := by
  intro core hpremature
  exfalso
  have hcores : ∀ core : Fin 2, core ∈ [0, 1] := by decide
  have hunset : before.shared.hardware.statics.spinLock = none := by
    cases hpremature with
    | flag running testing unset setting found =>
        by_contra hset
        rw [before.shared.hardware.statics.initialized hset] at unset
        cases unset
    | handle running testing unset => exact unset
  simp only [timely, hunset, Option.isSome_none, Bool.false_or, List.all_eq_true] at htimely
  have hcore := htimely core (hcores core)
  cases hpremature with
  | flag running testing unset setting found =>
      have hreads : writesStatics (tbxCriticalSectionEnter pico.port core) = false := rfl
      simp only [running, testing, hreads, Bool.false_or, Bool.and_eq_true, List.all_eq_true]
        at hcore
      have hwrites := hcore.2 _ (hcores _) _ setting
      simp only [found] at hwrites
      cases hwrites
  | handle running testing unset =>
      have hreads : writesSoon (entering pico core) = false := rfl
      simp [running, testing, hreads] at hcore

/-- The second core calls when the first has stored the handle. -/
def orderlyEntry : List (Fin 2 × Machine.Move) :=
  Machine.turn 0 ([.enter] ++ List.replicate 6 .act) ++
    Machine.turn 1 ([.enter] ++ List.replicate 5 .act) ++ Machine.turn 0 (List.replicate 8 .act)

theorem set_up_safely_orderly : ∃ config : CoresConfig pico,
    ReachedInTime pico picoReset config ∧
      config.shared.hardware.holder 24 = some (0 : Fin 2) ∧ SetUpSafely pico [] 24 24 config := by
  have hholder : (pico.machine.scheduleWhile timely orderlyEntry (pico.machine.start picoReset)).map
      (·.shared.hardware.holder 24) = some (some (0 : Fin 2)) := by
    decide +kernel
  obtain ⟨config, hschedule, hlast⟩ := Option.map_eq_some_iff.mp hholder
  have hreached := Machine.steps_of_scheduleWhile inTime_of_timely hschedule
  exact ⟨config, hreached, hlast,
    set_up_safely_in_time picoReset_afterReset rfl rfl hreached⟩

/-- The second core finds the flag set, but no handle. -/
def overtakenEntry : List (Fin 2 × Machine.Move) :=
  Machine.turn 0 [.enter, .act, .act] ++ Machine.turn 1 [.enter, .act, .act]

theorem set_up_safely_fails : AfterReset pico [] picoReset ∧ ∃ config,
    pico.machine.Reachable picoReset config ∧ ¬ SetUpSafely pico [] 24 24 config := by
  refine ⟨picoReset_afterReset, ?_⟩
  have hreturned : (pico.machine.schedule overtakenEntry (pico.machine.start picoReset)).map
      (fun config => (config.contexts 1, config.shared.hardware.holder 24)) =
        some ([⟨0, some 0, some (.enter, enterDisabled 1 0)⟩], none) := rfl
  obtain ⟨config, hschedule, hpair⟩ := Option.map_eq_some_iff.mp hreturned
  obtain ⟨hcontexts, hholder⟩ := Prod.mk.inj hpair
  refine ⟨config, Machine.reachable_of_schedule .refl hschedule, fun hsafe => ?_⟩
  have hheld := (hsafe.returned 1 _ [] 0 hcontexts rfl).2
  rw [hholder] at hheld
  cases hheld

end MicroTbx

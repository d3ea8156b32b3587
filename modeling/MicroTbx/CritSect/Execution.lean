import MicroTbx.CritSect.SingleCore
import MicroTbx.CritSect.Threads
import MicroTbx.Foundation.Sections

/-! # Calls over the critical section module

A call of the library executes as a program whose sections are entered and left
by the functions of the critical section module, over a port. A call that
leaves every section it entered returns with the counter, the saved status and
the interrupt status as they were, whatever memory holds.
-/

namespace MicroTbx

open Program

variable {Core Hardware SR Status State Fault Result : Type} [DecidableEq Core]

/-! ## Ports -/

/-- The variables of the module are left alone, and no check of it fails. -/
structure LeavesVariables (core : Core) (before after : CritSect Core Hardware SR) : Prop where
  counter : after.tbxCritSectNestingCounter = before.tbxCritSectNestingCounter
  saved : after.tbxCritSectCpuSR = before.tbxCritSectCpuSR
  checked : after.log.count (.assertion core) = before.log.count (.assertion core)

namespace LeavesVariables

variable {core : Core} {before middle after : CritSect Core Hardware SR}

theorem refl (state : CritSect Core Hardware SR) : LeavesVariables core state state :=
  ⟨rfl, rfl, rfl⟩

theorem trans (hfirst : LeavesVariables core before middle)
    (hsecond : LeavesVariables core middle after) : LeavesVariables core before after where
  counter := hsecond.counter.trans hfirst.counter
  saved := hsecond.saved.trans hfirst.saved
  checked := hsecond.checked.trans hfirst.checked

theorem setHardware (hardware : Hardware) :
    LeavesVariables core before (before.setHardware hardware) := ⟨rfl, rfl, rfl⟩

theorem emit {event : SectionEvent Core} (hne : event ≠ .assertion core) :
    LeavesVariables core before (before.emit event) := ⟨rfl, rfl, List.count_cons_of_ne hne⟩

end LeavesVariables

/-- What the module needs of a port: disabled interrupts stay as they are when
they are disabled again, and the value returned restores the status before. -/
structure PortLaws (port : Port Core Hardware SR) (core : Core) (status : Hardware → Status)
    (off : Status → Prop) (saves : SR → Status → Prop) : Prop where
  disable : ∀ {state after : CritSect Core Hardware SR} {cpuSR : SR},
    (port.tbxPortInterruptsDisable core).run state = some (cpuSR, after) →
      LeavesVariables core state after ∧ off (status after.hardware) ∧
        saves cpuSR (status state.hardware) ∧
        (off (status state.hardware) → status after.hardware = status state.hardware)
  restore : ∀ {state after : CritSect Core Hardware SR} {cpuSR : SR} {base : Status},
    saves cpuSR base → off (status state.hardware) →
      (port.tbxPortInterruptsRestore core cpuSR).run state = some ((), after) →
        LeavesVariables core state after ∧ status after.hardware = base

/-- A CPU whose disabled interrupts are disabled again obeys the laws. -/
theorem Cpu.laws (cpu : Cpu SR)
    (hagain : ∀ status, cpu.enabled status = false → cpu.disable status = status) :
    PortLaws cpu.port () id (cpu.enabled · = false) Eq where
  disable := by
    intro state after cpuSR hrun
    cases hrun
    exact ⟨(LeavesVariables.setHardware _).trans (.emit (by simp)), cpu.enabled_disable _, rfl,
      hagain _⟩
  restore := by
    intro state after cpuSR base hsaves hoff hrun
    cases hrun
    exact ⟨(LeavesVariables.setHardware _).trans (.emit (by simp)), hsaves⟩

theorem cortexM_laws : PortLaws cortexM.port () id (cortexM.enabled · = false) Eq := by
  apply cortexM.laws
  intro status hoff
  have hbit : status.getLsbD 0 = true := by simpa [cortexM] using hoff
  change status ||| 1 = status
  apply BitVec.eq_of_getLsbD_eq
  intro index _
  rw [BitVec.getLsbD_or]
  cases index with
  | zero => simp [hbit]
  | succ index => simp [BitVec.getLsbD_one]

theorem avr_laws : PortLaws avr.port () id (avr.enabled · = false) Eq := by
  apply avr.laws
  decide

theorem LeavesVariables.testAndSet (core : Core) (state : Threads Core) :
    LeavesVariables core state (testAndSet core state) := by
  unfold MicroTbx.testAndSet
  split
  · split
    · exact .refl state
    · exact .emit (by simp)
  · exact .setHardware _

theorem testAndSet_flag (core : Core) (state : Threads Core) :
    (testAndSet core state).hardware.interruptsDisabledFlag = true := by
  unfold testAndSet
  split
  · next hset => split <;> exact hset
  · rfl

/-- The flag of the threads is their interrupt status. -/
theorem linuxPort_laws (core : Core) :
    PortLaws (linuxPort Core) core Pthreads.interruptsDisabledFlag (· = true)
      (fun cpuSR flag => cpuSR = tbxPortCpuSrIrqEn ↔ flag = false) where
  disable := by
    intro state after cpuSR hrun
    have hleaves := LeavesVariables.testAndSet core state
    have hflag := testAndSet_flag core state
    cases hset : state.hardware.interruptsDisabledFlag with
    | true =>
        simp only [linuxPort, Thread.run_bind, Thread.run_atomic, Option.map_some,
          Option.bind_some, hset, Bool.true_eq_false, if_false, Thread.run_pure,
          Option.some.injEq, Prod.mk.injEq] at hrun
        obtain ⟨rfl, rfl⟩ := hrun
        exact ⟨hleaves, hflag, by simp [tbxPortCpuSrIrqEn], fun _ => hflag⟩
    | false =>
        simp only [linuxPort, Thread.run_bind, Thread.run_atomic, Option.map_some,
          Option.bind_some, hset, if_true, Option.bind_eq_some_iff, Option.map_eq_some_iff,
          Option.ite_none_right_eq_some, Option.some.injEq, Thread.run_pure, Prod.mk.injEq] at hrun
        obtain ⟨_, ⟨_, ⟨-, rfl⟩, rfl⟩, rfl, rfl⟩ := hrun
        exact ⟨hleaves.trans (.setHardware _), hflag, by simp, by simp⟩
  restore := by
    intro state after cpuSR base hsaves hoff hrun
    by_cases henabled : cpuSR = tbxPortCpuSrIrqEn
    · have hbase := hsaves.mp henabled
      subst henabled hbase
      cases hrun
      exact ⟨(LeavesVariables.setHardware _).trans (.setHardware _), rfl⟩
    · have hbase := (not_congr hsaves).mp henabled
      simp only [linuxPort, if_neg henabled, Thread.run_pure, Option.some.injEq, Prod.mk.injEq,
        true_and] at hrun
      subst hrun
      rw [Bool.not_eq_false] at hbase
      exact ⟨.refl state, hoff.trans hbase.symm⟩

/-! ## The module -/

section Module

variable {port : Port Core Hardware SR} {core : Core} {state after : CritSect Core Hardware SR}

omit [DecidableEq Core] in
theorem enter_run (hrun : (tbxCriticalSectionEnter port core).run state = some ((), after)) :
    ∃ cpuSR middle, (port.tbxPortInterruptsDisable core).run state = some (cpuSR, middle) ∧
      after = ((if middle.tbxCritSectNestingCounter = 0 then middle.setCpuSR cpuSR
        else middle).setNestingCounter (middle.tbxCritSectNestingCounter + 1)).emit (.nested core) := by
  rw [tbxCriticalSectionEnter, Thread.run_bind, Option.bind_eq_some_iff] at hrun
  obtain ⟨⟨cpuSR, middle⟩, hdisable, hrun⟩ := hrun
  refine ⟨cpuSR, middle, hdisable, ?_⟩
  by_cases hzero : middle.tbxCritSectNestingCounter = 0
  · simpa [hzero, eq_comm] using hrun
  · simpa [hzero, eq_comm] using hrun

omit [DecidableEq Core] in
theorem exit_run (hinside : 0 < state.tbxCritSectNestingCounter)
    (hrun : (tbxCriticalSectionExit port core).run state = some ((), after)) :
    (state.tbxCritSectNestingCounter = 1 ∧ (port.tbxPortInterruptsRestore core
      state.tbxCritSectCpuSR).run ((state.setNestingCounter 0).emit (.unnested core)) =
        some ((), after)) ∨
    (1 < state.tbxCritSectNestingCounter ∧ after = (state.setNestingCounter
      (state.tbxCritSectNestingCounter - 1)).emit (.unnested core)) := by
  have hlt := state.counter_lt
  have hmod : (state.tbxCritSectNestingCounter - 1) % 2 ^ 32 =
      state.tbxCritSectNestingCounter - 1 := Nat.mod_eq_of_lt (by omega)
  by_cases hone : state.tbxCritSectNestingCounter = 1
  · refine .inl ⟨hone, ?_⟩
    simpa [tbxCriticalSectionExit, hone] using hrun
  · refine .inr ⟨by omega, ?_⟩
    have hmore : ¬ state.tbxCritSectNestingCounter - 1 = 0 := by omega
    simp only [tbxCriticalSectionExit, Thread.run_bind, Thread.run_get, Option.bind_some, hinside,
      if_true, Thread.run_pure, Thread.run_modify, CritSect.emit_tbxCritSectNestingCounter,
      CritSect.setNestingCounter_tbxCritSectNestingCounter, hmod, hmore, if_false,
      Option.some.injEq, Prod.mk.injEq, true_and] at hrun
    exact hrun.symm

variable (port) (core) in
/-- The states that entering and leaving sections lead to. Outside of all
sections the interrupt status may be any. -/
inductive SectionsReached : CritSect Core Hardware SR → Prop
  | outside {state : CritSect Core Hardware SR} (none : state.tbxCritSectNestingCounter = 0) :
      SectionsReached state
  | enter {state after : CritSect Core Hardware SR} (reached : SectionsReached state)
      (fits : state.tbxCritSectNestingCounter + 1 < 2 ^ 32)
      (entered : (tbxCriticalSectionEnter port core).run state = some ((), after)) :
      SectionsReached after
  | exit {state after : CritSect Core Hardware SR} (reached : SectionsReached state)
      (inside : 0 < state.tbxCritSectNestingCounter)
      (left : (tbxCriticalSectionExit port core).run state = some ((), after)) :
      SectionsReached after

/-- The module is as it was found: the counter and the interrupt status are the
same, so is the saved status if there was a section it belongs to, and no
section was left that had not been entered. -/
structure Undisturbed (status : Hardware → Status) (core : Core)
    (before after : CritSect Core Hardware SR) : Prop where
  counter : after.tbxCritSectNestingCounter = before.tbxCritSectNestingCounter
  saved : 0 < before.tbxCritSectNestingCounter → after.tbxCritSectCpuSR = before.tbxCritSectCpuSR
  status : status after.hardware = status before.hardware
  checked : after.log.count (.assertion core) = before.log.count (.assertion core)

/-- So many sections were entered since a call began. -/
structure Nested (status : Hardware → Status) (off : Status → Prop) (saves : SR → Status → Prop)
    (core : Core) (base state : CritSect Core Hardware SR) (depth : Nat) : Prop where
  counter : state.tbxCritSectNestingCounter = base.tbxCritSectNestingCounter + depth
  outer : 0 < base.tbxCritSectNestingCounter →
    state.tbxCritSectCpuSR = base.tbxCritSectCpuSR ∧ status state.hardware = status base.hardware
  first : base.tbxCritSectNestingCounter = 0 → 0 < depth →
    saves state.tbxCritSectCpuSR (status base.hardware)
  closed : depth = 0 → status state.hardware = status base.hardware
  off : 0 < state.tbxCritSectNestingCounter → off (status state.hardware)
  checked : state.log.count (.assertion core) = base.log.count (.assertion core)

variable {status : Hardware → Status} {off : Status → Prop} {saves : SR → Status → Prop}
  {base : CritSect Core Hardware SR} {depth : Nat}

namespace Nested

theorem undisturbed (hnested : Nested status off saves core base state 0) :
    Undisturbed status core base state where
  counter := hnested.counter
  saved := fun hpos => (hnested.outer hpos).1
  status := hnested.closed rfl
  checked := hnested.checked

/-- Application code that leaves the module as it found it. -/
theorem called (hnested : Nested status off saves core base state depth)
    (hcalled : Undisturbed status core state after) :
    Nested status off saves core base after depth where
  counter := hcalled.counter.trans hnested.counter
  outer := by
    intro hpos
    have hinside : 0 < state.tbxCritSectNestingCounter := by rw [hnested.counter]; omega
    obtain ⟨hsaved, hstatus⟩ := hnested.outer hpos
    exact ⟨(hcalled.saved hinside).trans hsaved, hcalled.status.trans hstatus⟩
  first := by
    intro hzero hpos
    have hinside : 0 < state.tbxCritSectNestingCounter := by rw [hnested.counter]; omega
    rw [hcalled.saved hinside]
    exact hnested.first hzero hpos
  closed := fun hzero => hcalled.status.trans (hnested.closed hzero)
  off := by
    rw [hcalled.counter, hcalled.status]
    exact hnested.off
  checked := hcalled.checked.trans hnested.checked

theorem enter (laws : PortLaws port core status off saves)
    (hnested : Nested status off saves core base state depth)
    (hfits : state.tbxCritSectNestingCounter + 1 < 2 ^ 32)
    (hrun : (tbxCriticalSectionEnter port core).run state = some ((), after)) :
    Nested status off saves core base after (depth + 1) := by
  obtain ⟨cpuSR, middle, hdisable, rfl⟩ := enter_run hrun
  obtain ⟨hleaves, hoff, hsaves, hagain⟩ := laws.disable hdisable
  have hcounter := hnested.counter
  have hmiddle := hleaves.counter
  have hmod : (middle.tbxCritSectNestingCounter + 1) % 2 ^ 32 =
      middle.tbxCritSectNestingCounter + 1 := Nat.mod_eq_of_lt (by omega)
  have hchecked : ∀ log : List (SectionEvent Core),
      (.nested core :: log).count (.assertion core) = log.count (.assertion core) :=
    fun log => List.count_cons_of_ne (by simp)
  by_cases hzero : middle.tbxCritSectNestingCounter = 0
  · -- The outermost entry saves the status that the port has read.
    have hbase : base.tbxCritSectNestingCounter = 0 := by omega
    have hclosed := hnested.closed (by omega)
    rw [if_pos hzero]
    refine ⟨?_, fun hpos => ?_, fun _ _ => ?_, nofun, fun _ => hoff, ?_⟩
    · simp only [CritSect.emit_tbxCritSectNestingCounter,
        CritSect.setNestingCounter_tbxCritSectNestingCounter]
      omega
    · omega
    · rw [← hclosed]
      exact hsaves
    · exact (hchecked _).trans (hleaves.checked.trans hnested.checked)
  · -- A nested entry finds the interrupts disabled and leaves the saved status.
    have hinside : 0 < state.tbxCritSectNestingCounter := by omega
    have hstatus := hagain (hnested.off hinside)
    rw [if_neg hzero]
    refine ⟨?_, fun hpos => ?_, fun hbase _ => ?_, nofun, fun _ => hoff, ?_⟩
    · simp only [CritSect.emit_tbxCritSectNestingCounter,
        CritSect.setNestingCounter_tbxCritSectNestingCounter]
      omega
    · obtain ⟨houter, houterStatus⟩ := hnested.outer hpos
      exact ⟨hleaves.saved.trans houter, hstatus.trans houterStatus⟩
    · have hfirst := hnested.first hbase (by omega)
      rw [← hleaves.saved] at hfirst
      exact hfirst
    · exact (hchecked _).trans (hleaves.checked.trans hnested.checked)

theorem leave (laws : PortLaws port core status off saves)
    (hnested : Nested status off saves core base state (depth + 1))
    (hrun : (tbxCriticalSectionExit port core).run state = some ((), after)) :
    Nested status off saves core base after depth := by
  have hcounter := hnested.counter
  have hinside : 0 < state.tbxCritSectNestingCounter := by omega
  have hoff : off (status ((state.setNestingCounter 0).emit (.unnested core)).hardware) :=
    hnested.off hinside
  have hchecked : (.unnested core :: state.log).count (.assertion core) =
      base.log.count (.assertion core) :=
    (List.count_cons_of_ne (by simp)).trans hnested.checked
  rcases exit_run hinside hrun with ⟨hone, hrestore⟩ | ⟨hmore, rfl⟩
  · -- The outermost exit restores what the outermost entry has saved.
    have hbase : base.tbxCritSectNestingCounter = 0 := by omega
    obtain ⟨hleaves, hstatus⟩ := laws.restore (hnested.first hbase (Nat.succ_pos depth)) hoff hrestore
    have hzero : after.tbxCritSectNestingCounter = 0 := hleaves.counter
    exact ⟨by omega, fun hpos => by omega, fun _ hpos => by omega, fun _ => hstatus,
      fun hpos => by omega, hleaves.checked.trans hchecked⟩
  · have hlt := state.counter_lt
    have hmod : (state.tbxCritSectNestingCounter - 1) % 2 ^ 32 =
        state.tbxCritSectNestingCounter - 1 := Nat.mod_eq_of_lt (by omega)
    refine ⟨?_, hnested.outer, fun hbase _ => hnested.first hbase (Nat.succ_pos depth), ?_,
      fun _ => hoff, hchecked⟩
    · simp only [CritSect.emit_tbxCritSectNestingCounter,
        CritSect.setNestingCounter_tbxCritSectNestingCounter, hmod]
      omega
    · exact fun hzero => (hnested.outer (by omega)).2

end Nested

/-- In a section the interrupts are disabled, and the status is saved. -/
theorem SectionsReached.masked (laws : PortLaws port core status off saves)
    (hreached : SectionsReached port core state) (hinside : 0 < state.tbxCritSectNestingCounter) :
    off (status state.hardware) ∧ ∃ base, saves state.tbxCritSectCpuSR base := by
  induction hreached with
  | outside none => omega
  | @enter state after reached fits entered ih =>
      obtain ⟨cpuSR, middle, hdisable, rfl⟩ := enter_run entered
      obtain ⟨hleaves, hoff, hsaves, -⟩ := laws.disable hdisable
      by_cases hzero : middle.tbxCritSectNestingCounter = 0
      · rw [if_pos hzero]
        exact ⟨hoff, _, hsaves⟩
      · rw [if_neg hzero]
        obtain ⟨-, base, hbase⟩ := ih (by rw [← hleaves.counter]; omega)
        rw [← hleaves.saved] at hbase
        exact ⟨hoff, base, hbase⟩
  | @exit state after reached inside left ih =>
      obtain ⟨hoff, base, hbase⟩ := ih inside
      have hmiddle : off (status ((state.setNestingCounter 0).emit (.unnested core)).hardware) := hoff
      rcases exit_run inside left with ⟨hone, hrestore⟩ | ⟨hmore, rfl⟩
      · have hzero : after.tbxCritSectNestingCounter = 0 :=
          (laws.restore hbase hmiddle hrestore).1.counter
        omega
      · exact ⟨hoff, base, hbase⟩

end Module

/-! ## Programs -/

section Programs

variable (port : Port Core Hardware SR) (core : Core)
  (callback : State → CritSect Core Hardware SR → State → CritSect Core Hardware SR → Prop)

/-- A call executes and returns, with the counter in its range. Between two
actions application code may run. -/
inductive Executes : Program State Fault Result → State → CritSect Core Hardware SR → Result →
    State → CritSect Core Hardware SR → Prop
  | ret {result : Result} {state : State} {sections : CritSect Core Hardware SR} :
      Executes (.ret result) state sections result state sections
  | act {act : State → State} {next : State → Program State Fault Result} {state final : State}
      {result : Result} {sections after : CritSect Core Hardware SR}
      (rest : Executes (next state) (act state) sections result final after) :
      Executes (.step act next) state sections result final after
  | callback {program : Program State Fault Result} {state later final : State} {result : Result}
      {sections between after : CritSect Core Hardware SR}
      (called : callback state sections later between)
      (rest : Executes program later between result final after) :
      Executes program state sections result final after
  | enter {next : Program State Fault Result} {state final : State} {result : Result}
      {sections between after : CritSect Core Hardware SR}
      (fits : sections.tbxCritSectNestingCounter + 1 < 2 ^ 32)
      (entered : (tbxCriticalSectionEnter port core).run sections = some ((), between))
      (rest : Executes next state between result final after) :
      Executes (.enter next) state sections result final after
  | leave {next : Program State Fault Result} {state final : State} {result : Result}
      {sections between after : CritSect Core Hardware SR}
      (left : (tbxCriticalSectionExit port core).run sections = some ((), between))
      (rest : Executes next state between result final after) :
      Executes (.leave next) state sections result final after

variable {port core callback} {status : Hardware → Status} {off : Status → Prop}
  {saves : SR → Status → Prop} {program : Program State Fault Result} {state final : State}
  {result : Result} {base sections after : CritSect Core Hardware SR} {depth : Nat}

/-- The sections of a balanced program are those it has entered and not left. -/
theorem Executes.nested (laws : PortLaws port core status off saves)
    (hcallback : ∀ state sections later between, callback state sections later between →
      Undisturbed status core sections between)
    (hexecutes : Executes port core callback program state sections result final after)
    (hbalanced : program.Balanced depth)
    (hnested : Nested status off saves core base sections depth) :
    Nested status off saves core base after 0 := by
  induction hexecutes generalizing depth with
  | ret =>
      obtain rfl : depth = 0 := hbalanced
      exact hnested
  | act rest ih => exact ih (hbalanced _) hnested
  | callback called rest ih => exact ih hbalanced (hnested.called (hcallback _ _ _ _ called))
  | enter fits entered rest ih => exact ih hbalanced (hnested.enter laws fits entered)
  | leave left rest ih =>
      cases depth with
      | zero => exact hbalanced.elim
      | succ depth => exact ih hbalanced (hnested.leave laws left)

/-- A balanced program leaves the module as it found it. -/
theorem Executes.undisturbed (laws : PortLaws port core status off saves)
    (hcallback : ∀ state sections later between, callback state sections later between →
      Undisturbed status core sections between)
    (hreached : SectionsReached port core sections)
    (hexecutes : Executes port core callback program state sections result final after)
    (hbalanced : program.Balanced 0) : Undisturbed status core sections after := by
  apply Nested.undisturbed
  apply hexecutes.nested laws hcallback hbalanced
  exact ⟨rfl, fun _ => ⟨rfl, rfl⟩, fun _ hpos => absurd hpos (Nat.lt_irrefl 0), fun _ => rfl,
    fun hinside => (hreached.masked laws hinside).1, rfl⟩

/-- Execute a call that no application code interferes with. -/
def execute (port : Port Core Hardware SR) (core : Core) : Program State Fault Result → State →
    CritSect Core Hardware SR → Option (Result × State × CritSect Core Hardware SR)
  | .ret result, state, sections => some (result, state, sections)
  | .fault _, _, _ => none
  | .step act next, state, sections => execute port core (next state) (act state) sections
  | .enter next, state, sections =>
      if sections.tbxCritSectNestingCounter + 1 < 2 ^ 32 then
        ((tbxCriticalSectionEnter port core).run sections).bind fun entered =>
          execute port core next state entered.2
      else none
  | .leave next, state, sections =>
      ((tbxCriticalSectionExit port core).run sections).bind fun left =>
        execute port core next state left.2

omit [DecidableEq Core] in
theorem Executes.of_execute
    (hexecute : execute port core program state sections = some (result, final, after)) :
    Executes port core callback program state sections result final after := by
  induction program generalizing state sections with
  | ret value =>
      cases hexecute
      exact .ret
  | fault reason => cases hexecute
  | step act next ih => exact .act (ih _ hexecute)
  | enter next ih =>
      rw [execute, Option.ite_none_right_eq_some, Option.bind_eq_some_iff] at hexecute
      obtain ⟨hfits, ⟨_, between⟩, hentered, hrest⟩ := hexecute
      exact .enter hfits hentered (ih hrest)
  | leave next ih =>
      rw [execute, Option.bind_eq_some_iff] at hexecute
      obtain ⟨⟨_, between⟩, hleft, hrest⟩ := hexecute
      exact .leave hleft (ih hrest)

end Programs

end MicroTbx

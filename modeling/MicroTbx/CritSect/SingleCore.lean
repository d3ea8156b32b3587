import MicroTbx.CritSect.Holding

/-! # Critical sections on one CPU

The ports for a single CPU read the interrupt status and then disable the
interrupts, which are two steps. A handler in between runs whole sections of
its own, overwrites the saved status, and leaves the status as it was. From
the disabling on no handler starts until the outermost exit has restored the
status.
-/

namespace MicroTbx

open Thread

variable {SR : Type} (cpu : Cpu SR)

def Cpu.port : Port Unit SR SR where
  tbxPortInterruptsDisable core := do
    let result ← get (·.hardware)
    modify fun state => (state.setHardware (cpu.disable state.hardware)).emit (.disabled core)
    pure result
  tbxPortInterruptsRestore core prevCpuSr :=
    modify fun state => (state.setHardware prevCpuSr).emit (.restored core)

def Cpu.machine : Machine Unit (CritSect Unit SR SR) SR where
  procedure core
    | .enter => tbxCriticalSectionEnter cpu.port core
    | .exit => tbxCriticalSectionExit cpu.port core
  status _ state := state.hardware
  interruptible _ state := cpu.enabled state.hardware
  handlerEntry _ state := state.setHardware (cpu.handlerEntry state.hardware)
  handlerReturn _ state := state.setHardware (cpu.handlerReturn state.hardware)
  nestable := nestsBelowOverflow

namespace SingleCore

/-! ## The assertions -/

/-- Interrupts are disabled and the counter is known. Only a counter above
zero says that the status is saved. -/
structure Disabled (base : SR) (count : Nat) (state : CritSect Unit SR SR) : Prop where
  disabled : cpu.enabled state.hardware = false
  counter : state.tbxCritSectNestingCounter = count
  saved : 0 < count → state.tbxCritSectCpuSR = base
  bound : count < 2 ^ 32

/-- No section is entered. -/
structure Outside (base : SR) (state : CritSect Unit SR SR) : Prop where
  status : state.hardware = base
  counter : state.tbxCritSectNestingCounter = 0
  closed : sectionOpen () state.log = false

def Settled (base : SR) : Nat → CritSect Unit SR SR → Prop
  | 0 => Outside base
  | depth + 1 => Disabled cpu base (depth + 1)

/-- What holds at every moment: sections are entered with interrupts disabled
and the status of the context saved. -/
structure Protected (base : SR) (state : CritSect Unit SR SR) : Prop where
  disabled : 0 < state.tbxCritSectNestingCounter → cpu.enabled state.hardware = false
  saved : 0 < state.tbxCritSectNestingCounter → state.tbxCritSectCpuSR = base
  masked : sectionOpen () state.log = true → cpu.enabled state.hardware = false

def outline : Outline Unit (CritSect Unit SR SR) SR where
  rely _ before after := before = after
  settled _ base depth := Settled cpu base depth
  always _ base _ := Protected cpu base

variable {cpu} {base : SR} {depth count : Nat} {state : CritSect Unit SR SR}

theorem stable_of_disabled {assertion : CritSect Unit SR SR → Prop}
    (hassertion : ∀ state, assertion state → ∃ count, Disabled cpu base count state) :
    (outline cpu).Stable cpu.machine () base depth assertion where
  always state hstate := by
    obtain ⟨count, hdisabled⟩ := hassertion state hstate
    exact ⟨fun _ => hdisabled.disabled,
      fun hpos => hdisabled.saved (by rwa [← hdisabled.counter]), fun _ => hdisabled.disabled⟩
  relied := by
    rintro before _ hbefore rfl
    exact hbefore
  settled state hstate henabled := by
    obtain ⟨count, hdisabled⟩ := hassertion state hstate
    exact absurd henabled (by simp [Cpu.machine, hdisabled.disabled])
  resumed before after hbefore henabled _ := by
    obtain ⟨count, hdisabled⟩ := hassertion before hbefore
    exact absurd henabled (by simp [Cpu.machine, hdisabled.disabled])

theorem stable_outside : (outline cpu).Stable cpu.machine () base depth (Outside base) where
  always state hstate := by
    constructor
    · simp [hstate.counter]
    · simp [hstate.counter]
    · simp [hstate.closed]
  relied := by
    rintro before _ hbefore rfl
    exact hbefore
  settled state hstate _ := hstate
  resumed before after _ _ hafter := hafter

theorem stable_settled : (outline cpu).Stable cpu.machine () base depth (Settled cpu base depth) := by
  cases depth with
  | zero => exact stable_outside
  | succ depth => exact stable_of_disabled fun state hstate => ⟨depth + 1, hstate⟩

/-! ## The procedures -/

theorem outline_refl (core : Unit) (state : CritSect Unit SR SR) :
    (outline cpu).rely core state state := rfl

/-- Disabling interrupts returns the status of the context, if it was outside. -/
theorem follows_disable (hstate : Settled cpu base depth state) (hbound : depth < 2 ^ 32) :
    (outline cpu).Follows cpu.machine () base depth (cpu.port.tbxPortInterruptsDisable ())
      (fun result after => Disabled cpu base depth after ∧ (depth = 0 → result = base)) state := by
  apply Outline.follows_bind fun result after =>
    Settled cpu base depth after ∧ (depth = 0 → result = base)
  · apply Outline.follows_get outline_refl stable_settled hstate
    intro before hbefore
    refine ⟨hbefore, ?_⟩
    rintro rfl
    exact hbefore.status
  · rintro result after ⟨hafter, hresult⟩
    apply Outline.follows_modify_bind (Disabled cpu base depth) stable_settled hafter
    · intro before hbefore
      refine ⟨fun other hne => absurd rfl hne, ?_⟩
      cases depth with
      | zero => exact ⟨cpu.enabled_disable _, hbefore.counter, by simp, hbound⟩
      | succ depth => exact ⟨cpu.enabled_disable _, hbefore.counter, hbefore.saved, hbound⟩
    · exact fun final hfinal => Outline.follows_ret ⟨hfinal, hresult⟩

/-- Interrupts stay disabled while the module works on its variables. -/
theorem holding : Holding cpu.port cpu.machine (outline cpu) () base (Disabled cpu base) where
  refl := outline_refl
  stable _ count := stable_of_disabled fun _ hstate => ⟨count, hstate⟩
  stable_saved _ count := stable_of_disabled fun _ hstate => ⟨count, hstate.1⟩
  counter _ _ hstate := hstate.counter
  saved _ _ hstate hpos := hstate.saved hpos
  save state hstate :=
    ⟨fun _ hne => absurd rfl hne, hstate.disabled, hstate.counter, by simp, hstate.bound⟩
  nest count state hstate hbase hlt :=
    ⟨fun _ hne => absurd rfl hne, hstate.disabled, Nat.mod_eq_of_lt hlt, fun _ => hbase, hlt⟩
  unnest count state hstate :=
    ⟨fun _ hne => absurd rfl hne, hstate.disabled, Nat.mod_eq_of_lt (Nat.lt_of_succ_lt hstate.bound),
      fun _ => hstate.saved (Nat.succ_pos count), Nat.lt_of_succ_lt hstate.bound⟩

theorem follows_enter (hnestable : nestsBelowOverflow depth = true)
    (hstate : Settled cpu base depth state) :
    (outline cpu).Follows cpu.machine () base depth (tbxCriticalSectionEnter cpu.port ())
      (fun _ => Settled cpu base (depth + 1)) state := by
  have hbound : depth + 1 < 2 ^ 32 := by simpa [nestsBelowOverflow] using hnestable
  exact holding.enter hbound (follows_disable hstate (Nat.lt_of_succ_lt hbound))

theorem follows_exit (hstate : Settled cpu base (depth + 1) state) :
    (outline cpu).Follows cpu.machine () base depth (tbxCriticalSectionExit cpu.port ())
      (fun _ => Settled cpu base depth) state := by
  apply holding.exit hstate
  · rintro rfl after hafter hbase
    apply Outline.follows_modify (holding.stable_saved 0 0) ⟨hafter, hbase⟩
    intro before hbefore
    exact ⟨fun other hne => absurd rfl hne, rfl, hbefore.1.counter, by simp [sectionOpen]⟩
  · intro hpos after hafter
    obtain ⟨lower, rfl⟩ := Nat.exists_eq_succ_of_ne_zero (Nat.pos_iff_ne_zero.mp hpos)
    exact hafter

theorem outline_sound : (outline cpu).Sound cpu.machine where
  always_of_succ _ _ _ _ halways := halways
  stable _ _ _ := stable_settled
  status _ _ _ hstate := hstate.status
  enter _ _ _ _ hnestable hstate := follows_enter hnestable hstate
  exit _ _ _ _ hstate := follows_exit hstate
  handler core base state hstate henabled := by
    refine ⟨cpu.handlerEntry base, ⟨?_, hstate.counter, hstate.closed⟩, fun after hafter => ?_⟩
    · exact congrArg cpu.handlerEntry hstate.status
    · refine ⟨?_, hafter.counter, hafter.closed⟩
      have hbase : cpu.enabled base = true := by rw [← hstate.status]; exact henabled
      exact (congrArg cpu.handlerReturn hafter.status).trans
        (cpu.handlerReturn_handlerEntry base hbase)
  handlerEntry _ _ _ hne := absurd rfl hne
  handlerReturn _ _ _ hne := absurd rfl hne

end SingleCore

/-! ## The guarantee -/

/-- What critical sections promise at every moment. The status that a context
remembers is the one right before it entered its outermost section. -/
structure SectionsProtect (config : Config Unit (CritSect Unit SR SR) SR) : Prop where
  disabled : 0 < config.shared.tbxCritSectNestingCounter →
    cpu.enabled config.shared.hardware = false
  /-- From the disabling to the restoring no step starts a handler. -/
  undisturbed : sectionOpen () config.shared.log = true → ∀ next, cpu.machine.Step config next →
    (next.contexts ()).length ≤ (config.contexts ()).length
  saved : 0 < config.shared.tbxCritSectNestingCounter →
    ∀ context below, config.contexts () = context :: below →
      context.before = some config.shared.tbxCritSectCpuSR
  /-- The outermost exit is about to return. -/
  restored : ∀ context below, config.contexts () = context :: below → context.depth = 0 →
    context.current = some (.exit, .ret ()) →
      context.before = some config.shared.hardware ∧ config.shared.tbxCritSectNestingCounter = 0

/-- For every initial status, every nesting and every interleaving with
handlers, critical sections protect and restore. -/
theorem critical_sections_protect (status cpuSR : SR)
    {config : Config Unit (CritSect Unit SR SR) SR}
    (hreachable : cpu.machine.Reachable (.initial status cpuSR) config) :
    SectionsProtect cpu config := by
  have hagrees := SingleCore.outline_sound.reachable
    (fun core => ⟨status, rfl, rfl, rfl⟩) hreachable ()
  obtain ⟨base, context, below, hcontexts, hholds, -⟩ := hagrees
  have halways : SingleCore.Protected cpu base config.shared :=
    hholds.always SingleCore.outline_sound
  constructor
  · exact halways.disabled
  · intro hopen next hstep
    exact Machine.length_le_of_step (halways.masked hopen) hstep
  · intro hpos _ _ heq
    rw [hcontexts] at heq
    cases heq
    rw [halways.saved hpos]
    apply hholds.1
    cases hcurrent : context.current with
    | some call => exact .inr rfl
    | none =>
        have hsettled := hholds.2
        simp only [hcurrent] at hsettled
        cases hdepth : context.depth with
        | succ depth => exact .inl (Nat.succ_pos depth)
        | zero =>
            rw [hdepth] at hsettled
            exact absurd hpos (by simp [hsettled.counter])
  · intro _ _ heq hdepth hcurrent
    rw [hcontexts] at heq
    cases heq
    have hbefore := hholds.1 (.inr (by rw [hcurrent]; rfl))
    have hsettled := hholds.2
    simp only [hcurrent, hdepth] at hsettled
    have houtside : SingleCore.Outside base config.shared := hsettled
    exact ⟨by rw [hbefore, houtside.status], houtside.counter⟩

/-- A handler cuts in right after the status was read and runs a section of its
own; then the interrupted entry goes on. -/
def preemptedEntry : List (Unit × Machine.Move) :=
  Machine.turn () ([.enter, .act, .interrupt, .enter] ++ List.replicate 6 .act ++
    [.finish, .exit] ++ List.replicate 7 .act ++ [.finish, .handlerReturn] ++
    List.replicate 5 .act ++ [.finish])

theorem critical_sections_protect_preempted :
    ∃ config, cortexM.machine.schedule preemptedEntry (cortexM.machine.start (.initial 0 0)) =
        some config ∧
      config.shared.tbxCritSectNestingCounter = 1 ∧ SectionsProtect cortexM config := by
  have hcounter : (cortexM.machine.schedule preemptedEntry
      (cortexM.machine.start (.initial 0 0))).map (·.shared.tbxCritSectNestingCounter) =
        some 1 := by
    decide +kernel
  obtain ⟨config, hschedule, hcount⟩ := Option.map_eq_some_iff.mp hcounter
  exact ⟨config, hschedule, hcount, critical_sections_protect cortexM 0 0
    (Machine.reachable_of_schedule .refl hschedule)⟩

end MicroTbx

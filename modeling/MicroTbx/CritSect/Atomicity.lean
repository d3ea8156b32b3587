import MicroTbx.CritSect.SingleCore
import MicroTbx.Foundation.Processor
import MicroTbx.List.Interface
import MicroTbx.List.Sections

/-! # Sections of the library are steps

On one CPU the calls of the library are executed instruction by instruction,
with the code of the critical section module around their sections, and may be
preempted by handlers and other tasks wherever interrupts are enabled. The
application cannot tell that from sections that are executed in a single step.
-/

namespace MicroTbx

variable {SR : Type} (cpu : Cpu SR)

/-- A CPU turns to another context by writing its status register. -/
def Cpu.processor : Processor (CritSect Unit SR SR) SR where
  machine := cpu.machine
  load state status := state.setHardware status

namespace SingleCore

/-- The assertions of the sections on one CPU, of which it matters at every
moment that interrupts are disabled inside. -/
def masking : Outline Unit (CritSect Unit SR SR) SR where
  rely _ before after := before = after
  settled _ base depth := Settled cpu base depth
  always _ _ depth state := 0 < depth → cpu.enabled state.hardware = false

variable {cpu} {base : SR} {depth : Nat} {state : CritSect Unit SR SR}

theorem masking_stable_of_disabled {assertion : CritSect Unit SR SR → Prop}
    (hassertion : ∀ state, assertion state → ∃ count, Disabled cpu base count state) :
    (masking cpu).Stable cpu.machine () base depth assertion where
  always state hstate _ := by
    obtain ⟨count, hdisabled⟩ := hassertion state hstate
    exact hdisabled.disabled
  relied := by
    rintro before _ hbefore rfl
    exact hbefore
  settled state hstate henabled := by
    obtain ⟨count, hdisabled⟩ := hassertion state hstate
    exact absurd henabled (by simp [Cpu.machine, hdisabled.disabled])
  resumed before after hbefore henabled _ := by
    obtain ⟨count, hdisabled⟩ := hassertion before hbefore
    exact absurd henabled (by simp [Cpu.machine, hdisabled.disabled])

theorem masking_stable_settled :
    (masking cpu).Stable cpu.machine () base depth (Settled cpu base depth) := by
  cases depth with
  | succ depth => exact masking_stable_of_disabled fun state hstate => ⟨depth + 1, hstate⟩
  | zero =>
      constructor
      · exact fun _ _ hpos => absurd hpos (Nat.lt_irrefl 0)
      · rintro before _ hbefore rfl
        exact hbefore
      · exact fun _ hstate _ => hstate
      · exact fun _ _ _ _ hafter => hafter

theorem masking_holding :
    Holding cpu.port cpu.machine (masking cpu) () base (Disabled cpu base) where
  refl _ _ := rfl
  stable _ count := masking_stable_of_disabled fun _ hstate => ⟨count, hstate⟩
  stable_saved _ count := masking_stable_of_disabled fun _ hstate => ⟨count, hstate.1⟩
  counter _ _ hstate := hstate.counter
  saved _ _ hstate hpos := hstate.saved hpos
  save _ hstate := ⟨fun _ hne => absurd rfl hne, (holding.save _ hstate).2⟩
  nest count _ hstate hbase hlt :=
    ⟨fun _ hne => absurd rfl hne, (holding.nest count _ hstate hbase hlt).2⟩
  unnest count _ hstate := ⟨fun _ hne => absurd rfl hne, (holding.unnest count _ hstate).2⟩

theorem masking_enter (hnestable : nestsBelowOverflow depth = true)
    (hstate : Settled cpu base depth state) :
    (masking cpu).Follows cpu.machine () base depth (tbxCriticalSectionEnter cpu.port ())
      (fun _ => Settled cpu base (depth + 1)) state := by
  have hbound : depth + 1 < 2 ^ 32 := by simpa [nestsBelowOverflow] using hnestable
  apply masking_holding.enter hbound
  apply Outline.follows_bind fun result after =>
    Settled cpu base depth after ∧ (depth = 0 → result = base)
  · apply Outline.follows_get (fun _ _ => rfl) masking_stable_settled hstate
    intro before hbefore
    refine ⟨hbefore, ?_⟩
    rintro rfl
    exact hbefore.status
  · rintro result after ⟨hafter, hresult⟩
    apply Outline.follows_modify_bind (Disabled cpu base depth) masking_stable_settled hafter
    · intro before hbefore
      refine ⟨fun other hne => absurd rfl hne, ?_⟩
      cases depth with
      | zero => exact ⟨cpu.enabled_disable _, hbefore.counter, by simp, by decide⟩
      | succ depth =>
          exact ⟨cpu.enabled_disable _, hbefore.counter, hbefore.saved, Nat.lt_of_succ_lt hbound⟩
    · exact fun final hfinal => Outline.follows_ret ⟨hfinal, hresult⟩

theorem masking_exit (hstate : Settled cpu base (depth + 1) state) :
    (masking cpu).Follows cpu.machine () base depth (tbxCriticalSectionExit cpu.port ())
      (fun _ => Settled cpu base depth) state := by
  apply masking_holding.exit hstate
  · rintro rfl after hafter hbase
    apply Outline.follows_modify (masking_holding.stable_saved 0 0) ⟨hafter, hbase⟩
    intro before hbefore
    exact ⟨fun other hne => absurd rfl hne, rfl, hbefore.1.counter, by simp [sectionOpen]⟩
  · intro hpos after hafter
    obtain ⟨lower, rfl⟩ := Nat.exists_eq_succ_of_ne_zero (Nat.pos_iff_ne_zero.mp hpos)
    exact hafter

/-- Inside of sections the processor turns to no other context, and outside any
status may be written. -/
theorem processor_excludes : cpu.processor.Excludes (masking cpu) where
  sound :=
    { always_of_succ := fun _ _ _ _ halways hpos => halways (Nat.lt_succ_of_lt hpos)
      stable := fun _ _ _ => masking_stable_settled
      status := fun _ _ _ hstate => hstate.status
      enter := fun _ _ _ _ hnestable hstate => masking_enter hnestable hstate
      exit := fun _ _ _ _ hstate => masking_exit hstate
      handler := outline_sound.handler
      handlerEntry := fun _ _ _ hne => absurd rfl hne
      handlerReturn := fun _ _ _ hne => absurd rfl hne }
  disabled := fun _ depth _ halways => halways (Nat.succ_pos depth)
  load := fun _ _ _ hstate => ⟨rfl, hstate.counter, hstate.closed⟩

end SingleCore

/-! ## The library -/

theorem PoolCall.balanced (target : Target) (call : PoolCall) :
    (call.perform target).Balanced 0 := by
  cases call with
  | create numBlocks blockSize => exact balanced_poolCreate.part fun _ => rfl
  | allocate size => exact balanced_poolAllocate.part fun _ => rfl
  | allocateAuto size => exact balanced_poolAllocateAuto.part fun _ => rfl
  | release memPtr => exact balanced_poolRelease.part fun _ => rfl
  | heapAllocate size => exact balanced_heapAllocate.part fun _ => rfl
  | write memPtr index value => exact (Program.Balanced.modify _).part fun _ => rfl

theorem ListOperation.balanced (target : Target) (list : Nat) (operation : ListOperation) :
    (operation.perform target list).Balanced 0 := by
  cases operation with
  | clear => exact balanced_listClear.part fun _ => rfl
  | getSize => exact balanced_listGetSize.part fun _ => rfl
  | insertItemFront item => exact (balanced_insertAtEnd fun _ => balanced_linkFront).part fun _ => rfl
  | insertItemBack item => exact (balanced_insertAtEnd fun _ => balanced_linkBack).part fun _ => rfl
  | insertItemBefore item itemRef =>
      exact (balanced_insertNextTo fun _ _ => balanced_linkBefore).part fun _ => rfl
  | insertItemAfter item itemRef =>
      exact (balanced_insertNextTo fun _ _ => balanced_linkAfter).part fun _ => rfl
  | removeItem item => exact balanced_removeItem.part fun _ => rfl
  | getFirstItem => exact balanced_getItemAtEnd.part fun _ => rfl
  | getLastItem => exact balanced_getItemAtEnd.part fun _ => rfl
  | getPreviousItem itemRef => exact balanced_getItemNextTo.part fun _ => rfl
  | getNextItem itemRef => exact balanced_getItemNextTo.part fun _ => rfl
  | swapItems item1 item2 => exact balanced_swapItems.part fun _ => rfl
  | sortItems compareItemsFcn => exact balanced_sortItems.part fun _ => rfl

/-- On every path of a call each section that is entered is left. -/
theorem ListCall.balanced (target : Target) (call : ListCall) :
    (call.perform target).Balanced 0 := by
  cases call with
  | create => exact balanced_listCreate.part fun _ => rfl
  | delete list => exact balanced_listDelete.part fun _ => rfl
  | on list operation => exact operation.balanced target list
  | pool call => exact (call.balanced target).part fun _ => rfl

/-- Contexts that call the library as they like, by what they know of the calls
and returns so far. -/
def libraryClients {Client : Type} (target : Target)
    (allowed : List (Client × ClientMove State ListCall ListReply) → Client → ListCall → Prop) :
    Clients Client State Fault ListCall ListReply where
  allowed moves := allowed (visible moves)
  perform := ListCall.perform target

instance {Client : Type} (target : Target)
    (allowed : List (Client × ClientMove State ListCall ListReply) → Client → ListCall → Prop)
    [∀ moves client call, Decidable (allowed moves client call)]
    (moves : List (Client × ClientMove State ListCall ListReply)) (client : Client)
    (call : ListCall) : Decidable ((libraryClients target allowed).allowed moves client call) :=
  inferInstanceAs (Decidable (allowed _ _ _))

/-- What is promised of a run in which sections take many steps. Only the
context that has its turn can be inside of one. The calls and returns are those
of a run in which sections are single steps, which ends in the same state
when all sections are left, and has a fault if this one has. -/
structure AppearsAtomic {Client Guard Status Fault Request Result : Type} [DecidableEq Client]
    (clients : Clients Client State Fault Request Result) (shared : State)
    (config : ProcessorConfig Client State Guard Status Fault Request Result) : Prop where
  alone : ∀ client activity, client ≠ config.running → config.activities client = some activity →
    activity.control.depth = 0
  seen : ∃ seen, clients.Reachable shared seen ∧ visible seen.moves = config.moves ∧
    (config.OutsideSections → seen.shared = config.shared) ∧
    (Clients.Live seen → config.Faultless)

variable {cpu}

/-- However the calls of the library are preempted, in the midst of entering and
leaving sections as well as between, the application is told what it would be
told if every outermost section were one step. -/
theorem library_sections_atomic {Client : Type} [DecidableEq Client] (target : Target)
    {allowed : List (Client × ClientMove State ListCall ListReply) → Client → ListCall → Prop}
    {shared : State} {status cpuSR : SR} {first : Client} {statuses : Client → SR}
    {config : ProcessorConfig Client State (CritSect Unit SR SR) SR Fault ListCall ListReply}
    (hreachable : cpu.processor.Reachable (libraryClients target allowed)
      (cpu.processor.start shared (.initial status cpuSR) first statuses) config) :
    AppearsAtomic (libraryClients target allowed) shared config := by
  have hvisible : ∀ moves client request,
      (libraryClients target allowed).allowed (visible moves) client request →
        (libraryClients target allowed).allowed moves client request := by
    intro moves client request hallowed
    exact (congrArg (allowed · client request) (visible_visible moves)).mp hallowed
  obtain ⟨seen, hseen, hsimulates⟩ := Processor.Simulates.reachable SingleCore.processor_excludes
    (ListCall.balanced target) hvisible ⟨rfl, rfl, rfl⟩ hreachable
  exact ⟨fun client activity hother hactivity => (hsimulates.waiting _ _ hother hactivity).1,
    seen, hseen, hsimulates.moves, hsimulates.shared_eq, hsimulates.faultless⟩

/-- The main program has read the interrupt status when a handler cuts in, which
makes a whole allocation of its own; then the main program goes on. -/
def preemptedAllocation : List (ProcessorChoice Bool ListCall (BitVec 32)) :=
  [.call (.pool (.allocateAuto 8)), .advance, .advance, .turn true 0,
    .call (.pool (.allocateAuto 8))] ++ List.replicate 191 .advance ++
    [.finish, .turn false 0] ++ List.replicate 136 .advance ++ [.finish]

theorem library_sections_atomic_preempted : ∃ config,
    cortexM.processor.Reachable (libraryClients linux64 fun _ _ _ => True)
      (cortexM.processor.start .initial (.initial 0 0) false fun _ => 0) config ∧
    config.moves.length = 4 ∧
    AppearsAtomic (libraryClients linux64 fun _ _ _ => True) .initial config := by
  have hlength : (cortexM.processor.schedule (libraryClients linux64 fun _ _ _ => True)
      (cortexM.processor.start .initial (.initial 0 0) false fun _ => 0)
        preemptedAllocation).map (·.moves.length) = some 4 := by
    decide +kernel
  obtain ⟨config, hschedule, hmoves⟩ := Option.map_eq_some_iff.mp hlength
  have hreachable := Processor.steps_of_schedule hschedule
  exact ⟨config, hreachable, hmoves, library_sections_atomic linux64 hreachable⟩

end MicroTbx

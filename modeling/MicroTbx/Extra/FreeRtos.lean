import MicroTbx.Foundation.Linearization
import MicroTbx.MemPool.Objects
import MicroTbx.MemPool.Sections
import MicroTbx.MemPool.Sufficiency

/-! # The heap of FreeRTOS

With the file for FreeRTOS in a program, tasks allocate from the memory pools.
The scheduler is suspended from the first attempt to the last, so that no task
takes the block that was made for another. An allocation fails only when no
pool has a block and the heap has no room for one.
-/

namespace MicroTbx

open Program

/-- What the file uses of the kernel and of the application. -/
structure Kernel where
  vTaskSuspendAll : Code Unit
  xTaskResumeAll : Code Unit
  vApplicationMallocFailedHook : Code Unit
  configUseMallocFailedHook : Bool

/-- What tasks rely on, where they are the only contexts. -/
structure Kernel.Suspends (kernel : Kernel) : Prop where
  /-- No other task runs until the last suspension was undone. -/
  suspends : kernel.vTaskSuspendAll = enterCritical
  resumes : kernel.xTaskResumeAll = leaveCritical
  /-- The hook returns, and does not use the library. -/
  hook : kernel.vApplicationMallocFailedHook = pure ()

section Functions

variable (kernel : Kernel) (target : Target)

/-- What `pvPortMalloc` does while the scheduler is suspended. -/
def allocateOrExtend (xWantedSize : Nat) : Code Nat := do
  let result ← tbxMemPoolAllocate target xWantedSize
  if result = null then do
    let _ ← tbxMemPoolCreate target 1 xWantedSize
    tbxMemPoolAllocate target xWantedSize
  else pure result

def pvPortMalloc (xWantedSize : Nat) : Code Nat := do
  kernel.vTaskSuspendAll
  let result ← allocateOrExtend target xWantedSize
  kernel.xTaskResumeAll
  if kernel.configUseMallocFailedHook = true ∧ result = null then
    kernel.vApplicationMallocFailedHook
    pure result
  else pure result

def vPortFree (pv : Nat) : Code Unit := tbxMemPoolRelease target pv

end Functions

/-! ## Tasks -/

/-- What a task does with memory. -/
inductive TaskCall
  | malloc (xWantedSize : Nat)
  | free (pv : Nat)
  /-- A task uses the pools itself. -/
  | pool (call : PoolCall)

/-- What an allocation does to the objects. -/
def givenEvent (size data : Nat) : StoreEvent Nat :=
  if data = null then .idle else .made size data

abbrev TaskExchange := Exchange State TaskCall PoolReply

abbrev TaskMoves (Task : Type) := List (Task × ClientMove State TaskCall PoolReply)

namespace TaskCall

variable (kernel : Kernel) (target : Target)

def perform : TaskCall → Code PoolReply
  | .malloc xWantedSize => do
      let result ← pvPortMalloc kernel target xWantedSize
      return .pointer result
  | .free pv => do
      vPortFree target pv
      return .none
  | .pool call => call.perform target

/-- Arguments that tasks pass. Calls of the pools that are not one section are
left out: another task could come in between. -/
def Valid : TaskCall → Prop
  | .malloc xWantedSize => xWantedSize < 2 ^ target.sizeBits ∧ target.Sound xWantedSize
  | .pool (.create numBlocks blockSize) => 0 < numBlocks ∧ 0 < blockSize ∧
      numBlocks < 2 ^ target.sizeBits ∧ blockSize < 2 ^ target.sizeBits ∧ target.Sound blockSize
  | .pool (.heapAllocate size) => 0 < size ∧ size < 2 ^ target.sizeBits
  | .pool (.allocate size) => size < 2 ^ target.sizeBits
  | .free _ | .pool (.release _) => True
  | .pool (.allocateAuto _) | .pool (.write _ _ _) => False

instance (call : TaskCall) : Decidable (call.Valid target) :=
  match call with
  | .malloc _ => inferInstanceAs (Decidable (_ ∧ _))
  | .pool (.create _ _) => inferInstanceAs (Decidable (_ ∧ _ ∧ _ ∧ _ ∧ _))
  | .pool (.heapAllocate _) => inferInstanceAs (Decidable (_ ∧ _))
  | .pool (.allocate _) => inferInstanceAs (Decidable (_ < _))
  | .free _ | .pool (.release _) => inferInstanceAs (Decidable True)
  | .pool (.allocateAuto _) | .pool (.write _ _ _) => inferInstanceAs (Decidable False)

/-- The block that the call gives back. -/
def released? : TaskCall → Option Nat
  | .free pv | .pool (.release pv) => some pv
  | _ => none

/-- What the call does to the objects. -/
def event : TaskCall → PoolReply → StoreEvent Nat
  | .malloc size, .pointer data | .pool (.allocate size), .pointer data => givenEvent size data
  | .free pv, _ | .pool (.release pv), _ => .dropped pv
  | _, _ => .idle

end TaskCall

def TaskExchange.event (exchange : TaskExchange) : StoreEvent Nat :=
  exchange.request.event exchange.result

/-- The calls one after the other. -/
def taskInterface (kernel : Kernel) (target : Target) : Interface State Fault TaskCall PoolReply where
  initial := .initial
  allowed _ state call := call.Valid target ∧ ∀ pv ∈ call.released?, pv ∈ handedOut state.log
  perform := TaskCall.perform kernel target

/-- The blocks that tasks were told of and have not given back. -/
def atLarge {Task : Type} : TaskMoves Task → List Nat
  | [] => []
  | (_, .called request) :: earlier =>
      (atLarge earlier).filter fun data => some data ≠ request.released?
  | (_, .returned request reply) :: earlier =>
      match request.event reply with
      | .made _ data => data :: atLarge earlier
      | _ => atLarge earlier
  | (_, .stepped _ _ _) :: earlier => atLarge earlier

/-- Tasks that give back, once each, blocks that they were given. -/
def taskClients (Task : Type) (kernel : Kernel) (target : Target) :
    Clients Task State Fault TaskCall PoolReply where
  allowed moves _ call := call.Valid target ∧ ∀ pv ∈ call.released?, pv ∈ atLarge moves
  perform := TaskCall.perform kernel target

instance {Task : Type} (kernel : Kernel) (target : Target) (moves : TaskMoves Task) (task : Task)
    (call : TaskCall) : Decidable ((taskClients Task kernel target).allowed moves task call) :=
  inferInstanceAs (Decidable (_ ∧ ∀ pv ∈ call.released?, pv ∈ atLarge moves))

/-! ## One allocation -/

section Statement

variable (target : Target) (state : State) (poolNodes : List Nat) (size data : Nat) (after : State)

/-- What an allocation of a task returns and does. -/
structure Mallocs : Prop where
  /-- It fails when no pool has a block and the heap has no room for one. -/
  returned : data ≠ null ↔ Serves target state size ∨
    0 < size ∧ creationBytes target state poolNodes 1 size ≤ state.room target
  made : data ≠ null → data ∉ handedOut state.log ∧
    handedOut after.log = data :: handedOut state.log ∧ InHeap target after (.fresh size data)
  refused : data = null → handedOut after.log = handedOut state.log
  /-- The heap is used when no pool has a block. -/
  heap : data ≠ null →
    (Serves target state size → after.tbxHeapAllocated = state.tbxHeapAllocated) ∧
    (¬ Serves target state size → after.tbxHeapAllocated =
      state.tbxHeapAllocated + creationBytes target state poolNodes 1 size)

end Statement

variable {kernel : Kernel} {target : Target} {owner larger : Ownership} {views middles others : List PoolView}
  {objects : List (StoredObject Nat)} {state middle after : State} {size data : Nat} {status : Status}
  {reply : PoolReply} {call : TaskCall}

variable (target owner views state size) in
/-- An allocation is one attempt, or two with a creation in between. -/
inductive MallocStep : Nat → Ownership → List PoolView → State → Prop
  | direct {data : Nat} {larger : Ownership} {others : List PoolView} {after : State}
      (ne_null : data ≠ null)
      (step : PoolStep target owner views state (.allocate size) (.pointer data) larger others after) :
      MallocStep data larger others after
  | extended {data : Nat} {refusedOwner wider larger : Ownership}
      {refusedViews middles others : List PoolView} {refused middle after : State} {status : Status}
      (first : PoolStep target owner views state (.allocate size) (.pointer null) refusedOwner
        refusedViews refused)
      (creation : PoolStep target refusedOwner refusedViews refused (.create 1 size)
        (.status status) wider middles middle)
      (second : PoolStep target wider middles middle (.allocate size) (.pointer data) larger others
        after) :
      MallocStep data larger others after

/-- A pool of one size that has a free block has been given one. -/
theorem PoolView.Extended.ok_of_serves {front back : List PoolView} {view other : PoolView}
    {room : Nat} (hextended : view.Extended other (blocksMade target size 1 room))
    (hascending : BestFit.Ascending PoolView.blockSize (front ++ other :: back))
    (hsize : view.blockSize = size) (hempty : view.free = [])
    (hserves : BestFit.Serves PoolView.blockSize PoolView.Stocked (front ++ other :: back) size) :
    blocksMade target size 1 room = 1 := by
  have hother : other.blockSize = size := hextended.same.blockSize.trans hsize
  rw [← hother, BestFit.serves_exact_iff hascending, hextended.stocked_iff hempty] at hserves
  have hle : blocksMade target size 1 room ≤ 1 := Nat.min_le_left ..
  exact Nat.le_antisymm hle hserves

/-- Blocks are handed out by allocations that answer, and given back by releases. -/
theorem PoolStep.handedOut_eq {call : PoolCall}
    (hstep : PoolStep target owner views state call reply larger others after)
    (hpools : PoolsAt target owner views state) (hrelease : ∀ memPtr, call ≠ .release memPtr)
    (hallocation : call.IsAllocation → reply = .pointer null) :
    handedOut after.log = handedOut state.log := by
  cases hstep with
  | createInvalid invalid rejected =>
      rcases rejected with rfl | rfl
      · rfl
      · rfl
  | create someBlocks size creates => exact (creates.pools hpools).2.2.1
  | allocateInvalid => rfl
  | allocateRefused positive refused => rfl
  | allocate positive takes =>
      cases hallocation trivial
      exact absurd rfl (takes.ne_null hpools)
  | autoInvalid => rfl
  | auto positive allocates =>
      cases hallocation trivial
      cases allocates with
      | direct exact takes => exact absurd rfl (takes.ne_null hpools)
      | created creates takes => exact absurd rfl (takes.ne_null (creates.pools hpools).1)
      | failed creates => exact (creates.pools hpools).2.2.1
  | release split used out => exact absurd rfl (hrelease _)
  | heapAllocate grown room checks => exact grown.handedOut
  | write data => rfl

theorem PoolStep.handedOut_allocate
    (hstep : PoolStep target owner views state (.allocate size) (.pointer data) larger others after)
    (hpools : PoolsAt target owner views state) :
    handedOut after.log =
      if data = null then handedOut state.log else data :: handedOut state.log := by
  split
  · next hnull =>
      exact hstep.handedOut_eq hpools nofun fun _ => congrArg PoolReply.pointer hnull
  · next hne => exact hstep.handsOut hpools trivial rfl hne

theorem ObjectsAt.allocate (hobjects : ObjectsAt target owner views objects state)
    (hstep : PoolStep target owner views state (.allocate size) (.pointer data) larger others after) :
    ObjectsAt target larger others (ObjectStore.step objects (givenEvent size data)) after := by
  unfold givenEvent
  split
  · exact hobjects.poolStep hstep trivial
  · next hne =>
      exact hobjects.made hstep trivial hne (hstep.stored hobjects.pools (.inl rfl) hne)

/-- A creation of one block for a size that is not served makes it served, or
fails. -/
theorem Creates.serves_one_iff
    (hcreates : Creates target owner views state 1 size status larger others after)
    (hpools : PoolsAt target owner views state)
    (hrefused : ¬ BestFit.Serves PoolView.blockSize PoolView.Stocked views size) :
    BestFit.Serves PoolView.blockSize PoolView.Stocked others size ↔ status = .ok := by
  have hafter := (hcreates.pools hpools).1
  constructor
  · intro hserves
    cases hcreates with
    | @extended front back view other larger after split sameSize extension =>
        subst split
        have hempty : view.free = [] := by
          rw [← sameSize, BestFit.serves_exact_iff hpools.list.ascending] at hrefused
          exact not_not.mp hrefused
        exact status_ok_iff.mpr
          (extension.extended.ok_of_serves hafter.list.ascending sameSize hempty hserves)
    | created split below above room sameSize noFree noOut extension =>
        exact status_ok_iff.mpr
          (extension.extended.ok_of_serves hafter.list.ascending sameSize noFree hserves)
    | refused none noRoom grown checked => exact absurd hserves hrefused
  · rintro rfl
    obtain ⟨view, hview, hsize, hstocked⟩ := hcreates.ok_stocked Nat.one_pos
    exact serves_of_stocked hafter.list.ascending hview hsize hstocked

/-- A request that is answered is served by its best fit. -/
theorem Takes.serves (htakes : Takes target views state size data others after) :
    BestFit.Serves PoolView.blockSize PoolView.Stocked views size := by
  obtain ⟨rfl, fit, free⟩ := htakes
  exact ⟨_, fit, List.ne_nil_of_mem (free ▸ List.mem_cons_self)⟩

/-- An allocation of a task executed alone. -/
theorem PoolsAt.allocateOrExtend (hpools : PoolsAt target owner views state)
    (hsound : target.Sound size) :
    (allocateOrExtend target size).Returns state fun data after =>
      ∃ larger others, MallocStep target owner views state size data larger others after := by
  unfold MicroTbx.allocateOrExtend
  rcases Nat.eq_zero_or_pos size with rfl | hsize
  · -- All three calls reject the size.
    apply tbxMemPoolAllocate_zero.bind
    rw [if_pos rfl]
    apply (tbxMemPoolCreate_invalid (by simp)).bind
    rintro status middle ⟨rfl, hrejected⟩
    apply Returns.mono tbxMemPoolAllocate_zero
    rintro _ _ ⟨rfl, rfl⟩
    exact ⟨owner, views, .extended .allocateInvalid (.createInvalid (by simp) hrejected)
      .allocateInvalid⟩
  · apply (hpools.allocate hsize).bind
    rintro data after (⟨-, others, htakes⟩ | ⟨hrefused, rfl, rfl⟩)
    · have hne := htakes.ne_null hpools
      rw [if_neg hne]
      exact (returns_pure _).mpr ⟨owner, others, .direct hne (.allocate hsize htakes)⟩
    · rw [if_pos rfl]
      apply (hpools.create Nat.one_pos hsize hsound).bind
      rintro status middle ⟨wider, middles, hcreates⟩
      have hcreation := PoolStep.create Nat.one_pos hsize hcreates
      apply ((hcreates.pools hpools).1.allocate hsize).mono
      rintro data last (⟨-, others, htakes⟩ | ⟨hstill, rfl, rfl⟩)
      · exact ⟨wider, others, .extended (.allocateRefused hsize hrefused) hcreation
          (.allocate hsize htakes)⟩
      · exact ⟨wider, middles, .extended (.allocateRefused hsize hrefused) hcreation
          (.allocateRefused hsize hstill)⟩

namespace MallocStep

theorem pools (hstep : MallocStep target owner views state size data larger others after)
    (hpools : PoolsAt target owner views state) : PoolsAt target larger others after := by
  cases hstep with
  | direct ne_null step => exact step.pools hpools
  | extended first creation second =>
      exact second.pools (creation.pools (first.pools hpools))

/-- Only argument checks fail. -/
theorem checks (hstep : MallocStep target owner views state size data larger others after)
    (hpools : PoolsAt target owner views state) :
    ∀ failed ∈ asserted after.log, failed ∈ asserted state.log ∨ failed ∈ argumentChecks := by
  cases hstep with
  | direct ne_null step => exact step.checks hpools
  | extended first creation second =>
      have hrefused := first.pools hpools
      have hmiddle := creation.pools hrefused
      intro failed hfailed
      rcases second.checks hmiddle failed hfailed with hearlier | hargument
      · rcases creation.checks hrefused failed hearlier with hearlier | hargument
        · exact first.checks hpools failed hearlier
        · exact .inr hargument
      · exact .inr hargument

/-- The objects of the tasks stay, and the block that is returned holds a new
one. -/
theorem keepsObjects (hstep : MallocStep target owner views state size data larger others after)
    (hobjects : ObjectsAt target owner views objects state) :
    ObjectsAt target larger others (ObjectStore.step objects (givenEvent size data)) after := by
  cases hstep with
  | direct ne_null step => exact hobjects.allocate step
  | extended first creation second =>
      exact ((hobjects.poolStep first trivial).poolStep creation trivial).allocate second

/-- It fails exactly when no pool has a block and the heap has no room. -/
theorem returned (hstep : MallocStep target owner views state size data larger others after)
    (hpools : PoolsAt target owner views state) :
    data ≠ null ↔ Serves target state size ∨
      0 < size ∧ creationBytes target state (views.map PoolView.node) 1 size ≤ state.room target := by
  cases hstep with
  | direct ne_null step =>
      cases step with
      | allocateInvalid => exact absurd rfl ne_null
      | allocateRefused positive refused => exact absurd rfl ne_null
      | allocate positive takes =>
          exact iff_of_true ne_null (.inl (hpools.serves_iff.mpr ⟨positive, takes.serves⟩))
  | extended first creation second =>
      rw [hpools.serves_iff]
      cases first with
      | allocateInvalid =>
          cases second with
          | allocateInvalid => simp
          | allocateRefused positive refused => exact absurd positive (Nat.lt_irrefl 0)
          | allocate positive takes => exact absurd positive (Nat.lt_irrefl 0)
      | allocate positive takes => exact absurd rfl (takes.ne_null hpools)
      | allocateRefused positive refused =>
          cases creation with
          | createInvalid invalid rejected => exact absurd ⟨Nat.one_pos, positive⟩ invalid
          | create someBlocks size creates =>
              have hserved := creates.serves_one_iff hpools refused
              rw [creates.ok_iff hpools] at hserved
              cases second with
              | allocateInvalid => exact absurd positive (Nat.lt_irrefl 0)
              | allocateRefused _ still => simp [refused, ← hserved, still]
              | allocate _ takes =>
                  have hne := takes.ne_null (creates.pools hpools).1
                  exact iff_of_true hne (.inr ⟨positive, hserved.mp takes.serves⟩)

/-- A block is handed out when one is returned. -/
theorem handedOut_eq (hstep : MallocStep target owner views state size data larger others after)
    (hpools : PoolsAt target owner views state) :
    handedOut after.log =
      if data = null then handedOut state.log else data :: handedOut state.log := by
  cases hstep with
  | direct ne_null step => exact step.handedOut_allocate hpools
  | extended first creation second =>
      have hrefused := first.pools hpools
      rw [second.handedOut_allocate (creation.pools hrefused),
        creation.handedOut_eq hrefused nofun False.elim, first.handedOut_eq hpools nofun fun _ => rfl]

/-- The heap is used when no pool has a block, as far as it is needed. -/
theorem heapUsed (hstep : MallocStep target owner views state size data larger others after)
    (hpools : PoolsAt target owner views state) (hne : data ≠ null) :
    (Serves target state size → after.tbxHeapAllocated = state.tbxHeapAllocated) ∧
    (¬ Serves target state size → after.tbxHeapAllocated =
      state.tbxHeapAllocated + creationBytes target state (views.map PoolView.node) 1 size) := by
  rw [hpools.serves_iff]
  cases hstep with
  | direct ne_null step =>
      cases step with
      | allocateInvalid => exact absurd rfl hne
      | allocateRefused positive refused => exact absurd rfl hne
      | allocate positive takes =>
          exact ⟨fun _ => takes.bytes.1, fun hnot => absurd ⟨positive, takes.serves⟩ hnot⟩
  | extended first creation second =>
      cases first with
      | allocateInvalid =>
          cases second with
          | allocateInvalid => exact absurd rfl hne
          | allocateRefused positive refused => exact absurd rfl hne
          | allocate positive takes => exact absurd positive (Nat.lt_irrefl 0)
      | allocate positive takes => exact absurd rfl (takes.ne_null hpools)
      | allocateRefused positive refused =>
          cases creation with
          | createInvalid invalid rejected => exact absurd ⟨Nat.one_pos, positive⟩ invalid
          | create someBlocks size creates =>
              cases second with
              | allocateInvalid => exact absurd rfl hne
              | allocateRefused _ still => exact absurd rfl hne
              | allocate _ takes =>
                  obtain rfl := (creates.serves_one_iff hpools refused).mp takes.serves
                  refine ⟨fun hserves => absurd hserves.2 refused, fun _ => ?_⟩
                  rw [takes.bytes.1, creates.allocated_eq hpools positive]

theorem mallocs (hstep : MallocStep target owner views state size data larger others after)
    (hpools : PoolsAt target owner views state) :
    Mallocs target state (views.map PoolView.node) size data after where
  returned := hstep.returned hpools
  made := by
    intro hne
    have hnone : ObjectsAt target owner views [] state :=
      ⟨hpools, by simp, by simp, List.nodup_nil⟩
    have hobjects := hstep.keepsObjects hnone
    rw [givenEvent, if_neg hne] at hobjects
    have hout := hstep.handedOut_eq hpools
    rw [if_neg hne] at hout
    have hnodup := hobjects.pools.handedOut_nodup
    rw [hout] at hnodup
    exact ⟨(List.nodup_cons.mp hnodup).1, hout, hobjects.inHeap List.mem_cons_self⟩
  refused := by
    intro hnull
    rw [hstep.handedOut_eq hpools, if_pos hnull]
  heap := hstep.heapUsed hpools

end MallocStep

theorem Kernel.Suspends.pvPortMalloc_returns (hkernel : kernel.Suspends)
    {spec : Nat → State → Prop} (hreturns : (allocateOrExtend target size).Returns state spec) :
    (pvPortMalloc kernel target size).Returns state spec := by
  intro depth
  rw [pvPortMalloc, hkernel.suspends, hkernel.resumes, hkernel.hook, wp_bind, wp_enterCritical,
    wp_bind]
  apply hreturns.wp
  intro result after hspec
  rw [wp_bind, wp_leaveCritical]
  split
  · exact ⟨rfl, hspec⟩
  · exact ⟨rfl, hspec⟩

theorem Kernel.Suspends.pvPortMalloc_atomic (hkernel : kernel.Suspends) :
    (pvPortMalloc kernel target size).Atomic := by
  have hbody : (allocateOrExtend target size).Balanced 0 := by
    unfold allocateOrExtend
    repeat' with_reducible first | apply Balanced.part | apply Balanced.ite | intro _ | simp
  unfold pvPortMalloc
  rw [hkernel.suspends, hkernel.resumes, hkernel.hook]
  apply Atomic.enter
  apply Closes.bind hbody
  intro result
  refine ⟨result, ?_⟩
  split
  · rfl
  · rfl

/-! ## One call -/

/-- The blocks that are handed out hold the objects, each its own. -/
structure TasksAt (target : Target) (owner : Ownership) (views : List PoolView)
    (objects : List (StoredObject Nat)) (state : State) : Prop where
  stored : ObjectsAt target owner views objects state
  complete : ∀ data ∈ handedOut state.log, data ∈ objects.map StoredObject.pointer
  checks : ∀ failed ∈ asserted state.log, failed ∈ argumentChecks

/-- What a call of a task does. -/
structure TaskStep (target : Target) (views : List PoolView) (objects : List (StoredObject Nat))
    (state : State) (call : TaskCall) (reply : PoolReply) (after : State) : Prop where
  keeps : ∃ larger others,
    TasksAt target larger others (ObjectStore.step objects (call.event reply)) after
  permits : ObjectStore.Permits objects (call.event reply)
  malloc : ∀ size, call = .malloc size → ∃ data, reply = .pointer data ∧
    Mallocs target state (views.map PoolView.node) size data after

namespace TasksAt

theorem initial : TasksAt target (fun _ => none) [] [] .initial where
  stored := .initial
  complete := fun _ hdata => by cases hdata
  checks := fun _ hfailed => by cases hfailed

theorem handedOut_iff (htasks : TasksAt target owner views objects state) :
    data ∈ handedOut state.log ↔ data ∈ objects.map StoredObject.pointer := by
  constructor
  · exact htasks.complete data
  · intro hmem
    obtain ⟨object, hobject, rfl⟩ := List.mem_map.mp hmem
    exact htasks.stored.out object hobject

/-- A block that was allocated holds a new object. -/
theorem allocated (htasks : TasksAt target owner views objects state)
    (hobjects : ObjectsAt target larger others
      (ObjectStore.step objects (givenEvent size data)) after)
    (hout : handedOut after.log =
      if data = null then handedOut state.log else data :: handedOut state.log)
    (hchecks : ∀ failed ∈ asserted after.log,
      failed ∈ asserted state.log ∨ failed ∈ argumentChecks) :
    TasksAt target larger others (ObjectStore.step objects (givenEvent size data)) after ∧
      ObjectStore.Permits objects (givenEvent size data) := by
  have hfailed : ∀ failed ∈ asserted after.log, failed ∈ argumentChecks :=
    fun failed hmem => (hchecks failed hmem).elim (htasks.checks failed) id
  unfold givenEvent at hobjects ⊢
  split at hobjects
  · next hnull =>
      rw [if_pos hnull] at hout ⊢
      exact ⟨⟨hobjects, hout ▸ htasks.complete, hfailed⟩, trivial⟩
  · next hne =>
      rw [if_neg hne] at hout ⊢
      refine ⟨⟨hobjects, ?_, hfailed⟩, (hobjects.stored _ List.mem_cons_self).positive, ?_⟩
      · rw [hout]
        intro other hother
        rcases List.mem_cons.mp hother with rfl | hold
        · exact List.mem_cons_self
        · exact List.mem_cons_of_mem _ (htasks.complete other hold)
      · intro object hobject
        have hfresh := (List.nodup_cons.mp hobjects.distinct).1
        apply hobjects.apart_of_ne (List.mem_cons_of_mem _ hobject) List.mem_cons_self
        exact fun heq => hfresh (heq ▸ List.mem_map_of_mem hobject)

/-- A call that neither allocates nor releases. -/
theorem idle (htasks : TasksAt target owner views objects state) {call : PoolCall}
    (hstep : PoolStep target owner views state call reply larger others after)
    (hspares : call.Spares (objects.map StoredObject.pointer))
    (hrelease : ∀ memPtr, call ≠ .release memPtr) (hallocation : ¬ call.IsAllocation) :
    TasksAt target larger others objects after := by
  have hpools := htasks.stored.pools
  refine ⟨htasks.stored.poolStep hstep hspares, ?_, ?_⟩
  · rw [hstep.handedOut_eq hpools hrelease fun hcall => absurd hcall hallocation]
    exact htasks.complete
  · exact fun failed hmem => (hstep.checks hpools failed hmem).elim (htasks.checks failed) id

/-- An object whose block is given back is gone. -/
theorem released (htasks : TasksAt target owner views objects state)
    (hstep : PoolStep target owner views state (.release data) reply larger others after) :
    TasksAt target larger others (ObjectStore.step objects (.dropped data)) after := by
  have hpools := htasks.stored.pools
  refine ⟨htasks.stored.dropped hstep, ?_, ?_⟩
  · intro other hother
    obtain ⟨-, -, hout, -⟩ := hstep.reuses hpools rfl
    rw [hout, hpools.handedOut_nodup.mem_erase_iff] at hother
    obtain ⟨hne, hmem⟩ := hother
    obtain ⟨object, hobject, rfl⟩ := List.mem_map.mp (htasks.complete other hmem)
    exact List.mem_map_of_mem (List.mem_filter.mpr ⟨hobject, decide_eq_true hne⟩)
  · exact fun failed hmem => (hstep.checks hpools failed hmem).elim (htasks.checks failed) id

/-- Every call that is allowed returns, having done what it is for. -/
theorem perform (htasks : TasksAt target owner views objects state) (hkernel : kernel.Suspends)
    (hvalid : call.Valid target) (hreleased : ∀ pv ∈ call.released?, pv ∈ handedOut state.log) :
    (call.perform kernel target).Returns state fun reply after =>
      TaskStep target views objects state call reply after := by
  have hpools := htasks.stored.pools
  have hpool : ∀ call : PoolCall, call.Allowed target state → call.BlockSize target.Sound →
      (call.perform target).Returns state fun reply after =>
        ∃ larger others, PoolStep target owner views state call reply larger others after :=
    fun _ => hpools.step
  have hrelease : ∀ pv, pv ∈ handedOut state.log →
      ((PoolCall.release pv).perform target).Returns state fun reply after =>
        (∃ larger others,
          TasksAt target larger others (ObjectStore.step objects (.dropped pv)) after) ∧
        ObjectStore.Permits objects (.dropped pv) := by
    intro pv hpv
    apply (hpool (.release pv) hpv trivial).mono
    rintro reply after ⟨larger, others, hstep⟩
    exact ⟨⟨larger, others, htasks.released hstep⟩, List.mem_map.mp (htasks.complete pv hpv)⟩
  cases call with
  | malloc size =>
      apply (hkernel.pvPortMalloc_returns (hpools.allocateOrExtend hvalid.2)).bind
      rintro data after ⟨larger, others, hstep⟩
      obtain ⟨hafter, hpermits⟩ := htasks.allocated (hstep.keepsObjects htasks.stored)
        (hstep.handedOut_eq hpools) (hstep.checks hpools)
      apply (returns_pure _).mpr
      refine ⟨⟨larger, others, hafter⟩, hpermits, ?_⟩
      rintro _ ⟨⟩
      exact ⟨data, rfl, hstep.mallocs hpools⟩
  | free pv =>
      apply (hrelease pv (hreleased pv rfl)).mono
      exact fun reply after hdone => ⟨hdone.1, hdone.2, nofun⟩
  | pool call =>
      cases call with
      | create numBlocks blockSize =>
          obtain ⟨-, -, hcount, hsize, hsound⟩ := hvalid
          apply (hpool (.create numBlocks blockSize) ⟨hcount, hsize⟩ hsound).mono
          rintro reply after ⟨larger, others, hstep⟩
          exact ⟨⟨larger, others, htasks.idle hstep trivial nofun id⟩, trivial, nofun⟩
      | allocate size =>
          apply (hpool (.allocate size) hvalid trivial).mono
          rintro reply after ⟨larger, others, hstep⟩
          obtain ⟨data, rfl⟩ : ∃ data, reply = .pointer data := by
            cases hstep <;> exact ⟨_, rfl⟩
          obtain ⟨hafter, hpermits⟩ := htasks.allocated (htasks.stored.allocate hstep)
            (hstep.handedOut_allocate hpools) (hstep.checks hpools)
          exact ⟨⟨larger, others, hafter⟩, hpermits, nofun⟩
      | allocateAuto size => exact hvalid.elim
      | release pv =>
          apply (hrelease pv (hreleased pv rfl)).mono
          exact fun reply after hdone => ⟨hdone.1, hdone.2, nofun⟩
      | heapAllocate size =>
          apply (hpool (.heapAllocate size) hvalid.2 trivial).mono
          rintro reply after ⟨larger, others, hstep⟩
          exact ⟨⟨larger, others, htasks.idle hstep trivial nofun id⟩, trivial, nofun⟩
      | write memPtr index value => exact hvalid.elim

end TasksAt

theorem TaskCall.event_cases (call : TaskCall) (reply : PoolReply) :
    call.event reply = .idle ∨ (∃ size data, call.event reply = .made size data) ∨
      ∃ pv, call.event reply = .dropped pv ∧ call.released? = some pv := by
  have hgiven : ∀ size data, givenEvent size data = .idle ∨
      ∃ wanted made, givenEvent size data = .made wanted made := by
    intro size data
    unfold givenEvent
    split
    · exact .inl rfl
    · exact .inr ⟨size, data, rfl⟩
  cases call with
  | malloc size =>
      cases reply with
      | pointer data => exact (hgiven size data).imp_right .inl
      | _ => exact .inl rfl
  | free pv => exact .inr (.inr ⟨pv, rfl, rfl⟩)
  | pool call =>
      cases call with
      | allocate size =>
          cases reply with
          | pointer data => exact (hgiven size data).imp_right .inl
          | _ => exact .inl rfl
      | release pv => exact .inr (.inr ⟨pv, rfl, rfl⟩)
      | _ => exact .inl rfl

namespace TaskStep

/-- Blocks that are not given back stay with the tasks. -/
theorem kept (hstep : TaskStep target views objects state call reply after)
    (htasks : TasksAt target owner views objects state) (hdata : data ∈ handedOut state.log)
    (hreleased : call.released? ≠ some data) : data ∈ handedOut after.log := by
  obtain ⟨larger, others, hafter⟩ := hstep.keeps
  rw [hafter.handedOut_iff]
  rw [htasks.handedOut_iff] at hdata
  rcases call.event_cases reply with hevent | ⟨size, new, hevent⟩ | ⟨pv, hevent, hpv⟩
  · rw [hevent]
    exact hdata
  · rw [hevent]
    exact List.mem_cons_of_mem _ hdata
  · rw [hevent]
    obtain ⟨object, hobject, rfl⟩ := List.mem_map.mp hdata
    refine List.mem_map_of_mem (List.mem_filter.mpr ⟨hobject, decide_eq_true ?_⟩)
    rintro rfl
    exact hreleased hpv

/-- A block that is allocated was nobody's. -/
theorem fresh (hstep : TaskStep target views objects state call reply after)
    (htasks : TasksAt target owner views objects state) (hevent : call.event reply = .made size data) :
    data ∈ handedOut after.log ∧ data ∉ handedOut state.log := by
  obtain ⟨larger, others, hafter⟩ := hstep.keeps
  rw [hevent] at hafter
  rw [hafter.handedOut_iff, htasks.handedOut_iff]
  exact ⟨List.mem_cons_self, (List.nodup_cons.mp hafter.stored.distinct).1⟩

end TaskStep

/-! ## Calls one after the other -/

/-- What tasks are promised of one call. -/
def MeetsPromise (target : Target) (exchange : TaskExchange) : Prop :=
  ∀ size, exchange.request = .malloc size → ∃ poolNodes data,
    PoolNodes target exchange.before poolNodes ∧ exchange.result = .pointer data ∧
      Mallocs target exchange.before poolNodes size data exchange.after

/-- The objects that a run of calls has made are in the heap. -/
theorem TasksAt.of_run (hkernel : kernel.Suspends) {history : List TaskExchange}
    (hrun : (taskInterface kernel target).Run history state) :
    ∃ owner views, TasksAt target owner views
        (ObjectStore.objects (history.map TaskExchange.event)) state ∧
      ObjectStore.Legal (history.map TaskExchange.event) ∧
      ∀ exchange ∈ history, MeetsPromise target exchange := by
  induction hrun with
  | start => exact ⟨_, _, .initial, trivial, fun _ hexchange => by cases hexchange⟩
  | @step history before after call reply prior isAllowed returned ih =>
      obtain ⟨owner, views, htasks, hlegal, hpromise⟩ := ih
      obtain ⟨-, hstep⟩ := (htasks.perform hkernel isAllowed.1 isAllowed.2).of_run returned
      obtain ⟨larger, others, hafter⟩ := hstep.keeps
      refine ⟨larger, others, hafter, ⟨hstep.permits, hlegal⟩,
        List.forall_mem_cons.mpr ⟨?_, hpromise⟩⟩
      intro size hcall
      obtain ⟨data, hreply, hmallocs⟩ := hstep.malloc size hcall
      exact ⟨_, data, htasks.stored.pools.poolNodes, hreply, hmallocs⟩

/-! ## Tasks at the same time -/

section Interleaving

variable {Task : Type} [DecidableEq Task] {task other : Task} {moves : TaskMoves Task}
  {pending : Task → Option (PendingRequest TaskCall PoolReply)}

/-- The call has a block in hand: one to give back, or one to return. -/
def InHand (waits : PendingRequest TaskCall PoolReply) (data : Nat) : Prop :=
  match waits.answer with
  | none => waits.request.released? = some data
  | some reply => ∃ size, waits.request.event reply = .made size data

/-- Every block that was handed out is at large, or in one hand. -/
structure Distributed (target : Target) (moves : TaskMoves Task)
    (pending : Task → Option (PendingRequest TaskCall PoolReply)) (state : State) : Prop where
  tasks : ∃ owner views objects, TasksAt target owner views objects state
  valid : ∀ task request, pending task = some ⟨request, none⟩ → request.Valid target
  atLarge : ∀ data ∈ atLarge moves, data ∈ handedOut state.log
  once : (MicroTbx.atLarge moves).Nodup
  inHand : ∀ task waits data, pending task = some waits → InHand waits data →
    data ∈ handedOut state.log ∧ data ∉ MicroTbx.atLarge moves
  apart : ∀ task other waits others data, pending task = some waits → pending other = some others →
    InHand waits data → InHand others data → task = other

theorem update_cases {now : Option (PendingRequest TaskCall PoolReply)}
    {waits : PendingRequest TaskCall PoolReply}
    (hwaits : Function.update pending task now other = some waits) :
    (other = task ∧ now = some waits) ∨ (other ≠ task ∧ pending other = some waits) := by
  by_cases hother : other = task
  · subst hother
    rw [Function.update_self] at hwaits
    exact .inl ⟨rfl, hwaits⟩
  · rw [Function.update_of_ne hother] at hwaits
    exact .inr ⟨hother, hwaits⟩

namespace Distributed

/-- Hands stay apart when one task takes what is in no other hand. -/
theorem apart_update (hsound : Distributed target moves pending state)
    {now : Option (PendingRequest TaskCall PoolReply)}
    (hnew : ∀ other waits mine data, other ≠ task → pending other = some waits →
      InHand waits data → now = some mine → ¬ InHand mine data)
    (first second : Task) (waits others : PendingRequest TaskCall PoolReply) (data : Nat)
    (hfirst : Function.update pending task now first = some waits)
    (hsecond : Function.update pending task now second = some others)
    (hhand : InHand waits data) (hothers : InHand others data) : first = second := by
  rcases update_cases hfirst with ⟨rfl, hmine⟩ | ⟨hne, hbefore⟩
  · rcases update_cases hsecond with ⟨rfl, -⟩ | ⟨hne, hsecond⟩
    · rfl
    · exact absurd hhand (hnew second others waits data hne hsecond hothers hmine)
  · rcases update_cases hsecond with ⟨rfl, hmine⟩ | ⟨-, hsecond⟩
    · exact absurd hothers (hnew first waits others data hne hbefore hhand hmine)
    · exact hsound.apart first second waits others data hbefore hsecond hhand hothers

/-- A task calls, and takes the block that it gives back in hand. -/
theorem called (hsound : Distributed target moves pending state)
    (hvalid : call.Valid target) (hreleased : ∀ pv ∈ call.released?, pv ∈ MicroTbx.atLarge moves) :
    Distributed target ((task, .called call) :: moves)
      (Function.update pending task (some ⟨call, none⟩)) state where
  tasks := hsound.tasks
  valid := by
    intro other request hwaits
    rcases update_cases hwaits with ⟨rfl, hmine⟩ | ⟨-, hwaits⟩
    · cases hmine
      exact hvalid
    · exact hsound.valid other request hwaits
  atLarge := fun data hdata => hsound.atLarge data (List.mem_filter.mp hdata).1
  once := hsound.once.sublist List.filter_sublist
  inHand := by
    intro other waits data hwaits hhand
    rcases update_cases hwaits with ⟨rfl, hmine⟩ | ⟨-, hwaits⟩
    · cases hmine
      refine ⟨hsound.atLarge data (hreleased data hhand), fun hdata => ?_⟩
      exact of_decide_eq_true (List.mem_filter.mp hdata).2 (Eq.symm hhand)
    · obtain ⟨hout, hnot⟩ := hsound.inHand other waits data hwaits hhand
      exact ⟨hout, fun hdata => hnot (List.mem_filter.mp hdata).1⟩
  apart := by
    apply hsound.apart_update
    rintro other waits mine data - hwaits hhand ⟨⟩ hcalled
    exact (hsound.inHand other waits data hwaits hhand).2 (hreleased data hcalled)

/-- The call takes effect: what it gives back is gone, and what it gets is new. -/
theorem effect (hsound : Distributed target moves pending state)
    (hwaits : pending task = some ⟨call, none⟩) (htasks : TasksAt target owner views objects state)
    (hstep : TaskStep target views objects state call reply after) :
    Distributed target moves (Function.update pending task (some ⟨call, some reply⟩)) after where
  tasks := by
    obtain ⟨larger, others, hafter⟩ := hstep.keeps
    exact ⟨larger, others, _, hafter⟩
  valid := by
    intro other request hother
    rcases update_cases hother with ⟨rfl, hmine⟩ | ⟨-, hother⟩
    · cases hmine
    · exact hsound.valid other request hother
  atLarge := by
    intro data hdata
    apply hstep.kept htasks (hsound.atLarge data hdata)
    exact fun hreleased => (hsound.inHand task _ data hwaits hreleased).2 hdata
  once := hsound.once
  inHand := by
    intro other waits data hother hhand
    rcases update_cases hother with ⟨rfl, hmine⟩ | ⟨hne, hother⟩
    · cases hmine
      obtain ⟨size, hevent⟩ := hhand
      obtain ⟨hout, hnew⟩ := hstep.fresh htasks hevent
      exact ⟨hout, fun hdata => hnew (hsound.atLarge data hdata)⟩
    · obtain ⟨hout, hnot⟩ := hsound.inHand other waits data hother hhand
      refine ⟨hstep.kept htasks hout fun hreleased => hne ?_, hnot⟩
      exact hsound.apart other task waits _ data hother hwaits hhand hreleased
  apart := by
    apply hsound.apart_update
    rintro other waits mine data - hother hhand ⟨⟩ ⟨size, hevent⟩
    exact (hstep.fresh htasks hevent).2 (hsound.inHand other waits data hother hhand).1

/-- A task is told of the block that it got. -/
theorem returned (hsound : Distributed target moves pending state)
    (hwaits : pending task = some ⟨call, some reply⟩) :
    Distributed target ((task, .returned call reply) :: moves) (Function.update pending task none)
      state := by
  have hhanded : ∀ size data, call.event reply = .made size data →
      data ∈ handedOut state.log ∧ data ∉ MicroTbx.atLarge moves := by
    intro size data hevent
    exact hsound.inHand task _ data hwaits ⟨size, hevent⟩
  have hlarge : ∀ data, data ∈ MicroTbx.atLarge ((task, .returned call reply) :: moves) →
      (∃ size, call.event reply = .made size data) ∨ data ∈ MicroTbx.atLarge moves := by
    intro data hdata
    unfold MicroTbx.atLarge at hdata
    split at hdata
    · next size new hevent =>
        rcases List.mem_cons.mp hdata with rfl | hearlier
        · exact .inl ⟨size, hevent⟩
        · exact .inr hearlier
    · exact .inr hdata
  refine ⟨hsound.tasks, ?_, ?_, ?_, ?_, hsound.apart_update fun _ _ _ _ _ _ _ hnone => by cases hnone⟩
  · intro other request hother
    rcases update_cases hother with ⟨rfl, hmine⟩ | ⟨-, hother⟩
    · cases hmine
    · exact hsound.valid other request hother
  · intro data hdata
    rcases hlarge data hdata with ⟨size, hevent⟩ | hearlier
    · exact (hhanded size data hevent).1
    · exact hsound.atLarge data hearlier
  · unfold MicroTbx.atLarge
    split
    · next size data hevent =>
        exact List.nodup_cons.mpr ⟨(hhanded size data hevent).2, hsound.once⟩
    · exact hsound.once
  · intro other waits data hother hhand
    rcases update_cases hother with ⟨rfl, hmine⟩ | ⟨hne, hother⟩
    · cases hmine
    · obtain ⟨hout, hnot⟩ := hsound.inHand other waits data hother hhand
      refine ⟨hout, fun hdata => ?_⟩
      rcases hlarge data hdata with ⟨size, hevent⟩ | hearlier
      · exact hne (hsound.apart other task waits _ data hother hwaits hhand ⟨size, hevent⟩)
      · exact hnot hearlier

end Distributed

omit [DecidableEq Task] in
/-- Steps do not change what is at large. -/
@[simp] theorem atLarge_visible : atLarge (visible moves) = atLarge moves := by
  induction moves with
  | nil => rfl
  | cons move moves ih =>
      obtain ⟨task, request | ⟨request, before, after⟩ | ⟨request, reply⟩⟩ := move
      · exact congrArg (List.filter fun data => some data ≠ request.released?) ih
      · exact ih
      · change (match request.event reply with
          | .made _ data => data :: atLarge (visible moves)
          | _ => atLarge (visible moves)) = _
        rw [ih]
        rfl

/-- Every call of a task is one step. -/
theorem TaskCall.atomic (hkernel : kernel.Suspends) (hvalid : call.Valid target)
    (hreleased : ∀ pv ∈ call.released?, pv ≠ null) : (call.perform kernel target).Atomic := by
  cases call with
  | malloc size => exact Atomic.map hkernel.pvPortMalloc_atomic _
  | free pv => exact Atomic.map (tbxMemPoolRelease_atomic (hreleased pv rfl)) _
  | pool call =>
      cases call with
      | create numBlocks blockSize => exact Atomic.map (tbxMemPoolCreate_atomic hvalid.1 hvalid.2.1) _
      | allocate size =>
          rcases Nat.eq_zero_or_pos size with rfl | hsize
          · exact Atomic.map tbxMemPoolAllocate_zero_atomic _
          · exact Atomic.map (tbxMemPoolAllocate_atomic hsize) _
      | allocateAuto size => exact hvalid.elim
      | release pv => exact Atomic.map (tbxMemPoolRelease_atomic (hreleased pv rfl)) _
      | heapAllocate size => exact Atomic.map (tbxHeapAllocate_atomic hvalid.1) _
      | write memPtr index value => exact hvalid.elim

/-- Tasks see the calls one after the other. -/
theorem taskClients_linearizes (hkernel : kernel.Suspends) :
    Linearizes (taskClients Task kernel target) (taskInterface kernel target)
      (Distributed target) where
  perform := rfl
  start := {
    tasks := ⟨_, _, _, .initial⟩
    valid := fun _ _ hwaits => by cases hwaits
    atLarge := fun _ hdata => by cases hdata
    once := List.nodup_nil
    inHand := fun _ _ _ hwaits => by cases hwaits
    apart := fun _ _ _ _ _ hwaits => by cases hwaits }
  called := by
    rintro moves pending state task call hsound - ⟨hvalid, hreleased⟩
    rw [← atLarge_visible] at hreleased
    refine ⟨TaskCall.atomic hkernel hvalid fun pv hpv => ?_, hsound.called hvalid hreleased⟩
    obtain ⟨owner, views, objects, htasks⟩ := hsound.tasks
    exact htasks.stored.pools.ne_null_of_out (hsound.atLarge pv (hreleased pv hpv))
  effect := by
    intro moves pending state history task call hsound hwaits hrun
    obtain ⟨owner, views, objects, htasks⟩ := hsound.tasks
    have hvalid := hsound.valid task call hwaits
    have hreleased : ∀ pv ∈ call.released?, pv ∈ handedOut state.log :=
      fun pv hpv => (hsound.inHand task _ pv hwaits hpv).1
    refine ⟨⟨hvalid, hreleased⟩, (htasks.perform hkernel hvalid hreleased).mono ?_⟩
    exact fun reply after hstep => hsound.effect hwaits htasks hstep
  returned := fun moves pending state task call reply hsound hwaits => hsound.returned hwaits

/-- What tasks that allocate at the same time can rely on: their calls are a
serial use of a store of objects, and an allocation fails only for lack of heap. -/
structure ServesTasks (target : Target) (kernel : Kernel)
    (config : ClientConfig Task State Fault TaskCall PoolReply) : Prop where
  serial : ∃ exchanges pending, Linearized (visible config.moves) exchanges pending ∧
    (taskInterface kernel target).Run (exchanges.map Prod.snd) config.shared ∧
    ObjectStore.Legal ((exchanges.map Prod.snd).map TaskExchange.event) ∧
    ∀ data ∈ atLarge config.moves,
      ∃ object ∈ ObjectStore.objects ((exchanges.map Prod.snd).map TaskExchange.event),
        object.pointer = data ∧ InHeap target config.shared object
  once : (atLarge config.moves).Nodup
  promised : ∀ task request reply, (task, .returned request reply) ∈ config.moves →
    ∃ before after, MeetsPromise target ⟨request, reply, before, after⟩
  checks : ∀ failed ∈ asserted config.shared.log, failed ∈ argumentChecks
  live : Clients.Live config

end Interleaving

/-- The kernel as its tasks see it. -/
def taskKernel : Kernel := ⟨enterCritical, leaveCritical, pure (), true⟩

theorem taskKernel_suspends : taskKernel.Suspends := ⟨rfl, rfl, rfl⟩

/-- A task frees its block before the allocation that another one called for
earlier takes effect. A later one fails. -/
def taskMoves : List (Bool × Clients.Choice TaskCall) :=
  [(false, .call (.malloc 24)), (true, .call (.malloc 24)), (true, .step), (true, .finish),
    (true, .call (.free 4176)), (true, .step), (false, .step), (false, .finish),
    (false, .call (.malloc 1900)), (false, .step), (false, .finish)]

end MicroTbx

import MicroTbx.MemPool.Create
import MicroTbx.MemPool.Steps
import MicroTbx.Foundation.Run

/-! # Runs of the memory pool module

The application calls the interface functions in any order, allocates on the
heap directly and writes to the data of blocks it holds. Every call keeps the
invariant, so every state a run reaches holds pools.
-/

namespace MicroTbx

open Program

/-- What the application does between two returns of the module. -/
inductive PoolCall
  | create (numBlocks blockSize : Nat)
  | allocate (size : Nat)
  | allocateAuto (size : Nat)
  | release (memPtr : Nat)
  /-- A direct call of `TbxHeapAllocate`. -/
  | heapAllocate (size : Nat)
  /-- The application stores a word in the data of a block. -/
  | write (memPtr index value : Nat)

inductive PoolReply
  | status (result : Status)
  | pointer (result : Nat)
  | none
  deriving DecidableEq

namespace PoolCall

variable (target : Target)

def perform : PoolCall → Code PoolReply
  | .create numBlocks blockSize => do
      let result ← tbxMemPoolCreate target numBlocks blockSize
      return .status result
  | .allocate size => do
      let result ← tbxMemPoolAllocate target size
      return .pointer result
  | .allocateAuto size => do
      let result ← tbxMemPoolAllocateAuto target size
      return .pointer result
  | .release memPtr => do
      tbxMemPoolRelease target memPtr
      return .none
  | .heapAllocate size => do
      let result ← tbxHeapAllocate target size
      return .pointer result
  | .write memPtr index value => do
      modify (·.store (target.field memPtr index) value)
      return .none

/-- Arguments are `size_t` values; a pointer given back or written through is
one that is handed out, and a write stays inside the block. -/
def Allowed (state : State) : PoolCall → Prop
  | .create numBlocks blockSize =>
      numBlocks < 2 ^ target.sizeBits ∧ blockSize < 2 ^ target.sizeBits
  | .allocate size | .allocateAuto size | .heapAllocate size => size < 2 ^ target.sizeBits
  | .release memPtr => memPtr ∈ handedOut state.log
  | .write memPtr index _ => memPtr ∈ handedOut state.log ∧
      index * target.word < state.mem (memPtr - target.word)

instance (state : State) (call : PoolCall) : Decidable (call.Allowed target state) :=
  match call with
  | .create _ _ => inferInstanceAs (Decidable (_ ∧ _))
  | .allocate _ | .allocateAuto _ | .heapAllocate _ => inferInstanceAs (Decidable (_ < _))
  | .release _ => inferInstanceAs (Decidable (_ ∈ _))
  | .write _ _ _ => inferInstanceAs (Decidable (_ ∧ _))

/-- A condition on the block sizes that a call may create. -/
def BlockSize (condition : Nat → Prop) : PoolCall → Prop
  | .create _ blockSize => condition blockSize
  | .allocateAuto size => condition size
  | _ => True

instance (condition : Nat → Prop) [DecidablePred condition] (call : PoolCall) :
    Decidable (call.BlockSize condition) :=
  match call with
  | .create _ blockSize => inferInstanceAs (Decidable (condition blockSize))
  | .allocateAuto size => inferInstanceAs (Decidable (condition size))
  | .allocate _ | .release _ | .heapAllocate _ | .write _ _ _ =>
      inferInstanceAs (Decidable True)

theorem BlockSize.mono {condition weaker : Nat → Prop} {call : PoolCall}
    (hcall : call.BlockSize condition) (himp : ∀ size, condition size → weaker size) :
    call.BlockSize weaker := by
  cases call with
  | create numBlocks blockSize => exact himp _ hcall
  | allocateAuto size => exact himp _ hcall
  | _ => exact hcall

end PoolCall

/-- No call takes steps other than those of the functions. -/
theorem PoolSteps.within_perform {relation : State → State → Prop} (hsteps : PoolSteps relation)
    (target : Target) (call : PoolCall) : (call.perform target).Within relation := by
  cases call with
  | create numBlocks blockSize => exact (hsteps.within_create numBlocks).bind fun _ => trivial
  | allocate size => exact hsteps.within_allocate.bind fun _ => trivial
  | allocateAuto size => exact hsteps.within_allocateAuto.bind fun _ => trivial
  | release memPtr => exact hsteps.within_poolRelease.bind fun _ => trivial
  | heapAllocate size => exact hsteps.within_heapAllocate.bind fun _ => trivial
  | write memPtr index value =>
      exact ((within_modify _).mpr fun state => hsteps.store state _ value).bind fun _ => trivial

/-- The module as its application uses it, from program start. -/
def poolInterface (target : Target) : Interface State Fault PoolCall PoolReply where
  initial := .initial
  allowed := fun _ => PoolCall.Allowed target
  perform := PoolCall.perform target

abbrev PoolExchange := Exchange State PoolCall PoolReply

instance (target : Target) (history : List PoolExchange) (state : State) (call : PoolCall) :
    Decidable ((poolInterface target).allowed history state call) :=
  inferInstanceAs (Decidable (call.Allowed target state))

variable {target : Target} {owner larger : Ownership} {views others : List PoolView}
  {view : PoolView} {state after : State} {call : PoolCall} {reply : PoolReply}
  {history : List PoolExchange}

/-! ## One call -/

variable (target) (owner) (views) (state) in
/-- Everything one call can do to a state that holds pools. -/
inductive PoolStep : PoolCall → PoolReply → Ownership → List PoolView → State → Prop
  | createInvalid {numBlocks blockSize : Nat} {after : State}
      (invalid : ¬ (0 < numBlocks ∧ 0 < blockSize))
      (rejected : after = state.rejected .tbxMemPoolCreate ∨
        after = (state.rejected .tbxMemPoolCreate).rejected .tbxMemPoolCreate) :
      PoolStep (.create numBlocks blockSize) (.status .error) owner views after
  | create {numBlocks blockSize : Nat} {result : Status} {larger : Ownership}
      {others : List PoolView} {after : State} (someBlocks : 0 < numBlocks) (size : 0 < blockSize)
      (creates : Creates target owner views state numBlocks blockSize result larger others after) :
      PoolStep (.create numBlocks blockSize) (.status result) larger others after
  | allocateInvalid :
      PoolStep (.allocate 0) (.pointer null) owner views (state.rejected .tbxMemPoolAllocate)
  | allocateRefused {size : Nat} (positive : 0 < size)
      (refused : ¬ BestFit.Serves PoolView.blockSize PoolView.Stocked views size) :
      PoolStep (.allocate size) (.pointer null) owner views state
  | allocate {size data : Nat} {others : List PoolView} {after : State} (positive : 0 < size)
      (takes : Takes target views state size data others after) :
      PoolStep (.allocate size) (.pointer data) owner others after
  | autoInvalid :
      PoolStep (.allocateAuto 0) (.pointer null) owner views
        (state.rejected .tbxMemPoolAllocateAuto)
  | auto {size data : Nat} {larger : Ownership} {others : List PoolView} {after : State}
      (positive : 0 < size)
      (allocates : AllocatesAuto target owner views state size data larger others after) :
      PoolStep (.allocateAuto size) (.pointer data) larger others after
  | release {front back : List PoolView} {view : PoolView} {node block : Nat} {spare : List Nat}
      (split : views = front ++ view :: back) (used : view.used = node :: spare)
      (out : block ∈ view.out) :
      PoolStep (.release (target.field block 1)) .none owner
        (front ++ view.giveBack used out :: back) (state.giveBackBlock target view node block)
  | heapAllocate {size result : Nat} {after : State}
      (grown : state.Grown target after (if result = null then 0 else sizeWanted target size))
      (room : after.tbxHeapAllocated ≤ target.heapSize)
      (checks : HeapChecked state after) :
      PoolStep (.heapAllocate size) (.pointer result) owner views after
  | write {memPtr index value size block : Nat}
      (data : owner (target.field memPtr index) = some (size, .data block index)) :
      PoolStep (.write memPtr index value) .none owner views
        (state.store (target.field memPtr index) value)

theorem State.Grown.emit_assertion (state : State) (site : Site) (kind : AssertKind) :
    state.Grown target (state.emit (.assertion site kind)) 0 :=
  ⟨rfl, rfl, fun _ _ => rfl, rfl, fun _ => rfl, fun _ => List.mem_cons_of_mem _⟩

theorem PoolsAt.heapAllocate (hpools : PoolsAt target owner views state) (size : Nat) :
    (tbxHeapAllocate target size).Returns state fun result after =>
      state.Grown target after (if result = null then 0 else sizeWanted target size) ∧
      after.tbxHeapAllocated ≤ target.heapSize ∧ HeapChecked state after := by
  have hle := hpools.heap.allocated_le
  rcases Nat.eq_zero_or_pos size with rfl | hsize
  · refine tbxHeapAllocate_zero.mono ?_
    rintro _ _ ⟨rfl, rfl⟩
    rw [if_pos rfl]
    refine ⟨.emit_assertion state _ _, hle, fun failed hfailed => ?_⟩
    exact (List.mem_cons.mp hfailed).symm
  rcases Nat.lt_or_ge (target.heapSize - state.tbxHeapAllocated) (sizeWanted target size)
    with hfull | hroom
  · refine (tbxHeapAllocate_full hsize hle hfull).mono ?_
    rintro _ _ ⟨rfl, rfl⟩
    rw [if_pos rfl]
    exact ⟨.refl, hle, fun _ => .inl⟩
  · refine (tbxHeapAllocate_room hsize hle hroom).mono ?_
    rintro _ _ ⟨rfl, rfl⟩
    have hne : target.heapBase + state.tbxHeapAllocated ≠ null := state.heapEnd_ne_null
    rw [if_neg hne]
    refine ⟨.takeHeap state _, ?_, fun failed => .inl⟩
    rw [State.takeHeap_tbxHeapAllocated]
    omega

/-- A word of a handed out block that the application may write. -/
theorem PoolsAt.data_owner (hpools : PoolsAt target owner views state) {data index : Nat}
    (hdata : data ∈ handedOut state.log)
    (hindex : index * target.word < state.mem (data - target.word)) :
    ∃ block, data = target.field block 1 ∧ owner (target.field data index) =
      some (state.mem (data - target.word), .data block index) := by
  obtain ⟨front, view, back, node, spare, block, rfl, -, hblock, rfl⟩ := hpools.of_handedOut hdata
  have hmem : block ∈ view.blocks := List.mem_append_right _ hblock
  have hheader := (hpools.list.stored view mem_middle).header block hmem
  have hback : target.field block 1 - target.word = target.field block 0 := by
    simp only [Target.field]
    omega
  rw [hback, hheader] at hindex ⊢
  refine ⟨block, rfl, ?_⟩
  rw [Target.field_field, Nat.add_comm]
  exact (hpools.heap.placed view mem_middle).data block hmem index hindex

theorem PoolsAt.step (hpools : PoolsAt target owner views state)
    (hallowed : call.Allowed target state) (hsound : call.BlockSize target.Sound) :
    (call.perform target).Returns state fun reply after =>
      ∃ larger others, PoolStep target owner views state call reply larger others after := by
  cases call with
  | create numBlocks blockSize =>
      by_cases hvalid : 0 < numBlocks ∧ 0 < blockSize
      · refine (hpools.create hvalid.1 hvalid.2 hsound).bind ?_
        rintro result after ⟨larger, others, hcreates⟩
        exact (returns_pure _).mpr ⟨larger, others, .create hvalid.1 hvalid.2 hcreates⟩
      · refine (tbxMemPoolCreate_invalid hvalid).bind ?_
        rintro result after ⟨rfl, hrejected⟩
        exact (returns_pure _).mpr ⟨owner, views, .createInvalid hvalid hrejected⟩
  | allocate size =>
      rcases Nat.eq_zero_or_pos size with rfl | hsize
      · exact tbxMemPoolAllocate_zero.bind ((returns_pure _).mpr ⟨owner, views, .allocateInvalid⟩)
      · refine (hpools.allocate hsize).bind ?_
        rintro data after (⟨-, others, htakes⟩ | ⟨hrefused, rfl, rfl⟩)
        · exact (returns_pure _).mpr ⟨owner, others, .allocate hsize htakes⟩
        · exact (returns_pure _).mpr ⟨owner, views, .allocateRefused hsize hrefused⟩
  | allocateAuto size =>
      rcases Nat.eq_zero_or_pos size with rfl | hsize
      · exact tbxMemPoolAllocateAuto_zero.bind ((returns_pure _).mpr ⟨owner, views, .autoInvalid⟩)
      · refine (hpools.allocateAuto hsize hsound).bind ?_
        rintro data after ⟨larger, others, hallocates⟩
        exact (returns_pure _).mpr ⟨larger, others, .auto hsize hallocates⟩
  | release memPtr =>
      obtain ⟨front, view, back, node, spare, block, rfl, hused, hout, rfl⟩ :=
        hpools.of_handedOut hallowed
      exact (hpools.release hused hout).bind
        ((returns_pure _).mpr ⟨owner, _, .release rfl hused hout⟩)
  | heapAllocate size =>
      refine (hpools.heapAllocate size).bind ?_
      rintro result after ⟨hgrown, hroom, hchecks⟩
      exact (returns_pure _).mpr ⟨owner, views, .heapAllocate hgrown hroom hchecks⟩
  | write memPtr index value =>
      obtain ⟨block, -, hdata⟩ := hpools.data_owner hallowed.1 hallowed.2
      exact fun depth => ⟨rfl, owner, views, .write hdata⟩

theorem PoolsAt.emit_assertion (hpools : PoolsAt target owner views state) (site : Site)
    (kind : AssertKind) : PoolsAt target owner views (state.emit (.assertion site kind)) :=
  hpools.grow (.emit_assertion state site kind) (Nat.dvd_zero _) hpools.heap.allocated_le

/-- The data of a block may be written without any effect on the pools. -/
theorem PoolsAt.store_data (hpools : PoolsAt target owner views state) {address size value : Nat}
    {part : Part} (howner : owner address = some (size, part)) (hdata : part.IsData) :
    PoolsAt target owner views (state.store address value) where
  list := by
    refine hpools.list.frame hpools.heap.placed fun other owned otherPart hother hnot => ?_
    refine Function.update_of_ne (ne_of_owner hother howner ?_) _ _
    rintro heq
    cases heq
    exact hnot hdata
  heap := hpools.heap
  log := hpools.log

theorem sizeWanted_dvd (size : Nat) : target.word ∣ sizeWanted target size := by
  rw [sizeWanted_eq]
  exact Nat.dvd_mul_left ..

theorem PoolStep.pools (hstep : PoolStep target owner views state call reply larger others after)
    (hpools : PoolsAt target owner views state) : PoolsAt target larger others after := by
  cases hstep with
  | createInvalid invalid rejected =>
      rcases rejected with rfl | rfl
      · exact hpools.emit_assertion _ _
      · exact (hpools.emit_assertion _ _).emit_assertion _ _
  | create someBlocks size creates => exact (creates.pools hpools).1
  | allocateInvalid => exact hpools.emit_assertion _ _
  | allocateRefused positive refused => exact hpools
  | allocate positive takes => exact (takes.pools hpools).1
  | autoInvalid => exact hpools.emit_assertion _ _
  | auto positive allocates =>
      cases allocates with
      | direct exact takes => exact (takes.pools hpools).1
      | created creates takes => exact (takes.pools (creates.pools hpools).1).1
      | failed creates => exact (creates.pools hpools).1
  | release split used out =>
      subst split
      exact hpools.giveBack used out
  | heapAllocate grown room checks =>
      refine hpools.grow grown ?_ (grown.allocated ▸ room)
      split
      · exact Nat.dvd_zero _
      · exact sizeWanted_dvd _
  | write data => exact hpools.store_data data trivial

/-! ## Every run -/

/-- Program start: no pools. -/
theorem PoolsAt.initial : PoolsAt target (fun _ => none) [] .initial where
  list := ⟨by simp [State.initial], List.Pairwise.nil, by simp⟩
  heap := ⟨by simp, by simp, Nat.dvd_zero _, Nat.zero_le _⟩
  log := ⟨by simp [outData, State.initial], by simp, by simp [State.initial], by simp⟩

/-- What holds at program start and is kept by every step of a run holds of
the state the run reaches, together with the pools. -/
theorem PoolStep.invariant {calls : PoolCall → Prop}
    {motive : List PoolExchange → Ownership → List PoolView → State → Prop}
    (hsound : ∀ call, calls call → call.BlockSize target.Sound)
    (hstart : motive [] (fun _ => none) [] .initial)
    (hstep : ∀ {history owner views before call reply larger others after},
      PoolsAt target owner views before → motive history owner views before →
      calls call → PoolStep target owner views before call reply larger others after →
      motive (⟨call, reply, before, after⟩ :: history) larger others after)
    (hrun : (poolInterface target).Run history state)
    (hcalls : ∀ exchange ∈ history, calls exchange.request) :
    ∃ owner views, PoolsAt target owner views state ∧ motive history owner views state := by
  induction hrun with
  | start => exact ⟨_, _, .initial, hstart⟩
  | @step history before after call reply prior isAllowed returned ih =>
      obtain ⟨hcall, hearlier⟩ := List.forall_mem_cons.mp hcalls
      obtain ⟨owner, views, hpools, hmotive⟩ := ih hearlier
      obtain ⟨-, larger, others, hdone⟩ :=
        (hpools.step isAllowed (hsound call hcall)).of_run returned
      exact ⟨larger, others, hdone.pools hpools, hstep hpools hmotive hcall hdone⟩

/-- A run that creates only blocks of sound sizes reaches states with pools. -/
theorem PoolsAt.of_run (hrun : (poolInterface target).Run history state)
    (hsound : ∀ exchange ∈ history, exchange.request.BlockSize target.Sound) :
    ∃ owner views, PoolsAt target owner views state := by
  obtain ⟨owner, views, hpools, -⟩ := PoolStep.invariant (motive := fun _ _ _ _ => True)
    (fun _ hcall => hcall) trivial (fun _ _ _ _ => trivial) hrun hsound
  exact ⟨owner, views, hpools⟩

/-- Every call made in a reachable state returns. -/
theorem PoolsAt.answers (hpools : PoolsAt target owner views state)
    (hallowed : call.Allowed target state) (hsound : call.BlockSize target.Sound) :
    ∃ reply after, (call.perform target).run 0 state = .done reply 0 after := by
  obtain ⟨reply, after, hrun, -⟩ := (hpools.step hallowed hsound).run 0
  exact ⟨reply, after, hrun⟩

end MicroTbx

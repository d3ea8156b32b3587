import MicroTbx.Foundation.Sections
import MicroTbx.MemPool.Operations

/-! # Sections of the pool functions

Every function of the heap and of the pools leaves the critical sections that
it enters. With valid arguments the functions that create, allocate and release
are one section each, with the nested sections of the heap inside.
-/

namespace MicroTbx

open Program

variable {target : Target} {size listPtr nodePtr poolNodePtr blockPtr memPtr : Nat}

@[simp] theorem balanced_emit (event : Event) : (emit event).Balanced 0 := Balanced.modify _

@[simp] theorem balanced_tbxAssert {site : Site} {kind : AssertKind} {condition : Bool} :
    (tbxAssert site kind condition).Balanced 0 := Balanced.ite rfl (balanced_emit _)

@[simp] theorem balanced_load {pointer index : Nat} : (load target pointer index).Balanced 0 :=
  Balanced.ite trivial (Balanced.read.part fun _ => rfl)

@[simp] theorem balanced_store {pointer index value : Nat} :
    (store target pointer index value).Balanced 0 := Balanced.ite trivial (Balanced.modify _)

/-- An assertion that holds is no step. -/
theorem Atomic.of_assert {Value : Type} {site : Site} {kind : AssertKind} {condition : Bool}
    (hcondition : condition = true) {rest : Unit → Code Value} (hrest : (rest ()).Atomic) :
    (tbxAssert site kind condition >>= rest).Atomic := by
  subst hcondition
  exact hrest

/-! ## The heap -/

@[simp] theorem balanced_heapAllocate : (tbxHeapAllocate target size).Balanced 0 := by
  unfold tbxHeapAllocate
  repeat' with_reducible first
    | apply Balanced.enter | apply Balanced.leave | apply Balanced.part | apply Balanced.ite
    | intro _ | simp

@[simp] theorem balanced_heapGetFree : (tbxHeapGetFree target).Balanced 0 := by
  unfold tbxHeapGetFree
  repeat' with_reducible first
    | apply Balanced.enter | apply Balanced.leave | apply Balanced.part | intro _ | simp

/-! ## Blocks and pools -/

@[simp] theorem balanced_blockCreate : (tbxMemPoolBlockCreate target size).Balanced 0 := by
  unfold tbxMemPoolBlockCreate
  repeat' with_reducible first | apply Balanced.part | apply Balanced.ite | intro _ | simp

@[simp] theorem balanced_blockListCreate : (tbxMemPoolBlockListCreate target).Balanced 0 := by
  unfold tbxMemPoolBlockListCreate
  repeat' with_reducible first | apply Balanced.part | apply Balanced.ite | intro _ | simp

@[simp] theorem balanced_blockListInsert :
    (tbxMemPoolBlockListInsert target listPtr nodePtr).Balanced 0 := by
  unfold tbxMemPoolBlockListInsert
  repeat' with_reducible first | apply Balanced.part | apply Balanced.ite | intro _ | simp

@[simp] theorem balanced_blockListExtract :
    (tbxMemPoolBlockListExtract target listPtr).Balanced 0 := by
  unfold tbxMemPoolBlockListExtract
  repeat' with_reducible first | apply Balanced.part | apply Balanced.ite | intro _ | simp

@[simp] theorem balanced_blockListIsEmpty :
    (tbxMemPoolBlockListIsEmpty target listPtr).Balanced 0 := by
  unfold tbxMemPoolBlockListIsEmpty
  repeat' with_reducible first | apply Balanced.part | apply Balanced.ite | intro _ | simp

@[simp] theorem balanced_findLoop (fuel : Nat) :
    (findLoop target size fuel nodePtr).Balanced 0 := by
  induction fuel generalizing nodePtr with
  | zero => trivial
  | succ fuel ih =>
      unfold findLoop
      repeat' with_reducible first | apply Balanced.part | apply Balanced.ite | intro _ | simp [ih]

@[simp] theorem balanced_findBestFitLoop (fuel : Nat) :
    (findBestFitLoop target size fuel nodePtr).Balanced 0 := by
  induction fuel generalizing nodePtr with
  | zero => trivial
  | succ fuel ih =>
      unfold findBestFitLoop
      repeat' with_reducible first | apply Balanced.part | apply Balanced.ite | intro _ | simp [ih]

@[simp] theorem balanced_listFind : (tbxMemPoolListFind target size).Balanced 0 := by
  unfold tbxMemPoolListFind
  repeat' with_reducible first | apply Balanced.part | apply Balanced.ite | intro _ | simp

@[simp] theorem balanced_listFindBestFit :
    (tbxMemPoolListFindBestFit target size).Balanced 0 := by
  unfold tbxMemPoolListFindBestFit
  repeat' with_reducible first | apply Balanced.part | apply Balanced.ite | intro _ | simp

@[simp] theorem balanced_insertBeforeLarger {prevNodePtr currentNodePtr : Nat} :
    (insertBeforeLarger target nodePtr prevNodePtr currentNodePtr).Balanced 0 := by
  unfold insertBeforeLarger
  repeat' with_reducible first | apply Balanced.part | apply Balanced.ite | intro _ | simp

@[simp] theorem balanced_insertLoop (fuel : Nat) {prevNodePtr currentNodePtr : Nat} :
    (insertLoop target nodePtr fuel prevNodePtr currentNodePtr).Balanced 0 := by
  induction fuel generalizing prevNodePtr currentNodePtr with
  | zero => trivial
  | succ fuel ih =>
      unfold insertLoop
      repeat' with_reducible first | apply Balanced.part | apply Balanced.ite | intro _ | simp [ih]

@[simp] theorem balanced_listInsert : (tbxMemPoolListInsert target nodePtr).Balanced 0 := by
  unfold tbxMemPoolListInsert
  repeat' with_reducible first | apply Balanced.part | apply Balanced.ite | intro _ | simp

@[simp] theorem balanced_createPool : (createPool target size).Balanced 0 := by
  unfold createPool
  repeat' with_reducible first | apply Balanced.part | apply Balanced.ite | intro _ | simp

@[simp] theorem balanced_createBlock {result : Status} :
    (createBlock target poolNodePtr size result).Balanced 0 := by
  unfold createBlock
  repeat' with_reducible first | apply Balanced.part | apply Balanced.ite | intro _ | simp

@[simp] theorem balanced_createBlocks (count : Nat) {result : Status} :
    (createBlocks target poolNodePtr size count result).Balanced 0 := by
  induction count generalizing result with
  | zero => rfl
  | succ count ih =>
      unfold createBlocks
      exact balanced_createBlock.part fun _ => ih

@[simp] theorem balanced_allocateFrom : (allocateFrom target poolNodePtr).Balanced 0 := by
  unfold allocateFrom tbxMemPoolBlockGetDataPtr
  repeat' with_reducible first | apply Balanced.part | apply Balanced.ite | intro _ | simp

@[simp] theorem balanced_releaseTo :
    (releaseTo target poolNodePtr blockPtr memPtr).Balanced 0 := by
  unfold releaseTo
  repeat' with_reducible first | apply Balanced.part | apply Balanced.ite | intro _ | simp

/-- The section of `TbxMemPoolAllocateAuto` that looks for the pool of the size. -/
def findPool (target : Target) (size : Nat) : Code Nat := do
  enterCritical
  let state ← read
  let poolNodePtr ← findLoop target size target.loopFuel state.tbxPoolList
  leaveCritical
  pure poolNodePtr

theorem findPool_atomic : (findPool target size).Atomic := by
  unfold findPool
  apply Atomic.enter
  repeat' with_reducible first | apply Closes.leave | apply Closes.bind | intro _ | simp

/-- Apart from this section, `TbxMemPoolAllocateAuto` is made of other calls. -/
theorem tbxMemPoolAllocateAuto_eq (hsize : 0 < size) :
    tbxMemPoolAllocateAuto target size = (do
      let poolNodePtr ← findPool target size
      if poolNodePtr = null then do
        let created ← tbxMemPoolCreate target 1 size
        if created = .ok then tbxMemPoolAllocate target size else pure null
      else do
        let result ← tbxMemPoolAllocate target size
        if result = null then do
          let created ← tbxMemPoolCreate target 1 size
          if created = .ok then tbxMemPoolAllocate target size else pure null
        else pure result) := by
  rw [tbxMemPoolAllocateAuto, decide_eq_true hsize, if_pos hsize, findPool]
  simp only [Program.bind_assoc, tbxAssert, if_true]
  rfl

/-! ## Whole calls -/

@[simp] theorem balanced_poolCreate {count : Nat} :
    (tbxMemPoolCreate target count size).Balanced 0 := by
  unfold tbxMemPoolCreate
  repeat' with_reducible first
    | apply Balanced.enter | apply Balanced.leave | apply Balanced.part | apply Balanced.ite
    | intro _ | simp

@[simp] theorem balanced_poolAllocate : (tbxMemPoolAllocate target size).Balanced 0 := by
  unfold tbxMemPoolAllocate
  repeat' with_reducible first
    | apply Balanced.enter | apply Balanced.leave | apply Balanced.part | apply Balanced.ite
    | intro _ | simp

@[simp] theorem balanced_poolAllocateAuto : (tbxMemPoolAllocateAuto target size).Balanced 0 := by
  unfold tbxMemPoolAllocateAuto
  repeat' with_reducible first
    | apply Balanced.enter | apply Balanced.leave | apply Balanced.part | apply Balanced.ite
    | intro _ | simp

@[simp] theorem balanced_poolRelease : (tbxMemPoolRelease target memPtr).Balanced 0 := by
  unfold tbxMemPoolRelease tbxMemPoolBlockGetMemPtr tbxMemPoolBlockGetBlockSize
  repeat' with_reducible first
    | apply Balanced.enter | apply Balanced.leave_unit | apply Balanced.part | apply Balanced.ite
    | intro _ | simp

/-! ## Calls that are one section -/

theorem tbxHeapAllocate_atomic (hsize : 0 < size) : (tbxHeapAllocate target size).Atomic := by
  unfold tbxHeapAllocate
  apply Atomic.of_assert (decide_eq_true hsize)
  rw [if_pos hsize]
  apply Atomic.enter
  repeat' with_reducible first
    | apply Closes.leave | apply Closes.bind | apply Balanced.part | apply Balanced.ite | intro _
    | simp

theorem tbxMemPoolCreate_atomic {count : Nat} (hcount : 0 < count) (hsize : 0 < size) :
    (tbxMemPoolCreate target count size).Atomic := by
  unfold tbxMemPoolCreate
  apply Atomic.of_assert (decide_eq_true hcount)
  apply Atomic.of_assert (decide_eq_true hsize)
  rw [if_pos ⟨hcount, hsize⟩]
  apply Atomic.enter
  repeat' with_reducible first
    | apply Closes.leave | apply Closes.bind | apply Balanced.ite | intro _ | simp

theorem tbxMemPoolAllocate_atomic (hsize : 0 < size) : (tbxMemPoolAllocate target size).Atomic := by
  unfold tbxMemPoolAllocate
  apply Atomic.of_assert (decide_eq_true hsize)
  rw [if_pos hsize]
  apply Atomic.enter
  repeat' with_reducible first
    | apply Closes.leave | apply Closes.bind | apply Balanced.ite | intro _ | simp

/-- A failed parameter check is all that these calls do. -/
theorem tbxMemPoolAllocate_zero_atomic : (tbxMemPoolAllocate target 0).Atomic :=
  fun _ => ⟨null, rfl⟩

theorem tbxMemPoolAllocateAuto_zero_atomic : (tbxMemPoolAllocateAuto target 0).Atomic :=
  fun _ => ⟨null, rfl⟩

theorem tbxMemPoolRelease_atomic (hmemPtr : memPtr ≠ null) :
    (tbxMemPoolRelease target memPtr).Atomic := by
  unfold tbxMemPoolRelease tbxMemPoolBlockGetMemPtr tbxMemPoolBlockGetBlockSize
  apply Atomic.of_assert (decide_eq_true hmemPtr)
  rw [if_pos hmemPtr]
  apply Atomic.enter
  repeat' with_reducible first
    | apply Closes.leave_unit | apply Closes.bind | apply Balanced.part | apply Balanced.ite
    | intro _ | simp

end MicroTbx

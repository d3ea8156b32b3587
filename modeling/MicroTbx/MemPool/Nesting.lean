import MicroTbx.Foundation.Rest
import MicroTbx.MemPool.Sections

/-! # How deep the pool functions nest sections

The sections of the heap are nested in those of the pools, and nothing is nested
deeper.
-/

namespace MicroTbx

open Program

variable {target : Target} {room size count listPtr nodePtr poolNodePtr blockPtr memPtr : Nat}

@[simp] theorem bounded_emit (event : Event) : (emit event).Bounded room 0 := Bounded.modify _

@[simp] theorem bounded_tbxAssert {site : Site} {kind : AssertKind} {condition : Bool} :
    (tbxAssert site kind condition).Bounded room 0 := Bounded.ite (.pure _) (bounded_emit _)

@[simp] theorem bounded_load {pointer index : Nat} : (load target pointer index).Bounded room 0 :=
  Bounded.ite (.fault _) (Bounded.read.part fun _ => .pure _)

@[simp] theorem bounded_store {pointer index value : Nat} :
    (store target pointer index value).Bounded room 0 := Bounded.ite (.fault _) (Bounded.modify _)

/-! ## Parts without sections -/

@[simp] theorem bounded_blockListInsert :
    (tbxMemPoolBlockListInsert target listPtr nodePtr).Bounded room 0 := by
  unfold tbxMemPoolBlockListInsert
  repeat' with_reducible first | apply Bounded.part | apply Bounded.ite | intro _ | simp

@[simp] theorem bounded_blockListExtract :
    (tbxMemPoolBlockListExtract target listPtr).Bounded room 0 := by
  unfold tbxMemPoolBlockListExtract
  repeat' with_reducible first | apply Bounded.part | apply Bounded.ite | intro _ | simp

@[simp] theorem bounded_blockListIsEmpty :
    (tbxMemPoolBlockListIsEmpty target listPtr).Bounded room 0 := by
  unfold tbxMemPoolBlockListIsEmpty
  repeat' with_reducible first | apply Bounded.part | apply Bounded.ite | intro _ | simp

@[simp] theorem bounded_findLoop (fuel : Nat) :
    (findLoop target size fuel nodePtr).Bounded room 0 := by
  induction fuel generalizing nodePtr with
  | zero => exact .fault _
  | succ fuel ih =>
      unfold findLoop
      repeat' with_reducible first | apply Bounded.part | apply Bounded.ite | intro _ | simp [ih]

@[simp] theorem bounded_findBestFitLoop (fuel : Nat) :
    (findBestFitLoop target size fuel nodePtr).Bounded room 0 := by
  induction fuel generalizing nodePtr with
  | zero => exact .fault _
  | succ fuel ih =>
      unfold findBestFitLoop
      repeat' with_reducible first | apply Bounded.part | apply Bounded.ite | intro _ | simp [ih]

@[simp] theorem bounded_listFind : (tbxMemPoolListFind target size).Bounded room 0 := by
  unfold tbxMemPoolListFind
  repeat' with_reducible first | apply Bounded.part | apply Bounded.ite | intro _ | simp

@[simp] theorem bounded_listFindBestFit :
    (tbxMemPoolListFindBestFit target size).Bounded room 0 := by
  unfold tbxMemPoolListFindBestFit
  repeat' with_reducible first | apply Bounded.part | apply Bounded.ite | intro _ | simp

@[simp] theorem bounded_insertBeforeLarger {prevNodePtr currentNodePtr : Nat} :
    (insertBeforeLarger target nodePtr prevNodePtr currentNodePtr).Bounded room 0 := by
  unfold insertBeforeLarger
  repeat' with_reducible first | apply Bounded.part | apply Bounded.ite | intro _ | simp

@[simp] theorem bounded_insertLoop (fuel : Nat) {prevNodePtr currentNodePtr : Nat} :
    (insertLoop target nodePtr fuel prevNodePtr currentNodePtr).Bounded room 0 := by
  induction fuel generalizing prevNodePtr currentNodePtr with
  | zero => exact .fault _
  | succ fuel ih =>
      unfold insertLoop
      repeat' with_reducible first | apply Bounded.part | apply Bounded.ite | intro _ | simp [ih]

@[simp] theorem bounded_listInsert : (tbxMemPoolListInsert target nodePtr).Bounded room 0 := by
  unfold tbxMemPoolListInsert
  repeat' with_reducible first | apply Bounded.part | apply Bounded.ite | intro _ | simp

@[simp] theorem bounded_allocateFrom : (allocateFrom target poolNodePtr).Bounded room 0 := by
  unfold allocateFrom tbxMemPoolBlockGetDataPtr
  repeat' with_reducible first | apply Bounded.part | apply Bounded.ite | intro _ | simp

@[simp] theorem bounded_releaseTo :
    (releaseTo target poolNodePtr blockPtr memPtr).Bounded room 0 := by
  unfold releaseTo
  repeat' with_reducible first | apply Bounded.part | apply Bounded.ite | intro _ | simp

/-! ## Parts that allocate from the heap -/

@[simp] theorem bounded_heapAllocate : (tbxHeapAllocate target size).Bounded (room + 1) 0 := by
  unfold tbxHeapAllocate
  repeat' with_reducible first
    | apply Bounded.enter | apply Bounded.leave | apply Bounded.part | apply Bounded.ite
    | intro _ | simp

@[simp] theorem bounded_blockCreate : (tbxMemPoolBlockCreate target size).Bounded (room + 1) 0 := by
  unfold tbxMemPoolBlockCreate
  repeat' with_reducible first | apply Bounded.part | apply Bounded.ite | intro _ | simp

@[simp] theorem bounded_blockListCreate :
    (tbxMemPoolBlockListCreate target).Bounded (room + 1) 0 := by
  unfold tbxMemPoolBlockListCreate
  repeat' with_reducible first | apply Bounded.part | apply Bounded.ite | intro _ | simp

@[simp] theorem bounded_createPool : (createPool target size).Bounded (room + 1) 0 := by
  unfold createPool
  repeat' with_reducible first | apply Bounded.part | apply Bounded.ite | intro _ | simp

@[simp] theorem bounded_createBlock {result : Status} :
    (createBlock target poolNodePtr size result).Bounded (room + 1) 0 := by
  unfold createBlock
  repeat' with_reducible first | apply Bounded.part | apply Bounded.ite | intro _ | simp

@[simp] theorem bounded_createBlocks (count : Nat) {result : Status} :
    (createBlocks target poolNodePtr size count result).Bounded (room + 1) 0 := by
  induction count generalizing result with
  | zero => exact .pure _
  | succ count ih =>
      unfold createBlocks
      exact bounded_createBlock.part fun _ => ih

/-! ## Whole calls -/

@[simp] theorem bounded_poolCreate :
    (tbxMemPoolCreate target count size).Bounded (room + 2) 0 := by
  unfold tbxMemPoolCreate
  repeat' with_reducible first
    | apply Bounded.enter | apply Bounded.leave | apply Bounded.part | apply Bounded.ite
    | intro _ | simp

@[simp] theorem bounded_poolAllocate :
    (tbxMemPoolAllocate target size).Bounded (room + 1) 0 := by
  unfold tbxMemPoolAllocate
  repeat' with_reducible first
    | apply Bounded.enter | apply Bounded.leave | apply Bounded.part | apply Bounded.ite
    | intro _ | simp

@[simp] theorem bounded_poolAllocateAuto :
    (tbxMemPoolAllocateAuto target size).Bounded (room + 2) 0 := by
  unfold tbxMemPoolAllocateAuto
  repeat' with_reducible first
    | apply Bounded.enter | apply Bounded.leave | apply Bounded.part | apply Bounded.ite
    | intro _ | simp

@[simp] theorem bounded_poolRelease :
    (tbxMemPoolRelease target memPtr).Bounded (room + 1) 0 := by
  unfold tbxMemPoolRelease tbxMemPoolBlockGetMemPtr tbxMemPoolBlockGetBlockSize
  repeat' with_reducible first
    | apply Bounded.enter | apply Bounded.leave_unit | apply Bounded.part | apply Bounded.ite
    | intro _ | simp

end MicroTbx

import MicroTbx.MemPool.Operations

/-! # The steps of the pool functions

What relates the states around every single step of a function relates those
around its execution, however it ends. The functions are taken apart here once
for all such relations, by the kinds of steps that each of them takes.
-/

namespace MicroTbx

open Program

/-- A relation that memory accesses and failing assertions stay within. -/
structure AccessSteps (relation : State → State → Prop) : Prop where
  refl : ∀ state, relation state state
  store : ∀ state address value, relation state (state.store address value)
  assertion : ∀ state site kind, relation state (state.emit (.assertion site kind))

/-- A relation that every step of the pool functions stays within. -/
structure PoolSteps (relation : State → State → Prop) : Prop extends AccessSteps relation where
  setPoolList : ∀ state node, relation state (state.setPoolList node)
  setHeapAllocated : ∀ state bytes, relation state (state.setHeapAllocated bytes)
  heapTaken : ∀ state start bytes, relation state (state.emit (.heapTaken start bytes))
  blockAdded : ∀ state blockSize block, relation state (state.emit (.blockAdded blockSize block))
  allocated : ∀ state data, relation state (state.emit (.allocated data))
  released : ∀ state data, relation state (state.emit (.released data))

variable {relation : State → State → Prop} {target : Target}
  {size listPtr nodePtr poolNodePtr blockPtr memPtr : Nat}

theorem within_read (hrefl : ∀ state, relation state state) :
    (read : Code State).Within relation := ⟨hrefl, fun _ => trivial⟩

theorem within_emit {event : Event} :
    (emit event).Within relation ↔ ∀ state, relation state (state.emit event) := within_modify _

namespace AccessSteps

variable (hsteps : AccessSteps relation)
include hsteps

@[simp] theorem within_tbxAssert {site : Site} {kind : AssertKind} {condition : Bool} :
    (tbxAssert site kind condition).Within relation :=
  Within.ite trivial (within_emit.mpr fun state => hsteps.assertion state site kind)

@[simp] theorem within_load {pointer index : Nat} : (load target pointer index).Within relation :=
  Within.ite trivial ((within_read hsteps.refl).bind fun _ => trivial)

@[simp] theorem within_store {pointer index value : Nat} :
    (MicroTbx.store target pointer index value).Within relation :=
  Within.ite trivial ((within_modify _).mpr fun state => hsteps.store state _ value)

@[simp] theorem within_blockListInsert :
    (tbxMemPoolBlockListInsert target listPtr nodePtr).Within relation := by
  unfold tbxMemPoolBlockListInsert
  repeat' with_reducible first | apply Within.bind | apply Within.ite | intro _ | simp [hsteps]

@[simp] theorem within_blockListExtract :
    (tbxMemPoolBlockListExtract target listPtr).Within relation := by
  unfold tbxMemPoolBlockListExtract
  repeat' with_reducible first | apply Within.bind | apply Within.ite | intro _ | simp [hsteps]

@[simp] theorem within_blockListIsEmpty :
    (tbxMemPoolBlockListIsEmpty target listPtr).Within relation := by
  unfold tbxMemPoolBlockListIsEmpty
  repeat' with_reducible first | apply Within.bind | apply Within.ite | intro _ | simp [hsteps]

@[simp] theorem within_findLoop (fuel : Nat) :
    (findLoop target size fuel nodePtr).Within relation := by
  induction fuel generalizing nodePtr with
  | zero => trivial
  | succ fuel ih =>
      unfold findLoop
      repeat' with_reducible first
        | apply Within.bind | apply Within.ite | intro _ | simp [hsteps, ih]

@[simp] theorem within_findBestFitLoop (fuel : Nat) :
    (findBestFitLoop target size fuel nodePtr).Within relation := by
  induction fuel generalizing nodePtr with
  | zero => trivial
  | succ fuel ih =>
      unfold findBestFitLoop
      repeat' with_reducible first
        | apply Within.bind | apply Within.ite | intro _ | simp [hsteps, ih]

@[simp] theorem within_listFind : (tbxMemPoolListFind target size).Within relation := by
  unfold tbxMemPoolListFind
  repeat' with_reducible first
    | apply Within.bind | apply Within.ite | intro _ | apply within_read hsteps.refl | simp [hsteps]

@[simp] theorem within_listFindBestFit :
    (tbxMemPoolListFindBestFit target size).Within relation := by
  unfold tbxMemPoolListFindBestFit
  repeat' with_reducible first
    | apply Within.bind | apply Within.ite | intro _ | apply within_read hsteps.refl | simp [hsteps]

/-- A release takes one step of its own. -/
theorem within_release (hreleased : ∀ state data, relation state (state.emit (.released data))) :
    (tbxMemPoolRelease target memPtr).Within relation := by
  have hemit : ∀ data, (emit (.released data)).Within relation := fun data =>
    within_emit.mpr fun state => hreleased state data
  unfold tbxMemPoolRelease tbxMemPoolBlockGetMemPtr tbxMemPoolBlockGetBlockSize releaseTo
  repeat' with_reducible first
    | apply Within.bind | apply Within.ite | intro _ | simp [hsteps, hemit]

end AccessSteps

namespace PoolSteps

variable (hsteps : PoolSteps relation)
include hsteps

@[simp] theorem within_heapAllocate : (tbxHeapAllocate target size).Within relation := by
  have haccess := hsteps.toAccessSteps
  unfold tbxHeapAllocate
  repeat' with_reducible first
    | apply Within.bind | apply Within.ite | intro _ | apply within_read hsteps.refl
    | simp [haccess, hsteps.setHeapAllocated, within_emit, hsteps.heapTaken]

@[simp] theorem within_blockCreate : (tbxMemPoolBlockCreate target size).Within relation := by
  have haccess := hsteps.toAccessSteps
  unfold tbxMemPoolBlockCreate
  repeat' with_reducible first
    | apply Within.bind | apply Within.ite | intro _ | simp [haccess, hsteps]

@[simp] theorem within_blockListCreate : (tbxMemPoolBlockListCreate target).Within relation := by
  have haccess := hsteps.toAccessSteps
  unfold tbxMemPoolBlockListCreate
  repeat' with_reducible first
    | apply Within.bind | apply Within.ite | intro _ | simp [haccess, hsteps]

@[simp] theorem within_insertBeforeLarger {prevNodePtr currentNodePtr : Nat} :
    (insertBeforeLarger target nodePtr prevNodePtr currentNodePtr).Within relation := by
  have haccess := hsteps.toAccessSteps
  unfold insertBeforeLarger
  repeat' with_reducible first
    | apply Within.bind | apply Within.ite | intro _ | apply within_read hsteps.refl
    | simp [haccess, hsteps.setPoolList]

@[simp] theorem within_insertLoop (fuel : Nat) {prevNodePtr currentNodePtr : Nat} :
    (insertLoop target nodePtr fuel prevNodePtr currentNodePtr).Within relation := by
  have haccess := hsteps.toAccessSteps
  induction fuel generalizing prevNodePtr currentNodePtr with
  | zero => trivial
  | succ fuel ih =>
      unfold insertLoop
      repeat' with_reducible first
        | apply Within.bind | apply Within.ite | intro _ | simp [haccess, hsteps, ih]

@[simp] theorem within_listInsert : (tbxMemPoolListInsert target nodePtr).Within relation := by
  have haccess := hsteps.toAccessSteps
  unfold tbxMemPoolListInsert
  repeat' with_reducible first
    | apply Within.bind | apply Within.ite | intro _ | apply within_read hsteps.refl
    | simp [haccess, hsteps, hsteps.setPoolList]

@[simp] theorem within_createPool : (createPool target size).Within relation := by
  have haccess := hsteps.toAccessSteps
  unfold createPool
  repeat' with_reducible first
    | apply Within.bind | apply Within.ite | intro _ | simp [haccess, hsteps]

@[simp] theorem within_createBlock {result : Status} :
    (createBlock target poolNodePtr size result).Within relation := by
  have haccess := hsteps.toAccessSteps
  unfold createBlock
  repeat' with_reducible first
    | apply Within.bind | apply Within.ite | intro _
    | simp [haccess, hsteps, within_emit, hsteps.blockAdded]

@[simp] theorem within_createBlocks (count : Nat) {result : Status} :
    (createBlocks target poolNodePtr size count result).Within relation := by
  induction count generalizing result with
  | zero => trivial
  | succ count ih =>
      unfold createBlocks
      exact hsteps.within_createBlock.bind fun _ => ih

@[simp] theorem within_create (count : Nat) : (tbxMemPoolCreate target count size).Within relation := by
  have haccess := hsteps.toAccessSteps
  unfold tbxMemPoolCreate
  repeat' with_reducible first
    | apply Within.bind | apply Within.ite | intro _ | simp [haccess, hsteps]

@[simp] theorem within_allocateFrom : (allocateFrom target poolNodePtr).Within relation := by
  have haccess := hsteps.toAccessSteps
  unfold allocateFrom tbxMemPoolBlockGetDataPtr
  repeat' with_reducible first
    | apply Within.bind | apply Within.ite | intro _
    | simp [haccess, within_emit, hsteps.allocated]

@[simp] theorem within_allocate : (tbxMemPoolAllocate target size).Within relation := by
  have haccess := hsteps.toAccessSteps
  unfold tbxMemPoolAllocate
  repeat' with_reducible first
    | apply Within.bind | apply Within.ite | intro _ | simp [haccess, hsteps]

@[simp] theorem within_allocateAuto : (tbxMemPoolAllocateAuto target size).Within relation := by
  have haccess := hsteps.toAccessSteps
  unfold tbxMemPoolAllocateAuto
  repeat' with_reducible first
    | apply Within.bind | apply Within.ite | intro _ | apply within_read hsteps.refl
    | simp [haccess, hsteps]

theorem within_poolRelease : (tbxMemPoolRelease target memPtr).Within relation :=
  hsteps.within_release hsteps.released

end PoolSteps

end MicroTbx

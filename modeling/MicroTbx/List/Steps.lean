import MicroTbx.List.Operations
import MicroTbx.MemPool.Steps

/-! # The steps of the list functions

The functions are taken apart as those of the pools are. A call that asks for
no memory takes fewer kinds of steps than one that may add a block to a pool.
-/

namespace MicroTbx

open Program

/-- A relation that the steps of a list function stay within while it asks for
no memory. -/
structure ListSteps (relation : State → State → Prop) : Prop extends AccessSteps relation where
  nodeAccess : ∀ state node, relation state (state.emit (.nodeAccess node))
  released : ∀ state data, relation state (state.emit (.released data))

variable {relation : State → State → Prop} {target : Target}
  {size list node item itemRef index value : Nat} {site : Site}

theorem PoolSteps.within_allocateGrowing (hsteps : PoolSteps relation) :
    (allocateGrowing target size).Within relation := by
  unfold allocateGrowing
  repeat' with_reducible first
    | apply Within.bind | apply Within.ite | intro _ | simp [hsteps]

namespace ListSteps

variable (hsteps : ListSteps relation)
include hsteps

@[simp] theorem within_loadNode : (loadNode target node index).Within relation :=
  (within_emit.mpr fun state => hsteps.nodeAccess state node).bind fun _ => hsteps.within_load

@[simp] theorem within_storeNode : (storeNode target node index value).Within relation :=
  (within_emit.mpr fun state => hsteps.nodeAccess state node).bind fun _ => hsteps.within_store

@[simp] theorem within_findListNodeLoop (fuel : Nat) :
    (findListNodeLoop target item fuel node).Within relation := by
  induction fuel generalizing node with
  | zero => trivial
  | succ fuel ih =>
      unfold findListNodeLoop
      repeat' with_reducible first
        | apply Within.bind | apply Within.ite | intro _ | simp [hsteps, ih]

@[simp] theorem within_findListNode : (tbxListFindListNode target list item).Within relation := by
  have haccess := hsteps.toAccessSteps
  unfold tbxListFindListNode
  repeat' with_reducible first
    | apply Within.bind | apply Within.ite | intro _ | simp [haccess, hsteps]

@[simp] theorem within_clearLoop (fuel : Nat) : (clearLoop target fuel node).Within relation := by
  induction fuel generalizing node with
  | zero => trivial
  | succ fuel ih =>
      unfold clearLoop
      repeat' with_reducible first
        | apply Within.bind | apply Within.ite | intro _
        | exact hsteps.within_release hsteps.released | simp [hsteps, ih]

@[simp] theorem within_clear : (tbxListClear target list).Within relation := by
  have haccess := hsteps.toAccessSteps
  unfold tbxListClear
  repeat' with_reducible first
    | apply Within.bind | apply Within.ite | intro _ | simp [haccess, hsteps]

theorem within_delete : (tbxListDelete target list).Within relation := by
  have haccess := hsteps.toAccessSteps
  unfold tbxListDelete
  repeat' with_reducible first
    | apply Within.bind | apply Within.ite | intro _
    | exact hsteps.within_release hsteps.released | simp [haccess, hsteps]

theorem within_getSize : (tbxListGetSize target list).Within relation := by
  have haccess := hsteps.toAccessSteps
  unfold tbxListGetSize
  repeat' with_reducible first
    | apply Within.bind | apply Within.ite | intro _ | simp [haccess]

@[simp] theorem within_initListNode : (initListNode target node item).Within relation := by
  unfold initListNode
  repeat' with_reducible first
    | apply Within.bind | apply Within.ite | intro _ | simp [hsteps]

@[simp] theorem within_incrementNodeCount : (incrementNodeCount target list).Within relation :=
  hsteps.within_load.bind fun _ => hsteps.within_store

@[simp] theorem within_decrementNodeCount : (decrementNodeCount target list).Within relation :=
  hsteps.within_load.bind fun _ => hsteps.within_store

@[simp] theorem within_linkFront : (linkFront target list node).Within relation := by
  have haccess := hsteps.toAccessSteps
  unfold linkFront
  repeat' with_reducible first
    | apply Within.bind | apply Within.ite | intro _ | simp [haccess, hsteps]

@[simp] theorem within_linkBack : (linkBack target list node).Within relation := by
  have haccess := hsteps.toAccessSteps
  unfold linkBack
  repeat' with_reducible first
    | apply Within.bind | apply Within.ite | intro _ | simp [haccess, hsteps]

@[simp] theorem within_linkBefore {refListNodePtr : Nat} :
    (linkBefore target list node refListNodePtr).Within relation := by
  have haccess := hsteps.toAccessSteps
  unfold linkBefore
  repeat' with_reducible first
    | apply Within.bind | apply Within.ite | intro _ | simp [haccess, hsteps]

@[simp] theorem within_linkAfter {refListNodePtr : Nat} :
    (linkAfter target list node refListNodePtr).Within relation := by
  have haccess := hsteps.toAccessSteps
  unfold linkAfter
  repeat' with_reducible first
    | apply Within.bind | apply Within.ite | intro _ | simp [haccess, hsteps]

@[simp] theorem within_unlink : (unlink target list node).Within relation := by
  have haccess := hsteps.toAccessSteps
  unfold unlink unlinkOnly unlinkFirst unlinkLast unlinkMiddle
  repeat' with_reducible first
    | apply Within.bind | apply Within.ite | intro _ | simp [haccess, hsteps]

@[simp] theorem within_removeListNode : (removeListNode target list node).Within relation := by
  unfold removeListNode
  repeat' with_reducible first
    | apply Within.bind | apply Within.ite | intro _ | simp [hsteps]

theorem within_removeItem : (tbxListRemoveItem target list item).Within relation := by
  have haccess := hsteps.toAccessSteps
  unfold tbxListRemoveItem
  repeat' with_reducible first
    | apply Within.bind | apply Within.ite | intro _
    | exact hsteps.within_release hsteps.released | simp [haccess, hsteps]

theorem within_getItemAtEnd {member : Nat} :
    (getItemAtEnd target site member list).Within relation := by
  have haccess := hsteps.toAccessSteps
  unfold getItemAtEnd
  repeat' with_reducible first
    | apply Within.bind | apply Within.ite | intro _ | simp [haccess, hsteps]

theorem within_getItemNextTo {member : Nat} :
    (getItemNextTo target site member list itemRef).Within relation := by
  have haccess := hsteps.toAccessSteps
  unfold getItemNextTo
  repeat' with_reducible first
    | apply Within.bind | apply Within.ite | intro _ | simp [haccess, hsteps]

theorem within_swapItems {item1 item2 : Nat} :
    (tbxListSwapItems target list item1 item2).Within relation := by
  have haccess := hsteps.toAccessSteps
  unfold tbxListSwapItems
  repeat' with_reducible first
    | apply Within.bind | apply Within.ite | intro _ | simp [haccess, hsteps]

variable {compareItemsFcn : CompareItems}

@[simp] theorem within_sortIndexLoop {currentNode calls idxNode : Nat} (fuel : Nat) :
    (sortIndexLoop target compareItemsFcn currentNode fuel calls idxNode).Within relation := by
  induction fuel generalizing calls idxNode with
  | zero => trivial
  | succ fuel ih =>
      unfold sortIndexLoop
      repeat' with_reducible first
        | apply Within.bind | apply Within.ite | intro _ | simp [hsteps, ih]

@[simp] theorem within_sortCurrentLoop {calls currentNode : Nat} (fuel : Nat) :
    (sortCurrentLoop target compareItemsFcn fuel calls currentNode).Within relation := by
  induction fuel generalizing calls currentNode with
  | zero => trivial
  | succ fuel ih =>
      unfold sortCurrentLoop
      repeat' with_reducible first
        | apply Within.bind | apply Within.ite | intro _ | simp [hsteps, ih]

theorem within_sortItems {compareItemsFcn : Option CompareItems} :
    (tbxListSortItems target list compareItemsFcn).Within relation := by
  have haccess := hsteps.toAccessSteps
  unfold tbxListSortItems
  cases compareItemsFcn with
  | none => exact haccess.within_tbxAssert.bind fun _ => haccess.within_tbxAssert.bind fun _ => trivial
  | some compareItemsFcn =>
      repeat' with_reducible first
        | apply Within.bind | apply Within.ite | intro _ | simp [haccess, hsteps]

end ListSteps

end MicroTbx

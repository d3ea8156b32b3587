import MicroTbx.List.Operations
import MicroTbx.MemPool.Sections

/-! # Sections of the list functions

A search, linking a node and unlinking one are a section each. What lies
between them, the allocation of a node, its initialization and its release, is
made of sections and steps of its own.
-/

namespace MicroTbx

open Program

variable {target : Target} {list node ref item index value : Nat} {site : Site}

@[simp] theorem balanced_loadNode : (loadNode target node index).Balanced 0 :=
  (balanced_emit _).part fun _ => balanced_load

@[simp] theorem balanced_storeNode : (storeNode target node index value).Balanced 0 :=
  (balanced_emit _).part fun _ => balanced_store

@[simp] theorem balanced_incrementNodeCount : (incrementNodeCount target list).Balanced 0 :=
  balanced_load.part fun _ => balanced_store

@[simp] theorem balanced_decrementNodeCount : (decrementNodeCount target list).Balanced 0 :=
  balanced_load.part fun _ => balanced_store

@[simp] theorem balanced_findListNodeLoop (fuel : Nat) :
    (findListNodeLoop target item fuel node).Balanced 0 := by
  induction fuel generalizing node with
  | zero => trivial
  | succ fuel ih =>
      unfold findListNodeLoop
      repeat' with_reducible first | apply Balanced.part | apply Balanced.ite | intro _ | simp [ih]

@[simp] theorem balanced_unlink : (unlink target list node).Balanced 0 := by
  unfold unlink unlinkOnly unlinkFirst unlinkLast unlinkMiddle
  repeat' with_reducible first | apply Balanced.part | apply Balanced.ite | intro _ | simp

theorem store_atomic (hnode : node ≠ null) : (store target node index value).Atomic := by
  rw [store, if_neg hnode]
  exact Atomic.modify _

theorem emit_atomic (event : Event) : (emit event).Atomic := Atomic.modify _

theorem tbxListFindListNode_atomic (hlist : list ≠ null) (hitem : item ≠ null) :
    (tbxListFindListNode target list item).Atomic := by
  unfold tbxListFindListNode
  apply Atomic.of_assert (decide_eq_true hlist)
  apply Atomic.of_assert (decide_eq_true hitem)
  rw [if_pos ⟨hlist, hitem⟩]
  apply Atomic.enter
  repeat' with_reducible first | apply Closes.leave | apply Closes.bind | intro _ | simp

theorem linkFront_atomic : (linkFront target list node).Atomic := by
  unfold linkFront
  apply Atomic.enter
  repeat' with_reducible first
    | apply Closes.leave_unit | apply Closes.bind | apply Balanced.part | apply Balanced.ite
    | intro _ | simp

theorem linkBack_atomic : (linkBack target list node).Atomic := by
  unfold linkBack
  apply Atomic.enter
  repeat' with_reducible first
    | apply Closes.leave_unit | apply Closes.bind | apply Balanced.part | apply Balanced.ite
    | intro _ | simp

theorem linkBefore_atomic : (linkBefore target list node ref).Atomic := by
  unfold linkBefore
  apply Atomic.enter
  repeat' with_reducible first
    | apply Closes.leave_unit | apply Closes.bind | apply Balanced.part | apply Balanced.ite
    | intro _ | simp

theorem linkAfter_atomic : (linkAfter target list node ref).Atomic := by
  unfold linkAfter
  apply Atomic.enter
  repeat' with_reducible first
    | apply Closes.leave_unit | apply Closes.bind | apply Balanced.part | apply Balanced.ite
    | intro _ | simp

theorem removeListNode_atomic : (removeListNode target list node).Atomic := by
  unfold removeListNode
  apply Atomic.enter
  repeat' with_reducible first
    | apply Closes.leave_unit | apply Closes.bind | intro _ | simp

theorem getItemAtEnd_atomic (hlist : list ≠ null) {member : Nat} :
    (getItemAtEnd target site member list).Atomic := by
  unfold getItemAtEnd
  apply Atomic.of_assert (decide_eq_true hlist)
  rw [if_pos hlist]
  apply Atomic.enter
  repeat' with_reducible first
    | apply Closes.leave | apply Closes.bind | apply Balanced.part | apply Balanced.ite | intro _
    | simp

/-! ## Whole calls -/

@[simp] theorem balanced_allocateGrowing : (allocateGrowing target value).Balanced 0 := by
  unfold allocateGrowing
  repeat' with_reducible first
    | apply Balanced.enter | apply Balanced.leave | apply Balanced.leave_unit | apply Balanced.part
    | apply Balanced.ite | intro _ | simp

@[simp] theorem balanced_newListNode : (newListNode target).Balanced 0 := balanced_allocateGrowing

@[simp] theorem balanced_initListNode : (initListNode target node item).Balanced 0 := by
  unfold initListNode
  repeat' with_reducible first
    | apply Balanced.enter | apply Balanced.leave | apply Balanced.leave_unit | apply Balanced.part
    | apply Balanced.ite | intro _ | simp

@[simp] theorem balanced_listFindListNode : (tbxListFindListNode target list item).Balanced 0 := by
  unfold tbxListFindListNode
  repeat' with_reducible first
    | apply Balanced.enter | apply Balanced.leave | apply Balanced.leave_unit | apply Balanced.part
    | apply Balanced.ite | intro _ | simp

@[simp] theorem balanced_createMemPools : (createMemPools target).Balanced 0 := by
  unfold createMemPools
  repeat' with_reducible first
    | apply Balanced.enter | apply Balanced.leave | apply Balanced.leave_unit | apply Balanced.part
    | apply Balanced.ite | intro _ | simp

@[simp] theorem balanced_listCreate : (tbxListCreate target).Balanced 0 := by
  unfold tbxListCreate
  repeat' with_reducible first
    | apply Balanced.enter | apply Balanced.leave | apply Balanced.leave_unit | apply Balanced.part
    | apply Balanced.ite | intro _ | simp

@[simp] theorem balanced_clearLoop (fuel : Nat) : (clearLoop target fuel node).Balanced 0 := by
  induction fuel generalizing node with
  | zero => trivial
  | succ fuel ih =>
      unfold clearLoop
      repeat' with_reducible first | apply Balanced.part | apply Balanced.ite | intro _ | simp [ih]

@[simp] theorem balanced_listClear : (tbxListClear target list).Balanced 0 := by
  unfold tbxListClear
  repeat' with_reducible first
    | apply Balanced.enter | apply Balanced.leave | apply Balanced.leave_unit | apply Balanced.part
    | apply Balanced.ite | intro _ | simp

@[simp] theorem balanced_listDelete : (tbxListDelete target list).Balanced 0 := by
  unfold tbxListDelete
  repeat' with_reducible first
    | apply Balanced.enter | apply Balanced.leave | apply Balanced.leave_unit | apply Balanced.part
    | apply Balanced.ite | intro _ | simp

@[simp] theorem balanced_listGetSize : (tbxListGetSize target list).Balanced 0 := by
  unfold tbxListGetSize
  repeat' with_reducible first
    | apply Balanced.enter | apply Balanced.leave | apply Balanced.leave_unit | apply Balanced.part
    | apply Balanced.ite | intro _ | simp

@[simp] theorem balanced_linkFront : (linkFront target list node).Balanced 0 := by
  unfold linkFront
  repeat' with_reducible first
    | apply Balanced.enter | apply Balanced.leave | apply Balanced.leave_unit | apply Balanced.part
    | apply Balanced.ite | intro _ | simp

@[simp] theorem balanced_linkBack : (linkBack target list node).Balanced 0 := by
  unfold linkBack
  repeat' with_reducible first
    | apply Balanced.enter | apply Balanced.leave | apply Balanced.leave_unit | apply Balanced.part
    | apply Balanced.ite | intro _ | simp

@[simp] theorem balanced_linkBefore : (linkBefore target list node ref).Balanced 0 := by
  unfold linkBefore
  repeat' with_reducible first
    | apply Balanced.enter | apply Balanced.leave | apply Balanced.leave_unit | apply Balanced.part
    | apply Balanced.ite | intro _ | simp

@[simp] theorem balanced_linkAfter : (linkAfter target list node ref).Balanced 0 := by
  unfold linkAfter
  repeat' with_reducible first
    | apply Balanced.enter | apply Balanced.leave | apply Balanced.leave_unit | apply Balanced.part
    | apply Balanced.ite | intro _ | simp

theorem balanced_insertAtEnd {link : Nat → Nat → Code Unit}
    (hlink : ∀ node, (link list node).Balanced 0) :
    (insertAtEnd target site link list item).Balanced 0 := by
  unfold insertAtEnd
  repeat' with_reducible first
    | apply Balanced.part | apply Balanced.ite | intro _ | simp [hlink]

theorem balanced_insertNextTo {link : Nat → Nat → Nat → Code Unit} {itemRef : Nat}
    (hlink : ∀ node ref, (link list node ref).Balanced 0) :
    (insertNextTo target site link list item itemRef).Balanced 0 := by
  unfold insertNextTo
  repeat' with_reducible first
    | apply Balanced.part | apply Balanced.ite | intro _ | simp [hlink]

@[simp] theorem balanced_removeListNode : (removeListNode target list node).Balanced 0 := by
  unfold removeListNode
  repeat' with_reducible first
    | apply Balanced.enter | apply Balanced.leave | apply Balanced.leave_unit | apply Balanced.part
    | apply Balanced.ite | intro _ | simp

@[simp] theorem balanced_removeItem : (tbxListRemoveItem target list item).Balanced 0 := by
  unfold tbxListRemoveItem
  repeat' with_reducible first
    | apply Balanced.enter | apply Balanced.leave | apply Balanced.leave_unit | apply Balanced.part
    | apply Balanced.ite | intro _ | simp

@[simp] theorem balanced_getItemAtEnd : (getItemAtEnd target site index list).Balanced 0 := by
  unfold getItemAtEnd
  repeat' with_reducible first
    | apply Balanced.enter | apply Balanced.leave | apply Balanced.leave_unit | apply Balanced.part
    | apply Balanced.ite | intro _ | simp

@[simp] theorem balanced_getItemNextTo : (getItemNextTo target site index list item).Balanced 0 := by
  unfold getItemNextTo
  repeat' with_reducible first
    | apply Balanced.enter | apply Balanced.leave | apply Balanced.leave_unit | apply Balanced.part
    | apply Balanced.ite | intro _ | simp

@[simp] theorem balanced_swapItems : (tbxListSwapItems target list item value).Balanced 0 := by
  unfold tbxListSwapItems
  repeat' with_reducible first
    | apply Balanced.enter | apply Balanced.leave | apply Balanced.leave_unit | apply Balanced.part
    | apply Balanced.ite | intro _ | simp

@[simp] theorem balanced_sortIndexLoop (compareItemsFcn : CompareItems) (fuel : Nat) {calls : Nat} :
    (sortIndexLoop target compareItemsFcn ref fuel calls node).Balanced 0 := by
  induction fuel generalizing calls node with
  | zero => trivial
  | succ fuel ih =>
      unfold sortIndexLoop
      repeat' with_reducible first | apply Balanced.part | apply Balanced.ite | intro _ | simp [ih]

@[simp] theorem balanced_sortCurrentLoop (compareItemsFcn : CompareItems) (fuel : Nat)
    {calls : Nat} : (sortCurrentLoop target compareItemsFcn fuel calls node).Balanced 0 := by
  induction fuel generalizing calls node with
  | zero => trivial
  | succ fuel ih =>
      unfold sortCurrentLoop
      repeat' with_reducible first | apply Balanced.part | apply Balanced.ite | intro _ | simp [ih]

@[simp] theorem balanced_sortItems {compareItemsFcn : Option CompareItems} :
    (tbxListSortItems target list compareItemsFcn).Balanced 0 := by
  unfold tbxListSortItems
  cases compareItemsFcn with
  | none => repeat' with_reducible first | apply Balanced.part | intro _ | simp
  | some compareItemsFcn =>
      repeat' with_reducible first
        | apply Balanced.enter | apply Balanced.leave_unit | apply Balanced.part
        | apply Balanced.ite | intro _ | simp

/-! ## Calls with valid arguments -/

theorem insertAtEnd_eq (hlist : list ≠ null) (hitem : item ≠ null)
    (link : Nat → Nat → Code Unit) :
    insertAtEnd target site link list item = (do
      let newListNodePtr ← newListNode target
      if newListNodePtr ≠ null then do
        initListNode target newListNodePtr item
        link list newListNodePtr
        pure .ok
      else pure .error) := by
  rw [insertAtEnd, decide_eq_true hlist, decide_eq_true hitem, if_pos ⟨hlist, hitem⟩]
  rfl

theorem insertNextTo_eq {itemRef : Nat} (hlist : list ≠ null) (hitem : item ≠ null)
    (href : itemRef ≠ null) (link : Nat → Nat → Nat → Code Unit) :
    insertNextTo target site link list item itemRef = (do
      let refListNodePtr ← tbxListFindListNode target list itemRef
      if refListNodePtr ≠ null then do
        let newListNodePtr ← newListNode target
        if newListNodePtr ≠ null then do
          initListNode target newListNodePtr item
          link list newListNodePtr refListNodePtr
          pure .ok
        else pure .error
      else pure .error) := by
  rw [insertNextTo, decide_eq_true hlist, decide_eq_true hitem, decide_eq_true href,
    if_pos ⟨hlist, hitem, href⟩]
  rfl

theorem tbxListRemoveItem_eq (hlist : list ≠ null) (hitem : item ≠ null) :
    tbxListRemoveItem target list item = (do
      let listNodePtr ← tbxListFindListNode target list item
      if listNodePtr ≠ null then do
        removeListNode target list listNodePtr
        tbxMemPoolRelease target listNodePtr
      else pure ()) := by
  rw [tbxListRemoveItem, decide_eq_true hlist, decide_eq_true hitem, if_pos ⟨hlist, hitem⟩]
  rfl

end MicroTbx

import MicroTbx.MemPool.Operations

/-! # The linked list module

Doubly linked lists whose headers and nodes are blocks of the memory pools. An
access to a member of a node is logged before it is made, so that the log also
shows an access through a `NULL` pointer, which nothing follows.
-/

namespace MicroTbx

open Program

/-! ## Memory layout -/

/-- Members of `tTbxListNode`. -/
abbrev ListNode.itemPtr : Nat := 0
abbrev ListNode.prevNodePtr : Nat := 1
abbrev ListNode.nextNodePtr : Nat := 2

/-- Members of `tTbxList`. -/
abbrev TbxList.nodeCount : Nat := 0
abbrev TbxList.firstNodePtr : Nat := 1
abbrev TbxList.lastNodePtr : Nat := 2

variable (target : Target)

def sizeofListNode : Nat := 3 * target.word
def sizeofList : Nat := 3 * target.word

/-- Read a member of a node. -/
def loadNode (node index : Nat) : Code Nat := do
  emit (.nodeAccess node)
  load target node index

/-- Write a member of a node. -/
def storeNode (node index value : Nat) : Code Unit := do
  emit (.nodeAccess node)
  store target node index value

/-! ## Shared parts of the functions -/

/-- `TbxMemPoolAllocate`, with a new block in the pool when it fails. -/
def allocateGrowing (size : Nat) : Code Nat := do
  let result ← tbxMemPoolAllocate target size
  if result = null then do
    let created ← tbxMemPoolCreate target 1 size
    if created = .ok then tbxMemPoolAllocate target size else pure null
  else pure result

/-- Allocate the node of an item that is to be inserted. -/
def newListNode : Code Nat := allocateGrowing target (sizeofListNode target)

/-- Initialize the node for the list. -/
def initListNode (newListNodePtr item : Nat) : Code Unit := do
  storeNode target newListNodePtr ListNode.itemPtr item
  storeNode target newListNodePtr ListNode.prevNodePtr null
  storeNode target newListNodePtr ListNode.nextNodePtr null

/-- `list->nodeCount++`. -/
def incrementNodeCount (list : Nat) : Code Unit := do
  let nodeCount ← load target list TbxList.nodeCount
  store target list TbxList.nodeCount (target.sizeT (nodeCount + 1))

/-- `list->nodeCount--`. -/
def decrementNodeCount (list : Nat) : Code Unit := do
  let nodeCount ← load target list TbxList.nodeCount
  store target list TbxList.nodeCount (target.sizeT (nodeCount + 2 ^ target.sizeBits - 1))

/-- Loop through the nodes to find the node that an item belongs to. -/
def findListNodeLoop (item : Nat) : Nat → Nat → Code Nat
  | 0, _ => .fault .endlessLoop
  | fuel + 1, currentListNodePtr =>
      if currentListNodePtr ≠ null then do
        let itemPtr ← loadNode target currentListNodePtr ListNode.itemPtr
        if itemPtr = item then pure currentListNodePtr
        else do
          let next ← loadNode target currentListNodePtr ListNode.nextNodePtr
          findListNodeLoop item fuel next
      else pure null

def tbxListFindListNode (list item : Nat) : Code Nat := do
  tbxAssert .tbxListFindListNode .parameter (decide (list ≠ null))
  tbxAssert .tbxListFindListNode .parameter (decide (item ≠ null))
  if list ≠ null ∧ item ≠ null then do
    enterCritical
    let first ← load target list TbxList.firstNodePtr
    let result ← findListNodeLoop target item target.loopFuel first
    leaveCritical
    pure result
  else pure null

/-! ## Creating and deleting -/

/-- The first call of `TbxListCreate` creates the memory pools. Both creations
are made even when the first fails. The result is `errorDetected`. -/
def createMemPools : Code Bool := do
  let state ← read
  if state.memPoolsCreated = false then do
    modify (·.setMemPoolsCreated)
    let lists ← tbxMemPoolCreate target 1 (sizeofList target)
    let nodes ← tbxMemPoolCreate target 1 (sizeofListNode target)
    pure (decide (lists = .error ∨ nodes = .error))
  else pure false

def tbxListCreate : Code Nat := do
  let errorDetected ← createMemPools target
  if errorDetected = false then do
    let newListPtr ← allocateGrowing target (sizeofList target)
    if newListPtr ≠ null then do
      store target newListPtr TbxList.firstNodePtr null
      store target newListPtr TbxList.lastNodePtr null
      store target newListPtr TbxList.nodeCount 0
      pure newListPtr
    else pure null
  else pure null

/-- Release the nodes of a list one after the other. The link is read before
the node is released. -/
def clearLoop : Nat → Nat → Code Unit
  | 0, _ => .fault .endlessLoop
  | fuel + 1, currentListNodePtr =>
      if currentListNodePtr ≠ null then do
        let next ← loadNode target currentListNodePtr ListNode.nextNodePtr
        tbxMemPoolRelease target currentListNodePtr
        clearLoop fuel next
      else pure ()

def tbxListClear (list : Nat) : Code Unit := do
  tbxAssert .tbxListClear .parameter (decide (list ≠ null))
  if list ≠ null then do
    enterCritical
    let first ← load target list TbxList.firstNodePtr
    clearLoop target target.loopFuel first
    store target list TbxList.firstNodePtr null
    store target list TbxList.lastNodePtr null
    store target list TbxList.nodeCount 0
    leaveCritical
  else pure ()

def tbxListDelete (list : Nat) : Code Unit := do
  tbxAssert .tbxListDelete .parameter (decide (list ≠ null))
  if list ≠ null then do
    enterCritical
    tbxListClear target list
    tbxMemPoolRelease target list
    leaveCritical
  else pure ()

def tbxListGetSize (list : Nat) : Code Nat := do
  tbxAssert .tbxListGetSize .parameter (decide (list ≠ null))
  if list ≠ null then do
    enterCritical
    let result ← load target list TbxList.nodeCount
    leaveCritical
    pure result
  else pure 0

/-! ## Inserting -/

/-- The critical section of `TbxListInsertItemFront`. -/
def linkFront (list newListNodePtr : Nat) : Code Unit := do
  enterCritical
  let first ← load target list TbxList.firstNodePtr
  (if first ≠ null then do
    let nodeCount ← load target list TbxList.nodeCount
    tbxAssert .tbxListInsertItemFront .sanity (decide (0 < nodeCount))
    let first ← load target list TbxList.firstNodePtr
    storeNode target newListNodePtr ListNode.nextNodePtr first
    let next ← loadNode target newListNodePtr ListNode.nextNodePtr
    storeNode target next ListNode.prevNodePtr newListNodePtr
  else store target list TbxList.lastNodePtr newListNodePtr)
  store target list TbxList.firstNodePtr newListNodePtr
  incrementNodeCount target list
  leaveCritical

/-- The critical section of `TbxListInsertItemBack`. -/
def linkBack (list newListNodePtr : Nat) : Code Unit := do
  enterCritical
  let first ← load target list TbxList.firstNodePtr
  (if first ≠ null then do
    let nodeCount ← load target list TbxList.nodeCount
    tbxAssert .tbxListInsertItemBack .sanity (decide (0 < nodeCount))
    let last ← load target list TbxList.lastNodePtr
    storeNode target newListNodePtr ListNode.prevNodePtr last
    let prev ← loadNode target newListNodePtr ListNode.prevNodePtr
    storeNode target prev ListNode.nextNodePtr newListNodePtr
  else store target list TbxList.firstNodePtr newListNodePtr)
  store target list TbxList.lastNodePtr newListNodePtr
  incrementNodeCount target list
  leaveCritical

/-- The critical section of `TbxListInsertItemBefore`. -/
def linkBefore (list newListNodePtr refListNodePtr : Nat) : Code Unit := do
  enterCritical
  let first ← load target list TbxList.firstNodePtr
  (if refListNodePtr = first then do
    let first ← load target list TbxList.firstNodePtr
    storeNode target newListNodePtr ListNode.nextNodePtr first
    let next ← loadNode target newListNodePtr ListNode.nextNodePtr
    storeNode target next ListNode.prevNodePtr newListNodePtr
    store target list TbxList.firstNodePtr newListNodePtr
  else do
    let refPrev ← loadNode target refListNodePtr ListNode.prevNodePtr
    tbxAssert .tbxListInsertItemBefore .sanity (decide (refPrev ≠ null))
    let refPrev ← loadNode target refListNodePtr ListNode.prevNodePtr
    storeNode target newListNodePtr ListNode.prevNodePtr refPrev
    storeNode target newListNodePtr ListNode.nextNodePtr refListNodePtr
    let prev ← loadNode target newListNodePtr ListNode.prevNodePtr
    storeNode target prev ListNode.nextNodePtr newListNodePtr
    let next ← loadNode target newListNodePtr ListNode.nextNodePtr
    storeNode target next ListNode.prevNodePtr newListNodePtr)
  incrementNodeCount target list
  leaveCritical

/-- The critical section of `TbxListInsertItemAfter`. Other than its sibling
it repeats the sanity check as a condition. -/
def linkAfter (list newListNodePtr refListNodePtr : Nat) : Code Unit := do
  enterCritical
  let last ← load target list TbxList.lastNodePtr
  (if refListNodePtr = last then do
    let last ← load target list TbxList.lastNodePtr
    storeNode target newListNodePtr ListNode.prevNodePtr last
    let prev ← loadNode target newListNodePtr ListNode.prevNodePtr
    storeNode target prev ListNode.nextNodePtr newListNodePtr
    store target list TbxList.lastNodePtr newListNodePtr
  else do
    let refNext ← loadNode target refListNodePtr ListNode.nextNodePtr
    tbxAssert .tbxListInsertItemAfter .sanity (decide (refNext ≠ null))
    let refNext ← loadNode target refListNodePtr ListNode.nextNodePtr
    if refNext ≠ null then do
      storeNode target newListNodePtr ListNode.prevNodePtr refListNodePtr
      let refNext ← loadNode target refListNodePtr ListNode.nextNodePtr
      storeNode target newListNodePtr ListNode.nextNodePtr refNext
      let prev ← loadNode target newListNodePtr ListNode.prevNodePtr
      storeNode target prev ListNode.nextNodePtr newListNodePtr
      let next ← loadNode target newListNodePtr ListNode.nextNodePtr
      storeNode target next ListNode.prevNodePtr newListNodePtr
    else pure ())
  incrementNodeCount target list
  leaveCritical

/-- Insert at an end of a list, by the given critical section. -/
def insertAtEnd (site : Site) (link : Nat → Nat → Code Unit) (list item : Nat) : Code Status := do
  tbxAssert site .parameter (decide (list ≠ null))
  tbxAssert site .parameter (decide (item ≠ null))
  if list ≠ null ∧ item ≠ null then do
    let newListNodePtr ← newListNode target
    if newListNodePtr ≠ null then do
      initListNode target newListNodePtr item
      link list newListNodePtr
      pure .ok
    else pure .error
  else pure .error

def tbxListInsertItemFront (list item : Nat) : Code Status :=
  insertAtEnd target .tbxListInsertItemFront (linkFront target) list item

def tbxListInsertItemBack (list item : Nat) : Code Status :=
  insertAtEnd target .tbxListInsertItemBack (linkBack target) list item

/-- Insert next to the node of a reference item, by the given critical section. -/
def insertNextTo (site : Site) (link : Nat → Nat → Nat → Code Unit) (list item itemRef : Nat) :
    Code Status := do
  tbxAssert site .parameter (decide (list ≠ null))
  tbxAssert site .parameter (decide (item ≠ null))
  tbxAssert site .parameter (decide (itemRef ≠ null))
  if list ≠ null ∧ item ≠ null ∧ itemRef ≠ null then do
    let refListNodePtr ← tbxListFindListNode target list itemRef
    if refListNodePtr ≠ null then do
      let newListNodePtr ← newListNode target
      if newListNodePtr ≠ null then do
        initListNode target newListNodePtr item
        link list newListNodePtr refListNodePtr
        pure .ok
      else pure .error
    else pure .error
  else pure .error

def tbxListInsertItemBefore (list item itemRef : Nat) : Code Status :=
  insertNextTo target .tbxListInsertItemBefore (linkBefore target) list item itemRef

def tbxListInsertItemAfter (list item itemRef : Nat) : Code Status :=
  insertNextTo target .tbxListInsertItemAfter (linkAfter target) list item itemRef

/-! ## Removing -/

/-- The node is the only one in its list. -/
def unlinkOnly (list listNodePtr : Nat) : Code Unit := do
  let first ← load target list TbxList.firstNodePtr
  tbxAssert .tbxListRemoveItem .sanity (decide (listNodePtr = first))
  let last ← load target list TbxList.lastNodePtr
  tbxAssert .tbxListRemoveItem .sanity (decide (listNodePtr = last))
  let nodeCount ← load target list TbxList.nodeCount
  tbxAssert .tbxListRemoveItem .sanity (decide (nodeCount = 1))
  store target list TbxList.firstNodePtr null
  store target list TbxList.lastNodePtr null

/-- The node is at the start of its list. -/
def unlinkFirst (list listNodePtr : Nat) : Code Unit := do
  let first ← load target list TbxList.firstNodePtr
  tbxAssert .tbxListRemoveItem .sanity (decide (listNodePtr = first))
  let next ← loadNode target listNodePtr ListNode.nextNodePtr
  tbxAssert .tbxListRemoveItem .sanity (decide (next ≠ null))
  let nodeCount ← load target list TbxList.nodeCount
  tbxAssert .tbxListRemoveItem .sanity (decide (1 < nodeCount))
  let next ← loadNode target listNodePtr ListNode.nextNodePtr
  store target list TbxList.firstNodePtr next
  let first ← load target list TbxList.firstNodePtr
  storeNode target first ListNode.prevNodePtr null

/-- The node is at the end of its list. -/
def unlinkLast (list listNodePtr : Nat) : Code Unit := do
  let last ← load target list TbxList.lastNodePtr
  tbxAssert .tbxListRemoveItem .sanity (decide (listNodePtr = last))
  let prev ← loadNode target listNodePtr ListNode.prevNodePtr
  tbxAssert .tbxListRemoveItem .sanity (decide (prev ≠ null))
  let nodeCount ← load target list TbxList.nodeCount
  tbxAssert .tbxListRemoveItem .sanity (decide (1 < nodeCount))
  let prev ← loadNode target listNodePtr ListNode.prevNodePtr
  store target list TbxList.lastNodePtr prev
  let last ← load target list TbxList.lastNodePtr
  storeNode target last ListNode.nextNodePtr null

/-- The node has neighbours on both sides. -/
def unlinkMiddle (list listNodePtr : Nat) : Code Unit := do
  let prev ← loadNode target listNodePtr ListNode.prevNodePtr
  tbxAssert .tbxListRemoveItem .sanity (decide (prev ≠ null))
  let next ← loadNode target listNodePtr ListNode.nextNodePtr
  tbxAssert .tbxListRemoveItem .sanity (decide (next ≠ null))
  let nodeCount ← load target list TbxList.nodeCount
  tbxAssert .tbxListRemoveItem .sanity (decide (2 < nodeCount))
  let next ← loadNode target listNodePtr ListNode.nextNodePtr
  let prev ← loadNode target listNodePtr ListNode.prevNodePtr
  storeNode target prev ListNode.nextNodePtr next
  let prev ← loadNode target listNodePtr ListNode.prevNodePtr
  let next ← loadNode target listNodePtr ListNode.nextNodePtr
  storeNode target next ListNode.prevNodePtr prev

/-- Take a node out of its list. The four cases are the only node, the first,
the last, and one in the middle. -/
def unlink (list listNodePtr : Nat) : Code Unit := do
  let prev ← loadNode target listNodePtr ListNode.prevNodePtr
  let alone ←
    (if prev = null then do
      let next ← loadNode target listNodePtr ListNode.nextNodePtr
      pure (decide (next = null))
    else pure false)
  if alone then unlinkOnly target list listNodePtr
  else do
    let prev ← loadNode target listNodePtr ListNode.prevNodePtr
    if prev = null then unlinkFirst target list listNodePtr
    else do
      let next ← loadNode target listNodePtr ListNode.nextNodePtr
      if next = null then unlinkLast target list listNodePtr
      else unlinkMiddle target list listNodePtr

/-- The critical section of `TbxListRemoveItem`. -/
def removeListNode (list listNodePtr : Nat) : Code Unit := do
  enterCritical
  unlink target list listNodePtr
  decrementNodeCount target list
  leaveCritical

def tbxListRemoveItem (list item : Nat) : Code Unit := do
  tbxAssert .tbxListRemoveItem .parameter (decide (list ≠ null))
  tbxAssert .tbxListRemoveItem .parameter (decide (item ≠ null))
  if list ≠ null ∧ item ≠ null then do
    let listNodePtr ← tbxListFindListNode target list item
    if listNodePtr ≠ null then do
      removeListNode target list listNodePtr
      tbxMemPoolRelease target listNodePtr
    else pure ()
  else pure ()

/-! ## Reading -/

/-- The item at an end of a list. -/
def getItemAtEnd (site : Site) (member : Nat) (list : Nat) : Code Nat := do
  tbxAssert site .parameter (decide (list ≠ null))
  if list ≠ null then do
    enterCritical
    let node ← load target list member
    let result ←
      (if node ≠ null then do
        let node ← load target list member
        loadNode target node ListNode.itemPtr
      else pure null)
    leaveCritical
    pure result
  else pure null

def tbxListGetFirstItem (list : Nat) : Code Nat :=
  getItemAtEnd target .tbxListGetFirstItem TbxList.firstNodePtr list

def tbxListGetLastItem (list : Nat) : Code Nat :=
  getItemAtEnd target .tbxListGetLastItem TbxList.lastNodePtr list

/-- The item of the neighbour that a member of the node points at. -/
def getItemNextTo (site : Site) (member : Nat) (list itemRef : Nat) : Code Nat := do
  tbxAssert site .parameter (decide (list ≠ null))
  tbxAssert site .parameter (decide (itemRef ≠ null))
  if list ≠ null ∧ itemRef ≠ null then do
    enterCritical
    let listNodePtr ← tbxListFindListNode target list itemRef
    let result ←
      (if listNodePtr ≠ null then do
        let listNodePtr ← loadNode target listNodePtr member
        if listNodePtr ≠ null then loadNode target listNodePtr ListNode.itemPtr
        else pure null
      else pure null)
    leaveCritical
    pure result
  else pure null

def tbxListGetPreviousItem (list itemRef : Nat) : Code Nat :=
  getItemNextTo target .tbxListGetPreviousItem ListNode.prevNodePtr list itemRef

def tbxListGetNextItem (list itemRef : Nat) : Code Nat :=
  getItemNextTo target .tbxListGetNextItem ListNode.nextNodePtr list itemRef

/-! ## Rearranging -/

def tbxListSwapItems (list item1 item2 : Nat) : Code Unit := do
  tbxAssert .tbxListSwapItems .parameter (decide (list ≠ null))
  tbxAssert .tbxListSwapItems .parameter (decide (item1 ≠ null))
  tbxAssert .tbxListSwapItems .parameter (decide (item2 ≠ null))
  if list ≠ null ∧ item1 ≠ null ∧ item2 ≠ null then do
    enterCritical
    let listNode1Ptr ← tbxListFindListNode target list item1
    let listNode2Ptr ← tbxListFindListNode target list item2
    (if listNode1Ptr ≠ null ∧ listNode2Ptr ≠ null then do
      storeNode target listNode1Ptr ListNode.itemPtr item2
      storeNode target listNode2Ptr ListNode.itemPtr item1
    else pure ())
    leaveCritical
  else pure ()

/-- A comparison callback: the value returned by each of its calls, which may
depend on how many calls were made before. -/
abbrev CompareItems := Nat → Nat → Nat → Nat

/-- `TBX_TRUE`. -/
def tbxTrue : Nat := 1

variable (compareItemsFcn : CompareItems)

/-- The loop over the index node. The result counts the calls of the callback. -/
def sortIndexLoop (currentNode : Nat) : Nat → Nat → Nat → Code Nat
  | 0, _, _ => .fault .endlessLoop
  | fuel + 1, calls, idxNode =>
      if idxNode ≠ null then do
        let currentItem ← loadNode target currentNode ListNode.itemPtr
        let idxItem ← loadNode target idxNode ListNode.itemPtr
        (if compareItemsFcn calls currentItem idxItem = tbxTrue then do
          let tempItemPtr ← loadNode target currentNode ListNode.itemPtr
          let idxItem ← loadNode target idxNode ListNode.itemPtr
          storeNode target currentNode ListNode.itemPtr idxItem
          storeNode target idxNode ListNode.itemPtr tempItemPtr
        else pure ())
        let next ← loadNode target idxNode ListNode.nextNodePtr
        sortIndexLoop currentNode fuel (calls + 1) next
      else pure calls

/-- The loop over the current node, which reads the link of that node before
it knows that there is one. -/
def sortCurrentLoop : Nat → Nat → Nat → Code Unit
  | 0, _, _ => .fault .endlessLoop
  | fuel + 1, calls, currentNode => do
      let next ← loadNode target currentNode ListNode.nextNodePtr
      if next ≠ null then do
        let idxNode ← loadNode target currentNode ListNode.nextNodePtr
        let calls ← sortIndexLoop target compareItemsFcn currentNode target.loopFuel calls idxNode
        let next ← loadNode target currentNode ListNode.nextNodePtr
        sortCurrentLoop fuel calls next
      else pure ()

def tbxListSortItems (list : Nat) (compareItemsFcn : Option CompareItems) : Code Unit := do
  tbxAssert .tbxListSortItems .parameter (decide (list ≠ null))
  tbxAssert .tbxListSortItems .parameter compareItemsFcn.isSome
  match compareItemsFcn with
  | some compareItemsFcn =>
      if list ≠ null then do
        enterCritical
        let currentNode ← load target list TbxList.firstNodePtr
        sortCurrentLoop target compareItemsFcn target.loopFuel 0 currentNode
        leaveCritical
      else pure ()
  | none => pure ()

end MicroTbx

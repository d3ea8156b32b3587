import MicroTbx.Heap.Allocate

/-! # The memory pool module

Pools of equal-sized blocks, kept in a list sorted by block size. Every pool
has a list of nodes for its free blocks and a list of spare nodes; a block in
use is known only to the application and by the size in its header.
-/

namespace MicroTbx

open Program

/-! ## Memory layout -/

/-- Members of `tBlockNode`. -/
abbrev BlockNode.blockPtr : Nat := 0
abbrev BlockNode.nextNodePtr : Nat := 1

/-- Members of `tPool`. -/
abbrev Pool.blockSize : Nat := 0
abbrev Pool.freeBlockListPtr : Nat := 1
abbrev Pool.usedBlockListPtr : Nat := 2

/-- Members of `tPoolNode`. -/
abbrev PoolNode.poolPtr : Nat := 0
abbrev PoolNode.nextNodePtr : Nat := 1

variable (target : Target)

def sizeofBlockNode : Nat := 2 * target.word
def sizeofBlockList : Nat := target.word
def sizeofPool : Nat := 3 * target.word
def sizeofPoolNode : Nat := 2 * target.word

/-! ## Block management functions -/

/-- Reserve a block on the heap and write its size in front of the data. -/
def tbxMemPoolBlockCreate (size : Nat) : Code Nat := do
  tbxAssert .tbxMemPoolBlockCreate .parameter (decide (0 < size))
  if 0 < size then do
    let blockMemPtr ← tbxHeapAllocate target (target.sizeT (target.word + size))
    if blockMemPtr ≠ null then do
      store target blockMemPtr 0 size
      pure blockMemPtr
    else pure null
  else pure null

def tbxMemPoolBlockGetDataPtr (memPtr : Nat) : Code Nat := do
  tbxAssert .tbxMemPoolBlockGetDataPtr .parameter (decide (memPtr ≠ null))
  if memPtr ≠ null then pure (target.field memPtr 1) else pure null

def tbxMemPoolBlockGetBlockSize (memPtr : Nat) : Code Nat := do
  tbxAssert .tbxMemPoolBlockGetBlockSize .parameter (decide (memPtr ≠ null))
  if memPtr ≠ null then load target memPtr 0 else pure 0

def tbxMemPoolBlockGetMemPtr (dataPtr : Nat) : Code Nat := do
  tbxAssert .tbxMemPoolBlockGetMemPtr .parameter (decide (dataPtr ≠ null))
  if dataPtr ≠ null then pure (dataPtr - target.word) else pure null

/-! ## Block list management functions -/

def tbxMemPoolBlockListCreate : Code Nat := do
  let result ← tbxHeapAllocate target (sizeofBlockList target)
  if result ≠ null then do
    store target result 0 null
    pure result
  else pure result

def tbxMemPoolBlockListInsert (listPtr nodePtr : Nat) : Code Unit := do
  tbxAssert .tbxMemPoolBlockListInsert .parameter (decide (listPtr ≠ null))
  tbxAssert .tbxMemPoolBlockListInsert .parameter (decide (nodePtr ≠ null))
  if listPtr ≠ null ∧ nodePtr ≠ null then do
    let head ← load target listPtr 0
    (if head = null then store target nodePtr BlockNode.nextNodePtr null
    else store target nodePtr BlockNode.nextNodePtr head)
    store target listPtr 0 nodePtr
  else pure ()

def tbxMemPoolBlockListExtract (listPtr : Nat) : Code Nat := do
  tbxAssert .tbxMemPoolBlockListExtract .parameter (decide (listPtr ≠ null))
  if listPtr ≠ null then do
    let result ← load target listPtr 0
    if result ≠ null then do
      let next ← load target result BlockNode.nextNodePtr
      (if next = null then store target listPtr 0 null
      else store target listPtr 0 next)
      pure result
    else pure null
  else pure null

def tbxMemPoolBlockListIsEmpty (listPtr : Nat) : Code Bool := do
  tbxAssert .tbxMemPoolBlockListIsEmpty .parameter (decide (listPtr ≠ null))
  if listPtr ≠ null then do
    let head ← load target listPtr 0
    pure (decide (head = null))
  else pure false

/-! ## Pool list management functions -/

/-- Walk the pool list until the pool of exactly this block size. -/
def findLoop (blockSize : Nat) : Nat → Nat → Code Nat
  | 0, _ => .fault .endlessLoop
  | fuel + 1, poolNodePtr =>
      if poolNodePtr ≠ null then do
        let poolPtr ← load target poolNodePtr PoolNode.poolPtr
        let size ← load target poolPtr Pool.blockSize
        if size = blockSize then pure poolNodePtr
        else do
          let next ← load target poolNodePtr PoolNode.nextNodePtr
          findLoop blockSize fuel next
      else pure null

def tbxMemPoolListFind (blockSize : Nat) : Code Nat := do
  tbxAssert .tbxMemPoolListFind .parameter (decide (0 < blockSize))
  if 0 < blockSize then do
    let state ← read
    findLoop target blockSize target.loopFuel state.tbxPoolList
  else pure null

/-- Walk the pool list until the first pool that fits; it counts only when it
has a free block. -/
def findBestFitLoop (blockSize : Nat) : Nat → Nat → Code Nat
  | 0, _ => .fault .endlessLoop
  | fuel + 1, poolNodePtr =>
      if poolNodePtr ≠ null then do
        let poolPtr ← load target poolNodePtr PoolNode.poolPtr
        let size ← load target poolPtr Pool.blockSize
        if blockSize ≤ size then do
          let freeBlockListPtr ← load target poolPtr Pool.freeBlockListPtr
          let empty ← tbxMemPoolBlockListIsEmpty target freeBlockListPtr
          if empty = false then pure poolNodePtr else pure null
        else do
          let next ← load target poolNodePtr PoolNode.nextNodePtr
          findBestFitLoop blockSize fuel next
      else pure null

def tbxMemPoolListFindBestFit (blockSize : Nat) : Code Nat := do
  tbxAssert .tbxMemPoolListFindBestFit .parameter (decide (0 < blockSize))
  if 0 < blockSize then do
    let state ← read
    findBestFitLoop target blockSize target.loopFuel state.tbxPoolList
  else pure null

/-- Insert in front of the current node when its pool has larger blocks. The
result tells whether the node was inserted. -/
def insertBeforeLarger (nodePtr prevNodePtr currentNodePtr : Nat) : Code Bool := do
  let currentPoolPtr ← load target currentNodePtr PoolNode.poolPtr
  tbxAssert .tbxMemPoolListInsert .sanity (decide (currentPoolPtr ≠ null))
  if currentPoolPtr ≠ null then do
    let poolPtr ← load target nodePtr PoolNode.poolPtr
    let currentSize ← load target currentPoolPtr Pool.blockSize
    let size ← load target poolPtr Pool.blockSize
    tbxAssert .tbxMemPoolListInsert .sanity (decide (currentSize ≠ size))
    if size < currentSize then do
      let state ← read
      (if currentNodePtr = state.tbxPoolList then do
        tbxAssert .tbxMemPoolListInsert .sanity (decide (prevNodePtr = null))
        store target nodePtr PoolNode.nextNodePtr currentNodePtr
        modify (·.setPoolList nodePtr)
      else do
        tbxAssert .tbxMemPoolListInsert .sanity (decide (prevNodePtr ≠ null))
        if prevNodePtr ≠ null then do
          store target nodePtr PoolNode.nextNodePtr currentNodePtr
          store target prevNodePtr PoolNode.nextNodePtr nodePtr
        else pure ())
      pure true
    else pure false
  else pure false

def insertLoop (nodePtr : Nat) : Nat → Nat → Nat → Code Unit
  | 0, _, _ => .fault .endlessLoop
  | fuel + 1, prevNodePtr, currentNodePtr =>
      if currentNodePtr ≠ null then do
        let inserted ← insertBeforeLarger target nodePtr prevNodePtr currentNodePtr
        let next ← load target currentNodePtr PoolNode.nextNodePtr
        if next = null ∧ inserted = false then do
          -- No pool has larger blocks, so the new node becomes the tail.
          store target nodePtr PoolNode.nextNodePtr null
          store target currentNodePtr PoolNode.nextNodePtr nodePtr
        else if inserted then pure ()
        else insertLoop nodePtr fuel currentNodePtr next
      else pure ()

def tbxMemPoolListInsert (nodePtr : Nat) : Code Unit := do
  tbxAssert .tbxMemPoolListInsert .parameter (decide (nodePtr ≠ null))
  if nodePtr ≠ null then do
    let poolPtr ← load target nodePtr PoolNode.poolPtr
    tbxAssert .tbxMemPoolListInsert .sanity (decide (poolPtr ≠ null))
    let state ← read
    if state.tbxPoolList = null then do
      store target nodePtr PoolNode.nextNodePtr null
      modify (·.setPoolList nodePtr)
    else insertLoop target nodePtr target.loopFuel null state.tbxPoolList
  else pure ()

/-! ## Interface functions -/

/-- The branch of `TbxMemPoolCreate` for a block size without a pool: a node,
a pool object and two list heads, linked into the pool list when all four
could be allocated. -/
def createPool (blockSize : Nat) : Code (Nat × Status) := do
  let poolNodePtr ← tbxHeapAllocate target (sizeofPoolNode target)
  if poolNodePtr = null then pure (poolNodePtr, .error)
  else do
    let poolPtr ← tbxHeapAllocate target (sizeofPool target)
    if poolPtr = null then pure (poolNodePtr, .error)
    else do
      store target poolNodePtr PoolNode.nextNodePtr null
      store target poolNodePtr PoolNode.poolPtr poolPtr
      store target poolPtr Pool.blockSize blockSize
      let freeBlockListPtr ← tbxMemPoolBlockListCreate target
      store target poolPtr Pool.freeBlockListPtr freeBlockListPtr
      let usedBlockListPtr ← tbxMemPoolBlockListCreate target
      store target poolPtr Pool.usedBlockListPtr usedBlockListPtr
      if freeBlockListPtr = null ∨ usedBlockListPtr = null then pure (poolNodePtr, .error)
      else do
        tbxMemPoolListInsert target poolNodePtr
        pure (poolNodePtr, .ok)

/-- One pass of the block loop of `TbxMemPoolCreate`. -/
def createBlock (poolNodePtr blockSize : Nat) (result : Status) : Code Status := do
  let blockNodePtr ← tbxHeapAllocate target (sizeofBlockNode target)
  if blockNodePtr = null then pure .error
  else do
    let blockPtr ← tbxMemPoolBlockCreate target blockSize
    if blockPtr = null then pure .error
    else do
      store target blockNodePtr BlockNode.blockPtr blockPtr
      store target blockNodePtr BlockNode.nextNodePtr null
      tbxAssert .tbxMemPoolCreate .sanity (decide (poolNodePtr ≠ null))
      if poolNodePtr = null then pure .error
      else do
        let poolPtr ← load target poolNodePtr PoolNode.poolPtr
        let freeBlockListPtr ← load target poolPtr Pool.freeBlockListPtr
        tbxMemPoolBlockListInsert target freeBlockListPtr blockNodePtr
        emit (.blockAdded blockSize blockPtr)
        pure result

/-- The block loop of `TbxMemPoolCreate`. It does not stop at a failure. -/
def createBlocks (poolNodePtr blockSize : Nat) : Nat → Status → Code Status
  | 0, result => pure result
  | count + 1, result => do
      let result ← createBlock target poolNodePtr blockSize result
      createBlocks poolNodePtr blockSize count result

def tbxMemPoolCreate (numBlocks blockSize : Nat) : Code Status := do
  tbxAssert .tbxMemPoolCreate .parameter (decide (0 < numBlocks))
  tbxAssert .tbxMemPoolCreate .parameter (decide (0 < blockSize))
  if 0 < numBlocks ∧ 0 < blockSize then do
    enterCritical
    let found ← tbxMemPoolListFind target blockSize
    let pool ← (if found = null then createPool target blockSize else pure (found, .ok))
    let result ←
      (if pool.2 = .ok then createBlocks target pool.1 blockSize numBlocks .ok
      else pure pool.2)
    leaveCritical
    pure result
  else pure .error

/-- Hand out the first free block of the pool of a node. -/
def allocateFrom (poolNodePtr : Nat) : Code Nat := do
  let poolPtr ← load target poolNodePtr PoolNode.poolPtr
  tbxAssert .tbxMemPoolAllocate .sanity (decide (poolPtr ≠ null))
  if poolPtr ≠ null then do
    let freeBlockListPtr ← load target poolPtr Pool.freeBlockListPtr
    let blockNodePtr ← tbxMemPoolBlockListExtract target freeBlockListPtr
    if blockNodePtr ≠ null then do
      let blockPtr ← load target blockNodePtr BlockNode.blockPtr
      let blockDataPtr ← tbxMemPoolBlockGetDataPtr target blockPtr
      let usedBlockListPtr ← load target poolPtr Pool.usedBlockListPtr
      tbxMemPoolBlockListInsert target usedBlockListPtr blockNodePtr
      tbxAssert .tbxMemPoolAllocate .sanity (decide (blockDataPtr ≠ null))
      emit (.allocated blockDataPtr)
      pure blockDataPtr
    else pure null
  else pure null

def tbxMemPoolAllocate (size : Nat) : Code Nat := do
  tbxAssert .tbxMemPoolAllocate .parameter (decide (0 < size))
  if 0 < size then do
    enterCritical
    let poolNodePtr ← tbxMemPoolListFindBestFit target size
    let result ← (if poolNodePtr ≠ null then allocateFrom target poolNodePtr else pure null)
    leaveCritical
    pure result
  else pure null

def tbxMemPoolAllocateAuto (size : Nat) : Code Nat := do
  tbxAssert .tbxMemPoolAllocateAuto .parameter (decide (0 < size))
  if 0 < size then do
    enterCritical
    let state ← read
    let poolNodePtr ← findLoop target size target.loopFuel state.tbxPoolList
    leaveCritical
    if poolNodePtr = null then do
      let created ← tbxMemPoolCreate target 1 size
      if created = .ok then tbxMemPoolAllocate target size else pure null
    else do
      let result ← tbxMemPoolAllocate target size
      if result = null then do
        let created ← tbxMemPoolCreate target 1 size
        if created = .ok then tbxMemPoolAllocate target size else pure null
      else pure result
  else pure null

/-- Put a block back into the pool of a node. Any spare node serves. -/
def releaseTo (poolNodePtr blockPtr memPtr : Nat) : Code Unit := do
  let poolPtr ← load target poolNodePtr PoolNode.poolPtr
  tbxAssert .tbxMemPoolRelease .sanity (decide (poolPtr ≠ null))
  if poolPtr ≠ null then do
    let usedBlockListPtr ← load target poolPtr Pool.usedBlockListPtr
    let blockNodePtr ← tbxMemPoolBlockListExtract target usedBlockListPtr
    tbxAssert .tbxMemPoolRelease .sanity (decide (blockNodePtr ≠ null))
    if blockNodePtr ≠ null then do
      store target blockNodePtr BlockNode.blockPtr blockPtr
      let freeBlockListPtr ← load target poolPtr Pool.freeBlockListPtr
      tbxMemPoolBlockListInsert target freeBlockListPtr blockNodePtr
      emit (.released memPtr)
    else pure ()
  else pure ()

def tbxMemPoolRelease (memPtr : Nat) : Code Unit := do
  tbxAssert .tbxMemPoolRelease .parameter (decide (memPtr ≠ null))
  if memPtr ≠ null then do
    enterCritical
    let blockPtr ← tbxMemPoolBlockGetMemPtr target memPtr
    (if blockPtr ≠ null then do
      let blockSize ← tbxMemPoolBlockGetBlockSize target blockPtr
      let poolNodePtr ← tbxMemPoolListFind target blockSize
      tbxAssert .tbxMemPoolRelease .sanity (decide (poolNodePtr ≠ null))
      if poolNodePtr ≠ null then releaseTo target poolNodePtr blockPtr memPtr
      else pure ()
    else pure ())
    leaveCritical
  else pure ()

end MicroTbx

import MicroTbx.MemPool.Growth
import Mathlib.Tactic.IntervalCases

/-! # A new pool

A creation first takes four objects for a pool of a new size. What is taken
before a failure and not linked is lost; the rest of the state keeps its
pools.
-/

namespace MicroTbx

open Program

variable {target : Target} {owner : Ownership} {views front back : List PoolView}
  {view : PoolView} {state : State} {size : Nat}

theorem tbxMemPoolBlockListCreate_spec
    (hroom : state.tbxHeapAllocated + target.word ≤ target.heapSize) :
    (tbxMemPoolBlockListCreate target).Evaluates state (state.heapEnd target)
      ((state.takeHeap target target.word).store (target.field (state.heapEnd target) 0) null) := by
  have hne := @State.heapEnd_ne_null target state
  have htake := @tbxHeapAllocate_words target state 1 (by norm_num) (by norm_num)
    (by rwa [Nat.one_mul])
  rw [Nat.one_mul] at htake
  intro depth
  simp only [null_eq] at hne
  simp [tbxMemPoolBlockListCreate, sizeofBlockList, htake.wp_iff, hne]

theorem tbxMemPoolBlockListCreate_full (hle : state.tbxHeapAllocated ≤ target.heapSize)
    (hfull : target.heapSize < state.tbxHeapAllocated + target.word) :
    (tbxMemPoolBlockListCreate target).Evaluates state null state := by
  have htake := @tbxHeapAllocate_noWords target state 1 (by norm_num) (by norm_num) hle
    (by rwa [Nat.one_mul])
  rw [Nat.one_mul] at htake
  intro depth
  simp [tbxMemPoolBlockListCreate, sizeofBlockList, htake.wp_iff]

/-! ## A new pool -/

/-- Bytes of the objects of a pool without blocks. -/
def poolBytes (target : Target) : Nat :=
  sizeofPoolNode target + sizeofPool target + 2 * sizeofBlockList target

/-- Bytes lost when a creation has no room for these objects. -/
def poolLoss (target : Target) (room : Nat) : Nat :=
  if room < sizeofPoolNode target then 0
  else if room < sizeofPoolNode target + sizeofPool target then sizeofPoolNode target
  else if room < sizeofPoolNode target + sizeofPool target + sizeofBlockList target then
    sizeofPoolNode target + sizeofPool target
  else sizeofPoolNode target + sizeofPool target + sizeofBlockList target

/-- The view of the pool that is made next. -/
def State.newPool (state : State) (target : Target) (hsize : 0 < size) : PoolView :=
  let node := state.heapEnd target
  .empty size node (target.field node 2) (target.field node 5) (target.field node 6) hsize

/-- The owners of its words. -/
def newPoolParts (size : Nat) : List (Nat × Part) :=
  [(size, .poolNode 0), (size, .poolNode 1), (size, .pool 0), (size, .pool 1), (size, .pool 2),
    (size, .freeList), (size, .usedList)]

/-- The state with the node and the pool object, which has no lists yet. -/
def State.storeObjects (state : State) (target : Target) (size : Nat) : State :=
  let node := state.heapEnd target
  let pool := target.field node 2
  ((((state.takeHeap target (sizeofPoolNode target)).takeHeap target (sizeofPool target)).store
    (target.field node PoolNode.nextNodePtr) null).store
    (target.field node PoolNode.poolPtr) pool).store (target.field pool Pool.blockSize) size

/-- The state after one more list head was taken and stored in the pool. -/
def State.storeList (state : State) (target : Target) (pool member listPtr : Nat) : State :=
  ((state.takeHeap target target.word).store (target.field listPtr 0) null).store
    (target.field pool member) listPtr

/-- The state in which the new pool is complete but not linked. -/
def State.storeNewPool (state : State) (target : Target) (size : Nat) : State :=
  let node := state.heapEnd target
  let pool := target.field node 2
  ((state.storeObjects target size).storeList target pool Pool.freeBlockListPtr
    (target.field node 5)).storeList target pool Pool.usedBlockListPtr (target.field node 6)

theorem State.storeObjects_heapEnd (state : State) (size : Nat) :
    (state.storeObjects target size).heapEnd target = target.field (state.heapEnd target) 5 := by
  simp only [State.storeObjects, State.heapEnd, sizeofPoolNode, sizeofPool, Target.field,
    State.store_tbxHeapAllocated, State.takeHeap_tbxHeapAllocated]
  omega

theorem State.storeList_heapEnd (state : State) (pool member listPtr : Nat) :
    (state.storeList target pool member listPtr).heapEnd target =
      target.field (state.heapEnd target) 1 := by
  simp only [State.storeList, State.heapEnd, Target.field, State.store_tbxHeapAllocated,
    State.takeHeap_tbxHeapAllocated]
  omega

theorem State.storeObjects_grown (state : State) (size : Nat) :
    state.Grown target (state.storeObjects target size)
      (sizeofPoolNode target + sizeofPool target) := by
  have hfield : ∀ index, state.heapEnd target ≤ target.field (state.heapEnd target) index :=
    fun index => Nat.le_add_right ..
  have htaken := (@State.Grown.takeHeap target state (sizeofPoolNode target)).trans
    (.takeHeap _ (sizeofPool target))
  exact ((htaken.store (hfield PoolNode.nextNodePtr) null).store (hfield PoolNode.poolPtr)
    (target.field (state.heapEnd target) 2)).store ((hfield 2).trans (Nat.le_add_right ..)) size

theorem State.Grown.storeList {middle : State} {bytes pool listPtr : Nat}
    (hgrown : state.Grown target middle bytes) (hpool : state.heapEnd target ≤ pool)
    (hlist : state.heapEnd target ≤ listPtr) (member : Nat) :
    state.Grown target (middle.storeList target pool member listPtr) (bytes + target.word) :=
  ((hgrown.trans (.takeHeap middle target.word)).store (hlist.trans (Nat.le_add_right ..)) null).store
    (hpool.trans (Nat.le_add_right ..)) listPtr

theorem State.storeNewPool_grown (state : State) (size : Nat) :
    state.Grown target (state.storeNewPool target size) (poolBytes target) := by
  have hfield : ∀ index, state.heapEnd target ≤ target.field (state.heapEnd target) index :=
    fun index => Nat.le_add_right ..
  have hcomplete := ((state.storeObjects_grown size).storeList (hfield 2) (hfield 5)
    Pool.freeBlockListPtr).storeList (hfield 2) (hfield 6) Pool.usedBlockListPtr
  have hbytes : poolBytes target =
      sizeofPoolNode target + sizeofPool target + target.word + target.word := by
    simp only [poolBytes, sizeofBlockList]
    omega
  rw [hbytes]
  exact hcomplete

theorem PoolStored.newPool (state : State) (hsize : 0 < size) :
    PoolStored target (state.storeNewPool target size).mem (state.newPool target hsize) := by
  constructor <;>
    simp [State.newPool, State.storeNewPool, State.storeObjects, State.storeList, PoolView.blocks, BlockChain, Function.update_apply,
      Target.field_field, Target.field_index_inj, PoolNode.poolPtr, PoolNode.nextNodePtr,
      Pool.blockSize, Pool.freeBlockListPtr, Pool.usedBlockListPtr]

theorem PoolPlaced.newPool (hheap : PoolHeap target owner state.tbxHeapAllocated views)
    (hsize : 0 < size) :
    PoolPlaced target (owner.claim target (state.heapEnd target) (newPoolParts size))
      (state.newPool target hsize) := by
  have hclaim : ∀ index, owner.claim target (state.heapEnd target) (newPoolParts size)
      (target.field (state.heapEnd target) index) = (newPoolParts size)[index]? := fun index =>
    Ownership.claim_new (hheap.unowned (Nat.le_add_right ..))
  refine ⟨?_, ?_, ?_, ?_, ?_, ?_, ?_⟩
  · intro i hi
    simp only [State.newPool, PoolView.empty_node, hclaim]
    interval_cases i <;> rfl
  · intro i hi
    simp only [State.newPool, PoolView.empty_pool, Target.field_field, hclaim]
    interval_cases i <;> rfl
  · simp only [State.newPool, PoolView.empty_freeList, Target.field_field, hclaim]
    rfl
  · simp only [State.newPool, PoolView.empty_usedList, Target.field_field, hclaim]
    rfl
  all_goals simp [State.newPool, PoolView.nodes, PoolView.blocks]

theorem poolBytes_eq : poolBytes target = 7 * target.word := by
  simp only [poolBytes, sizeofPoolNode, sizeofPool, sizeofBlockList]
  omega

theorem field_heapEnd_ne_null (state : State) (index : Nat) :
    target.field (state.heapEnd target) index ≠ null := by
  have hpos := Nat.pos_of_ne_zero (@State.heapEnd_ne_null target state)
  simp only [Target.field, null_eq]
  omega

theorem poolNode_room
    (hroom : state.tbxHeapAllocated + sizeofPoolNode target ≤ target.heapSize) :
    (tbxHeapAllocate target (sizeofPoolNode target)).Evaluates state (state.heapEnd target)
      (state.takeHeap target (sizeofPoolNode target)) :=
  tbxHeapAllocate_words (by norm_num) (by norm_num) hroom

theorem pool_room
    (hroom : state.tbxHeapAllocated + (sizeofPoolNode target + sizeofPool target) ≤
      target.heapSize) :
    (tbxHeapAllocate target (sizeofPool target)).Evaluates
      (state.takeHeap target (sizeofPoolNode target)) (target.field (state.heapEnd target) 2)
      ((state.takeHeap target (sizeofPoolNode target)).takeHeap target (sizeofPool target)) := by
  rw [← State.heapEnd_takeHeap state 2]
  refine tbxHeapAllocate_words (by norm_num) (by norm_num) ?_
  rw [State.takeHeap_tbxHeapAllocated, Nat.add_assoc]
  exact hroom

/-- The part of a creation up to the list heads. -/
theorem createPool_objects {spec : Nat × Status → State → Prop}
    (hroom : state.tbxHeapAllocated + (sizeofPoolNode target + sizeofPool target) ≤
      target.heapSize)
    (hlists : Program.Returns (do
      let freeBlockListPtr ← tbxMemPoolBlockListCreate target
      store target (target.field (state.heapEnd target) 2) Pool.freeBlockListPtr freeBlockListPtr
      let usedBlockListPtr ← tbxMemPoolBlockListCreate target
      store target (target.field (state.heapEnd target) 2) Pool.usedBlockListPtr usedBlockListPtr
      if freeBlockListPtr = null ∨ usedBlockListPtr = null then
        pure (state.heapEnd target, .error)
      else do
        tbxMemPoolListInsert target (state.heapEnd target)
        pure (state.heapEnd target, .ok)) (state.storeObjects target size) spec) :
    (createPool target size).Returns state spec := by
  refine (poolNode_room (by omega)).bind ?_
  rw [if_neg state.heapEnd_ne_null]
  refine (pool_room hroom).bind ?_
  rw [if_neg (field_heapEnd_ne_null state 2)]
  refine (evaluates_store state.heapEnd_ne_null).bind ?_
  refine (evaluates_store state.heapEnd_ne_null).bind ?_
  exact (evaluates_store (field_heapEnd_ne_null state 2)).bind hlists

/-- A list head is taken and stored in the pool. -/
theorem createList_room {Value : Type} {spec : Value → State → Prop} {rest : Nat → Code Value}
    {pool member : Nat} (hpool : pool ≠ null)
    (hroom : state.tbxHeapAllocated + target.word ≤ target.heapSize)
    (hrest : (rest (state.heapEnd target)).Returns
      (state.storeList target pool member (state.heapEnd target)) spec) :
    Program.Returns (do
      let listPtr ← tbxMemPoolBlockListCreate target
      store target pool member listPtr
      rest listPtr) state spec :=
  (tbxMemPoolBlockListCreate_spec hroom).bind ((evaluates_store hpool).bind hrest)

/-- There is no room for a list head. -/
theorem createList_full {Value : Type} {spec : Value → State → Prop} {rest : Nat → Code Value}
    {pool member : Nat} (hpool : pool ≠ null) (hle : state.tbxHeapAllocated ≤ target.heapSize)
    (hfull : target.heapSize < state.tbxHeapAllocated + target.word)
    (hrest : (rest null).Returns (state.store (target.field pool member) null) spec) :
    Program.Returns (do
      let listPtr ← tbxMemPoolBlockListCreate target
      store target pool member listPtr
      rest listPtr) state spec :=
  (tbxMemPoolBlockListCreate_full hle hfull).bind ((evaluates_store hpool).bind hrest)

theorem State.storeObjects_allocated (state : State) (size : Nat) :
    (state.storeObjects target size).tbxHeapAllocated =
      state.tbxHeapAllocated + 5 * target.word := by
  rw [(state.storeObjects_grown size).allocated, sizeofPoolNode, sizeofPool]
  omega

theorem State.storeList_allocated (state : State) (pool member listPtr : Nat) :
    (state.storeList target pool member listPtr).tbxHeapAllocated =
      state.tbxHeapAllocated + target.word := rfl

/-- With room for all objects the new pool is stored and linked. -/
theorem createPool_room (hpools : PoolsAt target owner (front ++ back) state) (hsize : 0 < size)
    (hsmaller : ∀ other ∈ front, other.blockSize < size)
    (hlarger : ∀ other ∈ back, size < other.blockSize)
    (hroom : state.tbxHeapAllocated + poolBytes target ≤ target.heapSize) :
    (createPool target size).Evaluates state (state.heapEnd target, .ok)
      ((state.storeNewPool target size).linkNode target (state.heapEnd target) front back) := by
  have hbytes := @poolBytes_eq target
  have hpool := @field_heapEnd_ne_null target state 2
  have hlink := tbxMemPoolListInsert_spec state.heapEnd_ne_null hpool
    (PoolStored.newPool state hsize)
    (hpools.grow (state.storeNewPool_grown size) (hbytes ▸ Nat.dvd_mul_left ..) hroom)
    hsmaller hlarger
  apply createPool_objects
  · simp only [sizeofPoolNode, sizeofPool]
    omega
  apply createList_room hpool
  · rw [State.storeObjects_allocated]
    omega
  apply createList_room hpool
  · rw [State.storeList_allocated, State.storeObjects_allocated]
    omega
  rw [State.storeList_heapEnd, State.storeObjects_heapEnd, Target.field_field, if_neg]
  · refine hlink.bind ?_
    exact (returns_pure _).mpr ⟨rfl, rfl⟩
  · exact not_or.mpr ⟨field_heapEnd_ne_null state 5, field_heapEnd_ne_null state 6⟩

theorem poolLoss_cases (target : Target) (room : Nat) :
    (room < 2 * target.word ∧ poolLoss target room = 0) ∨
    (2 * target.word ≤ room ∧ room < 5 * target.word ∧ poolLoss target room = 2 * target.word) ∨
    (5 * target.word ≤ room ∧ room < 6 * target.word ∧ poolLoss target room = 5 * target.word) ∨
    (6 * target.word ≤ room ∧ poolLoss target room = 6 * target.word) := by
  unfold poolLoss sizeofPoolNode sizeofPool sizeofBlockList
  split_ifs <;> omega

theorem poolLoss_le (target : Target) (room : Nat) : poolLoss target room ≤ room := by
  rcases poolLoss_cases target room with h | h | h | h <;> omega

theorem word_dvd_poolLoss (target : Target) (room : Nat) : target.word ∣ poolLoss target room := by
  rcases poolLoss_cases target room with ⟨-, h⟩ | ⟨-, -, h⟩ | ⟨-, -, h⟩ | ⟨-, h⟩ <;> rw [h]
  · exact Nat.dvd_zero _
  all_goals exact Nat.dvd_mul_left ..

/-- Without room for all objects nothing is linked, and those taken are lost. -/
theorem createPool_full (hle : state.tbxHeapAllocated ≤ target.heapSize)
    (hfull : target.heapSize < state.tbxHeapAllocated + poolBytes target) :
    (createPool target size).Returns state fun result after => result.2 = .error ∧
      state.Grown target after (poolLoss target (target.heapSize - state.tbxHeapAllocated)) ∧
      asserted after.log = asserted state.log := by
  have hbytes := @poolBytes_eq target
  have hpool := @field_heapEnd_ne_null target state 2
  have hfield : ∀ member, target.heapBase + state.tbxHeapAllocated ≤
      target.field (target.field (state.heapEnd target) 2) member := fun member => by
    simp only [State.heapEnd, Target.field]
    omega
  have hobjects : state.tbxHeapAllocated + 5 * target.word ≤ target.heapSize →
      state.tbxHeapAllocated + (sizeofPoolNode target + sizeofPool target) ≤ target.heapSize := by
    simp only [sizeofPoolNode, sizeofPool]
    omega
  have hgrown : state.Grown target (state.storeObjects target size) (5 * target.word) := by
    have hstored := @State.storeObjects_grown target state size
    rwa [sizeofPoolNode, sizeofPool, ← Nat.add_mul] at hstored
  rcases poolLoss_cases target (target.heapSize - state.tbxHeapAllocated) with
    ⟨hnodeFull, hloss⟩ | ⟨hnode, hpoolFull, hloss⟩ | ⟨hobjectRoom, hfreeFull, hloss⟩ |
      ⟨hfreeRoom, hloss⟩
  · rw [hloss]
    refine (tbxHeapAllocate_noWords (by norm_num) (by norm_num) hle (by omega)).bind ?_
    rw [if_pos rfl]
    exact (returns_pure _).mpr ⟨rfl, .refl, rfl⟩
  · rw [hloss]
    refine (poolNode_room (by simp only [sizeofPoolNode]; omega)).bind ?_
    rw [if_neg state.heapEnd_ne_null]
    refine (tbxHeapAllocate_noWords (by norm_num) (by norm_num) ?_ ?_).bind ?_
    · simp only [State.takeHeap_tbxHeapAllocated, sizeofPoolNode]
      omega
    · simp only [State.takeHeap_tbxHeapAllocated, sizeofPoolNode]
      omega
    rw [if_pos rfl]
    exact (returns_pure _).mpr ⟨rfl, .takeHeap state _, by simp⟩
  · rw [hloss]
    apply createPool_objects (hobjects (by omega))
    apply createList_full hpool
    · rw [State.storeObjects_allocated]
      omega
    · rw [State.storeObjects_allocated]
      omega
    apply createList_full hpool
    · rw [State.store_tbxHeapAllocated, State.storeObjects_allocated]
      omega
    · rw [State.store_tbxHeapAllocated, State.storeObjects_allocated]
      omega
    rw [if_pos (.inl rfl)]
    exact (returns_pure _).mpr ⟨rfl, (hgrown.store (hfield _) null).store (hfield _) null,
      by simp [State.storeObjects]⟩
  · rw [hloss]
    apply createPool_objects (hobjects (by omega))
    apply createList_room hpool
    · rw [State.storeObjects_allocated]
      omega
    rw [State.storeObjects_heapEnd]
    apply createList_full hpool
    · rw [State.storeList_allocated, State.storeObjects_allocated]
      omega
    · rw [State.storeList_allocated, State.storeObjects_allocated]
      omega
    rw [if_pos (.inr rfl)]
    refine (returns_pure _).mpr ⟨rfl, ?_, by simp [State.storeList, State.storeObjects]⟩
    have hlist := hgrown.storeList (@Nat.le_add_right (state.heapEnd target) (2 * target.word))
      (@Nat.le_add_right (state.heapEnd target) (5 * target.word)) Pool.freeBlockListPtr
    rw [← Nat.succ_mul] at hlist
    exact hlist.store (hfield _) null

/-! ## The pools with a new one -/

@[simp] theorem State.linkNode_tbxHeapAllocated (state : State) (node : Nat) :
    (state.linkNode target node front back).tbxHeapAllocated = state.tbxHeapAllocated := by
  unfold State.linkNode
  split <;> rfl

@[simp] theorem State.linkNode_log (state : State) (node : Nat) :
    (state.linkNode target node front back).log = state.log := by
  unfold State.linkNode
  split <;> rfl

theorem PoolHeap.insert {allocated : Nat}
    (hheap : PoolHeap target owner allocated (front ++ back))
    (hplaced : PoolPlaced target owner view) :
    PoolHeap target owner allocated (front ++ view :: back) where
  placed := forall_mem_exchange hplaced hheap.placed
  inside := hheap.inside
  aligned := hheap.aligned
  allocated_le := hheap.allocated_le

/-- A pool without blocks adds nothing that the log would have to know. -/
theorem PoolLog.insert {log : List Event} (hlog : PoolLog target log (front ++ back))
    (hblocks : view.blocks = []) (hout : view.out = [])
    (hnone : ∀ other ∈ front ++ back, other.blockSize ≠ view.blockSize) :
    PoolLog target log (front ++ view :: back) where
  out := by simpa [hout] using hlog.out
  added := by
    refine forall_mem_exchange ?_ hlog.added
    rw [hblocks, hlog.addedElsewhere view.blockSize hnone]
  addedElsewhere := fun size hsize =>
    hlog.addedElsewhere size fun other hother => hsize other (mem_of_mem_others hother)
  reserved := by
    refine forall_mem_exchange ?_ hlog.reserved
    simp [hblocks]

theorem PoolsAt.createPool (hpools : PoolsAt target owner (front ++ back) state) (hsize : 0 < size)
    (hsmaller : ∀ other ∈ front, other.blockSize < size)
    (hlarger : ∀ other ∈ back, size < other.blockSize)
    (hroom : state.tbxHeapAllocated + poolBytes target ≤ target.heapSize) :
    PoolsAt target (owner.claim target (state.heapEnd target) (newPoolParts size))
      (front ++ state.newPool target hsize :: back)
      ((state.storeNewPool target size).linkNode target (state.heapEnd target) front back) := by
  have hbytes := @poolBytes_eq target
  have haligned : target.word ∣ poolBytes target := hbytes ▸ Nat.dvd_mul_left ..
  have hgrown := @State.storeNewPool_grown target state size
  have hplaced := PoolPlaced.newPool hpools.heap hsize
  have hclaimed : PoolHeap target (owner.claim target (state.heapEnd target) (newPoolParts size))
      (state.tbxHeapAllocated + poolBytes target) (front ++ back) :=
    hpools.heap.claim hbytes.ge haligned hroom
  refine ⟨?_, ?_, ?_⟩
  · have hlist := hpools.list.grow hpools.heap hgrown
    rw [← hgrown.list] at hlist
    exact hlist.insert hclaimed.placed hplaced (PoolStored.newPool state hsize)
      state.heapEnd_ne_null hsmaller hlarger
  · rw [State.linkNode_tbxHeapAllocated, hgrown.allocated]
    exact hclaimed.insert hplaced
  · rw [State.linkNode_log]
    refine (hpools.log.grow hgrown).insert rfl rfl ?_
    intro other hother
    rcases List.mem_append.mp hother with hfront | hback
    · exact (hsmaller other hfront).ne
    · exact (hlarger other hback).ne'

end MicroTbx

import MicroTbx.MemPool.Invariant
import Mathlib.Order.Interval.Finset.Nat

/-! # Allocating and releasing

Each function of the module is specified once, over a state that holds the
pools of a list of views: which node a search finds, and the exact state after
a block is handed out or put back. Callers use these and never the code.
-/

namespace MicroTbx

open Program

variable {target : Target} {owner : Ownership} {views front back : List PoolView}
  {view : PoolView} {state : State} {node block size start fuel : Nat}
  {rest : List (Nat × Nat)}

/-- A pool can answer when it has a free block. -/
def PoolView.Stocked (view : PoolView) : Prop := view.free ≠ []

/-! ## Searching the pool list -/

/-- A chain of heap words is shorter than the bound on its walk. -/
theorem length_lt_loopFuel {nodes : List Nat} {allocated : Nat} (hnodup : nodes.Nodup)
    (hinside : ∀ node ∈ nodes, target.heapBase ≤ node ∧ node < target.heapBase + allocated)
    (hle : allocated ≤ target.heapSize) : nodes.length < target.loopFuel := by
  have hsubset : nodes.toFinset ⊆ Finset.Ico target.heapBase (target.heapBase + allocated) := by
    intro node hnode
    rw [Finset.mem_Ico]
    exact hinside node (List.mem_toFinset.mp hnode)
  have hcard := Finset.card_le_card hsubset
  rw [List.toFinset_card_of_nodup hnodup, Nat.card_Ico] at hcard
  unfold Target.loopFuel
  omega

theorem PoolsAt.length_lt (hpools : PoolsAt target owner views state) :
    views.length < target.loopFuel := by
  have hlength := length_lt_loopFuel hpools.list.chain.nodup (fun node hnode => ?_)
    hpools.heap.allocated_le
  · simpa using hlength
  · obtain ⟨view, hview, rfl⟩ := List.mem_map.mp hnode
    have hinside := hpools.heap.inside _ _ ((hpools.heap.placed view hview).node 0 (by norm_num))
    have hword := target.word_pos
    rw [Target.field_zero] at hinside
    omega

/-- The node of the pool of exactly a size. -/
def nodeOf (views : List PoolView) (size : Nat) : Nat :=
  ((views.find? fun view => decide (view.blockSize = size)).map PoolView.node).getD null

/-- The node of the best fit, when it has a free block. -/
def fitNodeOf (views : List PoolView) (size : Nat) : Nat :=
  match BestFit.bestFit PoolView.blockSize views size with
  | some view => if view.free = [] then null else view.node
  | none => null

theorem findLoop_spec
    (hchain : Chain.Linked (nextNode target state.mem) null start (views.map PoolView.node))
    (hstored : ∀ view ∈ views, PoolStored target state.mem view)
    (hpool : ∀ view ∈ views, view.pool ≠ null) (hfuel : views.length < fuel) :
    (findLoop target size fuel start).Evaluates state (nodeOf views size) state := by
  induction views generalizing start fuel with
  | nil =>
      obtain ⟨fuel, rfl⟩ := Nat.exists_eq_succ_of_ne_zero (by omega : fuel ≠ 0)
      rw [List.map_nil, Chain.linked_nil] at hchain
      intro depth
      simp [findLoop, nodeOf, hchain]
  | cons view tail ih =>
      obtain ⟨fuel, rfl⟩ := Nat.exists_eq_succ_of_ne_zero (by omega : fuel ≠ 0)
      rw [List.map_cons, Chain.linked_cons] at hchain
      obtain ⟨rfl, hnode, hrest⟩ := hchain
      have hview := hstored view List.mem_cons_self
      have hviewPool := hpool view List.mem_cons_self
      have hnext := ih hrest (fun other hother => hstored other (List.mem_cons_of_mem _ hother))
        (fun other hother => hpool other (List.mem_cons_of_mem _ hother))
        (Nat.lt_of_succ_lt_succ hfuel)
      intro depth
      simp only [null_eq] at hnode hviewPool
      by_cases hsize : view.blockSize = size
      · simp [findLoop, nodeOf, hnode, hview.poolPtr, hview.blockSize, hviewPool, hsize]
      · have hfind : nodeOf (view :: tail) size = nodeOf tail size := by
          simp [nodeOf, hsize]
        simpa [findLoop, nextNode, hnode, hview.poolPtr, hview.blockSize, hviewPool, hsize, hfind]
          using hnext depth

theorem findBestFitLoop_spec
    (hchain : Chain.Linked (nextNode target state.mem) null start (views.map PoolView.node))
    (hstored : ∀ view ∈ views, PoolStored target state.mem view)
    (hpool : ∀ view ∈ views, view.pool ≠ null) (hfreeList : ∀ view ∈ views, view.freeList ≠ null)
    (hfuel : views.length < fuel) :
    (findBestFitLoop target size fuel start).Evaluates state (fitNodeOf views size) state := by
  induction views generalizing start fuel with
  | nil =>
      obtain ⟨fuel, rfl⟩ := Nat.exists_eq_succ_of_ne_zero (by omega : fuel ≠ 0)
      rw [List.map_nil, Chain.linked_nil] at hchain
      intro depth
      simp [findBestFitLoop, fitNodeOf, BestFit.bestFit, hchain]
  | cons view tail ih =>
      obtain ⟨fuel, rfl⟩ := Nat.exists_eq_succ_of_ne_zero (by omega : fuel ≠ 0)
      rw [List.map_cons, Chain.linked_cons] at hchain
      obtain ⟨rfl, hnode, hrest⟩ := hchain
      have hview := hstored view List.mem_cons_self
      have hviewPool := hpool view List.mem_cons_self
      have hviewList := hfreeList view List.mem_cons_self
      have hnext := ih hrest (fun other hother => hstored other (List.mem_cons_of_mem _ hother))
        (fun other hother => hpool other (List.mem_cons_of_mem _ hother))
        (fun other hother => hfreeList other (List.mem_cons_of_mem _ hother))
        (Nat.lt_of_succ_lt_succ hfuel)
      have hempty := hview.freeChain.nil_iff
      rw [List.map_eq_nil_iff] at hempty
      intro depth
      simp only [null_eq] at hnode hviewPool hempty
      by_cases hsize : size ≤ view.blockSize
      · have hfit : fitNodeOf (view :: tail) size = if view.free = [] then null else view.node := by
          simp [fitNodeOf, BestFit.bestFit_cons, hsize]
        rw [hfit]
        by_cases hfree : view.free = [] <;>
          simp [findBestFitLoop, hnode, hview.poolPtr, hview.blockSize, hview.freeListPtr, hviewPool,
            hsize, (tbxMemPoolBlockListIsEmpty_spec hviewList).wp_iff, ← hempty, hfree]
      · have hfit : fitNodeOf (view :: tail) size = fitNodeOf tail size := by
          simp [fitNodeOf, BestFit.bestFit_cons, hsize]
        simpa [findBestFitLoop, nextNode, hnode, hview.poolPtr, hview.blockSize, hviewPool, hsize,
          hfit] using hnext depth

theorem PoolHeap.freeList_ne_null {allocated : Nat}
    (hheap : PoolHeap target owner allocated views) (hview : view ∈ views) :
    view.freeList ≠ null :=
  hheap.ne_null (hheap.placed view hview).freeList

theorem PoolHeap.usedList_ne_null {allocated : Nat}
    (hheap : PoolHeap target owner allocated views) (hview : view ∈ views) :
    view.usedList ≠ null :=
  hheap.ne_null (hheap.placed view hview).usedList

theorem PoolsAt.findLoop (hpools : PoolsAt target owner views state) :
    (findLoop target size target.loopFuel state.tbxPoolList).Evaluates state
      (nodeOf views size) state :=
  findLoop_spec hpools.list.chain hpools.list.stored (fun _ hview => hpools.heap.pool_ne_null hview)
    hpools.length_lt

theorem PoolsAt.listFind (hpools : PoolsAt target owner views state) (hsize : 0 < size) :
    (tbxMemPoolListFind target size).Evaluates state (nodeOf views size) state := by
  intro depth
  simp [tbxMemPoolListFind, hsize, hpools.findLoop.wp_iff]

theorem PoolsAt.listFindBestFit (hpools : PoolsAt target owner views state) (hsize : 0 < size) :
    (tbxMemPoolListFindBestFit target size).Evaluates state (fitNodeOf views size) state := by
  have hloop : (findBestFitLoop target size target.loopFuel state.tbxPoolList).Evaluates state
      (fitNodeOf views size) state :=
    findBestFitLoop_spec hpools.list.chain hpools.list.stored
      (fun _ hview => hpools.heap.pool_ne_null hview)
      (fun _ hview => hpools.heap.freeList_ne_null hview) hpools.length_lt
  intro depth
  simp [tbxMemPoolListFindBestFit, hsize, hloop.wp_iff]

/-! ## Allocating -/

/-- The free list of the pool has a first block, which is handed out. -/
theorem allocateFrom_spec (hpools : PoolsAt target owner (front ++ view :: back) state)
    (hfree : view.free = (node, block) :: rest) :
    (allocateFrom target view.node).Evaluates state (target.field block 1)
      (state.takeBlock target view node block) := by
  have hheap := hpools.heap
  have hplaced := hheap.placed view mem_middle
  have hstored := hpools.list.stored view mem_middle
  have hmem : node ∈ view.nodes := by simp [PoolView.nodes, hfree]
  have hblock : block ∈ view.blocks := by simp [PoolView.blocks, hfree]
  have hnode := hheap.node_ne_null mem_middle
  have hpool := hheap.pool_ne_null mem_middle
  have hchain := hstored.freeChain
  rw [hfree, List.map_cons] at hchain
  have hextract := tbxMemPoolBlockListExtract_spec (hheap.freeList_ne_null mem_middle)
    hchain.head.1 hchain.head.2
  have hinsert := fun between => @tbxMemPoolBlockListInsert_spec target between view.usedList node
    (hheap.usedList_ne_null mem_middle) hchain.head.2
  have hblockPtr : (state.pop target view.freeList).mem (target.field node 0) = block := by
    rw [State.pop_mem_of_ne (hplaced.value_ne_freeList hmem)]
    exact hstored.blockPtr (node, block) (hfree ▸ List.mem_cons_self)
  have husedListPtr : (state.pop target view.freeList).mem
      (target.field view.pool Pool.usedBlockListPtr) = view.usedList := by
    rw [State.pop_mem_of_ne (ne_of_owner (hplaced.pool 2 (by norm_num)) hplaced.freeList
      (by simp))]
    exact hstored.usedListPtr
  have hne := hchain.head.2
  have hblockNe := hheap.block_ne_null mem_middle hblock
  have hdata : target.field block 1 ≠ 0 := by
    have hpos := Nat.pos_of_ne_zero hblockNe
    unfold Target.field
    omega
  intro depth
  simp only [null_eq] at hnode hpool hne hblockNe
  simp [allocateFrom, tbxMemPoolBlockGetDataPtr, State.takeBlock, hnode, hpool, hne, hblockNe,
    hdata, hstored.poolPtr, hstored.freeListPtr, hextract.wp_iff, hblockPtr, husedListPtr,
    (hinsert _).wp_iff]

theorem fitNodeOf_of_bestFit (hfit : BestFit.bestFit PoolView.blockSize views size = some view)
    (hstocked : view.Stocked) : fitNodeOf views size = view.node := by
  simp only [fitNodeOf, hfit]
  exact if_neg hstocked

theorem fitNodeOf_of_not_serves
    (hrefused : ¬ BestFit.Serves PoolView.blockSize PoolView.Stocked views size) :
    fitNodeOf views size = null := by
  unfold fitNodeOf
  cases hfit : BestFit.bestFit PoolView.blockSize views size with
  | none => rfl
  | some view =>
      by_cases hfree : view.free = []
      · simp [hfree]
      · exact absurd ⟨view, hfit, hfree⟩ hrefused

theorem tbxMemPoolAllocate_zero :
    (tbxMemPoolAllocate target 0).Evaluates state null
      (state.emit (.assertion .tbxMemPoolAllocate .parameter)) := by
  intro depth
  simp [tbxMemPoolAllocate]

/-- A request that no pool can answer changes nothing. -/
theorem PoolsAt.allocate_refused (hpools : PoolsAt target owner views state) (hsize : 0 < size)
    (hrefused : ¬ BestFit.Serves PoolView.blockSize PoolView.Stocked views size) :
    (tbxMemPoolAllocate target size).Evaluates state null state := by
  intro depth
  simp [tbxMemPoolAllocate, hsize, (hpools.listFindBestFit hsize).wp_iff,
    fitNodeOf_of_not_serves hrefused]

/-- The best fit hands out its first free block. -/
theorem PoolsAt.allocate_served (hpools : PoolsAt target owner (front ++ view :: back) state)
    (hsize : 0 < size)
    (hfit : BestFit.bestFit PoolView.blockSize (front ++ view :: back) size = some view)
    (hfree : view.free = (node, block) :: rest) :
    (tbxMemPoolAllocate target size).Evaluates state (target.field block 1)
      (state.takeBlock target view node block) := by
  have hnode := hpools.heap.node_ne_null mem_middle
  have hfound := fitNodeOf_of_bestFit hfit (by simp [PoolView.Stocked, hfree])
  have hallocate := allocateFrom_spec hpools hfree
  intro depth
  simp only [null_eq] at hnode
  simp [tbxMemPoolAllocate, hsize, (hpools.listFindBestFit hsize).wp_iff, hfound, hnode,
    hallocate.wp_iff]

/-! ## Releasing -/

theorem nodeOf_mem (hascending : BestFit.Ascending PoolView.blockSize views)
    (hview : view ∈ views) : nodeOf views view.blockSize = view.node := by
  unfold nodeOf
  cases hfind : views.find? fun other => decide (other.blockSize = view.blockSize) with
  | none =>
      rw [List.find?_eq_none] at hfind
      exact absurd (decide_eq_true rfl) (hfind view hview)
  | some other =>
      have hsame : other.blockSize = view.blockSize := by simpa using List.find?_some hfind
      rw [hascending.ext (List.mem_of_find?_eq_some hfind) hview hsame]
      rfl

theorem nodeOf_eq_null (hnone : ∀ view ∈ views, view.blockSize ≠ size) :
    nodeOf views size = null := by
  have hfind : views.find? (fun view => decide (view.blockSize = size)) = none := by
    rw [List.find?_eq_none]
    simpa using hnone
  simp [nodeOf, hfind]

theorem releaseTo_spec (hpools : PoolsAt target owner (front ++ view :: back) state)
    {spare : List Nat} (hused : view.used = node :: spare) :
    (releaseTo target view.node block (target.field block 1)).Evaluates state ()
      (state.giveBackBlock target view node block) := by
  have hheap := hpools.heap
  have hplaced := hheap.placed view mem_middle
  have hstored := hpools.list.stored view mem_middle
  have hmem : node ∈ view.nodes := by simp [PoolView.nodes, hused]
  have hnode := hheap.node_ne_null mem_middle
  have hpool := hheap.pool_ne_null mem_middle
  have hchain := hstored.usedChain
  rw [hused] at hchain
  have hextract := tbxMemPoolBlockListExtract_spec (hheap.usedList_ne_null mem_middle)
    hchain.head.1 hchain.head.2
  have hinsert := fun between => @tbxMemPoolBlockListInsert_spec target between view.freeList node
    (hheap.freeList_ne_null mem_middle) hchain.head.2
  have hfreeListPtr : ((state.pop target view.usedList).store
      (target.field node BlockNode.blockPtr) block).mem
        (target.field view.pool Pool.freeBlockListPtr) = view.freeList := by
    have hvalue := ne_of_owner (hplaced.pool 1 (by norm_num))
      (hplaced.blockNode node hmem 0 (by norm_num)) (by simp)
    have hlist := ne_of_owner (hplaced.pool 1 (by norm_num)) hplaced.usedList (by simp)
    rw [State.store_mem, Function.update_of_ne hvalue, State.pop_mem_of_ne hlist]
    exact hstored.freeListPtr
  have hne := hchain.head.2
  intro depth
  simp only [null_eq] at hnode hpool hne
  simp [releaseTo, State.giveBackBlock, hnode, hpool, hne, hstored.poolPtr, hstored.usedListPtr,
    hextract.wp_iff, hfreeListPtr, (hinsert _).wp_iff]

theorem PoolsAt.release (hpools : PoolsAt target owner (front ++ view :: back) state)
    {spare : List Nat} (hused : view.used = node :: spare) (hblock : block ∈ view.out) :
    (tbxMemPoolRelease target (target.field block 1)).Evaluates state ()
      (state.giveBackBlock target view node block) := by
  have hmem : block ∈ view.blocks := List.mem_append_right _ hblock
  have hne := hpools.heap.block_ne_null mem_middle hmem
  have hnode := hpools.heap.node_ne_null mem_middle
  have hheader := (hpools.list.stored view mem_middle).header block hmem
  have hfind := hpools.listFind view.size_pos
  rw [nodeOf_mem hpools.list.ascending mem_middle] at hfind
  have hdata : target.field block 1 ≠ 0 := by
    have hpos := Nat.pos_of_ne_zero hne
    unfold Target.field
    omega
  have hback : target.field block 1 - target.word = block := by
    unfold Target.field
    omega
  intro depth
  simp only [null_eq] at hne hnode
  simp [tbxMemPoolRelease, tbxMemPoolBlockGetMemPtr, tbxMemPoolBlockGetBlockSize, hdata, hback, hne,
    hheader, hfind.wp_iff, hnode, (releaseTo_spec hpools hused).wp_iff]

/-- A data pointer that is handed out belongs to a pool with a spare node. -/
theorem PoolsAt.of_handedOut (hpools : PoolsAt target owner views state) {data : Nat}
    (hdata : data ∈ handedOut state.log) :
    ∃ front view back node spare block, views = front ++ view :: back ∧
      view.used = node :: spare ∧ block ∈ view.out ∧ data = target.field block 1 := by
  have hmem := hpools.log.out.mem_iff.mp hdata
  obtain ⟨view, hview, hmap⟩ := List.mem_flatMap.mp hmem
  obtain ⟨block, hblock, rfl⟩ := List.mem_map.mp hmap
  obtain ⟨front, back, rfl⟩ := List.append_of_mem hview
  have hcounted := view.counted
  have hlength := List.length_pos_of_mem hblock
  cases hused : view.used with
  | nil =>
      rw [hused, List.length_nil] at hcounted
      omega
  | cons node spare => exact ⟨front, view, back, node, spare, block, rfl, hused, hblock, rfl⟩

end MicroTbx

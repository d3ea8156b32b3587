import MicroTbx.MemPool.NewPool

/-! # New blocks for a pool

Each pass of the block loop takes a node and a block; when the block does not
fit the node is lost and the loop goes on. Once a pass has failed no later one
succeeds, so the number of blocks made and the bytes lost have closed forms.
-/

namespace MicroTbx

open Program

variable {target : Target} {owner : Ownership} {views front back : List PoolView}
  {view : PoolView} {state : State} {size node block : Nat}

/-- Bytes that a block takes from the heap: its header and data, rounded up. -/
def blockBytes (target : Target) (size : Nat) : Nat := target.roundUp (target.word + size)

/-- A block size for which the heap is asked for what is needed, or for
nothing at all: the sum of header and data does not wrap, or wraps to zero. -/
def Target.Sound (target : Target) (size : Nat) : Prop :=
  target.Fits (target.word + size) ∨ target.word + size = 2 ^ target.sizeBits

instance (size : Nat) : Decidable (target.Sound size) :=
  inferInstanceAs (Decidable (_ ∨ _))

/-- Of the checks at most the one of the heap on its argument failed. -/
def HeapChecked (state after : State) : Prop :=
  ∀ failed ∈ asserted after.log, failed ∈ asserted state.log ∨ failed = (.tbxHeapAllocate, .parameter)

namespace HeapChecked

variable {middle after : State}

theorem of_eq (hsame : asserted after.log = asserted state.log) : HeapChecked state after :=
  fun _ hfailed => .inl (hsame ▸ hfailed)

theorem trans (hfirst : HeapChecked state middle) (hnext : HeapChecked middle after) :
    HeapChecked state after := by
  intro failed hfailed
  rcases hnext failed hfailed with hmiddle | hheap
  · exact hfirst failed hmiddle
  · exact .inr hheap

end HeapChecked

/-- Room for a block of a size is room for a block whose size can be
represented. -/
theorem fits_of_room {room : Nat} (hle : room ≤ target.heapSize)
    (hroom : blockBytes target size ≤ room) : target.Fits (target.word + size) := by
  by_contra hwraps
  have hlt := heapSize_lt_roundUp hwraps
  unfold blockBytes at hroom
  omega

theorem tbxMemPoolBlockCreate_room (hsize : 0 < size)
    (hroom : state.tbxHeapAllocated + blockBytes target size ≤ target.heapSize) :
    (tbxMemPoolBlockCreate target size).Evaluates state (state.heapEnd target)
      ((state.takeHeap target (blockBytes target size)).store
        (target.field (state.heapEnd target) 0) size) := by
  have hfits : target.Fits (target.word + size) :=
    fits_of_room (Nat.sub_le _ state.tbxHeapAllocated) (by omega)
  have hlt : target.word + size < 2 ^ target.sizeBits := lt_of_le_of_lt (Nat.le_add_right ..) hfits
  have hwanted := sizeWanted_of_fits hfits
  have htake : (tbxHeapAllocate target (target.word + size)).Evaluates state
      (state.heapEnd target) (state.takeHeap target (blockBytes target size)) := by
    unfold blockBytes at hroom ⊢
    rw [← hwanted]
    exact tbxHeapAllocate_room (by omega) (by omega) (by omega)
  have hne := @State.heapEnd_ne_null target state
  intro depth
  simp only [null_eq] at hne
  simp [tbxMemPoolBlockCreate, hsize, target.sizeT_of_lt hlt, htake.wp_iff, hne]

/-- A block that does not fit is refused. A size whose sum with the header
wraps to zero is refused by the heap's own check. -/
theorem tbxMemPoolBlockCreate_full (hsize : 0 < size) (hsound : target.Sound size)
    (hle : state.tbxHeapAllocated ≤ target.heapSize)
    (hfull : target.heapSize < state.tbxHeapAllocated + blockBytes target size) :
    (tbxMemPoolBlockCreate target size).Returns state fun result after => result = null ∧
      state.Grown target after 0 ∧ HeapChecked state after := by
  rcases hsound with hfits | hwraps
  · have hlt : target.word + size < 2 ^ target.sizeBits :=
      lt_of_le_of_lt (Nat.le_add_right ..) hfits
    have hrefuse : (tbxHeapAllocate target (target.word + size)).Evaluates state null state := by
      refine tbxHeapAllocate_full (by omega) hle ?_
      rw [sizeWanted_of_fits hfits]
      unfold blockBytes at hfull
      omega
    have hchecked : HeapChecked state state := .of_eq rfl
    intro depth
    simp [tbxMemPoolBlockCreate, hsize, target.sizeT_of_lt hlt, hrefuse.wp_iff, State.Grown.refl,
      hchecked]
  · have hzero : target.sizeT (target.word + size) = 0 := by
      rw [Target.sizeT, hwraps, Nat.mod_self]
    have hrefuse := @tbxHeapAllocate_zero target state
    intro depth
    simp [tbxMemPoolBlockCreate, hsize, hzero, hrefuse.wp_iff]
    refine ⟨⟨rfl, rfl, fun _ _ => rfl, rfl, fun _ => rfl, fun event => List.mem_cons_of_mem _⟩, ?_⟩
    exact fun failed hfailed => (List.mem_cons.mp hfailed).symm

/-! ## A new block -/

/-- The owners of the words of a new node and its block. -/
def newBlockParts (target : Target) (size node : Nat) : List (Nat × Part) :=
  [(size, .blockNode node 0), (size, .blockNode node 1), (size, .header (target.field node 2))] ++
    (List.range (blockBytes target size / target.word - 1)).map fun index =>
      (size, .data (target.field node 2) index)

/-- The state with a new node that holds a new block, not yet in the list. -/
def State.storeBlockObjects (state : State) (target : Target) (size : Nat) : State :=
  let node := state.heapEnd target
  let block := target.field node 2
  ((((state.takeHeap target (sizeofBlockNode target)).takeHeap target
    (blockBytes target size)).store (target.field block 0) size).store
    (target.field node BlockNode.blockPtr) block).store
    (target.field node BlockNode.nextNodePtr) null

/-- The state after a new block joined the free list of a pool. -/
@[simps! -fullyApplied tbxHeapAllocated tbxPoolList log]
def State.storeBlock (state : State) (target : Target) (view : PoolView) : State :=
  let node := state.heapEnd target
  ((state.storeBlockObjects target view.blockSize).push target view.freeList node).emit
    (.blockAdded view.blockSize (target.field node 2))

theorem State.storeBlockObjects_grown (state : State) (size : Nat) :
    state.Grown target (state.storeBlockObjects target size)
      (sizeofBlockNode target + blockBytes target size) := by
  have hfield : ∀ index, state.heapEnd target ≤ target.field (state.heapEnd target) index :=
    fun index => Nat.le_add_right ..
  have htaken := (@State.Grown.takeHeap target state (sizeofBlockNode target)).trans
    (.takeHeap _ (blockBytes target size))
  exact ((htaken.store ((hfield 2).trans (Nat.le_add_right ..)) size).store (hfield 0)
    (target.field (state.heapEnd target) 2)).store (hfield 1) null

/-- The new objects are not yet nodes or blocks of any pool. -/
theorem PoolPlaced.heapEnd_not_mem_nodes (hplaced : PoolPlaced target owner view)
    (hheap : PoolHeap target owner state.tbxHeapAllocated views) :
    state.heapEnd target ∉ view.nodes := by
  intro hmem
  have howner := hplaced.blockNode _ hmem 0 (by norm_num)
  rw [hheap.unowned_field] at howner
  cases howner

theorem PoolPlaced.heapEnd_not_mem_blocks (hplaced : PoolPlaced target owner view)
    (hheap : PoolHeap target owner state.tbxHeapAllocated views) :
    target.field (state.heapEnd target) 2 ∉ view.blocks := by
  intro hmem
  have howner := hplaced.header _ hmem
  rw [Target.field_field, hheap.unowned_field] at howner
  cases howner

theorem PoolPlaced.addBlock (hplaced : PoolPlaced target owner view)
    (hheap : PoolHeap target owner state.tbxHeapAllocated views)
    (hnode : state.heapEnd target ∉ view.nodes)
    (hblock : target.field (state.heapEnd target) 2 ∉ view.blocks) :
    PoolPlaced target (owner.claim target (state.heapEnd target)
      (newBlockParts target view.blockSize (state.heapEnd target))) (view.addBlock hnode hblock) := by
  have hold := hplaced.mono fun _ _ => @Ownership.claim_old target owner _ (state.heapEnd target)
    (newBlockParts target view.blockSize (state.heapEnd target)) _
  have hclaim : ∀ index, owner.claim target (state.heapEnd target)
      (newBlockParts target view.blockSize (state.heapEnd target))
      (target.field (state.heapEnd target) index) =
        (newBlockParts target view.blockSize (state.heapEnd target))[index]? := fun index =>
    Ownership.claim_new (hheap.unowned_field index)
  refine ⟨hold.node, hold.pool, hold.freeList, hold.usedList, ?_, ?_, ?_⟩
  · rw [PoolView.addBlock_nodes, List.forall_mem_cons]
    refine ⟨fun i hi => ?_, hold.blockNode⟩
    rw [hclaim]
    interval_cases i <;> rfl
  · rw [PoolView.addBlock_blocks, List.forall_mem_cons]
    refine ⟨?_, hold.header⟩
    rw [Target.field_field, hclaim]
    rfl
  · rw [PoolView.addBlock_blocks, List.forall_mem_cons]
    refine ⟨fun i hi => ?_, hold.data⟩
    have hindex : i < blockBytes target view.blockSize / target.word - 1 := by
      have hdvd : target.word ∣ blockBytes target view.blockSize := target.word_dvd_roundUp _
      have hle : target.word + view.blockSize ≤ blockBytes target view.blockSize :=
        target.le_roundUp _
      obtain ⟨count, hcount⟩ := hdvd
      rw [hcount, Nat.mul_div_cancel_left _ target.word_pos]
      rw [hcount] at hle
      have hlt : (i + 1) * target.word < count * target.word := by
        rw [Nat.succ_mul, Nat.mul_comm count]
        rw [PoolView.addBlock_blockSize] at hi
        omega
      have := Nat.lt_of_mul_lt_mul_right hlt
      omega
    rw [Target.field_field, hclaim, newBlockParts, show 2 + (i + 1) = i + 3 by omega]
    simp [hindex]

/-- Linking a new node changes only words of the free list. -/
theorem PoolPlaced.storeBlock_mem {larger : Ownership} {address : Nat} {size : Nat} {part : Part}
    {hnode : state.heapEnd target ∉ view.nodes}
    {hblock : target.field (state.heapEnd target) 2 ∉ view.blocks}
    (hplaced : PoolPlaced target larger (view.addBlock hnode hblock))
    (hmem : state.heapEnd target ∈ (view.addBlock hnode hblock).nodes)
    (howner : larger address = some (size, part))
    (hother : size ≠ view.blockSize ∨ ¬ part.IsList) :
    (state.storeBlock target view).mem address =
      (state.storeBlockObjects target view.blockSize).mem address := by
  have hne : ∀ {word listPart}, larger word = some (view.blockSize, listPart) →
      Part.IsList listPart → address ≠ word := by
    rintro word listPart hword hlist rfl
    rw [howner] at hword
    cases hword
    exact hother.elim (fun hsize => hsize rfl) fun hpart => hpart hlist
  exact State.push_mem_of_ne (hne (hplaced.blockNode _ hmem 1 (by norm_num)) trivial)
    (hne hplaced.freeList trivial)

theorem PoolStored.addBlock (hstored : PoolStored target state.mem view)
    (hplaced : PoolPlaced target owner view)
    (hheap : PoolHeap target owner state.tbxHeapAllocated views)
    (hnode : state.heapEnd target ∉ view.nodes)
    (hblock : target.field (state.heapEnd target) 2 ∉ view.blocks) :
    PoolStored target (state.storeBlock target view).mem (view.addBlock hnode hblock) := by
  have hmid := hstored.grow hplaced hheap (state.storeBlockObjects_grown view.blockSize)
  have hnew := hplaced.addBlock hheap hnode hblock
  have hmem : state.heapEnd target ∈ (view.addBlock hnode hblock).nodes := List.mem_cons_self
  have hold : ∀ node ∈ view.nodes, node ∈ (view.addBlock hnode hblock).nodes := fun node =>
    List.mem_cons_of_mem _
  have hne := @State.heapEnd_ne_null target state
  have hsame : ∀ address part, owner.claim target (state.heapEnd target)
      (newBlockParts target view.blockSize (state.heapEnd target)) address =
        some (view.blockSize, part) → ¬ part.IsList →
      (state.storeBlock target view).mem address =
        (state.storeBlockObjects target view.blockSize).mem address :=
    fun _ _ howner hpart => hnew.storeBlock_mem hmem howner (.inr hpart)
  refine hmid.relink (hplaced.mono fun _ _ => Ownership.claim_old) (view.addBlock_same hnode hblock)
    hsame ?_ ?_ ?_ ?_
  · refine hmid.freeChain.push hne (fun hmem => hnode (List.mem_append_left _ hmem)) ?_
    intro node hnodeMem
    exact hnew.link_ne_freeList (List.mem_append_left view.used hnodeMem)
  · refine hmid.usedChain.push_other hnew.lists_ne.symm (hnew.link_ne_usedList hmem)
      (fun hmem => hnode (PoolView.mem_nodes_of_used hmem)) fun node hnodeMem => ?_
    exact hnew.link_ne_freeList (hold node (PoolView.mem_nodes_of_used hnodeMem))
  · rw [PoolView.addBlock_free, List.forall_mem_cons]
    refine ⟨?_, fun entry hentry => ?_⟩
    · refine (State.push_mem_of_ne (hnew.value_ne_link hmem hmem)
        (hnew.value_ne_freeList hmem)).trans ?_
      simp [State.storeBlockObjects, Target.field_field, Target.field_index_inj, BlockNode.blockPtr,
        BlockNode.nextNodePtr]
    · have hentryMem := hold _ (PoolView.mem_nodes_of_free hentry)
      refine (State.push_mem_of_ne (hnew.value_ne_link hentryMem hmem)
        (hnew.value_ne_freeList hentryMem)).trans (hmid.blockPtr entry hentry)
  · intro block hblockMem
    rw [hsame _ _ (hnew.header block hblockMem) id]
    rcases List.mem_cons.mp hblockMem with rfl | hblockMem
    · simp [State.storeBlockObjects, Target.field_field, Target.field_index_inj, BlockNode.blockPtr,
        BlockNode.nextNodePtr]
    · exact hmid.header block hblockMem

theorem PoolLog.addBlock {log later : List Event}
    (hlog : PoolLog target log (front ++ view :: back)) (hnode : node ∉ view.nodes)
    (hblock : block ∉ view.blocks)
    (hothers : ∀ other ∈ front ++ back, other.blockSize ≠ view.blockSize)
    (hout : handedOut later = handedOut log)
    (hadded : ∀ size, blocksAdded size later =
      if view.blockSize = size then block :: blocksAdded size log else blocksAdded size log)
    (hkept : ∀ event ∈ log, event ∈ later)
    (hreserved : .heapTaken block (blockBytes target view.blockSize) ∈ later) :
    PoolLog target later (front ++ view.addBlock hnode hblock :: back) where
  out := by
    rw [hout]
    simpa using hlog.out
  added := by
    refine forall_mem_exchange ?_ fun other hother => ?_
    · rw [hadded, PoolView.addBlock_blockSize, if_pos rfl]
      exact (hlog.added view mem_middle).cons block
    · rw [hadded, if_neg (hothers other hother).symm]
      exact hlog.added other (mem_of_mem_others hother)
  addedElsewhere := by
    intro size hsize
    have hview : view.blockSize ≠ size := hsize (view.addBlock hnode hblock) mem_middle
    rw [hadded, if_neg hview]
    refine hlog.addedElsewhere size (forall_mem_exchange hview fun other hother => ?_)
    exact hsize other (mem_of_mem_others hother)
  reserved := by
    refine forall_mem_exchange ?_ fun other hother => ?_
    · rw [PoolView.addBlock_blocks, List.forall_mem_cons]
      exact ⟨hreserved, fun old hold => hkept _ (hlog.reserved view mem_middle old hold)⟩
    · exact fun old hold => hkept _ (hlog.reserved other (mem_of_mem_others hother) old hold)

theorem newBlockParts_length (target : Target) (node : Nat) (hsize : 0 < size) :
    (newBlockParts target size node).length * target.word =
      sizeofBlockNode target + blockBytes target size := by
  have hle : target.word + size ≤ blockBytes target size := target.le_roundUp _
  have hword := target.word_pos
  obtain ⟨count, hcount⟩ : target.word ∣ blockBytes target size := target.word_dvd_roundUp _
  have hpos : 0 < count := by
    rcases Nat.eq_zero_or_pos count with rfl | hpos
    · omega
    · exact hpos
  simp only [newBlockParts, List.length_append, List.length_map, List.length_range,
    List.length_cons, List.length_nil, sizeofBlockNode, hcount, Nat.mul_div_cancel_left _ hword]
  rw [show 0 + 1 + 1 + 1 + (count - 1) = 2 + count by omega, Nat.add_mul, Nat.mul_comm count]

theorem PoolsAt.addBlock (hpools : PoolsAt target owner (front ++ view :: back) state)
    (hroom : state.tbxHeapAllocated + (sizeofBlockNode target + blockBytes target view.blockSize) ≤
      target.heapSize)
    (hnode : state.heapEnd target ∉ view.nodes)
    (hblock : target.field (state.heapEnd target) 2 ∉ view.blocks) :
    PoolsAt target (owner.claim target (state.heapEnd target)
      (newBlockParts target view.blockSize (state.heapEnd target)))
      (front ++ view.addBlock hnode hblock :: back) (state.storeBlock target view) := by
  have hplaced := hpools.heap.placed view mem_middle
  have hstored := hpools.list.stored view mem_middle
  have hgrown := @State.storeBlockObjects_grown target state view.blockSize
  have hnew := hplaced.addBlock hpools.heap hnode hblock
  have hclaimed : PoolHeap target (owner.claim target (state.heapEnd target)
      (newBlockParts target view.blockSize (state.heapEnd target)))
      (state.tbxHeapAllocated + (sizeofBlockNode target + blockBytes target view.blockSize))
      (front ++ view :: back) := by
    refine hpools.heap.claim (newBlockParts_length target _ view.size_pos).le ?_ hroom
    exact Nat.dvd_add (Nat.dvd_mul_left ..) (target.word_dvd_roundUp _)
  refine ⟨?_, ?_, ?_⟩
  · have hlist := hpools.list.grow hpools.heap hgrown
    refine hlist.exchange hclaimed.placed rfl rfl (hstored.addBlock hplaced hpools.heap hnode hblock)
      fun address size part howner hpart => ?_
    refine hnew.storeBlock_mem List.mem_cons_self howner (hpart.imp_right ?_)
    rintro ⟨member, rfl⟩
    exact id
  · have hallocated : (state.storeBlock target view).tbxHeapAllocated = state.tbxHeapAllocated +
        (sizeofBlockNode target + blockBytes target view.blockSize) := hgrown.allocated
    rw [hallocated]
    exact hclaimed.exchange hnew
  · refine hpools.log.addBlock hnode hblock (fun other => hpools.list.size_ne) ?_ ?_ ?_ ?_
    · exact hgrown.handedOut
    · intro size
      rw [← hgrown.added size]
      rfl
    · exact fun event hevent => List.mem_cons_of_mem _ (hgrown.kept event hevent)
    · rw [← State.heapEnd_takeHeap state 2]
      exact List.mem_cons_of_mem _ List.mem_cons_self

/-! ## The block loop -/

theorem createBlock_room (hpools : PoolsAt target owner (front ++ view :: back) state)
    (hroom : state.tbxHeapAllocated + (sizeofBlockNode target + blockBytes target view.blockSize) ≤
      target.heapSize) (result : Status) :
    (createBlock target view.node view.blockSize result).Evaluates state result
      (state.storeBlock target view) := by
  have hheap := hpools.heap
  have hnode := hheap.node_ne_null mem_middle
  have hpool := hheap.pool_ne_null mem_middle
  have hmid := (hpools.list.stored view mem_middle).grow (hheap.placed view mem_middle) hheap
    (state.storeBlockObjects_grown view.blockSize)
  have htake : (tbxHeapAllocate target (sizeofBlockNode target)).Evaluates state
      (state.heapEnd target) (state.takeHeap target (sizeofBlockNode target)) :=
    tbxHeapAllocate_words (by norm_num) (by norm_num) (by simp only [sizeofBlockNode] at hroom; omega)
  have hblock := @tbxMemPoolBlockCreate_room target
    (state.takeHeap target (sizeofBlockNode target)) view.blockSize view.size_pos (by
      rw [State.takeHeap_tbxHeapAllocated]
      omega)
  have hend : (state.takeHeap target (sizeofBlockNode target)).heapEnd target =
      target.field (state.heapEnd target) 2 := State.heapEnd_takeHeap state 2
  rw [hend] at hblock
  refine htake.bind ?_
  rw [if_neg state.heapEnd_ne_null]
  refine hblock.bind ?_
  rw [if_neg (field_heapEnd_ne_null state 2)]
  refine (evaluates_store state.heapEnd_ne_null).bind ?_
  refine (evaluates_store state.heapEnd_ne_null).bind ?_
  refine (evaluates_tbxAssert (decide_eq_true hnode)).bind ?_
  rw [if_neg hnode]
  refine (evaluates_load hnode hmid.poolPtr).bind ?_
  refine (evaluates_load hpool hmid.freeListPtr).bind ?_
  refine (tbxMemPoolBlockListInsert_spec (hheap.freeList_ne_null mem_middle)
    state.heapEnd_ne_null).bind ?_
  exact (evaluates_emit _).bind (evaluates_pure result)

/-- Bytes lost by a pass that fails. -/
def blockLoss (target : Target) (room : Nat) : Nat :=
  if room < sizeofBlockNode target then 0 else sizeofBlockNode target

/-- A pass without room for both objects fails, and a node taken is lost. -/
theorem createBlock_full (hsize : 0 < size) (hsound : target.Sound size)
    (hle : state.tbxHeapAllocated ≤ target.heapSize)
    (hfull : target.heapSize <
      state.tbxHeapAllocated + (sizeofBlockNode target + blockBytes target size))
    (poolNodePtr : Nat) (result : Status) :
    (createBlock target poolNodePtr size result).Returns state fun result after =>
      result = .error ∧
      state.Grown target after (blockLoss target (target.heapSize - state.tbxHeapAllocated)) ∧
      HeapChecked state after := by
  have hnodeBytes : sizeofBlockNode target = 2 * target.word := rfl
  unfold blockLoss
  by_cases hnodeFull : target.heapSize - state.tbxHeapAllocated < sizeofBlockNode target
  · rw [if_pos hnodeFull]
    refine (tbxHeapAllocate_noWords (by norm_num) (by norm_num) hle (by omega)).bind ?_
    rw [if_pos rfl]
    exact (returns_pure _).mpr ⟨rfl, .refl, .of_eq rfl⟩
  · rw [if_neg hnodeFull]
    refine (tbxHeapAllocate_words (by norm_num) (by norm_num) (by omega)).bind ?_
    rw [if_neg state.heapEnd_ne_null]
    have hallocated := State.takeHeap_tbxHeapAllocated state target (2 * target.word)
    refine (tbxMemPoolBlockCreate_full hsize hsound ?_ ?_).bind ?_
    · omega
    · omega
    rintro _ after ⟨rfl, hgrown, hchecked⟩
    rw [if_pos rfl]
    refine (returns_pure _).mpr ⟨rfl, (State.Grown.takeHeap state _).trans hgrown, ?_⟩
    exact HeapChecked.trans (.of_eq (by simp)) hchecked

/-- Bytes of one block together with its node. -/
def entryBytes (target : Target) (size : Nat) : Nat :=
  sizeofBlockNode target + blockBytes target size

/-- How many of the blocks asked for find room. -/
def blocksMade (target : Target) (size count room : Nat) : Nat :=
  min count (room / entryBytes target size)

/-- Bytes lost in the block loop: each pass after the last block takes a node
while there is room for one. -/
def loopLoss (target : Target) (size count room : Nat) : Nat :=
  let made := blocksMade target size count room
  sizeofBlockNode target *
    min (count - made) ((room - made * entryBytes target size) / sizeofBlockNode target)

/-- Bytes taken by the block loop. -/
def loopBytes (target : Target) (size count room : Nat) : Nat :=
  blocksMade target size count room * entryBytes target size + loopLoss target size count room

section Arithmetic

variable {count room : Nat}

theorem sizeofBlockNode_pos (target : Target) : 0 < sizeofBlockNode target :=
  Nat.mul_pos (by norm_num) target.word_pos

theorem entryBytes_pos (target : Target) (size : Nat) : 0 < entryBytes target size :=
  Nat.add_pos_left (sizeofBlockNode_pos target) _

theorem blocksMade_room (hroom : entryBytes target size ≤ room) :
    blocksMade target size (count + 1) room =
      blocksMade target size count (room - entryBytes target size) + 1 := by
  rw [blocksMade, blocksMade, Nat.div_eq_sub_div (entryBytes_pos target size) hroom]
  omega

theorem blocksMade_full (hfull : room < entryBytes target size) :
    blocksMade target size count room = 0 := by
  rw [blocksMade, Nat.div_eq_of_lt hfull, Nat.min_zero]

theorem loopLoss_room (hroom : entryBytes target size ≤ room) :
    loopLoss target size (count + 1) room =
      loopLoss target size count (room - entryBytes target size) := by
  have hrest : room - (blocksMade target size count (room - entryBytes target size) + 1) *
      entryBytes target size = room - entryBytes target size -
        blocksMade target size count (room - entryBytes target size) * entryBytes target size := by
    rw [Nat.succ_mul]
    omega
  simp only [loopLoss, blocksMade_room hroom, hrest, Nat.add_sub_add_right]

theorem loopLoss_full (hfull : room < entryBytes target size) :
    loopLoss target size (count + 1) room =
      blockLoss target room + loopLoss target size count (room - blockLoss target room) := by
  have hnode := sizeofBlockNode_pos target
  have hless : room - blockLoss target room < entryBytes target size := by omega
  simp only [loopLoss, blocksMade_full hfull, blocksMade_full hless, Nat.sub_zero, Nat.zero_mul]
  unfold blockLoss
  split
  · next hsmall => simp [Nat.div_eq_of_lt hsmall]
  · next hlarge =>
      rw [Nat.div_eq_sub_div hnode (Nat.le_of_not_lt hlarge), Nat.add_min_add_right, Nat.mul_add]
      omega

theorem loopLoss_of_all (hall : blocksMade target size count room = count) :
    loopLoss target size count room = 0 := by
  simp [loopLoss, hall]

theorem blockLoss_le (target : Target) (room : Nat) : blockLoss target room ≤ room := by
  unfold blockLoss
  split <;> omega

theorem loopBytes_room (hroom : entryBytes target size ≤ room) :
    loopBytes target size (count + 1) room =
      entryBytes target size + loopBytes target size count (room - entryBytes target size) := by
  rw [loopBytes, loopBytes, blocksMade_room hroom, loopLoss_room hroom, Nat.succ_mul]
  omega

theorem loopBytes_full (hfull : room < entryBytes target size) :
    loopBytes target size (count + 1) room =
      blockLoss target room + loopBytes target size count (room - blockLoss target room) := by
  rw [loopBytes, loopBytes, blocksMade_full hfull, loopLoss_full hfull,
    blocksMade_full (by omega)]
  omega

end Arithmetic

/-- What every operation of the module leaves alone: the owners, the data of
all blocks, and the events of the log. -/
structure Kept (owner larger : Ownership) (state after : State) : Prop where
  owners : ∀ address part, owner address = some part → larger address = some part
  data : ∀ address size part, owner address = some (size, part) → part.IsData →
    after.mem address = state.mem address
  events : ∀ event ∈ state.log, event ∈ after.log

namespace Kept

variable {larger largest : Ownership} {middle after : State}

theorem refl : Kept owner owner state state :=
  ⟨fun _ _ howner => howner, fun _ _ _ _ _ => rfl, fun _ hevent => hevent⟩

theorem trans (hfirst : Kept owner larger state middle) (hnext : Kept larger largest middle after) :
    Kept owner largest state after where
  owners := fun address part howner => hnext.owners _ _ (hfirst.owners address part howner)
  data := fun address size part howner hdata =>
    (hnext.data address size part (hfirst.owners _ _ howner) hdata).trans
      (hfirst.data address size part howner hdata)
  events := fun event hevent => hnext.events event (hfirst.events event hevent)

theorem of_grown {bytes : Nat} (hheap : PoolHeap target owner state.tbxHeapAllocated views)
    (hgrown : state.Grown target after bytes) : Kept owner owner state after where
  owners := fun _ _ howner => howner
  data := by
    intro address size part howner _
    have hinside := (hheap.inside _ _ howner).2.2
    have hword := target.word_pos
    exact hgrown.mem address (by omega)
  events := hgrown.kept

end Kept

/-- A pool with more free blocks than before. -/
structure PoolView.Extended (view other : PoolView) (made : Nat) : Prop where
  same : view.Same other
  used : other.used = view.used
  out : other.out = view.out
  free : ∃ added, added.length = made ∧ other.free = added ++ view.free

theorem PoolView.Extended.refl (view : PoolView) : view.Extended view 0 :=
  ⟨⟨rfl, rfl, rfl, rfl, rfl⟩, rfl, rfl, [], rfl, rfl⟩

theorem PoolView.Extended.of_addBlock {other : PoolView} {made : Nat} {hnode : node ∉ view.nodes}
    {hblock : block ∉ view.blocks}
    (hextended : (view.addBlock hnode hblock).Extended other made) :
    view.Extended other (made + 1) := by
  obtain ⟨⟨hsize, hnodeEq, hpool, hfreeList, husedList⟩, hused, hout, added, hlength, hfree⟩ :=
    hextended
  refine ⟨⟨hsize, hnodeEq, hpool, hfreeList, husedList⟩, hused, hout, added ++ [(node, block)], ?_, ?_⟩
  · simp [hlength]
  · simp [hfree]

/-- The state after a pool was extended. -/
structure Extension (target : Target) (owner larger : Ownership) (front back : List PoolView)
    (view other : PoolView) (state after : State) (made bytes : Nat) : Prop where
  pools : PoolsAt target larger (front ++ other :: back) after
  extended : view.Extended other made
  kept : Kept owner larger state after
  allocated : after.tbxHeapAllocated = state.tbxHeapAllocated + bytes
  handedOut : handedOut after.log = MicroTbx.handedOut state.log
  checked : HeapChecked state after

namespace Extension

variable {larger : Ownership} {other : PoolView} {after : State} {made bytes : Nat}

/-- An extension behind a pass that failed. -/
theorem of_loss {middle : State} {loss : Nat}
    (hheap : PoolHeap target owner state.tbxHeapAllocated views)
    (hgrown : state.Grown target middle loss)
    (hchecked : HeapChecked state middle)
    (hextension : Extension target owner larger front back view other middle after made bytes) :
    Extension target owner larger front back view other state after made (loss + bytes) where
  pools := hextension.pools
  extended := hextension.extended
  kept := (Kept.of_grown hheap hgrown).trans hextension.kept
  allocated := by rw [hextension.allocated, hgrown.allocated, Nat.add_assoc]
  handedOut := hextension.handedOut.trans hgrown.handedOut
  checked := hchecked.trans hextension.checked

/-- An extension behind a pass that made a block. -/
theorem of_block {hnode : state.heapEnd target ∉ view.nodes}
    {hblock : target.field (state.heapEnd target) 2 ∉ view.blocks}
    (hheap : PoolHeap target owner state.tbxHeapAllocated views)
    (hplaced : PoolPlaced target owner view)
    (hextension : Extension target (owner.claim target (state.heapEnd target)
      (newBlockParts target view.blockSize (state.heapEnd target))) larger front back
      (view.addBlock hnode hblock) other (state.storeBlock target view) after made bytes) :
    Extension target owner larger front back view other state after (made + 1)
      (entryBytes target view.blockSize + bytes) := by
  have hgrown := @State.storeBlockObjects_grown target state view.blockSize
  have hnew := hplaced.addBlock hheap hnode hblock
  refine ⟨hextension.pools, hextension.extended.of_addBlock, Kept.trans ?_ hextension.kept, ?_,
    hextension.handedOut.trans hgrown.handedOut, ?_⟩
  · have hgrownKept := Kept.of_grown hheap hgrown
    refine ⟨fun _ _ => Ownership.claim_old, fun address size part howner hdata => ?_, ?_⟩
    · rw [← hgrownKept.data address size part howner hdata]
      exact hnew.storeBlock_mem List.mem_cons_self (Ownership.claim_old howner)
        (.inr hdata.not_list)
    · exact fun event hevent => List.mem_cons_of_mem _ (hgrownKept.events event hevent)
  · have hallocated : (state.storeBlock target view).tbxHeapAllocated =
        state.tbxHeapAllocated + entryBytes target view.blockSize := hgrown.allocated
    rw [hextension.allocated, hallocated, Nat.add_assoc]
  · exact HeapChecked.trans (.of_eq rfl) hextension.checked

end Extension

/-- The loop makes as many blocks as find room and succeeds when these are
all that were asked for. -/
theorem createBlocks_spec (hpools : PoolsAt target owner (front ++ view :: back) state)
    (hsound : target.Sound view.blockSize) (count : Nat) (result : Status) :
    (createBlocks target view.node view.blockSize count result).Returns state fun final after =>
      (final = if blocksMade target view.blockSize count (state.room target) = count then result
        else .error) ∧
      ∃ larger other, Extension target owner larger front back view other state after
        (blocksMade target view.blockSize count (state.room target))
        (loopBytes target view.blockSize count (state.room target)) := by
  induction count generalizing state owner view result with
  | zero =>
      have hmade : blocksMade target view.blockSize 0 (state.room target) = 0 := by
        simp [blocksMade]
      have hbytes : loopBytes target view.blockSize 0 (state.room target) = 0 := by
        simp [loopBytes, loopLoss, hmade]
      rw [hmade, hbytes]
      exact (returns_pure _).mpr
        ⟨rfl, owner, view, hpools, .refl view, .refl, rfl, rfl, .of_eq rfl⟩
  | succ count ih =>
      have hle := hpools.heap.allocated_le
      rcases Nat.lt_or_ge (state.room target) (entryBytes target view.blockSize) with hfull | hroom
      · refine (createBlock_full view.size_pos hsound hle ?_ view.node result).bind ?_
        · unfold State.room entryBytes at hfull
          omega
        rintro _ middle ⟨rfl, hgrown, hchecked⟩
        have hloss := blockLoss_le target (state.room target)
        have haligned : target.word ∣ blockLoss target (state.room target) := by
          unfold blockLoss
          split
          · exact Nat.dvd_zero _
          · exact Nat.dvd_mul_left ..
        have hmiddle := hpools.grow hgrown haligned (by unfold State.room at hloss; omega)
        have hrest : middle.room target =
            state.room target - blockLoss target (state.room target) := by
          rw [State.room, hgrown.allocated, Nat.sub_add_eq]
          rfl
        refine (ih hmiddle hsound .error).mono ?_
        rintro final after ⟨hfinal, larger, other, hextension⟩
        rw [hrest, blocksMade_full (by omega)] at hfinal hextension
        rw [blocksMade_full hfull, loopBytes_full hfull]
        exact ⟨by simpa using hfinal, larger, other, hextension.of_loss hpools.heap hgrown hchecked⟩
      · have hplaced := hpools.heap.placed view mem_middle
        have hroomFor : state.tbxHeapAllocated +
            (sizeofBlockNode target + blockBytes target view.blockSize) ≤ target.heapSize := by
          unfold State.room entryBytes at hroom
          omega
        have hnode := hplaced.heapEnd_not_mem_nodes hpools.heap
        have hblock := hplaced.heapEnd_not_mem_blocks hpools.heap
        have hrest : (state.storeBlock target view).room target =
            state.room target - entryBytes target view.blockSize := by
          have hgrown := @State.storeBlockObjects_grown target state view.blockSize
          have hallocated : (state.storeBlock target view).tbxHeapAllocated =
              state.tbxHeapAllocated + entryBytes target view.blockSize := hgrown.allocated
          rw [State.room, hallocated, Nat.sub_add_eq]
          rfl
        refine (createBlock_room hpools hroomFor result).bind ?_
        refine (ih (hpools.addBlock hroomFor hnode hblock) hsound result).mono ?_
        rintro final after ⟨hfinal, larger, other, hextension⟩
        rw [hrest] at hfinal hextension
        rw [blocksMade_room hroom, loopBytes_room hroom]
        exact ⟨by simpa using hfinal, larger, other, hextension.of_block hpools.heap hplaced⟩

end MicroTbx

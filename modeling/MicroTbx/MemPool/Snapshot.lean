import MicroTbx.MemPool.Peak
import MicroTbx.MemPool.Service

/-! # The pools as memory shows them

What can be said about pools without the views of the invariant: which nodes
are in the pool list, what a pool's lists hold, and when two states agree on a
pool. The invariant gives each of these in every state a run reaches.
-/

namespace MicroTbx

open Program

section Memory

variable (target : Target)

/-- The list of free blocks of the pool of a node. -/
def State.freeListOf (state : State) (poolNode : Nat) : Nat :=
  state.mem (target.field (state.poolOf target poolNode) Pool.freeBlockListPtr)

/-- The list of spare nodes of the pool of a node. -/
def State.usedListOf (state : State) (poolNode : Nat) : Nat :=
  state.mem (target.field (state.poolOf target poolNode) Pool.usedBlockListPtr)

/-- The free list of a pool is not empty. -/
def HasFreeBlock (state : State) (poolNode : Nat) : Prop :=
  state.mem (target.field (state.freeListOf target poolNode) 0) ≠ null

instance (state : State) (poolNode : Nat) : Decidable (HasFreeBlock target state poolNode) :=
  inferInstanceAs (Decidable (_ ≠ _))

/-- The pool list holds these nodes, strictly ascending in block size. -/
structure PoolNodes (state : State) (poolNodes : List Nat) : Prop where
  chain : Chain.Linked (nextNode target state.mem) null state.tbxPoolList poolNodes
  ascending : (poolNodes.map (state.sizeOf target)).Pairwise (· < ·)

/-- The headers and the data of the blocks of a size are what they were. -/
def BlocksUnchanged (state after : State) (size : Nat) : Prop :=
  ∀ block ∈ blocksAdded size state.log, ∀ index, index * target.word < target.word + size →
    after.mem (target.field block index) = state.mem (target.field block index)

/-- Two states agree on a pool: on its object, on what its lists hold, on its
blocks and their contents, and on which of them are handed out. -/
structure PoolUnchanged (state after : State) (poolNode : Nat) : Prop where
  pool : after.poolOf target poolNode = state.poolOf target poolNode
  size : after.sizeOf target poolNode = state.sizeOf target poolNode
  free : ∃ nodes, BlockChain target state.mem (state.freeListOf target poolNode) nodes ∧
    BlockChain target after.mem (after.freeListOf target poolNode) nodes ∧
    ∀ node ∈ nodes, after.mem (target.field node BlockNode.blockPtr) =
      state.mem (target.field node BlockNode.blockPtr)
  used : ∃ nodes, BlockChain target state.mem (state.usedListOf target poolNode) nodes ∧
    BlockChain target after.mem (after.usedListOf target poolNode) nodes
  added : blocksAdded (state.sizeOf target poolNode) after.log =
    blocksAdded (state.sizeOf target poolNode) state.log
  allocated : (allocatedBlocks target after (state.sizeOf target poolNode)).Perm
    (allocatedBlocks target state (state.sizeOf target poolNode))
  contents : BlocksUnchanged target state after (state.sizeOf target poolNode)

end Memory

variable {target : Target} {owner larger : Ownership} {views others front back : List PoolView}
  {view : PoolView} {state after : State} {size : Nat}

namespace PoolsAt

theorem freeListOf (hpools : PoolsAt target owner views state) (hview : view ∈ views) :
    state.freeListOf target view.node = view.freeList := by
  have hstored := hpools.list.stored view hview
  rw [State.freeListOf, State.poolOf, hstored.poolPtr, hstored.freeListPtr]

theorem usedListOf (hpools : PoolsAt target owner views state) (hview : view ∈ views) :
    state.usedListOf target view.node = view.usedList := by
  have hstored := hpools.list.stored view hview
  rw [State.usedListOf, State.poolOf, hstored.poolPtr, hstored.usedListPtr]

theorem hasFreeBlock_iff (hpools : PoolsAt target owner views state) (hview : view ∈ views) :
    HasFreeBlock target state view.node ↔ view.Stocked :=
  (hpools.stocked_iff hview).symm

theorem poolNodes (hpools : PoolsAt target owner views state) :
    PoolNodes target state (views.map PoolView.node) where
  chain := hpools.list.chain
  ascending := by
    have hsizes : (views.map PoolView.node).map (state.sizeOf target) =
        views.map PoolView.blockSize := by
      rw [List.map_map]
      exact List.map_congr_left fun view hview => hpools.sizeOf hview
    rw [hsizes]
    exact List.pairwise_map.mpr hpools.list.ascending

theorem blocksUnchanged (hpools : PoolsAt target owner views state)
    (hafter : PoolsAt target larger others after) (hkept : Kept owner larger state after)
    (hgrows : state.log <:+ after.log) (size : Nat) : BlocksUnchanged target state after size := by
  intro block hblock index hindex
  rcases hpools.view_or_none size with ⟨view, hview, hsize, hadded, -⟩ | ⟨hnone, -⟩
  · subst hsize
    have hmem := hadded.mem_iff.mp hblock
    cases index with
    | zero =>
        -- The header holds the block size in both states.
        have hlater := (blocksAdded_suffix view.blockSize hgrows).subset hblock
        rcases hafter.view_or_none view.blockSize with
          ⟨other, hother, hsame, hotherAdded, -⟩ | ⟨hnone, -⟩
        · have hheader := (hafter.list.stored other hother).header block
            (hotherAdded.mem_iff.mp hlater)
          rw [hheader, (hpools.list.stored view hview).header block hmem, hsame]
        · rw [hnone] at hlater
          cases hlater
    | succ index =>
        apply hkept.data _ _ _ ((hpools.heap.placed view hview).data block hmem index _) trivial
        rw [Nat.succ_mul] at hindex
        omega
  · rw [hnone] at hblock
    cases hblock

/-- A pool with the same view in both states is unchanged. -/
theorem unchanged (hpools : PoolsAt target owner views state)
    (hafter : PoolsAt target larger others after) (hkept : Kept owner larger state after)
    (hgrows : state.log <:+ after.log) (hview : view ∈ views) (hother : view ∈ others) :
    PoolUnchanged target state after view.node := by
  have hstored := hpools.list.stored view hview
  have hlater := hafter.list.stored view hother
  have hlength : (blocksAdded view.blockSize after.log).length =
      (blocksAdded view.blockSize state.log).length := by
    rw [hpools.length_blocksAdded hview, hafter.length_blocksAdded hother]
  refine ⟨?_, ?_, ⟨view.free.map Prod.fst, ?_, ?_, ?_⟩, ⟨view.used, ?_, ?_⟩, ?_, ?_, ?_⟩
  · rw [State.poolOf, State.poolOf, hstored.poolPtr, hlater.poolPtr]
  · rw [hpools.sizeOf hview, hafter.sizeOf hother]
  · rw [hpools.freeListOf hview]
    exact hstored.freeChain
  · rw [hafter.freeListOf hother]
    exact hlater.freeChain
  · intro node hnode
    obtain ⟨entry, hentry, rfl⟩ := List.mem_map.mp hnode
    rw [hstored.blockPtr entry hentry, hlater.blockPtr entry hentry]
  · rw [hpools.usedListOf hview]
    exact hstored.usedChain
  · rw [hafter.usedListOf hother]
    exact hlater.usedChain
  · rw [hpools.sizeOf hview]
    exact blocksAdded_eq hgrows hlength
  · rw [hpools.sizeOf hview]
    obtain ⟨before, behind, rfl⟩ := List.append_of_mem hview
    obtain ⟨laterBefore, laterBehind, rfl⟩ := List.append_of_mem hother
    exact hafter.allocatedBlocks_perm.trans hpools.allocatedBlocks_perm.symm
  · exact hpools.blocksUnchanged hafter hkept hgrows _

end PoolsAt

end MicroTbx

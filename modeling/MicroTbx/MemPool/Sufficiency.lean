import MicroTbx.MemPool.Snapshot

/-! # A creation succeeds exactly when the heap suffices

The creation asks the heap for one object after the other and remembers every
refusal. Its result is one comparison of the free heap with the bytes of all
objects together, and on success each of them is where it belongs.
-/

namespace MicroTbx

open Program

section Statement

variable (target : Target)

/-- Bytes that a creation needs: those of its blocks with their nodes, and
those of a new pool where there is none of the block size. -/
def creationBytes (state : State) (poolNodes : List Nat) (numBlocks blockSize : Nat) : Nat :=
  numBlocks * (target.roundUp (sizeofBlockNode target) + target.roundUp (target.word + blockSize)) +
    if ∃ poolNode ∈ poolNodes, state.sizeOf target poolNode = blockSize then 0
    else target.roundUp (sizeofPoolNode target) + target.roundUp (sizeofPool target) +
      2 * target.roundUp (sizeofBlockList target)

/-- So many allocations in a row return a block. -/
def AllocatesTimes (size : Nat) : Nat → State → Prop
  | 0, _ => True
  | count + 1, state => ∃ data after,
      (tbxMemPoolAllocate target size).run 0 state = .done data 0 after ∧ data ≠ null ∧
        AllocatesTimes size count after

/-- New blocks join the free list of the pool of a size, in front of the nodes
that were in the list of this pool before, if there was one. -/
structure Joined (state : State) (poolNodes : List Nat) (size count : Nat) (after : State)
    (poolNode : Nat) (added earlier : List Nat) : Prop where
  sameSize : after.sizeOf target poolNode = size
  count : added.length = count
  free : BlockChain target after.mem (after.freeListOf target poolNode) (added ++ earlier)
  existing : ∀ old ∈ poolNodes, state.sizeOf target old = size →
    old = poolNode ∧ BlockChain target state.mem (state.freeListOf target old) earlier
  missing : (∀ old ∈ poolNodes, state.sizeOf target old ≠ size) → earlier = []
  blocks : (blocksAdded size after.log).Perm
    (added.map (fun node => after.mem (target.field node BlockNode.blockPtr)) ++
      blocksAdded size state.log)
  once : (blocksAdded size after.log).Nodup

/-- What a creation that succeeds does. -/
structure CreatesBlocks (state : State) (poolNodes : List Nat) (numBlocks blockSize : Nat)
    (after : State) : Prop where
  heap : after.tbxHeapAllocated =
    state.tbxHeapAllocated + creationBytes target state poolNodes numBlocks blockSize
  joined : ∃ laterNodes poolNode added earlier, PoolNodes target after laterNodes ∧
    (∀ node, node ∈ laterNodes ↔ node = poolNode ∨ node ∈ poolNodes) ∧
    Joined target state poolNodes blockSize numBlocks after poolNode added earlier
  out : handedOut after.log = handedOut state.log
  allocated : (allocatedBlocks target after blockSize).Perm
    (allocatedBlocks target state blockSize)
  contents : ∀ size, BlocksUnchanged target state after size
  others : ∀ other ∈ poolNodes, state.sizeOf target other ≠ blockSize →
    PoolUnchanged target state after other
  elsewhere : ∀ size, size ≠ blockSize → blocksAdded size after.log = blocksAdded size state.log
  next : AllocatesTimes target blockSize numBlocks after

end Statement

variable {target : Target} {owner larger : Ownership} {views others : List PoolView}
  {view : PoolView} {state after : State} {history : List PoolExchange} {size count : Nat}
  {status : Status} {poolNode : Nat}

/-! ## The comparison -/

theorem creationBytes_eq (hpools : PoolsAt target owner views state) :
    creationBytes target state (views.map PoolView.node) count size = count * entryBytes target size +
      if ∃ view ∈ views, view.blockSize = size then 0 else poolBytes target := by
  have hexists : (∃ poolNode ∈ views.map PoolView.node, state.sizeOf target poolNode = size) ↔
      ∃ view ∈ views, view.blockSize = size := by
    constructor
    · rintro ⟨poolNode, hmem, hsize⟩
      obtain ⟨view, hview, rfl⟩ := List.mem_map.mp hmem
      exact ⟨view, hview, (hpools.sizeOf hview).symm.trans hsize⟩
    · rintro ⟨view, hview, hsize⟩
      exact ⟨view.node, List.mem_map_of_mem hview, (hpools.sizeOf hview).trans hsize⟩
  have hnode : target.roundUp (sizeofBlockNode target) = sizeofBlockNode target :=
    target.roundUp_mul 2
  have hpoolNode : target.roundUp (sizeofPoolNode target) = sizeofPoolNode target :=
    target.roundUp_mul 2
  have hpool : target.roundUp (sizeofPool target) = sizeofPool target := target.roundUp_mul 3
  have hlist : target.roundUp (sizeofBlockList target) = sizeofBlockList target :=
    target.roundUp_of_dvd (dvd_refl _)
  simp only [creationBytes, hexists, hnode, hpoolNode, hpool, hlist]
  rfl

theorem blocksMade_eq_iff {room : Nat} :
    blocksMade target size count room = count ↔ count * entryBytes target size ≤ room := by
  rw [blocksMade, min_eq_left_iff, Nat.le_div_iff_mul_le (entryBytes_pos target size)]

theorem status_ok_iff {condition : Prop} [Decidable condition] :
    (if condition then Status.ok else .error) = .ok ↔ condition :=
  ⟨of_status_ok, fun h => if_pos h⟩

namespace Creates

/-- The result of a creation is one comparison. -/
theorem ok_iff (hcreates : Creates target owner views state count size status larger others after)
    (hpools : PoolsAt target owner views state) :
    status = .ok ↔ creationBytes target state (views.map PoolView.node) count size ≤
      state.room target := by
  rw [creationBytes_eq hpools]
  cases hcreates with
  | @extended front back view other larger after split sameSize extension =>
      have hexists : ∃ view ∈ views, view.blockSize = size :=
        ⟨view, split ▸ mem_middle, sameSize⟩
      rw [status_ok_iff, blocksMade_eq_iff, if_pos hexists, Nat.add_zero]
  | @created front back view other larger after split below above room sameSize noFree noOut
      extension =>
      have hmissing : ¬ ∃ view ∈ views, view.blockSize = size := by
        rintro ⟨neighbour, hneighbour, heq⟩
        rcases List.mem_append.mp (split ▸ hneighbour) with hfront | hback
        · exact (below neighbour hfront).ne heq
        · exact (above neighbour hback).ne' heq
      rw [status_ok_iff, blocksMade_eq_iff, if_neg hmissing]
      exact Nat.le_sub_iff_add_le room
  | refused none noRoom grown checked =>
      have hmissing : ¬ ∃ view ∈ views, view.blockSize = size := by
        rintro ⟨neighbour, hneighbour, heq⟩
        exact none neighbour hneighbour heq
      rw [if_neg hmissing]
      refine iff_of_false (by simp) (Nat.not_le.mpr (lt_of_lt_of_le noRoom ?_))
      exact Nat.le_add_left _ _

theorem allocated_eq
    (hcreates : Creates target owner views state count size .ok larger others after)
    (hpools : PoolsAt target owner views state) (hsize : 0 < size) :
    after.tbxHeapAllocated = state.tbxHeapAllocated +
      creationBytes target state (views.map PoolView.node) count size := by
  have hbytes := (hcreates.bytes hpools hsize).2 rfl
  simp only [poolExists_iff hpools hsize] at hbytes
  rw [creationBytes_eq hpools, hbytes]
  omega

/-! ## The pools afterwards -/

/-- The views of other sizes are the same as before. -/
theorem mem_others (hcreates : Creates target owner views state count size status larger others after)
    (hview : view ∈ views) (hother : view.blockSize ≠ size) : view ∈ others := by
  cases hcreates with
  | extended split sameSize extension =>
      subst split
      rcases List.mem_append.mp hview with hfront | hback
      · exact List.mem_append_left _ hfront
      · rcases List.mem_cons.mp hback with rfl | htail
        · exact absurd sameSize hother
        · exact List.mem_append_right _ (List.mem_cons_of_mem _ htail)
  | created split below above room sameSize noFree noOut extension =>
      subst split
      exact mem_of_mem_others hview
  | refused none noRoom grown checked => exact hview

end Creates

variable (views others size count) in
/-- A creation that succeeds, told of the views: the pool of the size holds
new free blocks, in front of the ones it had. -/
inductive Extends : Prop
  | existing {front back : List PoolView} {view other : PoolView} {added : List (Nat × Nat)}
      (before : views = front ++ view :: back) (later : others = front ++ other :: back)
      (sameSize : view.blockSize = size) (same : view.Same other) (out : other.out = view.out)
      (free : other.free = added ++ view.free) (made : added.length = count)
  | missing {front back : List PoolView} {other : PoolView} {added : List (Nat × Nat)}
      (before : views = front ++ back) (later : others = front ++ other :: back)
      (none : ∀ view ∈ views, view.blockSize ≠ size) (sameSize : other.blockSize = size)
      (out : other.out = []) (free : other.free = added) (made : added.length = count)

theorem Creates.extends
    (hcreates : Creates target owner views state count size .ok larger others after) :
    Extends views others size count := by
  generalize hstatus : Status.ok = status at hcreates
  cases hcreates with
  | @extended front back view other larger after split sameSize extension =>
      obtain ⟨added, hlength, hfree⟩ := extension.extended.free
      exact .existing split rfl sameSize extension.extended.same extension.extended.out hfree
        (hlength.trans (status_ok_iff.mp hstatus.symm))
  | @created front back view other larger after split below above room sameSize noFree noOut
      extension =>
      obtain ⟨added, hlength, hfree⟩ := extension.extended.free
      rw [noFree, List.append_nil] at hfree
      refine .missing split rfl (fun neighbour hneighbour => ?_)
        (extension.extended.same.blockSize.trans sameSize) (extension.extended.out.trans noOut) hfree
        (hlength.trans (status_ok_iff.mp hstatus.symm))
      rcases List.mem_append.mp (split ▸ hneighbour) with hfront | hback
      · exact (below neighbour hfront).ne
      · exact (above neighbour hback).ne'
  | refused none noRoom grown checked => cases hstatus

/-- The blocks that joined a pool are those of the nodes added. -/
theorem PoolsAt.joined_blocks (hpools : PoolsAt target owner views state) (hview : view ∈ views)
    {added earlier : List (Nat × Nat)} (hfree : view.free = added ++ earlier) :
    (added.map Prod.fst).map (fun node => state.mem (target.field node BlockNode.blockPtr)) =
      added.map Prod.snd := by
  rw [List.map_map]
  apply List.map_congr_left
  intro entry hentry
  exact (hpools.list.stored view hview).blockPtr entry (hfree ▸ List.mem_append_left _ hentry)

theorem PoolsAt.blocksAdded_nodup (hpools : PoolsAt target owner views state) (hview : view ∈ views) :
    (blocksAdded view.blockSize state.log).Nodup :=
  (hpools.log.added view hview).nodup_iff.mpr view.blocks_nodup

theorem Extends.joined (hextends : Extends views others size count)
    (hpools : PoolsAt target owner views state) (hafter : PoolsAt target larger others after) :
    ∃ poolNode added earlier,
      (∀ node, node ∈ others.map PoolView.node ↔
        node = poolNode ∨ node ∈ views.map PoolView.node) ∧
      Joined target state (views.map PoolView.node) size count after poolNode added earlier := by
  cases hextends with
  | @existing front back view other added before later sameSize same out free made =>
      subst before later sameSize
      have hstored := hafter.list.stored other mem_middle
      have hadded := hafter.log.added other mem_middle
      rw [same.blockSize] at hadded
      refine ⟨other.node, added.map Prod.fst, view.free.map Prod.fst, fun node => ?_, ?_⟩
      · simp only [List.map_append, List.map_cons, List.mem_append, List.mem_cons, same.node]
        tauto
      refine ⟨?_, by rw [List.length_map, made], ?_, ?_, fun hnone => ?_, ?_, ?_⟩
      · rw [hafter.sizeOf mem_middle, same.blockSize]
      · rw [hafter.freeListOf mem_middle, ← List.map_append, ← free]
        exact hstored.freeChain
      · intro old hold hsize
        obtain ⟨neighbour, hneighbour, rfl⟩ := List.mem_map.mp hold
        rw [hpools.sizeOf hneighbour] at hsize
        obtain rfl := hpools.list.ascending.ext hneighbour mem_middle hsize
        refine ⟨same.node.symm, ?_⟩
        rw [hpools.freeListOf hneighbour]
        exact (hpools.list.stored neighbour hneighbour).freeChain
      · exact absurd (hpools.sizeOf mem_middle) (hnone view.node (List.mem_map_of_mem mem_middle))
      · rw [hafter.joined_blocks mem_middle free]
        refine hadded.trans ?_
        rw [PoolView.blocks, free, out, List.map_append, List.append_assoc]
        exact List.Perm.append_left _ (hpools.log.added view mem_middle).symm
      · rw [← same.blockSize]
        exact hafter.blocksAdded_nodup mem_middle
  | @missing front back other added before later none sameSize out free made =>
      subst before later sameSize
      have hstored := hafter.list.stored other mem_middle
      have hadded := hafter.log.added other mem_middle
      have hnone := hpools.log.addedElsewhere other.blockSize none
      have hfree : other.free = added ++ [] := by rw [free, List.append_nil]
      refine ⟨other.node, added.map Prod.fst, [], fun node => ?_, ?_⟩
      · simp only [List.map_append, List.map_cons, List.mem_append, List.mem_cons]
        tauto
      refine ⟨hafter.sizeOf mem_middle, by rw [List.length_map, made], ?_, ?_, fun _ => rfl, ?_, ?_⟩
      · rw [hafter.freeListOf mem_middle, List.append_nil, ← free]
        exact hstored.freeChain
      · intro old hold hsize
        obtain ⟨neighbour, hneighbour, rfl⟩ := List.mem_map.mp hold
        rw [hpools.sizeOf hneighbour] at hsize
        exact absurd hsize (none neighbour hneighbour)
      · rw [hafter.joined_blocks mem_middle hfree, hnone, List.append_nil]
        rwa [PoolView.blocks, out, List.append_nil, free] at hadded
      · exact hafter.blocksAdded_nodup mem_middle

/-- The blocks of the pool that are handed out are the same as before. -/
theorem Extends.allocated (hextends : Extends views others size count)
    (hpools : PoolsAt target owner views state) (hafter : PoolsAt target larger others after) :
    (allocatedBlocks target after size).Perm (allocatedBlocks target state size) := by
  cases hextends with
  | existing before later sameSize same out free made =>
      subst before later sameSize
      have hlater := hafter.allocatedBlocks_perm
      rw [same.blockSize, out] at hlater
      exact hlater.trans hpools.allocatedBlocks_perm.symm
  | missing before later none sameSize out free made =>
      subst before later sameSize
      have hlater := hafter.allocatedBlocks_perm
      rw [out] at hlater
      rw [hlater.eq_nil, allocatedBlocks, hpools.log.addedElsewhere _ none]
      simp

/-! ## The allocations that follow -/

/-- As many allocations succeed as there are free blocks in the pool of the
size. -/
theorem PoolsAt.allocatesTimes (hpools : PoolsAt target owner views state) (hview : view ∈ views)
    (hcount : count ≤ view.free.length) : AllocatesTimes target view.blockSize count state := by
  induction count generalizing views view state with
  | zero => trivial
  | succ count ih =>
      have hstocked : view.Stocked := by
        intro hempty
        rw [hempty] at hcount
        exact absurd hcount (Nat.not_succ_le_zero count)
      have hserves := serves_of_stocked hpools.list.ascending hview rfl hstocked
      obtain ⟨data, after, hrun, hcases⟩ := (hpools.allocate view.size_pos).run 0
      rcases hcases with ⟨-, others, htakes⟩ | ⟨hrefused, -, -⟩
      · refine ⟨data, after, hrun, htakes.ne_null hpools, ?_⟩
        have hafter := (htakes.pools hpools).1
        obtain @⟨front, back, taken, node, block, rest, rfl, fit, free⟩ := htakes
        obtain ⟨before, behind, hsplit⟩ := List.append_of_mem hview
        have hexact := (hsplit ▸ hpools.list.ascending).bestFit_exact
        rw [← hsplit, fit] at hexact
        obtain rfl := Option.some.inj hexact
        have hless : count ≤ (taken.take free).free.length := by
          rw [free, List.length_cons] at hcount
          rw [PoolView.take_free]
          omega
        have hnext := @ih _ (taken.take free) _ hafter mem_middle hless
        rwa [PoolView.take_blockSize] at hnext
      · exact absurd hserves hrefused

theorem Extends.allocatesTimes (hextends : Extends views others size count)
    (hafter : PoolsAt target larger others after) : AllocatesTimes target size count after := by
  cases hextends with
  | @existing front back view other added before later sameSize same out free made =>
      subst before later sameSize
      have htimes := @PoolsAt.allocatesTimes target larger _ other after count hafter mem_middle
        (by rw [free, List.length_append, made]; exact Nat.le_add_right ..)
      rwa [same.blockSize] at htimes
  | @missing front back other added before later none sameSize out free made =>
      subst before later sameSize
      exact hafter.allocatesTimes mem_middle (by rw [free, made])

/-! ## The claim for every run -/

theorem Creates.createsBlocks
    (hcreates : Creates target owner views state count size .ok larger others after)
    (hpools : PoolsAt target owner views state) (hsize : 0 < size)
    (hgrows : state.log <:+ after.log) :
    CreatesBlocks target state (views.map PoolView.node) count size after := by
  obtain ⟨hafter, hkept, hout, -⟩ := hcreates.pools hpools
  have hextends := hcreates.extends
  obtain ⟨poolNode, added, earlier, hnodes, hjoined⟩ := hextends.joined hpools hafter
  refine ⟨hcreates.allocated_eq hpools hsize,
    ⟨others.map PoolView.node, poolNode, added, earlier, hafter.poolNodes, hnodes, hjoined⟩, hout,
    hextends.allocated hpools hafter, hpools.blocksUnchanged hafter hkept hgrows, ?_, ?_,
    hextends.allocatesTimes hafter⟩
  · intro other hother hne
    obtain ⟨view, hview, rfl⟩ := List.mem_map.mp hother
    rw [hpools.sizeOf hview] at hne
    exact hpools.unchanged hafter hkept hgrows hview (hcreates.mem_others hview hne)
  · intro other hne
    exact blocksAdded_eq hgrows (hcreates.length_blocksAdded hpools hne)

/-- A creation with its log, which only grows. -/
theorem PoolsAt.create_onward (hpools : PoolsAt target owner views state) (hcount : 0 < count)
    (hsize : 0 < size) (hsound : target.Sound size) :
    (tbxMemPoolCreate target count size).Returns state fun status after =>
      (∃ larger others, Creates target owner views state count size status larger others after) ∧
        Onward state after :=
  (hpools.create hcount hsize hsound).within (Onward.poolSteps.within_create count) Onward.refl
    Onward.trans

/-- In every state a run reaches a creation succeeds exactly when the free heap
holds all that it makes, and then it makes exactly this. -/
theorem create_ok_iff_heap_suffices (hrun : (poolInterface target).Run history state)
    (hfits : ∀ exchange ∈ history, exchange.request.Fits target) :
    ∃ poolNodes, PoolNodes target state poolNodes ∧ ∀ numBlocks blockSize, 0 < numBlocks →
      0 < blockSize → target.Fits (target.word + blockSize) → ∃ free status after,
        (tbxHeapGetFree target).run 0 state = .done free 0 state ∧
        (tbxMemPoolCreate target numBlocks blockSize).run 0 state = .done status 0 after ∧
        (status = .ok ↔ creationBytes target state poolNodes numBlocks blockSize ≤ free) ∧
        (status = .ok → CreatesBlocks target state poolNodes numBlocks blockSize after ∧
          (tbxHeapGetFree target).run 0 after =
            .done (free - creationBytes target state poolNodes numBlocks blockSize) 0 after) := by
  obtain ⟨owner, views, hpools⟩ := PoolsAt.of_run hrun fun exchange hexchange =>
    (hfits exchange hexchange).sound
  refine ⟨views.map PoolView.node, hpools.poolNodes, fun numBlocks blockSize hcount hsize hfit => ?_⟩
  obtain ⟨status, after, hcreate, ⟨larger, others, hcreates⟩, honward⟩ :=
    (hpools.create_onward hcount hsize (.inl hfit)).run 0
  obtain ⟨_, _, hfree, rfl, rfl⟩ := (tbxHeapGetFree_spec hpools.heap.allocated_le).run 0
  refine ⟨_, status, after, hfree, hcreate, hcreates.ok_iff hpools, ?_⟩
  rintro rfl
  have hblocks := hcreates.createsBlocks hpools hsize honward.grows
  refine ⟨hblocks, ?_⟩
  obtain ⟨_, _, hlater, rfl, rfl⟩ :=
    (tbxHeapGetFree_spec (hcreates.pools hpools).1.heap.allocated_le).run 0
  rw [hlater, hblocks.heap, Nat.sub_add_eq]

/-- There is a pool with a block in use, one of 512 bytes a block could not be made,
and 488 bytes of the heap are free. -/
def scarceCalls : List PoolCall := [.create 2 512, .heapAllocate 800, .allocate 8, .create 3 8]

theorem create_ok_iff_heap_suffices_scarce : ∃ history state,
    (poolInterface linux64).Run history state ∧ history.map Exchange.request = scarceCalls ∧
      history.map Exchange.result =
        [.status .error, .pointer 4248, .pointer 4240, .status .ok] ∧
      state.tbxHeapAllocated = 1560 ∧
      ∃ poolNodes, PoolNodes linux64 state poolNodes ∧ ∀ numBlocks blockSize, 0 < numBlocks →
        0 < blockSize → linux64.Fits (linux64.word + blockSize) → ∃ free status after,
          (tbxHeapGetFree linux64).run 0 state = .done free 0 state ∧
          (tbxMemPoolCreate linux64 numBlocks blockSize).run 0 state = .done status 0 after ∧
          (status = .ok ↔ creationBytes linux64 state poolNodes numBlocks blockSize ≤ free) ∧
          (status = .ok → CreatesBlocks linux64 state poolNodes numBlocks blockSize after ∧
            (tbxHeapGetFree linux64).run 0 after =
              .done (free - creationBytes linux64 state poolNodes numBlocks blockSize) 0 after) := by
  have hfacts : ((poolInterface linux64).execute scarceCalls).map (fun outcome =>
      (outcome.1.map Exchange.result, outcome.2.tbxHeapAllocated)) =
      some ([.status .error, .pointer 4248, .pointer 4240, .status .ok], 1560) := by
    decide +kernel
  obtain ⟨history, state, hrun, hrequests, hpair⟩ := Interface.execute_map hfacts
  obtain ⟨hresults, hallocated⟩ := Prod.mk.inj hpair
  have hfits : ∀ request ∈ history.map Exchange.request, request.Fits linux64 := by
    rw [hrequests]
    decide
  exact ⟨history, state, hrun, hrequests, hresults, hallocated,
    create_ok_iff_heap_suffices hrun (List.forall_mem_map.mp hfits)⟩

end MicroTbx

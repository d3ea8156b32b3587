import MicroTbx.MemPool.Snapshot

/-! # Allocation is exact best fit

The search stops at the first pool that is large enough. The pool list is
sorted after every run, so this pool is the smallest one, and it alone decides
the request: its first free block is handed out, or nothing happens.
-/

namespace MicroTbx

open Program

section Statement

variable (target : Target)

/-- The pool with the smallest blocks that are large enough. -/
structure IsBestFit (state : State) (poolNodes : List Nat) (size poolNode : Nat) : Prop where
  listed : poolNode ∈ poolNodes
  enough : size ≤ state.sizeOf target poolNode
  least : ∀ other ∈ poolNodes, size ≤ state.sizeOf target other →
    state.sizeOf target poolNode ≤ state.sizeOf target other

/-- The block of the first node in the free list of a pool is handed out. -/
structure TakenFrom (state : State) (poolNode data : Nat) (after : State) : Prop where
  /-- Its node moves to the other list of the pool, and no other word changes. -/
  first : ∃ node rest,
    BlockChain target state.mem (state.freeListOf target poolNode) (node :: rest) ∧
    BlockChain target after.mem (state.freeListOf target poolNode) rest ∧
    data = target.field (state.mem (target.field node BlockNode.blockPtr)) 1 ∧
    ∀ address, address ≠ target.field (state.freeListOf target poolNode) 0 →
      address ≠ target.field (state.usedListOf target poolNode) 0 →
      address ≠ target.field node BlockNode.nextNodePtr → after.mem address = state.mem address
  header : after.mem (data - target.word) = state.sizeOf target poolNode
  member : data - target.word ∈ blocksAdded (state.sizeOf target poolNode) state.log
  fresh : data ∉ handedOut state.log
  out : handedOut after.log = data :: handedOut state.log
  added : ∀ size, blocksAdded size after.log = blocksAdded size state.log
  contents : ∀ size, BlocksUnchanged target state after size
  heap : after.tbxHeapAllocated = state.tbxHeapAllocated
  list : after.tbxPoolList = state.tbxPoolList

/-- What an allocation returns and does. -/
structure AllocatesBestFit (state : State) (poolNodes : List Nat) (size data : Nat)
    (after : State) : Prop where
  returned : data ≠ null ↔
    ∃ poolNode, IsBestFit target state poolNodes size poolNode ∧ HasFreeBlock target state poolNode
  refused : data = null → after = state
  taken : data ≠ null → ∀ poolNode, IsBestFit target state poolNodes size poolNode →
    TakenFrom target state poolNode data after ∧
      ∀ other ∈ poolNodes, other ≠ poolNode → PoolUnchanged target state after other

end Statement

variable {target : Target} {owner : Ownership} {views others : List PoolView} {view : PoolView}
  {state after : State} {history : List PoolExchange} {size data poolNode : Nat}

namespace PoolsAt

theorem isBestFit_iff (hpools : PoolsAt target owner views state) :
    IsBestFit target state (views.map PoolView.node) size poolNode ↔
      ∃ view, BestFit.bestFit PoolView.blockSize views size = some view ∧ view.node = poolNode := by
  constructor
  · rintro ⟨hlisted, henough, hleast⟩
    obtain ⟨view, hview, rfl⟩ := List.mem_map.mp hlisted
    rw [hpools.sizeOf hview] at henough hleast
    refine ⟨view, hpools.list.ascending.bestFit_eq_some_iff.mpr ⟨hview, henough, ?_⟩, rfl⟩
    intro other hother hlarge
    have hle := hleast other.node (List.mem_map_of_mem hother)
    rw [hpools.sizeOf hother] at hle
    exact hle hlarge
  · rintro ⟨view, hfit, rfl⟩
    obtain ⟨hview, henough, hleast⟩ := hpools.list.ascending.bestFit_eq_some_iff.mp hfit
    refine ⟨List.mem_map_of_mem hview, ?_, fun node hnode hlarge => ?_⟩
    · rwa [hpools.sizeOf hview]
    · obtain ⟨other, hother, rfl⟩ := List.mem_map.mp hnode
      rw [hpools.sizeOf hother] at hlarge ⊢
      rw [hpools.sizeOf hview]
      exact hleast other hother hlarge

/-- A request is served when its best fit has a free block. -/
theorem serves_iff_hasFreeBlock (hpools : PoolsAt target owner views state) :
    BestFit.Serves PoolView.blockSize PoolView.Stocked views size ↔
      ∃ poolNode, IsBestFit target state (views.map PoolView.node) size poolNode ∧
        HasFreeBlock target state poolNode := by
  constructor
  · rintro ⟨view, hfit, hstocked⟩
    have hview := (BestFit.bestFit_mem hfit).1
    exact ⟨view.node, hpools.isBestFit_iff.mpr ⟨view, hfit, rfl⟩,
      (hpools.hasFreeBlock_iff hview).mpr hstocked⟩
  · rintro ⟨poolNode, hbest, hfree⟩
    obtain ⟨view, hfit, rfl⟩ := hpools.isBestFit_iff.mp hbest
    exact ⟨view, hfit, (hpools.hasFreeBlock_iff (BestFit.bestFit_mem hfit).1).mp hfree⟩

end PoolsAt

namespace Takes

theorem onward (htakes : Takes target views state size data others after) :
    state.log <:+ after.log := by
  obtain ⟨split, fit, free⟩ := htakes
  exact List.suffix_cons _ _

/-- What a request takes, it takes from its best fit. -/
theorem takenFrom (htakes : Takes target views state size data others after)
    (hpools : PoolsAt target owner views state)
    (hbest : IsBestFit target state (views.map PoolView.node) size poolNode) :
    TakenFrom target state poolNode data after := by
  obtain ⟨hafter, hkept, hout, -⟩ := htakes.pools hpools
  have hgrows := htakes.onward
  obtain ⟨found, hfound, rfl⟩ := hpools.isBestFit_iff.mp hbest
  obtain @⟨front, back, taken, node, block, rest, rfl, fit, free⟩ := htakes
  obtain rfl : taken = found := Option.some.inj (fit.symm.trans hfound)
  have hstored := hpools.list.stored taken mem_middle
  have hlater := hafter.list.stored (taken.take free) mem_middle
  have hentry : (node, block) ∈ taken.free := free ▸ List.mem_cons_self
  have hblock : block ∈ taken.blocks := List.mem_append_left _ (List.mem_map_of_mem hentry)
  have hsub : target.field block 1 - target.word = block := by simp [Target.field]
  have hfreeChain := hstored.freeChain
  rw [free, List.map_cons] at hfreeChain
  have hheader := hlater.header block ((taken.take_blocks free).mem_iff.mpr hblock)
  rw [Target.field_zero] at hheader
  refine ⟨⟨node, rest.map Prod.fst, ?_, ?_, ?_, fun address hfree hused hlink => ?_⟩, ?_, ?_, ?_,
    hout, fun _ => rfl, hpools.blocksUnchanged hafter hkept hgrows, rfl, rfl⟩
  · rw [hpools.freeListOf mem_middle]
    exact hfreeChain
  · rw [hpools.freeListOf mem_middle]
    exact hlater.freeChain
  · rw [hstored.blockPtr (node, block) hentry]
  · rw [hpools.freeListOf mem_middle] at hfree
    rw [hpools.usedListOf mem_middle] at hused
    rw [State.takeBlock, State.emit_mem, State.push_mem_of_ne hlink hused,
      State.pop_mem_of_ne hfree]
  · rw [hsub, hpools.sizeOf mem_middle]
    exact hheader
  · rw [hsub, hpools.sizeOf mem_middle]
    exact (hpools.log.added taken mem_middle).mem_iff.mpr hblock
  · have hnodup := hafter.handedOut_nodup
    rw [hout] at hnodup
    exact (List.nodup_cons.mp hnodup).1

/-- No other pool changes. -/
theorem unchanged (htakes : Takes target views state size data others after)
    (hpools : PoolsAt target owner views state)
    (hbest : IsBestFit target state (views.map PoolView.node) size poolNode) :
    ∀ other ∈ views.map PoolView.node, other ≠ poolNode → PoolUnchanged target state after other := by
  obtain ⟨hafter, hkept, -, -⟩ := htakes.pools hpools
  have hgrows := htakes.onward
  obtain ⟨found, hfound, rfl⟩ := hpools.isBestFit_iff.mp hbest
  obtain @⟨front, back, taken, node, block, rest, rfl, fit, free⟩ := htakes
  obtain rfl : taken = found := Option.some.inj (fit.symm.trans hfound)
  intro other hother hne
  obtain ⟨view, hview, rfl⟩ := List.mem_map.mp hother
  have hmem : view ∈ front ++ taken.take free :: back := by
    rcases List.mem_append.mp hview with hfront | hback
    · exact List.mem_append_left _ hfront
    · rcases List.mem_cons.mp hback with rfl | htail
      · exact absurd rfl hne
      · exact List.mem_append_right _ (List.mem_cons_of_mem _ htail)
  exact hpools.unchanged hafter hkept hgrows hview hmem

end Takes

theorem PoolsAt.allocatesBestFit (hpools : PoolsAt target owner views state) (hsize : 0 < size) :
    (tbxMemPoolAllocate target size).Returns state
      (AllocatesBestFit target state (views.map PoolView.node) size) := by
  apply (hpools.allocate hsize).mono
  rintro data after (⟨hserves, others, htakes⟩ | ⟨hrefused, rfl, rfl⟩)
  · have hne := htakes.ne_null hpools
    refine ⟨iff_of_true hne (hpools.serves_iff_hasFreeBlock.mp hserves), fun hnull =>
      absurd hnull hne, fun _ poolNode hbest => ?_⟩
    exact ⟨htakes.takenFrom hpools hbest, htakes.unchanged hpools hbest⟩
  · rw [hpools.serves_iff_hasFreeBlock] at hrefused
    exact ⟨iff_of_false (not_not.mpr rfl) hrefused, fun _ => rfl, fun hne => absurd rfl hne⟩

/-- In every state a run reaches the pool list is strictly ascending in block
size, and an allocation is answered by the best fit or by no pool. -/
theorem allocate_exact_best_fit (hrun : (poolInterface target).Run history state)
    (hfits : ∀ exchange ∈ history, exchange.request.Fits target) :
    ∃ poolNodes, PoolNodes target state poolNodes ∧ ∀ size, 0 < size → ∃ data after,
      (tbxMemPoolAllocate target size).run 0 state = .done data 0 after ∧
        AllocatesBestFit target state poolNodes size data after := by
  obtain ⟨owner, views, hpools⟩ := PoolsAt.of_run hrun fun exchange hexchange =>
    (hfits exchange hexchange).sound
  refine ⟨views.map PoolView.node, hpools.poolNodes, fun size hsize => ?_⟩
  exact (hpools.allocatesBestFit hsize).run 0

/-- Pools made out of order: the middle one is used up, and a creation fails. -/
def unsortedCalls : List PoolCall :=
  [.create 40 512, .allocate 20, .create 2 8, .create 1 64, .create 1 24]

theorem allocate_exact_best_fit_unsorted : ∃ history state,
    (poolInterface linux64).Run history state ∧ history.map Exchange.request = unsortedCalls ∧
      history.map Exchange.result =
        [.status .error, .pointer 4176, .status .ok, .status .ok, .status .ok] ∧
      ∃ poolNodes, PoolNodes linux64 state poolNodes ∧ ∀ size, 0 < size → ∃ data after,
        (tbxMemPoolAllocate linux64 size).run 0 state = .done data 0 after ∧
          AllocatesBestFit linux64 state poolNodes size data after := by
  have hfacts : ((poolInterface linux64).execute unsortedCalls).map (fun outcome =>
      outcome.1.map Exchange.result) =
      some [.status .error, .pointer 4176, .status .ok, .status .ok, .status .ok] := by
    decide +kernel
  obtain ⟨history, state, hrun, hrequests, hresults⟩ := Interface.execute_map hfacts
  have hfits : ∀ request ∈ history.map Exchange.request, request.Fits linux64 := by
    rw [hrequests]
    decide
  exact ⟨history, state, hrun, hrequests, hresults,
    allocate_exact_best_fit hrun (List.forall_mem_map.mp hfits)⟩

end MicroTbx

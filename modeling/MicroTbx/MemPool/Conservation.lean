import MicroTbx.MemPool.Runs

/-! # Conservation of blocks

What memory and log say about a pool agrees in every reachable state: the
blocks in its free list and its blocks that are handed out are the blocks ever
added to it, each once. The used list only counts; which blocks its nodes
still point at does not matter.
-/

namespace MicroTbx

open Program

variable (target : Target)

/-- The pool object of a pool node. -/
def State.poolOf (state : State) (poolNode : Nat) : Nat :=
  state.mem (target.field poolNode PoolNode.poolPtr)

/-- The block size of the pool of a node. -/
def State.sizeOf (state : State) (poolNode : Nat) : Nat :=
  state.mem (target.field (state.poolOf target poolNode) Pool.blockSize)

/-- The blocks of a pool that are handed out and not yet released. -/
def allocatedBlocks (state : State) (size : Nat) : List Nat :=
  ((handedOut state.log).map (· - target.word)).filter
    fun block => decide (block ∈ blocksAdded size state.log)

/-- Nothing of a pool is lost or duplicated: its free list holds the nodes
`free`, its used list the nodes `used`. -/
structure PoolConserved (state : State) (poolNode : Nat) (free used : List Nat) : Prop where
  freeList : BlockChain target state.mem
    (state.mem (target.field (state.poolOf target poolNode) Pool.freeBlockListPtr)) free
  usedList : BlockChain target state.mem
    (state.mem (target.field (state.poolOf target poolNode) Pool.usedBlockListPtr)) used
  blocks : (free.map (fun node => state.mem (target.field node BlockNode.blockPtr)) ++
    allocatedBlocks target state (state.sizeOf target poolNode)).Perm
      (blocksAdded (state.sizeOf target poolNode) state.log)
  once : (blocksAdded (state.sizeOf target poolNode) state.log).Nodup
  counted : used.length = (allocatedBlocks target state (state.sizeOf target poolNode)).length

/-- The argument checks of the interface functions. -/
def argumentChecks : List (Site × AssertKind) :=
  [(.tbxMemPoolCreate, .parameter), (.tbxMemPoolAllocate, .parameter),
    (.tbxMemPoolAllocateAuto, .parameter), (.tbxHeapAllocate, .parameter)]

def PoolCall.IsAllocation : PoolCall → Prop
  | .allocate _ | .allocateAuto _ => True
  | _ => False

/-- The block size of a call can be represented together with its header. -/
def PoolCall.Fits (call : PoolCall) : Prop :=
  call.BlockSize fun size => target.Fits (target.word + size)

/-- What the module promises of the calls of a run that ends in a state. -/
structure CallsConserved (history : List PoolExchange) (state : State) : Prop where
  /-- A block that an allocation returns was not handed out at the time. -/
  exclusive : ∀ exchange ∈ history, exchange.request.IsAllocation → ∀ data,
    exchange.result = .pointer data → data ≠ null → data ∉ handedOut exchange.before.log ∧
      handedOut exchange.after.log = data :: handedOut exchange.before.log
  /-- A block that was released is what the pool it belongs to hands out next. -/
  reusable : ∀ exchange ∈ history, ∀ data, exchange.request = .release data →
    ∃ size, data - target.word ∈ blocksAdded size exchange.before.log ∧
      handedOut exchange.after.log = (handedOut exchange.before.log).erase data ∧
      ∃ next, (tbxMemPoolAllocate target size).run 0 exchange.after = .done data 0 next
  checks : ∀ failed ∈ asserted state.log, failed ∈ argumentChecks

/-- What the module promises of the state a run ends in. -/
structure RunConserved (history : List PoolExchange) (state : State) : Prop
    extends CallsConserved target history state where
  pools : ∃ poolNodes, Chain.Linked (nextNode target state.mem) null state.tbxPoolList poolNodes ∧
    ∀ poolNode ∈ poolNodes, ∃ free used, PoolConserved target state poolNode free used
  handedOutOnce : (handedOut state.log).Nodup
  answers : ∀ call : PoolCall, call.Allowed target state → call.Fits target →
    ∃ reply next, (call.perform target).run 0 state = .done reply 0 next

variable {target} {owner larger : Ownership} {views others front back : List PoolView}
  {view other : PoolView} {state after : State} {call : PoolCall} {reply : PoolReply}
  {history : List PoolExchange}

/-! ## Reading a pool off memory -/

/-- Blocks of different pools are different blocks. -/
theorem PoolHeap.blocks_disjoint {allocated : Nat}
    (hheap : PoolHeap target owner allocated views) (hview : view ∈ views) (hother : other ∈ views)
    (hsize : view.blockSize ≠ other.blockSize) {block : Nat} (hblock : block ∈ view.blocks) :
    block ∉ other.blocks := by
  intro hmem
  have howner := (hheap.placed view hview).header block hblock
  rw [(hheap.placed other hother).header block hmem] at howner
  simp only [Option.some.injEq, Prod.mk.injEq] at howner
  exact hsize howner.1.symm

theorem outData_sub (views : List PoolView) :
    (outData target views).map (· - target.word) = views.flatMap PoolView.out := by
  induction views with
  | nil => rfl
  | cons view tail ih =>
      have hdata : ((· - target.word) ∘ fun block => target.field block 1) = id := by
        funext block
        simp [Target.field]
      rw [outData_cons, List.map_append, ih, List.map_map, hdata, List.map_id, List.flatMap_cons]

/-- The handed out blocks of a pool are those of its view. -/
theorem PoolsAt.allocatedBlocks_perm
    (hpools : PoolsAt target owner (front ++ view :: back) state) :
    (allocatedBlocks target state view.blockSize).Perm view.out := by
  have hperm := (hpools.log.out.map (· - target.word)).filter
    fun block => decide (block ∈ blocksAdded view.blockSize state.log)
  have hadded : ∀ block, block ∈ blocksAdded view.blockSize state.log ↔ block ∈ view.blocks :=
    fun block => (hpools.log.added view mem_middle).mem_iff
  have hnone : ∀ list : List PoolView, (∀ other ∈ list, other ∈ front ++ back) →
      (list.flatMap PoolView.out).filter
        (fun block => decide (block ∈ blocksAdded view.blockSize state.log)) = [] := by
    intro list hlist
    rw [List.filter_eq_nil_iff]
    intro block hblock
    obtain ⟨other, hother, hout⟩ := List.mem_flatMap.mp hblock
    have hdisjoint := hpools.heap.blocks_disjoint (mem_of_mem_others (hlist other hother))
      mem_middle (hpools.list.size_ne (hlist other hother)) (List.mem_append_right _ hout)
    simpa [hadded] using hdisjoint
  have hall : view.out.filter
      (fun block => decide (block ∈ blocksAdded view.blockSize state.log)) = view.out := by
    rw [List.filter_eq_self]
    intro block hblock
    exact decide_eq_true ((hadded block).mpr (List.mem_append_right _ hblock))
  rw [outData_sub, List.flatMap_append, List.flatMap_cons, List.filter_append, List.filter_append,
    hnone front fun other hother => List.mem_append_left _ hother,
    hnone back fun other hother => List.mem_append_right _ hother, hall, List.nil_append,
    List.append_nil] at hperm
  exact hperm

theorem PoolsAt.conserved (hpools : PoolsAt target owner views state) (hview : view ∈ views) :
    PoolConserved target state view.node (view.free.map Prod.fst) view.used := by
  obtain ⟨front, back, rfl⟩ := List.append_of_mem hview
  have hstored := hpools.list.stored view hview
  have hallocated := hpools.allocatedBlocks_perm
  have hadded := hpools.log.added view hview
  have hpool : state.poolOf target view.node = view.pool := hstored.poolPtr
  have hsize : state.sizeOf target view.node = view.blockSize := by
    rw [State.sizeOf, hpool, hstored.blockSize]
  have hfree : (view.free.map Prod.fst).map
      (fun node => state.mem (target.field node BlockNode.blockPtr)) = view.free.map Prod.snd := by
    rw [List.map_map]
    exact List.map_congr_left fun entry hentry => hstored.blockPtr entry hentry
  refine ⟨?_, ?_, ?_, ?_, ?_⟩
  · rw [hpool, hstored.freeListPtr]
    exact hstored.freeChain
  · rw [hpool, hstored.usedListPtr]
    exact hstored.usedChain
  · rw [hsize, hfree]
    exact (hallocated.append_left _).trans hadded.symm
  · rw [hsize]
    exact hadded.nodup_iff.mpr view.blocks_nodup
  · rw [hsize, hallocated.length_eq, view.counted]

theorem PoolsAt.handedOut_nodup (hpools : PoolsAt target owner views state) :
    (handedOut state.log).Nodup := by
  refine hpools.log.out.nodup_iff.mpr ?_
  refine List.Nodup.of_map (· - target.word) ?_
  rw [outData_sub, List.nodup_flatMap]
  refine ⟨fun view _ => (List.nodup_append.mp view.blocks_nodup).2.1, ?_⟩
  refine hpools.list.ascending.imp_of_mem ?_
  intro lower upper hlower hupper hlt block hblock hother
  exact hpools.heap.blocks_disjoint hlower hupper hlt.ne (List.mem_append_right _ hblock)
    (List.mem_append_right _ hother)

theorem PoolsAt.ne_null_of_out (hpools : PoolsAt target owner views state) {data : Nat}
    (hdata : data ∈ handedOut state.log) : data ≠ null := by
  obtain ⟨view, hview, hout⟩ := List.mem_flatMap.mp (hpools.log.out.mem_iff.mp hdata)
  obtain ⟨block, hblock, rfl⟩ := List.mem_map.mp hout
  have hne := hpools.heap.block_ne_null hview (List.mem_append_right _ hblock)
  exact fun hnull => hne (Nat.eq_zero_of_add_eq_zero_right hnull)

/-! ## What a step adds to the promise -/

/-- Only argument checks fail. -/
theorem PoolStep.checks (hstep : PoolStep target owner views state call reply larger others after)
    (hpools : PoolsAt target owner views state) :
    ∀ failed ∈ asserted after.log, failed ∈ asserted state.log ∨ failed ∈ argumentChecks := by
  have hrejected : ∀ {site : Site}, (site, .parameter) ∈ argumentChecks →
      ∀ failed ∈ asserted (state.rejected site).log,
        failed ∈ asserted state.log ∨ failed ∈ argumentChecks := by
    intro site hsite failed hfailed
    rcases List.mem_cons.mp hfailed with rfl | hearlier
    · exact .inr hsite
    · exact .inl hearlier
  have hheap : ∀ {next : State}, HeapChecked state next →
      ∀ failed ∈ asserted next.log, failed ∈ asserted state.log ∨ failed ∈ argumentChecks := by
    intro next hchecked failed hfailed
    refine (hchecked failed hfailed).imp_right ?_
    rintro rfl
    decide
  cases hstep with
  | createInvalid invalid rejected =>
      rcases rejected with rfl | rfl
      · exact hrejected (by decide)
      · intro failed hfailed
        rcases List.mem_cons.mp hfailed with rfl | hearlier
        · exact .inr (by decide)
        · exact hrejected (by decide) failed hearlier
  | create someBlocks size creates => exact hheap (creates.pools hpools).2.2.2
  | allocateInvalid => exact hrejected (by decide)
  | allocateRefused positive refused => exact fun _ => .inl
  | allocate positive takes =>
      rw [(takes.pools hpools).2.2.2]
      exact fun _ => .inl
  | autoInvalid => exact hrejected (by decide)
  | auto positive allocates =>
      cases allocates with
      | direct exact takes =>
          rw [(takes.pools hpools).2.2.2]
          exact fun _ => .inl
      | created creates takes =>
          obtain ⟨hmiddle, -, -, hchecked⟩ := creates.pools hpools
          rw [(takes.pools hmiddle).2.2.2]
          exact hheap hchecked
      | failed creates => exact hheap (creates.pools hpools).2.2.2
  | release split used out => exact fun _ => .inl
  | heapAllocate grown room checks => exact hheap checks
  | write data => exact fun _ => .inl

/-- An allocation that returns a block adds it to the blocks handed out. -/
theorem PoolStep.handsOut (hstep : PoolStep target owner views state call reply larger others after)
    (hpools : PoolsAt target owner views state) (hcall : call.IsAllocation) {data : Nat}
    (hreply : reply = .pointer data) (hdata : data ≠ null) :
    handedOut after.log = data :: handedOut state.log := by
  cases hstep with
  | allocateInvalid => cases hreply; exact absurd rfl hdata
  | allocateRefused positive refused => cases hreply; exact absurd rfl hdata
  | allocate positive takes =>
      cases hreply
      exact (takes.pools hpools).2.2.1
  | autoInvalid => cases hreply; exact absurd rfl hdata
  | auto positive allocates =>
      cases hreply
      cases allocates with
      | direct exact takes => exact (takes.pools hpools).2.2.1
      | created creates takes =>
          obtain ⟨hmiddle, -, hout, -⟩ := creates.pools hpools
          rw [(takes.pools hmiddle).2.2.1, hout]
      | failed creates => exact absurd rfl hdata
  | _ => exact absurd hcall id

/-- A released block is the next one its pool hands out. -/
theorem PoolStep.reuses (hstep : PoolStep target owner views state call reply larger others after)
    (hpools : PoolsAt target owner views state) {data : Nat} (hcall : call = .release data) :
    ∃ size, data - target.word ∈ blocksAdded size state.log ∧
      handedOut after.log = (handedOut state.log).erase data ∧
      ∃ next, (tbxMemPoolAllocate target size).run 0 after = .done data 0 next := by
  cases hstep with
  | @release front back view node block spare split used out =>
      cases hcall
      subst split
      have hback : target.field block 1 - target.word = block := by
        simp only [Target.field]
        omega
      have hafter := hpools.giveBack used out
      have hfit := hafter.list.ascending.bestFit_exact
      obtain ⟨data, next, hrun, rfl, -⟩ := (hafter.allocate_served
        (view.giveBack used out).size_pos hfit (view.giveBack_free used out)).run 0
      refine ⟨view.blockSize, ?_, rfl, next, hrun⟩
      rw [hback]
      exact (hpools.log.added view mem_middle).mem_iff.mpr (List.mem_append_right _ out)
  | _ => cases hcall

theorem PoolCall.Fits.sound (hfits : call.Fits target) : call.BlockSize target.Sound :=
  hfits.mono fun _ => .inl

theorem CallsConserved.step (hcalls : CallsConserved target history state)
    (hpools : PoolsAt target owner views state)
    (hstep : PoolStep target owner views state call reply larger others after) :
    CallsConserved target (⟨call, reply, state, after⟩ :: history) after where
  exclusive := by
    rw [List.forall_mem_cons]
    refine ⟨fun hallocation data hreply hne => ?_, hcalls.exclusive⟩
    have hout := hstep.handsOut hpools hallocation hreply hne
    have hnodup := (hstep.pools hpools).handedOut_nodup
    rw [hout] at hnodup
    exact ⟨(List.nodup_cons.mp hnodup).1, hout⟩
  reusable := by
    rw [List.forall_mem_cons]
    exact ⟨fun data hrelease => hstep.reuses hpools hrelease, hcalls.reusable⟩
  checks := fun failed hfailed => (hstep.checks hpools failed hfailed).elim
    (hcalls.checks failed) id

/-- Whatever the order of creations, allocations and releases, no block is
lost, duplicated or handed out twice, and no internal check fails. -/
theorem pool_conservation (hrun : (poolInterface target).Run history state)
    (hfits : ∀ exchange ∈ history, exchange.request.Fits target) :
    RunConserved target history state := by
  obtain ⟨owner, views, hpools, hcalls⟩ := PoolStep.invariant
    (motive := fun history _ _ state => CallsConserved target history state)
    (fun _ => PoolCall.Fits.sound) ⟨by simp, by simp, by simp [State.initial]⟩
    (fun hpools hcalls _ hstep => hcalls.step hpools hstep) hrun hfits
  refine ⟨hcalls, ⟨views.map PoolView.node, hpools.list.chain, ?_⟩, hpools.handedOut_nodup, ?_⟩
  · intro poolNode hmem
    obtain ⟨view, hview, rfl⟩ := List.mem_map.mp hmem
    exact ⟨_, _, hpools.conserved hview⟩
  · exact fun call hallowed hcall =>
      hpools.answers hallowed hcall.sound

instance (call : PoolCall) : Decidable (call.Fits target) :=
  inferInstanceAs (Decidable (call.BlockSize fun size => target.Fits (target.word + size)))

/-- A pool of two blocks, of which the first is allocated, released and
allocated again. -/
def reuseCalls : List PoolCall :=
  [.allocate 20, .release 4224, .allocate 24, .create 2 24]

theorem pool_conservation_reuse : ∃ history state, (poolInterface linux64).Run history state ∧
    history.map Exchange.request = reuseCalls ∧ RunConserved linux64 history state := by
  have hexecutes : ((poolInterface linux64).execute reuseCalls).isSome = true := by decide +kernel
  obtain ⟨history, state, hrun, hrequests⟩ := Interface.execute_isSome hexecutes
  have hfits : ∀ request ∈ history.map Exchange.request, request.Fits linux64 := by
    rw [hrequests]
    decide
  exact ⟨history, state, hrun, hrequests,
    pool_conservation hrun (List.forall_mem_map.mp hfits)⟩

end MicroTbx

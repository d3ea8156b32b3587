import MicroTbx.MemPool.BlockLists

/-! # The invariant of the memory pool module

The pool list holds the pools by ascending block size, each stored as its view
says; every word of a pool lies in the allocated part of the heap; the blocks
of the views are the blocks the log has added, and those out of the views are
the blocks the log has handed out. Taking a block and giving it back keep all
of this, whichever spare node is used.
-/

namespace MicroTbx

open Program

variable (target : Target)

/-- The pool list as memory holds it. -/
structure PoolList (mem : Nat → Nat) (head : Nat) (views : List PoolView) : Prop where
  chain : Chain.Linked (nextNode target mem) null head (views.map PoolView.node)
  ascending : BestFit.Ascending PoolView.blockSize views
  stored : ∀ view ∈ views, PoolStored target mem view

/-- The words of the pools lie in the allocated part of the heap buffer. -/
structure PoolHeap (owner : Ownership) (allocated : Nat) (views : List PoolView) : Prop where
  placed : ∀ view ∈ views, PoolPlaced target owner view
  inside : ∀ address part, owner address = some part → target.heapBase ≤ address ∧
    target.word ∣ address - target.heapBase ∧
    address + target.word ≤ target.heapBase + allocated
  aligned : target.word ∣ allocated
  allocated_le : allocated ≤ target.heapSize

/-- The data pointers of the blocks that are handed out. -/
def outData (views : List PoolView) : List Nat :=
  views.flatMap fun view => view.out.map fun block => target.field block 1

/-- The log agrees with the views. -/
structure PoolLog (log : List Event) (views : List PoolView) : Prop where
  out : (handedOut log).Perm (outData target views)
  added : ∀ view ∈ views, (blocksAdded view.blockSize log).Perm view.blocks
  addedElsewhere : ∀ size, (∀ view ∈ views, view.blockSize ≠ size) → blocksAdded size log = []
  reserved : ∀ view ∈ views, ∀ block ∈ view.blocks,
    .heapTaken block (target.roundUp (target.word + view.blockSize)) ∈ log

/-- The state holds the pools of the views, placed as the owners say. -/
structure PoolsAt (owner : Ownership) (views : List PoolView) (state : State) : Prop where
  list : PoolList target state.mem state.tbxPoolList views
  heap : PoolHeap target owner state.tbxHeapAllocated views
  log : PoolLog target state.log views

variable {target} {owner : Ownership} {views front back : List PoolView} {view changed : PoolView}
  {state : State} {mem after : Nat → Nat} {head allocated address node block : Nat}
  {rest : List (Nat × Nat)} {spare : List Nat}

theorem PoolHeap.ne_null (hheap : PoolHeap target owner allocated views) {pointer : Nat}
    {part : Nat × Part} (howner : owner (target.field pointer 0) = some part) :
    pointer ≠ null := by
  have hbase := target.heapBase_pos
  have hinside := (hheap.inside _ _ howner).1
  rw [Target.field_zero] at hinside
  simp only [null_eq]
  omega

theorem PoolHeap.node_ne_null (hheap : PoolHeap target owner allocated views)
    (hview : view ∈ views) : view.node ≠ null :=
  hheap.ne_null ((hheap.placed view hview).node 0 (by norm_num))

theorem PoolHeap.pool_ne_null (hheap : PoolHeap target owner allocated views)
    (hview : view ∈ views) : view.pool ≠ null :=
  hheap.ne_null ((hheap.placed view hview).pool 0 (by norm_num))

theorem PoolHeap.blockNode_ne_null (hheap : PoolHeap target owner allocated views)
    (hview : view ∈ views) (hnode : node ∈ view.nodes) : node ≠ null :=
  hheap.ne_null ((hheap.placed view hview).blockNode node hnode 0 (by norm_num))

theorem PoolHeap.block_ne_null (hheap : PoolHeap target owner allocated views)
    (hview : view ∈ views) (hblock : block ∈ view.blocks) : block ≠ null :=
  hheap.ne_null ((hheap.placed view hview).header block hblock)

/-! ## Frames -/

/-- The pool list does not depend on the data of blocks, nor on words of no
pool. -/
theorem PoolList.frame (hlist : PoolList target mem head views)
    (hplaced : ∀ view ∈ views, PoolPlaced target owner view)
    (hsame : ∀ address size part, owner address = some (size, part) → ¬ part.IsData →
      after address = mem address) : PoolList target after head views where
  chain := by
    refine hlist.chain.congr fun node hmem => ?_
    obtain ⟨view, hview, rfl⟩ := List.mem_map.mp hmem
    exact hsame _ _ _ ((hplaced view hview).node 1 (by norm_num)) id
  ascending := hlist.ascending
  stored := fun view hview => (hlist.stored view hview).frame (hplaced view hview)
    fun address part howner hown => hsame address _ part howner hown.not_data

theorem PoolList.size_ne (hlist : PoolList target mem head (front ++ view :: back))
    {other : PoolView} (hother : other ∈ front ++ back) : other.blockSize ≠ view.blockSize := by
  obtain ⟨-, hback, hcross⟩ := List.pairwise_append.mp hlist.ascending
  rcases List.mem_append.mp hother with hfront | htail
  · exact (hcross other hfront view List.mem_cons_self).ne
  · exact ((List.pairwise_cons.mp hback).1 other htail).ne'

theorem mem_of_mem_others {other : PoolView} (hother : other ∈ front ++ back) :
    other ∈ front ++ view :: back := by
  rcases List.mem_append.mp hother with hfront | hback
  · exact List.mem_append_left _ hfront
  · exact List.mem_append_right _ (List.mem_cons_of_mem _ hback)

theorem mem_middle : view ∈ front ++ view :: back :=
  List.mem_append_right _ List.mem_cons_self

/-- Membership in a list with one element exchanged. -/
theorem forall_mem_exchange {motive : PoolView → Prop} (hchanged : motive changed)
    (hothers : ∀ other ∈ front ++ back, motive other) :
    ∀ other ∈ front ++ changed :: back, motive other := by
  intro other hother
  rcases List.mem_append.mp hother with hfront | hback
  · exact hothers other (List.mem_append_left _ hfront)
  · rcases List.mem_cons.mp hback with rfl | htail
    · exact hchanged
    · exact hothers other (List.mem_append_right _ htail)

theorem ascending_exchange (hsize : changed.blockSize = view.blockSize)
    (hascending : BestFit.Ascending PoolView.blockSize (front ++ view :: back)) :
    BestFit.Ascending PoolView.blockSize (front ++ changed :: back) := by
  have hmap : ∀ views : List PoolView, BestFit.Ascending PoolView.blockSize views ↔
      (views.map PoolView.blockSize).Pairwise (· < ·) := fun views => List.pairwise_map.symm
  rw [hmap] at hascending ⊢
  simpa [hsize] using hascending

/-- One pool changes within the words it owns, its node apart. -/
theorem PoolList.exchange (hlist : PoolList target mem head (front ++ view :: back))
    (hplaced : ∀ other ∈ front ++ view :: back, PoolPlaced target owner other)
    (hnode : changed.node = view.node) (hsize : changed.blockSize = view.blockSize)
    (hstored : PoolStored target after changed)
    (hsame : ∀ address size part, owner address = some (size, part) →
      (size ≠ view.blockSize ∨ ∃ member, part = .poolNode member) → after address = mem address) :
    PoolList target after head (front ++ changed :: back) where
  chain := by
    have hnodes : (front ++ changed :: back).map PoolView.node =
        (front ++ view :: back).map PoolView.node := by simp [hnode]
    rw [hnodes]
    refine hlist.chain.congr fun node hmem => ?_
    obtain ⟨other, hother, rfl⟩ := List.mem_map.mp hmem
    exact hsame _ _ _ ((hplaced other hother).node 1 (by norm_num)) (.inr ⟨1, rfl⟩)
  ascending := ascending_exchange hsize hlist.ascending
  stored := by
    refine forall_mem_exchange hstored fun other hother => ?_
    have hmem : other ∈ front ++ view :: back := mem_of_mem_others hother
    refine (hlist.stored other hmem).frame (hplaced other hmem) fun address part howner _ => ?_
    exact hsame address _ part howner (.inl (hlist.size_ne hother))

theorem PoolHeap.exchange (hheap : PoolHeap target owner allocated (front ++ view :: back))
    (hplaced : PoolPlaced target owner changed) :
    PoolHeap target owner allocated (front ++ changed :: back) where
  placed := forall_mem_exchange hplaced fun other hother =>
    hheap.placed other (mem_of_mem_others hother)
  inside := hheap.inside
  aligned := hheap.aligned
  allocated_le := hheap.allocated_le

/-! ## Handing out a block -/

/-- The state after the first free block of a pool was handed out. -/
@[simps! -fullyApplied]
def State.takeBlock (state : State) (target : Target) (view : PoolView) (node block : Nat) : State :=
  ((state.pop target view.freeList).push target view.usedList node).emit
    (.allocated (target.field block 1))

/-- The state after a block was put back in the first spare node of a pool. -/
@[simps! -fullyApplied]
def State.giveBackBlock (state : State) (target : Target) (view : PoolView) (node block : Nat) :
    State :=
  (((state.pop target view.usedList).store (target.field node BlockNode.blockPtr) block).push target
    view.freeList node).emit (.released (target.field block 1))

/-- Handing out changes only words of the lists of the pool. -/
theorem PoolPlaced.takeBlock_mem (hplaced : PoolPlaced target owner view)
    (hnode : node ∈ view.nodes) {size : Nat} {part : Part} (howner : owner address = some (size, part))
    (hother : size ≠ view.blockSize ∨ ¬ part.IsList) :
    (state.takeBlock target view node block).mem address = state.mem address := by
  have hne : ∀ {word listPart}, owner word = some (view.blockSize, listPart) →
      Part.IsList listPart → address ≠ word := by
    rintro word listPart hword hlist rfl
    rw [howner] at hword
    cases hword
    exact hother.elim (fun hsize => hsize rfl) fun hpart => hpart hlist
  rw [State.takeBlock, State.emit_mem,
    State.push_mem_of_ne (hne (hplaced.blockNode node hnode 1 (by norm_num)) trivial)
      (hne hplaced.usedList trivial),
    State.pop_mem_of_ne (hne hplaced.freeList trivial)]

theorem PoolStored.take (hstored : PoolStored target state.mem view)
    (hplaced : PoolPlaced target owner view) (hne : node ≠ null)
    (hfree : view.free = (node, block) :: rest) :
    PoolStored target (state.takeBlock target view node block).mem (view.take hfree) := by
  have hnodes : ∀ other, other ∈ rest.map Prod.fst ++ node :: view.used → other ∈ view.nodes :=
    fun other => (view.take_nodes hfree).mem_iff.mp
  have hrest : ∀ other ∈ rest.map Prod.fst, other ∈ view.nodes := fun other hother =>
    hnodes other (List.mem_append_left _ hother)
  have hnode : node ∈ view.nodes := hnodes node (List.mem_append_right _ List.mem_cons_self)
  obtain ⟨-, hnodup, hdisjoint⟩ := List.nodup_append.mp (view.take hfree).nodes_nodup
  have hfreeChain := hstored.freeChain
  rw [hfree, List.map_cons] at hfreeChain
  refine hstored.relink hplaced (view.take_same hfree)
    (fun _ _ howner hpart => hplaced.takeBlock_mem hnode howner (.inr hpart)) ?_ ?_ ?_ ?_
  · refine (hfreeChain.pop fun other hother => ?_).push_other hplaced.lists_ne
      (hplaced.link_ne_freeList hnode) ?_ fun other hother => ?_
    · exact hplaced.link_ne_freeList (hrest other hother)
    · exact fun hmem => hdisjoint node hmem node List.mem_cons_self rfl
    · exact hplaced.link_ne_usedList (hrest other hother)
  · refine (hstored.usedChain.pop_other hplaced.lists_ne.symm fun other hother => ?_).push hne
      (List.nodup_cons.mp hnodup).1 fun other hother => ?_
    · exact hplaced.link_ne_freeList (PoolView.mem_nodes_of_used hother)
    · exact hplaced.link_ne_usedList (hnodes other (List.mem_append_right _ hother))
  · intro entry hentry
    have hmem := hrest entry.1 (List.mem_map_of_mem hentry)
    rw [State.takeBlock, State.emit_mem,
      State.push_mem_of_ne (hplaced.value_ne_link hmem hnode) (hplaced.value_ne_usedList hmem),
      State.pop_mem_of_ne (hplaced.value_ne_freeList hmem)]
    exact hstored.blockPtr entry (hfree ▸ List.mem_cons_of_mem _ hentry)
  · intro other hother
    have hmem := (view.take_blocks hfree).mem_iff.mp hother
    rw [hplaced.takeBlock_mem hnode (hplaced.header other hmem) (.inr id)]
    exact hstored.header other hmem

theorem PoolPlaced.giveBackBlock_mem (hplaced : PoolPlaced target owner view)
    (hnode : node ∈ view.nodes) {size : Nat} {part : Part} (howner : owner address = some (size, part))
    (hother : size ≠ view.blockSize ∨ ¬ part.IsList) :
    (state.giveBackBlock target view node block).mem address = state.mem address := by
  have hne : ∀ {word listPart}, owner word = some (view.blockSize, listPart) →
      Part.IsList listPart → address ≠ word := by
    rintro word listPart hword hlist rfl
    rw [howner] at hword
    cases hword
    exact hother.elim (fun hsize => hsize rfl) fun hpart => hpart hlist
  rw [State.giveBackBlock, State.emit_mem,
    State.push_mem_of_ne (hne (hplaced.blockNode node hnode 1 (by norm_num)) trivial)
      (hne hplaced.freeList trivial), State.store_mem,
    Function.update_of_ne (hne (hplaced.blockNode node hnode 0 (by norm_num)) trivial),
    State.pop_mem_of_ne (hne hplaced.usedList trivial)]

theorem PoolStored.giveBack (hstored : PoolStored target state.mem view)
    (hplaced : PoolPlaced target owner view) (hne : node ≠ null)
    (hused : view.used = node :: spare) (hout : block ∈ view.out) :
    PoolStored target (state.giveBackBlock target view node block).mem
      (view.giveBack hused hout) := by
  have hnodes : ∀ other, other ∈ node :: view.free.map Prod.fst ++ spare → other ∈ view.nodes :=
    fun other => (view.giveBack_nodes hused hout).mem_iff.mp
  have hspare : ∀ other ∈ spare, other ∈ view.nodes := fun other hother =>
    hnodes other (List.mem_append_right _ hother)
  have hnode : node ∈ view.nodes := hnodes node (List.mem_append_left _ List.mem_cons_self)
  have hnodup : (node :: (view.free.map Prod.fst ++ spare)).Nodup :=
    (view.giveBack hused hout).nodes_nodup
  have hnew := (List.nodup_cons.mp hnodup).1
  have hvalue : ∀ other ∈ view.nodes, target.field node 0 ≠ target.field other 1 :=
    fun other => hplaced.value_ne_link hnode
  have husedChain := hstored.usedChain
  rw [hused] at husedChain
  refine hstored.relink hplaced (view.giveBack_same hused hout)
    (fun _ _ howner hpart => hplaced.giveBackBlock_mem hnode howner (.inr hpart)) ?_ ?_ ?_ ?_
  · have hstart : BlockChain target ((state.pop target view.usedList).store
        (target.field node BlockNode.blockPtr) block).mem view.freeList
        (view.free.map Prod.fst) := by
      have hpopped := hstored.freeChain.pop_other hplaced.lists_ne fun other hother =>
        hplaced.link_ne_usedList (List.mem_append_left view.used hother)
      refine hpopped.congr ?_ fun other hother => ?_
      · exact Function.update_of_ne (hplaced.value_ne_freeList hnode).symm _ _
      · exact Function.update_of_ne (hvalue other (List.mem_append_left _ hother)).symm _ _
    exact hstart.push hne (fun hmem => hnew (List.mem_append_left _ hmem)) fun other hother =>
      hplaced.link_ne_freeList (hnodes other (List.mem_append_left _ hother))
  · have hpopped := husedChain.pop fun other hother =>
      hplaced.link_ne_usedList (hspare other hother)
    have hstart : BlockChain target ((state.pop target view.usedList).store
        (target.field node BlockNode.blockPtr) block).mem view.usedList spare := by
      refine hpopped.congr ?_ fun other hother => ?_
      · exact Function.update_of_ne (hplaced.value_ne_usedList hnode).symm _ _
      · exact Function.update_of_ne (hvalue other (hspare other hother)).symm _ _
    exact hstart.push_other hplaced.lists_ne.symm (hplaced.link_ne_usedList hnode)
      (fun hmem => hnew (List.mem_append_right _ hmem)) fun other hother =>
        hplaced.link_ne_freeList (hspare other hother)
  · intro entry hentry
    rcases List.mem_cons.mp hentry with rfl | hearlier
    · rw [State.giveBackBlock, State.emit_mem,
        State.push_mem_of_ne (hvalue node hnode) (hplaced.value_ne_freeList hnode)]
      exact Function.update_self ..
    · have hmem := PoolView.mem_nodes_of_free hearlier
      have hother : target.field entry.1 0 ≠ target.field node 0 := by
        rw [Ne, Target.field_inj]
        rintro heq
        exact hnew (List.mem_append_left _ (heq ▸ List.mem_map_of_mem hearlier))
      rw [State.giveBackBlock, State.emit_mem,
        State.push_mem_of_ne (hplaced.value_ne_link hmem hnode) (hplaced.value_ne_freeList hmem),
        State.store_mem, Function.update_of_ne hother,
        State.pop_mem_of_ne (hplaced.value_ne_usedList hmem)]
      exact hstored.blockPtr entry hearlier
  · intro other hother
    have hmem := (view.giveBack_blocks hused hout).mem_iff.mp hother
    rw [hplaced.giveBackBlock_mem hnode (hplaced.header other hmem) (.inr id)]
    exact hstored.header other hmem

/-! ## The log -/

@[simp] theorem outData_append (left right : List PoolView) :
    outData target (left ++ right) = outData target left ++ outData target right := by
  simp [outData]

@[simp] theorem outData_cons (tail : List PoolView) :
    outData target (view :: tail) =
      view.out.map (fun block => target.field block 1) ++ outData target tail := by
  simp [outData]

variable {log : List Event}

/-- Nothing but the blocks handed out changed. -/
theorem PoolLog.exchange {later : List Event}
    (hlog : PoolLog target log (front ++ view :: back)) (hpool : view.Same changed)
    (hblocks : changed.blocks.Perm view.blocks)
    (hout : (handedOut later).Perm (outData target (front ++ changed :: back)))
    (hadded : ∀ size, blocksAdded size later = blocksAdded size log)
    (hkept : ∀ event ∈ log, event ∈ later) :
    PoolLog target later (front ++ changed :: back) where
  out := hout
  added := by
    refine forall_mem_exchange ?_ fun other hother => ?_
    · rw [hadded, hpool.blockSize]
      exact (hlog.added view mem_middle).trans hblocks.symm
    · rw [hadded]
      exact hlog.added other (mem_of_mem_others hother)
  addedElsewhere := by
    intro size hsize
    rw [hadded]
    refine hlog.addedElsewhere size (forall_mem_exchange ?_ fun other hother => ?_)
    · rw [← hpool.blockSize]
      exact hsize changed mem_middle
    · exact hsize other (mem_of_mem_others hother)
  reserved := by
    refine forall_mem_exchange ?_ fun other hother => ?_
    · intro block hblock
      rw [hpool.blockSize]
      exact hkept _ (hlog.reserved view mem_middle block (hblocks.mem_iff.mp hblock))
    · exact fun block hblock =>
        hkept _ (hlog.reserved other (mem_of_mem_others hother) block hblock)

theorem PoolsAt.take (hpools : PoolsAt target owner (front ++ view :: back) state)
    (hfree : view.free = (node, block) :: rest) :
    PoolsAt target owner (front ++ view.take hfree :: back)
      (state.takeBlock target view node block) where
  list := by
    have hplaced := hpools.heap.placed view mem_middle
    have hnode : node ∈ view.nodes := by simp [PoolView.nodes, hfree]
    refine hpools.list.exchange hpools.heap.placed rfl rfl ?_ fun address size part howner hpart => ?_
    · exact (hpools.list.stored view mem_middle).take hplaced
        (hpools.heap.blockNode_ne_null mem_middle hnode) hfree
    · refine hplaced.takeBlock_mem hnode howner (hpart.imp_right ?_)
      rintro ⟨member, rfl⟩
      exact id
  heap := hpools.heap.exchange ((hpools.heap.placed view mem_middle).congr
    (view.take_same hfree) (view.take_nodes hfree) (view.take_blocks hfree))
  log := by
    refine hpools.log.exchange (view.take_same hfree) (view.take_blocks hfree) ?_ ?_ ?_
    · have hperm := hpools.log.out.cons (target.field block 1)
      simp only [outData_append, outData_cons] at hperm ⊢
      exact hperm.trans List.perm_middle.symm
    · simp
    · exact fun event hevent => List.mem_cons_of_mem _ hevent

theorem PoolsAt.giveBack (hpools : PoolsAt target owner (front ++ view :: back) state)
    (hused : view.used = node :: spare) (hout : block ∈ view.out) :
    PoolsAt target owner (front ++ view.giveBack hused hout :: back)
      (state.giveBackBlock target view node block) where
  list := by
    have hplaced := hpools.heap.placed view mem_middle
    have hnode : node ∈ view.nodes := by simp [PoolView.nodes, hused]
    refine hpools.list.exchange hpools.heap.placed rfl rfl ?_ fun address size part howner hpart => ?_
    · exact (hpools.list.stored view mem_middle).giveBack hplaced
        (hpools.heap.blockNode_ne_null mem_middle hnode) hused hout
    · refine hplaced.giveBackBlock_mem hnode howner (hpart.imp_right ?_)
      rintro ⟨member, rfl⟩
      exact id
  heap := hpools.heap.exchange ((hpools.heap.placed view mem_middle).congr
    (view.giveBack_same hused hout) (view.giveBack_nodes hused hout)
    (view.giveBack_blocks hused hout))
  log := by
    refine hpools.log.exchange (view.giveBack_same hused hout) (view.giveBack_blocks hused hout)
      ?_ ?_ ?_
    · have hmap : (target.field block 1 ::
          (view.out.erase block).map fun other => target.field other 1).Perm
            (view.out.map fun other => target.field other 1) :=
        (List.perm_cons_erase hout).symm.map fun other => target.field other 1
      have hperm := hpools.log.out.symm
      simp only [outData_append, outData_cons] at hperm ⊢
      refine (List.cons_perm_iff_perm_erase.mp ?_).2.symm
      exact List.perm_middle.symm.trans
        (((hmap.append_right _).append_left _).trans hperm)
    · simp
    · exact fun event hevent => List.mem_cons_of_mem _ hevent

end MicroTbx

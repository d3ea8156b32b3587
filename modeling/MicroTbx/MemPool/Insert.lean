import MicroTbx.MemPool.Allocate

/-! # Inserting a pool

The insertion loop walks to the first pool with larger blocks and links the
new node in front of it, which keeps the list sorted. None of its sanity
checks fails on a list that holds no pool of the new size.
-/

namespace MicroTbx

open Program

variable {target : Target} {owner : Ownership} {views front back passed smaller : List PoolView}
  {view fresh : PoolView} {state : State} {head size fuel : Nat} {mem : Nat → Nat}

/-- The first node of a list of pools. -/
def headNode (views : List PoolView) : Nat := (views.head?.map PoolView.node).getD null

/-- The last node of a list of pools. -/
def lastNode (views : List PoolView) : Nat := (views.getLast?.map PoolView.node).getD null

@[simp] theorem headNode_nil : headNode [] = null := rfl

@[simp] theorem headNode_cons (tail : List PoolView) : headNode (view :: tail) = view.node := rfl

@[simp] theorem lastNode_nil : lastNode [] = null := rfl

@[simp] theorem lastNode_concat (init : List PoolView) :
    lastNode (init ++ [view]) = view.node := by
  simp [lastNode]

/-- The state after a node was linked between two parts of the pool list. -/
def State.linkNode (state : State) (target : Target) (nodePtr : Nat) (front back : List PoolView) :
    State :=
  let linked := state.store (target.field nodePtr PoolNode.nextNodePtr) (headNode back)
  if front = [] then linked.setPoolList nodePtr
  else linked.store (target.field (lastNode front) PoolNode.nextNodePtr) nodePtr

theorem headNode_of_chain {nodes : List PoolView}
    (hchain : Chain.Linked (nextNode target mem) null head (nodes.map PoolView.node)) :
    head = headNode nodes := by
  cases nodes with
  | nil => simpa using hchain
  | cons view tail => exact (Chain.linked_cons.mp hchain).1

/-- The current node is in front of the larger pools: link the new node. -/
theorem insertBeforeLarger_link (hfresh : fresh.node ≠ null) (hfreshPool : fresh.pool ≠ null)
    (hstored : PoolStored target state.mem fresh) (hview : PoolStored target state.mem view)
    (hpool : view.pool ≠ null) (hnode : view.node ≠ null)
    (hlarger : fresh.blockSize < view.blockSize)
    (hhead : view.node = state.tbxPoolList ↔ front = [])
    (hlast : front ≠ [] → lastNode front ≠ null) :
    (insertBeforeLarger target fresh.node (lastNode front) view.node).Evaluates state true
      (state.linkNode target fresh.node front (view :: back)) := by
  intro depth
  simp only [null_eq] at hfresh hfreshPool hpool hnode hlast
  have hne : view.blockSize ≠ fresh.blockSize := hlarger.ne'
  by_cases hempty : front = []
  · subst hempty
    have hfirst := (hhead.mpr rfl).symm
    simp [insertBeforeLarger, State.linkNode, hnode, hpool, hfresh, hfreshPool, hview.poolPtr,
      hview.blockSize, hstored.poolPtr, hstored.blockSize, hne, hlarger, hfirst]
  · have hfirst : view.node ≠ state.tbxPoolList := fun heq => hempty (hhead.mp heq)
    simp [insertBeforeLarger, State.linkNode, hnode, hpool, hfresh, hfreshPool, hview.poolPtr,
      hview.blockSize, hstored.poolPtr, hstored.blockSize, hne, hlarger, hfirst, hempty,
      hlast hempty]

/-- The current pool has smaller blocks: nothing is linked yet. -/
theorem insertBeforeLarger_pass (hfresh : fresh.node ≠ null) (hfreshPool : fresh.pool ≠ null)
    (hstored : PoolStored target state.mem fresh) (hview : PoolStored target state.mem view)
    (hpool : view.pool ≠ null) (hnode : view.node ≠ null)
    (hsmaller : view.blockSize < fresh.blockSize) (prevNodePtr : Nat) :
    (insertBeforeLarger target fresh.node prevNodePtr view.node).Evaluates state false state := by
  intro depth
  simp only [null_eq] at hfresh hfreshPool hpool hnode
  simp [insertBeforeLarger, hnode, hpool, hfresh, hfreshPool, hview.poolPtr, hview.blockSize,
    hstored.poolPtr, hstored.blockSize, hsmaller.ne, hsmaller.le]

theorem PoolsAt.head_iff (hpools : PoolsAt target owner (passed ++ view :: back) state) :
    view.node = state.tbxPoolList ↔ passed = [] := by
  have hchain := hpools.list.chain
  cases passed with
  | nil => simpa using (Chain.linked_cons.mp hchain).1.symm
  | cons first passed =>
      have hnodup := hchain.nodup
      rw [List.cons_append, List.map_cons] at hchain hnodup
      rw [(Chain.linked_cons.mp hchain).1]
      simp only [reduceCtorEq, iff_false]
      intro heq
      apply (List.nodup_cons.mp hnodup).1
      rw [← heq]
      exact List.mem_map_of_mem mem_middle

theorem PoolsAt.lastNode_ne_null (hpools : PoolsAt target owner (passed ++ back) state)
    (hne : passed ≠ []) : lastNode passed ≠ null := by
  obtain ⟨init, last, rfl⟩ := (List.eq_nil_or_concat passed).resolve_left hne
  rw [List.concat_eq_append] at hpools ⊢
  rw [lastNode_concat]
  apply hpools.heap.node_ne_null
  simp

/-- From a node in the list the loop links the new node behind the pools with
smaller blocks. -/
theorem insertLoop_spec (hfresh : fresh.node ≠ null) (hfreshPool : fresh.pool ≠ null)
    (hstored : PoolStored target state.mem fresh)
    (hpools : PoolsAt target owner (passed ++ (smaller ++ back)) state)
    (hsmaller : ∀ other ∈ smaller, other.blockSize < fresh.blockSize)
    (hlarger : ∀ other ∈ back, fresh.blockSize < other.blockSize)
    (htodo : smaller ++ back ≠ []) (hfuel : (smaller ++ back).length < fuel) :
    (insertLoop target fresh.node fuel (lastNode passed) (headNode (smaller ++ back))).Evaluates
      state () (state.linkNode target fresh.node (passed ++ smaller) back) := by
  obtain ⟨fuel, rfl⟩ := Nat.exists_eq_succ_of_ne_zero (by omega : fuel ≠ 0)
  induction smaller generalizing passed fuel with
  | nil =>
      cases back with
      | nil => exact absurd rfl htodo
      | cons view back =>
          have hmem : view ∈ passed ++ view :: back := mem_middle
          have hnode := hpools.heap.node_ne_null hmem
          have hlink := @insertBeforeLarger_link target passed back view fresh state hfresh
            hfreshPool hstored (hpools.list.stored view hmem) (hpools.heap.pool_ne_null hmem) hnode
            (hlarger view List.mem_cons_self) hpools.head_iff hpools.lastNode_ne_null
          intro depth
          simp only [null_eq] at hnode
          simp [insertLoop, hnode, hlink.wp_iff]
  | cons view smaller ih =>
      have hmem : view ∈ passed ++ (view :: smaller ++ back) := mem_middle
      have hnode := hpools.heap.node_ne_null hmem
      have hpass := insertBeforeLarger_pass hfresh hfreshPool hstored
        (hpools.list.stored view hmem) (hpools.heap.pool_ne_null hmem) hnode
        (hsmaller view List.mem_cons_self) (lastNode passed)
      have hnext : state.mem (target.field view.node PoolNode.nextNodePtr) =
          headNode (smaller ++ back) := by
        have hchain := hpools.list.chain
        rw [List.map_append, List.cons_append, List.map_cons] at hchain
        exact headNode_of_chain (Chain.linked_cons.mp hchain.tail).2.2
      have hmove : passed ++ (view :: smaller ++ back) = passed ++ [view] ++ (smaller ++ back) := by
        simp
      rw [hmove] at hpools
      intro depth
      by_cases hlast : smaller ++ back = []
      · obtain ⟨rfl, rfl⟩ := List.append_eq_nil_iff.mp hlast
        rw [List.nil_append, headNode_nil] at hnext
        simp only [null_eq] at hnode hnext hfresh
        simp [insertLoop, State.linkNode, hnode, hpass.wp_iff, hnext, hfresh]
      · have hnextNe : headNode (smaller ++ back) ≠ null := by
          obtain ⟨next, later, heq⟩ := List.exists_cons_of_ne_nil hlast
          rw [heq, headNode_cons]
          apply hpools.heap.node_ne_null
          rw [heq]
          exact mem_middle
        obtain ⟨fuel, rfl⟩ := Nat.exists_eq_succ_of_ne_zero
          (by simp at hfuel; omega : fuel ≠ 0)
        have hloop := ih hpools (fun other hother => hsmaller other (List.mem_cons_of_mem _ hother))
          hlast fuel (by simpa using hfuel) depth
        rw [lastNode_concat, List.append_assoc, List.singleton_append] at hloop
        simp only [null_eq] at hnode hnextNe
        rw [insertLoop]
        simpa [hnode, hpass.wp_iff, hnext, hnextNe] using hloop

/-- The pools of a sorted list around a size it does not hold. -/
theorem exists_split (views : List PoolView) (size : Nat)
    (hascending : BestFit.Ascending PoolView.blockSize views)
    (hnone : ∀ view ∈ views, view.blockSize ≠ size) :
    ∃ front back, views = front ++ back ∧ (∀ other ∈ front, other.blockSize < size) ∧
      ∀ other ∈ back, size < other.blockSize := by
  induction views with
  | nil => exact ⟨[], [], rfl, by simp, by simp⟩
  | cons view tail ih =>
      obtain ⟨hview, htail⟩ := List.pairwise_cons.mp hascending
      rcases Nat.lt_or_gt_of_ne (hnone view List.mem_cons_self) with hlt | hgt
      · obtain ⟨front, back, rfl, hfront, hback⟩ :=
          ih htail fun other hother => hnone other (List.mem_cons_of_mem _ hother)
        refine ⟨view :: front, back, rfl, ?_, hback⟩
        rw [List.forall_mem_cons]
        exact ⟨hlt, hfront⟩
      · refine ⟨[], view :: tail, rfl, by simp, ?_⟩
        rw [List.forall_mem_cons]
        exact ⟨hgt, fun other hother => hgt.trans (hview other hother)⟩

theorem tbxMemPoolListInsert_spec (hfresh : fresh.node ≠ null) (hfreshPool : fresh.pool ≠ null)
    (hstored : PoolStored target state.mem fresh)
    (hpools : PoolsAt target owner (front ++ back) state)
    (hsmaller : ∀ other ∈ front, other.blockSize < fresh.blockSize)
    (hlarger : ∀ other ∈ back, fresh.blockSize < other.blockSize) :
    (tbxMemPoolListInsert target fresh.node).Evaluates state ()
      (state.linkNode target fresh.node front back) := by
  have hhead := headNode_of_chain hpools.list.chain
  intro depth
  by_cases hempty : front ++ back = []
  · obtain ⟨rfl, rfl⟩ := List.append_eq_nil_iff.mp hempty
    simp only [null_eq] at hfresh hfreshPool
    rw [List.nil_append, headNode_nil, null_eq] at hhead
    simp [tbxMemPoolListInsert, State.linkNode, hfresh, hstored.poolPtr, hfreshPool, hhead]
  · have hheadNe : state.tbxPoolList ≠ null := by
      obtain ⟨first, later, heq⟩ := List.exists_cons_of_ne_nil hempty
      rw [hhead, heq, headNode_cons]
      apply hpools.heap.node_ne_null
      rw [heq]
      exact List.mem_cons_self
    have hloop := @insertLoop_spec target owner back [] front fresh state target.loopFuel hfresh
      hfreshPool hstored hpools hsmaller hlarger hempty hpools.length_lt
    rw [lastNode_nil, ← hhead, List.nil_append] at hloop
    simp only [null_eq] at hfresh hfreshPool hheadNe hloop
    simp [tbxMemPoolListInsert, hfresh, hstored.poolPtr, hfreshPool, hheadNe, hloop.wp_iff]

/-! ## The list after the insertion -/

theorem nextNode_update (mem : Nat → Nat) (node value : Nat) :
    nextNode target (Function.update mem (target.field node 1) value) =
      Function.update (nextNode target mem) node value := by
  funext other
  by_cases hother : other = node
  · subst hother
    simp [nextNode]
  · have hne : target.field other 1 ≠ target.field node 1 := by
      rwa [Ne, Target.field_inj]
    simp [nextNode, hother, hne]

/-- The links of the nodes, and the head of the list, after the insertion. -/
theorem PoolList.link_chain
    (hlist : PoolList target state.mem state.tbxPoolList (front ++ back))
    (hfresh : fresh.node ≠ null)
    (hnew : fresh.node ∉ (front ++ back).map PoolView.node) :
    Chain.Linked (nextNode target (state.linkNode target fresh.node front back).mem) null
      (state.linkNode target fresh.node front back).tbxPoolList
      ((front ++ fresh :: back).map PoolView.node) := by
  have hchain := hlist.chain
  rcases List.eq_nil_or_concat front with rfl | ⟨init, last, rfl⟩
  · have hlinked := hchain.insert_front hfresh hnew
    rw [headNode_of_chain hchain, ← nextNode_update] at hlinked
    simpa [State.linkNode] using hlinked
  · rw [List.concat_eq_append, List.append_assoc, List.singleton_append, List.map_append,
      List.map_cons] at hchain hnew
    have hnext := headNode_of_chain (Chain.linked_cons.mp hchain.tail).2.2
    have hlinked := hchain.insert_after hfresh hnew
    rw [hnext, ← nextNode_update, ← nextNode_update] at hlinked
    simpa [State.linkNode] using hlinked

/-- Linking changes only links of pool nodes. -/
theorem State.linkNode_mem {address : Nat} {size : Nat} {part : Part}
    (hplaced : ∀ other ∈ front ++ back, PoolPlaced target owner other)
    (hfresh : PoolPlaced target owner fresh) (howner : owner address = some (size, part))
    (hpart : part ≠ .poolNode 1) :
    (state.linkNode target fresh.node front back).mem address = state.mem address := by
  have hne : ∀ {other : PoolView}, PoolPlaced target owner other →
      address ≠ target.field other.node 1 := fun hother =>
    ne_of_owner howner (hother.node 1 (by norm_num)) fun heq => hpart (congrArg Prod.snd heq)
  by_cases hempty : front = []
  · simp [State.linkNode, hempty, Function.update_of_ne (hne hfresh)]
  · obtain ⟨init, last, rfl⟩ := (List.eq_nil_or_concat front).resolve_left hempty
    have hlast := hne (hplaced last (by simp))
    rw [List.concat_eq_append] at hempty ⊢
    simp [State.linkNode, Function.update_of_ne hlast, Function.update_of_ne (hne hfresh)]

theorem PoolList.insert (hlist : PoolList target state.mem state.tbxPoolList (front ++ back))
    (hplaced : ∀ other ∈ front ++ back, PoolPlaced target owner other)
    (hfresh : PoolPlaced target owner fresh) (hstored : PoolStored target state.mem fresh)
    (hne : fresh.node ≠ null) (hsmaller : ∀ other ∈ front, other.blockSize < fresh.blockSize)
    (hlarger : ∀ other ∈ back, fresh.blockSize < other.blockSize) :
    PoolList target (state.linkNode target fresh.node front back).mem
      (state.linkNode target fresh.node front back).tbxPoolList (front ++ fresh :: back) where
  chain := by
    refine hlist.link_chain hne ?_
    intro hmem
    obtain ⟨other, hother, heq⟩ := List.mem_map.mp hmem
    have hsize : other.blockSize ≠ fresh.blockSize := by
      rcases List.mem_append.mp hother with hfront | hback
      · exact (hsmaller other hfront).ne
      · exact (hlarger other hback).ne'
    refine ne_of_owner ((hplaced other hother).node 0 (by norm_num))
      (hfresh.node 0 (by norm_num)) ?_ (congrArg (target.field · 0) heq)
    simpa using hsize
  ascending := by
    obtain ⟨hfront, hback, hcross⟩ := List.pairwise_append.mp hlist.ascending
    refine List.pairwise_append.mpr ⟨hfront, List.pairwise_cons.mpr ⟨hlarger, hback⟩, ?_⟩
    intro lower hlower upper hupper
    rcases List.mem_cons.mp hupper with rfl | hupper
    · exact hsmaller lower hlower
    · exact hcross lower hlower upper hupper
  stored := by
    have hkept : ∀ {other : PoolView}, PoolPlaced target owner other →
        PoolStored target state.mem other →
        PoolStored target (state.linkNode target fresh.node front back).mem other := by
      intro other hother hotherStored
      refine hotherStored.frame hother fun address part howner hown => ?_
      refine State.linkNode_mem hplaced hfresh howner ?_
      rintro rfl
      exact hown
    exact forall_mem_exchange (hkept hfresh hstored) fun other hother =>
      hkept (hplaced other hother) (hlist.stored other hother)

end MicroTbx

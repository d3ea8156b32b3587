import MicroTbx.Foundation.ExchangeSort
import MicroTbx.List.Refinement

/-! # Sorting a list

Sorting exchanges the items of nodes and leaves the nodes where they are. How
often it compares depends on nothing but the number of nodes.
-/

namespace MicroTbx

open Program

/-- A list in memory: the header and the nodes are separate objects in the
heap, and linked in both directions. -/
structure ListInHeap (target : Target) (state : State) (list : Nat) (nodes : List Nat) :
    Prop where
  apart : Apart target (list :: nodes)
  shape : ListShape (cellsOf target state.mem) list nodes
  list_notMem : list ∉ nodes
  inside : ∀ node ∈ nodes, target.heapBase ≤ node ∧ node < target.heapBase + target.heapSize

/-- What sorting makes of a list: the items of its nodes are exchanged, and
nothing else is written. -/
structure SortsList (target : Target) (state after : State) (list : Nat) (nodes : List Nat)
    (compareItemsFcn : CompareItems) : Prop where
  shape : ListShape (cellsOf target after.mem) list nodes
  frame : ∀ address, (∀ node ∈ nodes, address ≠ target.field node ListNode.itemPtr) →
    after.mem address = state.mem address
  perm : (itemsOf (cellsOf target after.mem) nodes).Perm (itemsOf (cellsOf target state.mem) nodes)
  /-- If the callback tells which items are greater, no item is greater than a
  later one. -/
  sorted : ∀ greater : Nat → Nat → Prop, IsStrictWeakOrder Nat greater →
    (∀ calls left right, compareItemsFcn calls left right = tbxTrue ↔ greater left right) →
    (itemsOf (cellsOf target after.mem) nodes).Pairwise fun left right => ¬ greater left right

variable {target : Target} {owner : Ownership} {views : List PoolView} {view : ListView}
  {lists : List ListView} {app : List Nat} {state : State} {list : Nat} {nodes : List Nat}

theorem ListInHeap.listCells (hlist : ListInHeap target state list nodes) :
    ListCells target (cellsOf target state.mem) list nodes where
  apart := hlist.apart
  shape := hlist.shape
  list_notMem := hlist.list_notMem
  length_lt := length_lt_loopFuel hlist.shape.links.forward.nodup hlist.inside (Nat.le_refl _)

/-- The lists that the module has made are such lists. -/
theorem ListsAt.inHeap (hlists : ListsAt target owner views lists app state)
    (hview : view ∈ lists) : ListInHeap target state view.header view.nodes := by
  have hcells := hlists.listCells hview
  refine ⟨hcells.apart, hcells.shape, hcells.list_notMem, fun node hnode => ?_⟩
  have hinside := (hlists.holds node (mem_blocksOf hview (List.mem_cons_of_mem _ hnode))).inside
    hlists.pools.heap
  have hle := hlists.pools.heap.allocated_le
  omega

theorem Edited.sortsList {after : State} {cells : Cells} {compareItemsFcn : CompareItems}
    (hlist : ListInHeap target state list nodes) (hedited : Edited target list nodes state after cells)
    (hwritten : ItemsWritten (cellsOf target state.mem) cells nodes)
    (hitems : itemsOf cells nodes = Sequence.exchangeSort (greater compareItemsFcn)
      (itemsOf (cellsOf target state.mem) nodes)) :
    SortsList target state after list nodes compareItemsFcn := by
  have hcells := hlist.listCells
  have hsame : ∀ node ∈ nodes, cellsOf target after.mem node ListNode.itemPtr =
      cells node ListNode.itemPtr :=
    fun node hnode => hedited.cells node (List.mem_cons_of_mem _ hnode) _ (by norm_num)
  have hafter : itemsOf (cellsOf target after.mem) nodes = Sequence.exchangeSort
      (greater compareItemsFcn) (itemsOf (cellsOf target state.mem) nodes) := by
    rw [itemsOf_congr hsame, hitems]
  refine ⟨?_, fun address haddress => ?_, ?_, fun order hweak hanswers => ?_⟩
  · apply (hwritten.shape hcells.shape hcells.list_notMem).congr
    · exact fun i hi => hedited.cells list List.mem_cons_self i hi
    · exact fun node hnode => hedited.cells node (List.mem_cons_of_mem _ hnode) _ (by norm_num)
    · exact fun node hnode => hedited.cells node (List.mem_cons_of_mem _ hnode) _ (by norm_num)
  · by_cases hcell : ∃ pointer ∈ list :: nodes, ∃ i < 3, address = target.field pointer i
    · obtain ⟨pointer, hpointer, i, hi, rfl⟩ := hcell
      rw [hedited.cells pointer hpointer i hi]
      apply hwritten pointer i
      by_contra hitem
      obtain ⟨hnode, rfl⟩ : pointer ∈ nodes ∧ i = ListNode.itemPtr := by
        simpa [not_or] using hitem
      exact haddress pointer hnode rfl
    · apply hedited.frame
      exact fun pointer hpointer i hi heq => hcell ⟨pointer, hpointer, i, hi, heq⟩
  · rw [hafter]
    exact Sequence.exchangeSort_perm _
  · rw [hafter]
    apply Sequence.exchangeSort_sorted hweak
    intro calls left right
    rw [greater, decide_eq_true_iff]
    exact hanswers calls left right

/-- Whatever the callback answers, a list with any items is sorted by comparing
each two of its nodes, and its links stay as they are. -/
theorem list_sorts (hlist : ListInHeap target state list nodes) (hne : nodes ≠ [])
    (compareItemsFcn : CompareItems) (depth : Nat) :
    ∃ after,
      (countedSort target list compareItemsFcn).run depth state =
        .done (nodes.length * (nodes.length - 1) / 2) depth after ∧
      (tbxListSortItems target list (some compareItemsFcn)).run depth state =
        .done () depth after ∧
      SortsList target state after list nodes compareItemsFcn := by
  have hcells := hlist.listCells
  have hheader := hcells.apart.ne_null list List.mem_cons_self
  have hspec : (countedSort target list compareItemsFcn).Returns state _ :=
    countedSort_spec (.refl state list nodes) hcells hne
  obtain ⟨_, after, hrun, rfl, cells, hedited, hwritten, hitems⟩ := hspec.run depth
  refine ⟨after, hrun, ?_, hedited.sortsList hlist hwritten hitems⟩
  rw [tbxListSortItems_eq hheader, run_bind, hrun]
  rfl

/-- A list with an item twice, and another one between. -/
def sortedCalls : List ListCall :=
  [.on 4224 (.insertItemFront 5), .on 4224 (.insertItemFront 3), .on 4224 (.insertItemFront 5),
    .create]

instance descends_isStrictWeakOrder : IsStrictWeakOrder Nat (· > ·) where
  irrefl := fun left => Nat.lt_irrefl left
  trans := fun _ _ _ hleft hright => Nat.lt_trans hright hleft
  incomp_trans := fun _ _ _ hleft hright => by omega

/-- Three comparisons sort the items upwards. -/
theorem list_sorts_ascending : ∃ history state nodes after,
    (listInterface linux64).Run history state ∧ history.map Exchange.request = sortedCalls ∧
      itemsOf (cellsOf linux64 state.mem) nodes = [5, 3, 5] ∧
      (countedSort linux64 4224 ascending).run 0 state = .done 3 0 after ∧
      SortsList linux64 state after 4224 nodes ascending ∧
      itemsOf (cellsOf linux64 after.mem) nodes = [3, 5, 5] := by
  -- Where the three nodes lie, and what they hold.
  have hexecutes : ((listInterface linux64).execute sortedCalls).map (fun outcome =>
      let cells := cellsOf linux64 outcome.2.mem
      decide (4224 ∈ liveLists outcome.1 ∧ cells 4224 TbxList.firstNodePtr = 4320 ∧
        [4320, 4272, 4176].map (cells · ListNode.nextNodePtr) = [4272, 4176, null] ∧
        itemsOf cells [4320, 4272, 4176] = [5, 3, 5])) = some true := by
    decide +kernel
  obtain ⟨history, state, hrun, hrequests, hchecks⟩ := Interface.execute_map hexecutes
  obtain ⟨hlive, hfirst, hnext, hitems⟩ := of_decide_eq_true hchecks
  have hsound : ∀ request ∈ history.map Exchange.request, request.BlockSize linux64.Sound := by
    rw [hrequests]
    decide
  obtain ⟨owner, views, lists, hat⟩ := RunAt.of_run hrun (List.forall_mem_map.mp hsound)
  obtain ⟨view, hview, hheader⟩ := List.mem_map.mp (hat.live.mem_iff.mpr hlive)
  have hlist := hat.memory.inHeap hview
  rw [hheader] at hlist
  have hlinked : Chain.Linked (cellsOf linux64 state.mem · ListNode.nextNodePtr) null
      (cellsOf linux64 state.mem 4224 TbxList.firstNodePtr) [4320, 4272, 4176] := by
    simp only [List.map_cons, List.map_nil, List.cons.injEq] at hnext
    obtain ⟨hsecond, hthird, hlast, -⟩ := hnext
    simp [Chain.linked_cons, Chain.linked_nil, hfirst, hsecond, hthird, hlast]
  have hnodes := hlist.shape.links.forward.unique hlinked
  rw [hnodes] at hlist
  obtain ⟨after, hcounted, -, hsorts⟩ := list_sorts hlist (List.cons_ne_nil _ _) ascending 0
  refine ⟨history, state, _, after, hrun, hrequests, hitems, hcounted, hsorts, ?_⟩
  have hanswers : ∀ calls left right, ascending calls left right = tbxTrue ↔ left > right := by
    intro calls left right
    unfold ascending
    split <;> simp [tbxTrue, *]
  have hsorted := hsorts.sorted (· > ·) descends_isStrictWeakOrder hanswers
  have hperm := hsorts.perm
  rw [hitems] at hperm
  have hswap : [5, 3, 5].Perm [3, 5, 5] := .swap 3 5 [5]
  exact (hperm.trans hswap).eq_of_pairwise
    (fun _ _ _ _ hle hge => Nat.le_antisymm (Nat.not_lt.mp hle) (Nat.not_lt.mp hge))
    hsorted (by decide)

end MicroTbx

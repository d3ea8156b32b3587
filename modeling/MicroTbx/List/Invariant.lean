import MicroTbx.List.Walks
import MicroTbx.MemPool.Conservation
import MicroTbx.MemPool.Quiet

/-! # The invariant of the list module

The headers and nodes of all lists are blocks that the pools have handed out,
each to one list or to the application. A list owns the cells of its own
blocks, so that whatever is done to one of them leaves the others as they
are: to edit a list its blocks are taken from it, the cells are written, and
the blocks are divided anew.
-/

namespace MicroTbx

open Program

/-- A list as the invariant sees it. -/
structure ListView where
  header : Nat
  nodes : List Nat

namespace ListView

/-- The blocks of a list. -/
def blocks (view : ListView) : List Nat := view.header :: view.nodes

end ListView

/-- The blocks of several lists. -/
def blocksOf (lists : List ListView) : List Nat := lists.flatMap ListView.blocks

/-- The sequences that memory holds in lists. -/
def sequencesOf (cells : Cells) : List ListView → Sequences
  | [] => fun _ => none
  | view :: lists =>
      Function.update (sequencesOf cells lists) view.header (some (itemsOf cells view.nodes))

/-- The data of a block in which an object of the module fits. -/
def Holds (target : Target) (owner : Ownership) (data : Nat) : Prop :=
  ∃ size block, data = target.field block 1 ∧
    ∀ i < 3, owner (target.field data i) = some (size, .data block i)

/-- The state holds lists, and the application holds the other blocks that are
handed out. -/
structure ListsAt (target : Target) (owner : Ownership) (views : List PoolView)
    (lists : List ListView) (app : List Nat) (state : State) : Prop where
  pools : PoolsAt target owner views state
  shape : ∀ view ∈ lists, ListShape (cellsOf target state.mem) view.header view.nodes
  holds : ∀ data ∈ blocksOf lists, Holds target owner data
  out : (handedOut state.log).Perm (blocksOf lists ++ app)

variable {target : Target} {owner larger : Ownership} {views others : List PoolView}
  {lists rest : List ListView} {view : ListView} {app : List Nat} {state after middle : State}
  {list node data : Nat} {nodes objects touched : List Nat} {cells : Cells}

@[simp] theorem blocksOf_nil : blocksOf [] = [] := rfl

@[simp] theorem blocksOf_cons :
    blocksOf (view :: lists) = view.header :: (view.nodes ++ blocksOf lists) := rfl

theorem blocksOf_perm (hperm : lists.Perm rest) : (blocksOf lists).Perm (blocksOf rest) :=
  hperm.flatMap_right _

theorem mem_blocksOf (hview : view ∈ lists) (hdata : data ∈ view.blocks) :
    data ∈ blocksOf lists := List.mem_flatMap.mpr ⟨view, hview, hdata⟩

/-- Cells with the same values in the blocks of lists. -/
def SameCells (cells other : Cells) (lists : List ListView) : Prop :=
  ∀ data ∈ blocksOf lists, ∀ i < 3, other data i = cells data i

namespace SameCells

variable {other : Cells}

theorem refl (cells : Cells) (lists : List ListView) : SameCells cells cells lists :=
  fun _ _ _ _ => rfl

theorem trans {third : Cells} (hfirst : SameCells cells other lists)
    (hnext : SameCells other third lists) : SameCells cells third lists :=
  fun data hdata i hi => (hnext data hdata i hi).trans (hfirst data hdata i hi)

theorem of_view (hsame : SameCells cells other lists) (hview : view ∈ lists) :
    ∀ data ∈ view.blocks, ∀ i < 3, other data i = cells data i :=
  fun data hdata => hsame data (mem_blocksOf hview hdata)

theorem shape (hsame : SameCells cells other lists) (hview : view ∈ lists)
    (hshape : ListShape cells view.header view.nodes) :
    ListShape other view.header view.nodes :=
  hshape.congr (hsame.of_view hview view.header List.mem_cons_self)
    (fun node hnode => hsame.of_view hview node (List.mem_cons_of_mem _ hnode) _ (by norm_num))
    fun node hnode => hsame.of_view hview node (List.mem_cons_of_mem _ hnode) _ (by norm_num)

theorem items (hsame : SameCells cells other lists) (hview : view ∈ lists) :
    itemsOf other view.nodes = itemsOf cells view.nodes :=
  itemsOf_congr fun node hnode =>
    hsame.of_view hview node (List.mem_cons_of_mem _ hnode) _ (by norm_num)

theorem sequences (hsame : SameCells cells other lists) :
    sequencesOf other lists = sequencesOf cells lists := by
  induction lists with
  | nil => rfl
  | cons view lists ih =>
      have hrest : SameCells cells other lists := fun data hdata =>
        hsame data (List.mem_append_right _ hdata)
      rw [sequencesOf, sequencesOf, ih hrest, hsame.items List.mem_cons_self]

end SameCells

/-! ## Blocks that hold objects -/

namespace Holds

theorem mono (hholds : Holds target owner data)
    (hlarger : ∀ address part, owner address = some part → larger address = some part) :
    Holds target larger data := by
  obtain ⟨size, block, hdata, howner⟩ := hholds
  exact ⟨size, block, hdata, fun i hi => hlarger _ _ (howner i hi)⟩

theorem ne_null {allocated : Nat} (hholds : Holds target owner data)
    (hheap : PoolHeap target owner allocated views) : data ≠ null := by
  obtain ⟨size, block, -, howner⟩ := hholds
  exact hheap.ne_null (howner 0 (by norm_num))

theorem inside {allocated : Nat} (hholds : Holds target owner data)
    (hheap : PoolHeap target owner allocated views) :
    target.heapBase ≤ data ∧ data < target.heapBase + allocated := by
  obtain ⟨size, block, -, howner⟩ := hholds
  have hinside := hheap.inside _ _ (howner 0 (by norm_num))
  have hword := target.word_pos
  rw [Target.field_zero] at hinside
  omega

/-- Cells of such blocks are apart. -/
theorem field_inj {other i j : Nat} (hholds : Holds target owner data)
    (hother : Holds target owner other) (hi : i < 3) (hj : j < 3)
    (heq : target.field data i = target.field other j) : data = other ∧ i = j := by
  obtain ⟨size, block, rfl, howner⟩ := hholds
  obtain ⟨otherSize, otherBlock, rfl, hotherOwner⟩ := hother
  have hsame := howner i hi
  rw [heq, hotherOwner j hj] at hsame
  simp only [Option.some.injEq, Prod.mk.injEq, Part.data.injEq] at hsame
  exact ⟨by rw [hsame.2.1], hsame.2.2.symm⟩

theorem apart {allocated : Nat} (hheap : PoolHeap target owner allocated views)
    (hobjects : ∀ data ∈ objects, Holds target owner data) : Apart target objects where
  ne_null := fun data hdata => (hobjects data hdata).ne_null hheap
  field_inj := fun left hleft right hright _ hi _ hj =>
    (hobjects left hleft).field_inj (hobjects right hright) hi hj

end Holds

/-! ## What the log shows -/

/-- Every list node dereferenced behind a point of the log was not `NULL`,
handed out at the time, and one of the allowed. -/
def NodesSafe (allowed : Nat → Prop) (before after : List Event) : Prop :=
  ∀ node earlier, .nodeAccess node :: earlier <:+ after → before <:+ earlier →
    node ≠ null ∧ node ∈ handedOut earlier ∧ allowed node

/-- The log grew, by safe accesses to list nodes and other events. -/
structure Traced (allowed : Nat → Prop) (state after : State) : Prop where
  grows : state.log <:+ after.log
  safe : NodesSafe allowed state.log after.log

namespace Traced

variable {allowed more : Nat → Prop}

theorem of_log_eq (hlog : after.log = state.log) : Traced allowed state after where
  grows := by rw [hlog]
  safe := by
    intro node earlier hafter hbefore
    have hlength := hafter.length_le
    have hle := hbefore.length_le
    rw [hlog, List.length_cons] at hlength
    omega

theorem trans (hfirst : Traced allowed state middle) (hnext : Traced allowed middle after) :
    Traced allowed state after where
  grows := hfirst.grows.trans hnext.grows
  safe := by
    intro node earlier hafter hbefore
    -- The access lies before or behind the point in between.
    rcases Nat.lt_or_ge earlier.length middle.log.length with hshort | hlong
    · exact hfirst.safe node earlier
        (List.suffix_of_suffix_length_le hafter hnext.grows hshort) hbefore
    · refine hnext.safe node earlier hafter ?_
      exact List.suffix_of_suffix_length_le hnext.grows
        ((List.suffix_cons _ _).trans hafter) hlong

theorem mono (htraced : Traced allowed state after) (himp : ∀ node, allowed node → more node) :
    Traced more state after where
  grows := htraced.grows
  safe := fun node earlier hafter hbefore =>
    (htraced.safe node earlier hafter hbefore).imp_right fun hsafe => hsafe.imp_right (himp node)

theorem of_quiet (hquiet : Quiet state after) : Traced allowed state after := by
  obtain ⟨events, hlog, hnone⟩ := hquiet
  refine ⟨hlog ▸ List.suffix_append _ _, fun node earlier hafter hbefore => ?_⟩
  rw [hlog] at hafter
  obtain ⟨later, hlater⟩ := hafter
  obtain ⟨between, rfl⟩ := hbefore
  rw [← List.cons_append, ← List.append_assoc, List.append_left_inj] at hlater
  exact absurd (hlater ▸ List.mem_append_right _ List.mem_cons_self) (hnone node)

end Traced

theorem handedOut_accesses (visited : List Nat) (log : List Event) :
    handedOut (visited.map Event.nodeAccess ++ log) = handedOut log := by
  induction visited with
  | nil => rfl
  | cons node visited ih => exact ih

theorem asserted_accesses (visited : List Nat) (log : List Event) :
    asserted (visited.map Event.nodeAccess ++ log) = asserted log := by
  induction visited with
  | nil => rfl
  | cons node visited ih => exact ih

theorem blocksAdded_accesses (size : Nat) (visited : List Nat) (log : List Event) :
    blocksAdded size (visited.map Event.nodeAccess ++ log) = blocksAdded size log := by
  induction visited with
  | nil => rfl
  | cons node visited ih => exact ih

/-- While nothing is allocated or released, accesses to blocks that are handed
out are safe. -/
theorem Traced.of_accesses {allowed : Nat → Prop} {visited : List Nat}
    (hlog : after.log = visited.map Event.nodeAccess ++ state.log)
    (hvisited : ∀ node ∈ visited, node ≠ null ∧ node ∈ handedOut state.log ∧ allowed node) :
    Traced allowed state after := by
  refine ⟨hlog ▸ List.suffix_append _ _, fun node earlier hafter hbefore => ?_⟩
  rw [hlog] at hafter
  obtain ⟨later, hlater⟩ := hafter
  obtain ⟨between, rfl⟩ := hbefore
  rw [← List.cons_append, ← List.append_assoc, List.append_left_inj] at hlater
  obtain ⟨front, back, rfl, -, hback⟩ := List.map_eq_append_iff.mp hlater.symm
  obtain ⟨visited, rest, rfl, hnode, rfl⟩ := List.map_eq_cons_iff.mp hback
  obtain rfl : visited = node := Event.nodeAccess.inj hnode
  rw [handedOut_accesses]
  exact hvisited visited (List.mem_append_right _ List.mem_cons_self)

/-! ## Editing a list -/

namespace Edited

theorem handedOut_eq (hedited : Edited target list nodes state after cells) :
    handedOut after.log = handedOut state.log := by
  obtain ⟨visited, -, hlog⟩ := hedited.log
  rw [hlog, handedOut_accesses]

theorem blocksAdded_eq (hedited : Edited target list nodes state after cells) (size : Nat) :
    blocksAdded size after.log = blocksAdded size state.log := by
  obtain ⟨visited, -, hlog⟩ := hedited.log
  rw [hlog, blocksAdded_accesses]

theorem asserted_eq (hedited : Edited target list nodes state after cells) :
    asserted after.log = asserted state.log := by
  obtain ⟨visited, -, hlog⟩ := hedited.log
  rw [hlog, asserted_accesses]

theorem traced {allowed : Nat → Prop} (hedited : Edited target list nodes state after cells)
    (hnodes : ∀ node ∈ nodes, node ≠ null ∧ node ∈ handedOut state.log ∧ allowed node) :
    Traced allowed state after := by
  obtain ⟨visited, hvisited, hlog⟩ := hedited.log
  exact .of_accesses hlog fun node hnode => hnodes node (hvisited node hnode)

/-- The pools do not depend on the cells of lists. -/
theorem pools (hedited : Edited target list nodes state after cells)
    (hpools : PoolsAt target owner views state)
    (hholds : ∀ data ∈ list :: nodes, Holds target owner data) :
    PoolsAt target owner views after where
  list := by
    rw [hedited.poolList]
    refine hpools.list.frame hpools.heap.placed fun address size part howner hnot => ?_
    refine hedited.frame address fun pointer hpointer i hi heq => ?_
    obtain ⟨_, _, -, hcell⟩ := hholds pointer hpointer
    rw [heq, hcell i hi] at howner
    cases howner
    exact hnot trivial
  heap := by
    rw [hedited.allocated]
    exact hpools.heap
  log := by
    obtain ⟨visited, -, hlog⟩ := hedited.log
    obtain ⟨hout, hadded, helsewhere, hreserved⟩ := hpools.log
    rw [hlog]
    refine ⟨?_, fun view hview => ?_, fun size hsize => ?_, fun view hview block hblock => ?_⟩
    · rw [handedOut_accesses]
      exact hout
    · rw [blocksAdded_accesses]
      exact hadded view hview
    · rw [blocksAdded_accesses]
      exact helsewhere size hsize
    · exact List.mem_append_right _ (hreserved view hview block hblock)

end Edited

namespace ListsAt

/-- No block has two holders. -/
theorem nodup (hlists : ListsAt target owner views lists app state) :
    (blocksOf lists ++ app).Nodup :=
  hlists.out.nodup_iff.mp hlists.pools.handedOut_nodup

theorem perm (hlists : ListsAt target owner views lists app state) (hperm : lists.Perm rest) :
    ListsAt target owner views rest app state where
  pools := hlists.pools
  shape := fun view hview => hlists.shape view (hperm.mem_iff.mpr hview)
  holds := fun data hdata => hlists.holds data ((blocksOf_perm hperm).mem_iff.mpr hdata)
  out := hlists.out.trans ((blocksOf_perm hperm).append_right _)

/-- The blocks of a list are taken from it. -/
theorem forget (hlists : ListsAt target owner views (view :: lists) app state) :
    ListsAt target owner views lists (view.blocks ++ app) state where
  pools := hlists.pools
  shape := fun other hother => hlists.shape other (List.mem_cons_of_mem _ hother)
  holds := fun data hdata => hlists.holds data (List.mem_append_right _ hdata)
  out := by
    refine hlists.out.trans ?_
    rw [← List.append_assoc]
    exact List.perm_append_comm.append_right _

/-- The lists depend on their own cells only. -/
theorem sameCells {app' : List Nat} (hlists : ListsAt target owner views lists app state)
    (hpools : PoolsAt target larger others after)
    (howners : ∀ address part, owner address = some part → larger address = some part)
    (hsame : SameCells (cellsOf target state.mem) (cellsOf target after.mem) lists)
    (hout : (handedOut after.log).Perm (blocksOf lists ++ app')) :
    ListsAt target larger others lists app' after where
  pools := hpools
  shape := fun _ hview => hsame.shape hview (hlists.shape _ hview)
  holds := fun data hdata => (hlists.holds data hdata).mono howners
  out := hout

/-- Pool functions keep the lists, whatever they do with other blocks. -/
theorem kept {app' : List Nat} (hlists : ListsAt target owner views lists app state)
    (hpools : PoolsAt target larger others after) (hkept : Kept owner larger state after)
    (hout : (handedOut after.log).Perm (blocksOf lists ++ app')) :
    ListsAt target larger others lists app' after ∧
      SameCells (cellsOf target state.mem) (cellsOf target after.mem) lists := by
  have hsame : SameCells (cellsOf target state.mem) (cellsOf target after.mem) lists := by
    intro data hdata i hi
    obtain ⟨_, _, -, howner⟩ := hlists.holds data hdata
    exact hkept.data _ _ _ (howner i hi) trivial
  exact ⟨hlists.sameCells hpools hkept.owners hsame hout, hsame⟩

/-- The cells of blocks taken from the lists are edited, and become a list
again with some of the blocks. -/
theorem edit {pool : List Nat} (hlists : ListsAt target owner views lists pool state)
    (hedited : Edited target list touched state after cells)
    (hpool : ∀ data ∈ list :: touched, data ∈ pool)
    (hholds : ∀ data ∈ list :: touched, Holds target owner data)
    (hshape : ListShape cells list nodes) (hnodes : ∀ node ∈ nodes, node ∈ touched)
    (hperm : pool.Perm (list :: nodes ++ app)) :
    ListsAt target owner views (⟨list, nodes⟩ :: lists) app after ∧
      SameCells (cellsOf target state.mem) (cellsOf target after.mem) lists ∧
      SameCells cells (cellsOf target after.mem) [⟨list, nodes⟩] := by
  have hblocks : ∀ data ∈ list :: nodes, data ∈ list :: touched := by
    intro data hdata
    rcases List.mem_cons.mp hdata with rfl | hnode
    · exact List.mem_cons_self
    · exact List.mem_cons_of_mem _ (hnodes data hnode)
  have hothers : SameCells (cellsOf target state.mem) (cellsOf target after.mem) lists := by
    intro data hdata i hi
    refine hedited.frame _ fun pointer hpointer j hj heq => ?_
    have hne := (List.nodup_append.mp hlists.nodup).2.2 data hdata pointer
      (hpool pointer hpointer)
    exact hne ((hlists.holds data hdata).field_inj (hholds pointer hpointer) hi hj heq).1
  have hself : SameCells cells (cellsOf target after.mem) [⟨list, nodes⟩] := by
    intro data hdata i hi
    rw [blocksOf_cons, blocksOf_nil, List.append_nil] at hdata
    exact hedited.cells data (hblocks data hdata) i hi
  refine ⟨⟨hedited.pools hlists.pools hholds, ?_, ?_, ?_⟩, hothers, hself⟩
  · refine List.forall_mem_cons.mpr ⟨?_, fun view hview => ?_⟩
    · exact hself.shape List.mem_cons_self hshape
    · exact hothers.shape hview (hlists.shape view hview)
  · intro data hdata
    rcases List.mem_append.mp (show data ∈ (list :: nodes) ++ blocksOf lists from hdata)
      with hown | hother
    · exact hholds data (hblocks data hown)
    · exact hlists.holds data hother
  · rw [hedited.handedOut_eq]
    refine hlists.out.trans ((hperm.append_left _).trans ?_)
    rw [← List.append_assoc]
    exact List.perm_append_comm.append_right _

/-- A list can be worked on. -/
theorem listCells (hlists : ListsAt target owner views lists app state) (hview : view ∈ lists) :
    ListCells target (cellsOf target state.mem) view.header view.nodes := by
  have hholds : ∀ data ∈ view.blocks, Holds target owner data := fun data hdata =>
    hlists.holds data (mem_blocksOf hview hdata)
  have hnodup : view.blocks.Nodup :=
    (List.nodup_flatMap.mp (List.nodup_append.mp hlists.nodup).1).1 view hview
  obtain ⟨hlist, hnodes⟩ := List.nodup_cons.mp hnodup
  refine ⟨Holds.apart hlists.pools.heap hholds, hlists.shape view hview, hlist, ?_⟩
  refine length_lt_loopFuel hnodes (fun node hnode => ?_) hlists.pools.heap.allocated_le
  exact (hholds node (List.mem_cons_of_mem _ hnode)).inside hlists.pools.heap

end ListsAt

end MicroTbx

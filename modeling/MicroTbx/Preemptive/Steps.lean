import MicroTbx.Preemptive.World
import MicroTbx.List.Sections
import MicroTbx.List.Peak
import MicroTbx.MemPool.Supply

/-! # What sections do to worlds

Each section and each step outside of sections is specified by the world that
it leads to. The pool functions and the steps on a node in hand leave the lists
alone, and only linking and unlinking a node change one of them.
-/

namespace MicroTbx

open Program

variable {Context : Type} {target : Target} {context : Context} {request : ListCall}
  {world : World Context} {owner : Ownership} {views : List PoolView} {lists rest : List ListView}
  {view : ListView} {app : List Nat} {state after : State} {size data node item index value : Nat}
  {front back : List Nat} {facts : Nat → Option Nat} {cells : Cells}

variable (target context request world) in
/-- The worlds that a step of a context leads to while the lists stay as they
are. -/
structure Advances (after : State) (next : World Context) : Prop where
  moves : Moves target context (.stepped request world.state next.state) world next
  keeps : KeepsLists target world next
  state : next.state = after

variable (target context request world rest view) in
/-- The worlds that a step of a context leads to when one list gets other
nodes. -/
structure Relinks (nodes : List Nat) (after : State) (next : World Context) : Prop where
  moves : Moves target context (.stepped request world.state next.state) world next
  lists : next.lists = ⟨view.header, nodes⟩ :: rest
  rest : SameCells (cellsOf target world.state.mem) (cellsOf target next.state.mem) rest
  state : next.state = after

/-- The members of a node that is initialized for an item. -/
def initialized (item : Nat) : Nat → Option Nat
  | 0 => some item
  | 1 | 2 => some null
  | _ => none

/-- The application's blocks are a multiset. -/
theorem ListsAt.perm_app {app' : List Nat} (hlists : ListsAt target owner views lists app state)
    (hperm : app.Perm app') : ListsAt target owner views lists app' state :=
  { hlists with out := hlists.out.trans (hperm.append_left _) }

/-- A node with cleared links is ready to be linked. -/
theorem ListsAt.ready (hlists : ListsAt target owner views (view :: rest) (node :: app) state)
    (hholds : Holds target owner node)
    (hprev : cellsOf target state.mem node ListNode.prevNodePtr = null)
    (hnext : cellsOf target state.mem node ListNode.nextNodePtr = null) :
    Ready target (cellsOf target state.mem) view.header node view.nodes := by
  obtain ⟨hall, hnodup⟩ := hlists.objects hholds
  have hlength : (node :: view.nodes).length < target.loopFuel := by
    refine length_lt_loopFuel (List.nodup_cons.mp hnodup).2 (fun data hdata => ?_)
      hlists.pools.heap.allocated_le
    exact (hall data (List.mem_cons_of_mem _ hdata)).inside hlists.pools.heap
  refine ⟨Holds.apart hlists.pools.heap hall, hlists.shape view List.mem_cons_self, hnodup, hprev,
    hnext, ?_⟩
  have hsize := target.heapSize_lt
  rw [List.length_cons, Target.loopFuel] at hlength
  omega

/-- A block of which there are fewer handed out than added is spare. -/
theorem PoolsAt.stocked_of_spare (hpools : PoolsAt target owner views state)
    (hspare : ¬ AllAllocated target size state) :
    ∃ view ∈ views, view.blockSize = size ∧ view.Stocked := by
  by_contra hnone
  apply hspare
  apply hpools.allAllocated
  exact fun view hview hsize hstocked => hnone ⟨view, hview, hsize, hstocked⟩

/-- The number of nodes is that of the list that it belongs to. -/
theorem nodeCount_eq (hshared : world.Shared target)
    (hview : view ∈ world.lists) :
    world.state.mem (target.field view.header TbxList.nodeCount) = view.nodes.length :=
  (hshared.memory.shape view hview).count

/-- A creation of one block is told by the blocks that were added. -/
theorem Creates.ok_iff_added {larger : Ownership} {others : List PoolView} {status : Status}
    (hcreates : Creates target owner views state 1 size status larger others after)
    (hpools : PoolsAt target owner views state) (hgrows : state.log <:+ after.log) :
    status = .ok ↔ blocksAdded size after.log ≠ blocksAdded size state.log := by
  obtain ⟨made, hle, hok, hlength⟩ := hcreates.length_blocksAdded_size hpools Nat.one_pos
  rw [hok]
  constructor
  · intro hmade heq
    rw [heq, hmade] at hlength
    omega
  · intro hne
    by_contra hnone
    apply hne (blocksAdded_eq hgrows _)
    omega

namespace World.Shared

variable (hshared : world.Shared target) (context request)
include hshared

/-! ## Pool functions -/

/-- A block is taken, or the request is refused. -/
theorem allocate_cases (hsize : 0 < size) :
    (tbxMemPoolAllocate target size).Returns world.state fun data after => ∃ next,
      Advances target context request world after next ∧
      ((¬ BestFit.Serves PoolView.blockSize PoolView.Stocked world.views size ∧ data = null ∧
          Still world next ∧ after = world.state) ∨
        (Takes target world.views world.state size data next.views after ∧
          next.owner = world.owner ∧ next.app = data :: world.app ∧
          next.holder data = some context ∧ world.holder data ≠ some context ∧
          ∀ block, world.holder block = some context → next.holder block = some context)) := by
  apply (hshared.memory.pools.allocate hsize).mono
  rintro data after (⟨-, others, htakes⟩ | ⟨hrefused, rfl, rfl⟩)
  · obtain ⟨-, hkept, -, -⟩ := htakes.pools hshared.memory.pools
    obtain ⟨hlists, hsame⟩ := htakes.listsAt hshared.memory
    obtain ⟨hmoves, hdata, hfresh, hheld⟩ :=
      hshared.moves_take context request hlists hkept
    exact ⟨world.stepped context request after _ _ _ _ _, ⟨hmoves, ⟨rfl, hsame⟩, rfl⟩,
      .inr ⟨htakes, rfl, rfl, hdata, hfresh, hheld⟩⟩
  · exact ⟨world.stepped context request world.state _ _ _ _ _,
      ⟨hshared.moves_pool context request hshared.memory .refl, ⟨rfl, .refl _ _⟩, rfl⟩,
      .inl ⟨hrefused, rfl, ⟨rfl, rfl, rfl, rfl⟩, rfl⟩⟩

theorem allocate (hsize : 0 < size) :
    (tbxMemPoolAllocate target size).Returns world.state fun data after => ∃ next,
      Advances target context request world after next ∧
      (∀ block, world.holder block = some context → next.holder block = some context) ∧
      (∀ other, blocksAdded other after.log = blocksAdded other world.state.log) ∧
      ((data = null ∧ AllAllocated target size world.state) ∨
        (data ≠ null ∧ next.holder data = some context ∧ world.holder data ≠ some context ∧
          (size = 3 * target.word → Holds target next.owner data))) := by
  have hpools := hshared.memory.pools
  apply (hshared.allocate_cases context request hsize).mono
  rintro data after ⟨next, hadvances, ⟨hrefused, rfl, hsame, rfl⟩ |
    ⟨htakes, howner, -, hdata, hfresh, hheld⟩⟩
  · refine ⟨next, hadvances, fun _ hblock => hsame.holder ▸ hblock, fun _ => rfl, .inl ⟨rfl, ?_⟩⟩
    apply hpools.allAllocated
    intro view hview hviewSize hstocked
    exact hrefused (serves_of_stocked hpools.list.ascending hview hviewSize hstocked)
  · have hne := htakes.ne_null hpools
    have hholds : size = 3 * target.word → Holds target next.owner data := by
      rintro rfl
      exact howner ▸ htakes.holds hpools
    refine ⟨next, hadvances, hheld, fun other => ?_, .inr ⟨hne, hdata, hfresh, hholds⟩⟩
    generalize next.views = others at htakes
    obtain ⟨split, fit, free⟩ := htakes
    rfl

/-- The pools grow, and nothing else changes. -/
theorem create_cases (hsize : 0 < size) (hsound : target.Sound size) :
    (tbxMemPoolCreate target 1 size).Returns world.state fun status after => ∃ next,
      Advances target context request world after next ∧
        Creates target world.owner world.views world.state 1 size status next.owner next.views
          after ∧ next.app = world.app ∧ next.holder = world.holder ∧
        (status = .ok ↔ blocksAdded size after.log ≠ blocksAdded size world.state.log) := by
  apply (hshared.memory.pools.create_onward Nat.one_pos hsize hsound).mono
  rintro status after ⟨⟨larger, others, hcreates⟩, honward⟩
  obtain ⟨-, hkept, -, -⟩ := hcreates.pools hshared.memory.pools
  obtain ⟨hlists, hsame⟩ := hcreates.listsAt hshared.memory
  exact ⟨world.stepped context request after _ _ _ _ _,
    ⟨hshared.moves_pool context request hlists hkept, ⟨rfl, hsame⟩, rfl⟩, hcreates, rfl, rfl,
    hcreates.ok_iff_added hshared.memory.pools honward.grows⟩

theorem create (hsize : 0 < size) (hsound : target.Sound size) :
    (tbxMemPoolCreate target 1 size).Returns world.state fun status after => ∃ next,
      Advances target context request world after next ∧ next.holder = world.holder ∧
      ((status = .ok ∧ ¬ AllAllocated target size after ∧
          blocksAdded size after.log ≠ blocksAdded size world.state.log) ∨
        (status = .error ∧ blocksAdded size after.log = blocksAdded size world.state.log)) := by
  have hpools := hshared.memory.pools
  apply (hshared.create_cases context request hsize hsound).mono
  rintro status after ⟨next, hadvances, hcreates, -, hholder, hadded⟩
  refine ⟨next, hadvances, hholder, ?_⟩
  cases status with
  | ok =>
      obtain ⟨view, hview, rfl, hstocked⟩ := hcreates.ok_stocked Nat.one_pos
      exact .inl ⟨rfl, (hcreates.pools hpools).1.not_allAllocated hview hstocked, hadded.mp rfl⟩
  | error => exact .inr ⟨rfl, not_not.mp fun hne => Status.noConfusion (hadded.mpr hne)⟩

/-- A block in hand is given back to its pool. -/
theorem release_cases (hdata : world.holder data = some context) :
    (tbxMemPoolRelease target data).Returns world.state fun _ after => ∃ next,
      Advances target context request world after next ∧
      GivesBack target world.views world.state data next.views after ∧
      next.app = world.app.erase data ∧
      ∀ other, other ≠ data → next.holder other = world.holder other := by
  apply (hshared.memory.givesBack (hshared.held data context hdata)).mono
  rintro _ after ⟨others, hgives, hlists, hkept, hsame⟩
  obtain ⟨hmoves, hother⟩ := hshared.moves_give request hlists hkept hdata
  exact ⟨world.stepped context request after _ _ _ _ _, ⟨hmoves, ⟨rfl, hsame⟩, rfl⟩, hgives, rfl,
    hother⟩

theorem release (hdata : world.holder data = some context) :
    (tbxMemPoolRelease target data).Returns world.state fun _ after => ∃ next,
      Advances target context request world after next ∧
      ∀ other, other ≠ data → next.holder other = world.holder other :=
  (hshared.release_cases context request hdata).mono
    fun _ _ ⟨next, hadvances, _, _, hother⟩ => ⟨next, hadvances, hother⟩

/-- A section that only reads. -/
theorem reads : ∃ next, Advances target context request world world.state next ∧
    next.holder = world.holder :=
  ⟨world.stepped context request world.state _ _ _ _ _,
    ⟨hshared.moves_pool context request hshared.memory .refl, ⟨rfl, .refl _ _⟩, rfl⟩, rfl⟩

theorem findPool : (MicroTbx.findPool target size).Returns world.state fun _ after =>
    after = world.state ∧ ∃ next,
      Advances target context request world after next ∧ next.holder = world.holder := by
  intro depth
  simp only [MicroTbx.findPool, wp_bind_eq, wp_enterCritical, wp_read,
    hshared.memory.pools.findLoop.wp_iff]
  exact wp_leaveCritical.mpr ⟨rfl, rfl, hshared.reads context request⟩

/-- A failed parameter check is a step of its own. -/
theorem rejected (site : Site) : ∃ next,
    Advances target context request world (world.state.rejected site) next ∧
      next.holder = world.holder := by
  have hkept : Kept world.owner world.owner world.state (world.state.rejected site) :=
    ⟨fun _ _ howner => howner, fun _ _ _ _ _ => rfl, fun _ hevent => List.mem_cons_of_mem _ hevent⟩
  exact ⟨world.stepped context request (world.state.rejected site) _ _ _ _ _,
    ⟨hshared.moves_pool context request (hshared.memory.rejected site) hkept,
      ⟨rfl, .refl _ _⟩, rfl⟩, rfl⟩

/-! ## A node in hand -/

theorem access (hnode : OwnsNode target context node facts world) :
    (emit (.nodeAccess node)).Returns world.state fun _ after => ∃ next,
      Advances target context request world after next ∧ Still world next ∧
      OwnsNode target context node facts next := by
  obtain ⟨hholder, hholds, hfacts⟩ := hnode
  have hedited : Edited target node [node] world.state _ (cellsOf target world.state.mem) :=
    (Edited.refl world.state node [node]).emit (List.mem_singleton.mpr rfl)
  obtain ⟨hmoves, hkeeps⟩ := hshared.moves_scribble request hholder hholds hedited
  intro depth
  exact ⟨rfl, world.stepped context request _ _ _ _ _ _, ⟨hmoves, hkeeps, rfl⟩,
    ⟨rfl, rfl, rfl, rfl⟩, hholder, hholds, hfacts⟩

theorem store (value : Nat) (hnode : OwnsNode target context node facts world)
    (hindex : index < 3) :
    (MicroTbx.store target node index value).Returns world.state fun _ after => ∃ next,
      Advances target context request world after next ∧ Still world next ∧
      OwnsNode target context node (Function.update facts index (some value)) next := by
  obtain ⟨hholder, hholds, hfacts⟩ := hnode
  have hself : ∀ pointer ∈ [node, node], Holds target world.owner pointer := by
    intro pointer hpointer
    have heq : pointer = node := by simpa using hpointer
    rwa [heq]
  have hapart := Holds.apart hshared.memory.pools.heap hself
  have hedited : Edited target node [node] world.state
      (world.state.store (target.field node index) value) _ :=
    (Edited.refl world.state node [node]).store hapart List.mem_cons_self hindex
  obtain ⟨hmoves, hkeeps⟩ := hshared.moves_scribble request hholder hholds hedited
  apply (evaluates_store (hholds.ne_null hshared.memory.pools.heap)).mono
  rintro _ after ⟨-, rfl⟩
  refine ⟨world.stepped context request _ _ _ _ _ _, ⟨hmoves, hkeeps, rfl⟩, ⟨rfl, rfl, rfl, rfl⟩,
    hholder, hholds, fun i hi known hknown => ?_⟩
  change (world.state.store (target.field node index) value).mem (target.field node i) = known
  rw [State.store_mem]
  by_cases heq : i = index
  · subst heq
    rw [Function.update_self] at hknown ⊢
    exact Option.some.inj hknown
  · rw [Function.update_of_ne heq] at hknown
    rw [Function.update_of_ne]
    · exact hfacts i hi known hknown
    · exact fun hsame => heq (hholds.field_inj hholds hi hindex hsame).2

/-! ## Lists -/

/-- Editing a list touches no block that a context holds. -/
theorem edited_cells (hview : view ∈ world.lists) {nodes : List Nat} {other : Context}
    (hedited : Edited target view.header nodes world.state after cells)
    (hnodes : ∀ touched ∈ nodes, touched ∈ view.nodes ∨
      touched ∈ world.app ∧ world.holder touched ≠ some other ∧ Holds target world.owner touched)
    (hdata : world.holder data = some other) (hholds : Holds target world.owner data) :
    ∀ i < 3, cellsOf target after.mem data i = cellsOf target world.state.mem data i := by
  intro i hi
  apply hedited.frame
  intro pointer hpointer j hj heq
  have hlist : ∀ touched ∈ view.blocks, pointer = touched → False := by
    rintro touched htouched rfl
    have hblock := mem_blocksOf hview htouched
    have hsame := (hholds.field_inj (hshared.memory.holds _ hblock) hi hj heq).1
    exact (List.nodup_append.mp hshared.memory.nodup).2.2 _ hblock data
      (hshared.held data other hdata) hsame.symm
  rcases List.mem_cons.mp hpointer with rfl | hnode
  · exact hlist _ List.mem_cons_self rfl
  · rcases hnodes pointer hnode with hin | ⟨-, hother, htouched⟩
    · exact hlist _ (List.mem_cons_of_mem _ hin) rfl
    · have hsame := (hholds.field_inj htouched hi hj heq).1
      exact hother (hsame ▸ hdata)

/-- A section that only follows the nodes of a list. -/
theorem search (hview : view ∈ world.lists)
    (hedited : Edited target view.header view.nodes world.state after
      (cellsOf target world.state.mem)) :
    (∀ size, blocksAdded size after.log = blocksAdded size world.state.log) ∧ ∃ next,
      Advances target context request world after next ∧ Still world next := by
  obtain ⟨front, back, hlists⟩ := List.append_of_mem hview
  have hperm : world.lists.Perm (view :: (front ++ back)) := hlists ▸ List.perm_middle
  obtain ⟨hmemory, ⟨hrest, -, -⟩, hself⟩ := (hshared.memory.perm hperm).edited hedited
    (hshared.memory.shape view hview)
  have hafter := hmemory.perm hperm.symm
  have hsame : SameCells (cellsOf target world.state.mem) (cellsOf target after.mem) world.lists := by
    intro block hblock
    have hmem := (blocksOf_perm hperm).mem_iff.mp hblock
    rw [blocksOf_cons, ← List.cons_append] at hmem
    rcases List.mem_append.mp hmem with hown | hother
    · exact hself block (List.mem_append_left [] hown)
    · exact hrest block hother
  refine ⟨hedited.blocksAdded_eq, world.stepped context request after world.owner world.views
    world.lists world.app world.holder, ⟨⟨rfl, ⟨rfl, rfl⟩, ⟨hafter, hshared.held⟩, fun _ _ howner => howner,
    fun _ _ _ => Iff.rfl, ?_⟩, ⟨rfl, hsame⟩, rfl⟩, ⟨rfl, rfl, rfl, hedited.allocated⟩⟩
  intro other hother block hblock hholds
  exact hshared.edited_cells hview hedited (fun touched htouched => .inl htouched) hblock hholds

theorem findListNode (hview : view ∈ world.lists) (hitem : item ≠ null) :
    (tbxListFindListNode target view.header item).Returns world.state fun result after =>
      Found (cellsOf target world.state.mem) view.nodes item result ∧
        (∀ size, blocksAdded size after.log = blocksAdded size world.state.log) ∧ ∃ next,
          Advances target context request world after next ∧ Still world next := by
  have hcells := hshared.memory.listCells hview
  apply (tbxListFindListNode_spec (.refl _ _ _) hcells hitem).mono
  exact fun result after ⟨hedited, hfound⟩ => ⟨hfound, hshared.search context request hview hedited⟩

theorem getFirstItem (hview : view ∈ world.lists) :
    (tbxListGetFirstItem target view.header).Returns world.state fun result after =>
      result = (view.items target world.state).head?.getD null ∧
        (∀ size, blocksAdded size after.log = blocksAdded size world.state.log) ∧ ∃ next,
          Advances target context request world after next ∧ Still world next := by
  have hcells := hshared.memory.listCells hview
  apply (tbxListGetFirstItem_spec (.refl _ _ _) hcells).mono
  exact fun result after ⟨hedited, hresult⟩ => ⟨hresult, hshared.search context request hview hedited⟩

theorem linkNode (hperm : world.lists.Perm (view :: rest))
    (hnode : OwnsNode target context node (initialized item) world)
    (hsplit : view.nodes = front ++ back) {link : Nat → Code Unit}
    (hlink : LinksBetween target view.header front back link) :
    (link node).Returns world.state fun _ after => ∃ next,
      Relinks target context request world rest view (front ++ node :: back) after next ∧
      itemsOf (cellsOf target after.mem) (front ++ node :: back) =
        itemsOf (cellsOf target world.state.mem) front ++ item ::
          itemsOf (cellsOf target world.state.mem) back ∧
      (∀ other, other ≠ node → next.holder other = world.holder other) ∧
      next.app = world.app.erase node ∧ next.views = world.views ∧
      next.state.tbxHeapAllocated = world.state.tbxHeapAllocated := by
  classical
  obtain ⟨hholder, hholds, hfacts⟩ := hnode
  have happ := hshared.held node context hholder
  have hlists := (hshared.memory.perm hperm).perm_app (List.perm_cons_erase happ)
  have hready := hlists.ready hholds (hfacts 1 (by norm_num) null rfl)
    (hfacts 2 (by norm_num) null rfl)
  have hitem := hfacts 0 (by norm_num) item rfl
  apply (hlists.linkNode hholds hsplit (.refl _ _ _) hready hlink).mono
  rintro _ after ⟨⟨cells, hedited⟩, hafter, hitems, hrest⟩
  have hview : view ∈ world.lists := hperm.mem_iff.mpr List.mem_cons_self
  refine ⟨world.stepped context request after world.owner world.views
    (⟨view.header, front ++ node :: back⟩ :: rest) (world.app.erase node)
    (Function.update world.holder node none), ⟨⟨rfl, ⟨rfl, rfl⟩, ⟨hafter, ?_⟩,
    fun _ _ howner => howner, ?_, ?_⟩, rfl, hrest, rfl⟩, ?_, ?_, rfl, rfl, hedited.allocated⟩
  · intro data holder hdata
    dsimp only [World.stepped] at hdata ⊢
    by_cases heq : data = node
    · subst heq
      rw [Function.update_self] at hdata
      cases hdata
    · rw [Function.update_of_ne heq] at hdata
      exact (List.mem_erase_of_ne heq).mpr (hshared.held data holder hdata)
  · intro other hother data
    dsimp only [World.stepped]
    by_cases heq : data = node
    · subst heq
      rw [Function.update_self, hholder]
      exact iff_of_false (by simp) fun hsame => hother (Option.some.inj hsame).symm
    · rw [Function.update_of_ne heq]
  · intro other hother data hdata hdataHolds
    apply hshared.edited_cells hview hedited _ hdata hdataHolds
    intro touched htouched
    rcases List.mem_cons.mp htouched with rfl | hin
    · refine .inr ⟨happ, fun hsame => ?_, hholds⟩
      exact hother (Option.some.inj (hsame.symm.trans hholder))
    · exact .inl hin
  · rw [hitems]
    exact congrArg (_ ++ · :: _) hitem
  · exact fun other heq => Function.update_of_ne heq _ _

theorem removeListNode (hperm : world.lists.Perm (view :: rest))
    (hsplit : view.nodes = front ++ node :: back) :
    (MicroTbx.removeListNode target view.header node).Returns world.state fun _ after => ∃ next,
      Relinks target context request world rest view (front ++ back) after next ∧
      itemsOf (cellsOf target after.mem) (front ++ back) =
        itemsOf (cellsOf target world.state.mem) (front ++ back) ∧
      next.holder node = some context ∧
      (∀ other, other ≠ node → next.holder other = world.holder other) ∧
      next.app = node :: world.app ∧ next.views = world.views ∧
      next.state.tbxHeapAllocated = world.state.tbxHeapAllocated := by
  classical
  have hlists := hshared.memory.perm hperm
  apply (hlists.unlinkNode hsplit (.refl _ _ _)).mono
  rintro _ after ⟨⟨cells, hedited⟩, hafter, hitems, hrest⟩
  have hview : view ∈ world.lists := hperm.mem_iff.mpr List.mem_cons_self
  have hblock : node ∈ blocksOf world.lists :=
    mem_blocksOf hview (List.mem_cons_of_mem _ (hsplit ▸ List.mem_append_cons_self))
  have hfree : ∀ holder, world.holder node ≠ some holder := by
    intro holder hholder
    exact (List.nodup_append.mp hshared.memory.nodup).2.2 node hblock node
      (hshared.held node holder hholder) rfl
  refine ⟨world.stepped context request after world.owner world.views
    (⟨view.header, front ++ back⟩ :: rest) (node :: world.app)
    (Function.update world.holder node (some context)), ⟨⟨rfl, ⟨rfl, rfl⟩, ⟨hafter, ?_⟩,
    fun _ _ howner => howner, ?_, ?_⟩, rfl, hrest, rfl⟩, hitems, Function.update_self .., ?_, rfl,
    rfl, hedited.allocated⟩
  · intro data holder hdata
    dsimp only [World.stepped] at hdata ⊢
    by_cases heq : data = node
    · exact heq ▸ List.mem_cons_self
    · rw [Function.update_of_ne heq] at hdata
      exact List.mem_cons_of_mem _ (hshared.held data holder hdata)
  · intro other hother data
    dsimp only [World.stepped]
    by_cases heq : data = node
    · subst heq
      rw [Function.update_self]
      exact iff_of_false (fun hsame => hother (Option.some.inj hsame).symm) (hfree other)
    · rw [Function.update_of_ne heq]
  · intro other hother data hdata hdataHolds
    exact hshared.edited_cells hview hedited (fun touched htouched => .inl htouched) hdata hdataHolds
  · exact fun other heq => Function.update_of_ne heq _ _

end World.Shared

end MicroTbx

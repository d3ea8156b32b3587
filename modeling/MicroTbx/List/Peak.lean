import MicroTbx.List.Refinement
import MicroTbx.MemPool.Peak

/-! # When the list functions make a block

Lists and nodes have one size and share one pool. Of the functions that work
on a list only the insertions ask for memory, each for one block, and nothing
else that a function does touches the heap or makes a block.
-/

namespace MicroTbx

open Program

/-! ## What a call asks for -/

/-- The heap and the pools stay as large as they are, and nothing is handed
out. -/
structure Steady (state after : State) : Prop where
  heap : after.tbxHeapAllocated = state.tbxHeapAllocated
  flag : after.memPoolsCreated = state.memPoolsCreated
  blocks : ∀ size, blocksAdded size after.log = blocksAdded size state.log
  out : ∀ data ∈ handedOut after.log, data ∈ handedOut state.log

/-- A call asks the pool of a size for one block, and fails if it gets none. -/
structure AsksOne (target : Target) (size : Nat) (state after : State) (failed : Prop) : Prop where
  spare : ¬ AllAllocated target size state → ¬ failed ∧
    after.tbxHeapAllocated = state.tbxHeapAllocated ∧
    blocksAdded size after.log = blocksAdded size state.log
  flag : after.memPoolsCreated = state.memPoolsCreated
  others : ∀ other, other ≠ size → blocksAdded other after.log = blocksAdded other state.log
  out : ∀ data ∈ handedOut after.log, data ∈ handedOut state.log ∨
    (blocksAdded size after.log ≠ [] → data - target.word ∈ blocksAdded size after.log)

variable {target : Target} {owner : Ownership} {views : List PoolView} {view : ListView}
  {rest : List ListView} {app : List Nat} {state before middle after : State}
  {size data item ref : Nat} {failed : Prop}

namespace Steady

theorem refl (state : State) : Steady state state := ⟨rfl, rfl, fun _ => rfl, fun _ hmem => hmem⟩

theorem trans (first second third : State) (hfirst : Steady first second)
    (hnext : Steady second third) : Steady first third where
  heap := hnext.heap.trans hfirst.heap
  flag := hnext.flag.trans hfirst.flag
  blocks := fun size => (hnext.blocks size).trans (hfirst.blocks size)
  out := fun data hmem => hfirst.out data (hnext.out data hmem)

theorem listSteps : ListSteps Steady where
  refl := refl
  store := fun _ _ _ => ⟨rfl, rfl, fun _ => rfl, fun _ hmem => hmem⟩
  assertion := fun _ _ _ => ⟨rfl, rfl, fun _ => rfl, fun _ hmem => hmem⟩
  nodeAccess := fun _ _ => ⟨rfl, rfl, fun _ => rfl, fun _ hmem => hmem⟩
  released := fun _ _ => ⟨rfl, rfl, fun _ => rfl, fun _ hmem => List.mem_of_mem_erase hmem⟩

/-- What returns from steady code has been steady. -/
theorem of_run {Value : Type} {program : Code Value} (hsteps : program.Within Steady)
    {depth final : Nat} {result : Value}
    (hrun : program.run depth state = .done result final after) : Steady state after := by
  have hsteady := hsteps.run refl trans depth state
  rwa [hrun] at hsteady

/-- Blocks that are all handed out later were so before. -/
theorem allAllocated (hsteady : Steady state after) (hfull : AllAllocated target size after) :
    AllAllocated target size state := by
  intro block hblock
  have hafter := hfull block (by rwa [hsteady.blocks])
  obtain ⟨hmem, hadded⟩ := List.mem_filter.mp hafter
  obtain ⟨data, hdata, hword⟩ := List.mem_map.mp hmem
  rw [hsteady.blocks] at hadded
  exact List.mem_filter.mpr ⟨List.mem_map.mpr ⟨data, hsteady.out data hdata, hword⟩, hadded⟩

end Steady

/-- A request between steady parts. -/
theorem Requests.asksOne (hrequests : Requests target size before data middle)
    (honward : Onward before middle) (hfirst : Steady state before) (hlast : Steady middle after)
    (hfailed : failed ↔ data = null) : AsksOne target size state after failed where
  spare := by
    intro hspare
    have hne : ¬ AllAllocated target size before := fun hfull => hspare (hfirst.allAllocated hfull)
    obtain ⟨hdata, hheap, hblocks⟩ := hrequests.spare hne
    refine ⟨fun hfails => hdata (hfailed.mp hfails), ?_, ?_⟩
    · rw [hlast.heap, hheap, hfirst.heap]
    · rw [hlast.blocks, hblocks, hfirst.blocks]
  flag := by rw [hlast.flag, honward.flag, hfirst.flag]
  others := by
    intro other hother
    rw [hlast.blocks, blocksAdded_eq honward.grows (hrequests.others other hother), hfirst.blocks]
  out := by
    intro pointer hpointer
    have hmiddle := hlast.out pointer hpointer
    rw [hrequests.out] at hmiddle
    split at hmiddle
    · exact .inl (hfirst.out pointer hmiddle)
    · next hne =>
        rcases List.mem_cons.mp hmiddle with rfl | hearlier
        · rw [hlast.blocks]
          exact .inr (hrequests.pooled hne)
        · exact .inl (hfirst.out pointer hearlier)

theorem PoolsAt.allocateGrowing_requests (hpools : PoolsAt target owner views state) :
    (allocateGrowing target (3 * target.word)).Returns state fun data after =>
      Requests target (3 * target.word) state data after ∧ Onward state after := by
  apply Returns.within _ Onward.poolSteps.within_allocateGrowing Onward.refl Onward.trans
  apply hpools.allocateGrowing_of objectSize_pos
  · exact fun data others after htakes => htakes.requests hpools
  · exact hpools.createThenAllocate_requests objectSize_pos objectSize_sound

/-! ## Insertions -/

/-- The part of an insertion from the allocation of the node on. -/
theorem insertNode_asksOne (hpools : PoolsAt target owner views before)
    (hfirst : Steady state before) {link : Nat → Code Unit}
    (hlink : ∀ node, (link node).Within Steady) {depth final : Nat} {status : Status}
    (hrun : Program.run (do
      let newListNodePtr ← newListNode target
      if newListNodePtr ≠ null then do
        initListNode target newListNodePtr item
        link newListNodePtr
        pure .ok
      else pure Status.error) depth before = .done status final after) :
    AsksOne target (3 * target.word) state after (status = .error) := by
  obtain ⟨node, between, middle, hnode, hrest⟩ := done_bind hrun
  obtain ⟨-, hrequests, honward⟩ := hpools.allocateGrowing_requests.of_run hnode
  by_cases hnull : node = null
  · rw [if_neg (not_not.mpr hnull)] at hrest
    cases hrest
    exact hrequests.asksOne honward hfirst (.refl _) (iff_of_true rfl hnull)
  · rw [if_pos hnull] at hrest
    obtain ⟨_, _, _, hinit, hrest⟩ := done_bind hrest
    obtain ⟨_, _, _, hlinked, hrest⟩ := done_bind hrest
    cases hrest
    have hlast := Steady.trans _ _ _ (.of_run Steady.listSteps.within_initListNode hinit)
      (.of_run (hlink node) hlinked)
    exact hrequests.asksOne honward hfirst hlast (iff_of_false (by simp) hnull)

namespace ListsAt

theorem insertAtEnd_asksOne (hlists : ListsAt target owner views (view :: rest) app state)
    (hitem : item ≠ null) (site : Site) {link : Nat → Nat → Code Unit}
    (hlink : ∀ node, (link view.header node).Within Steady) {depth final : Nat} {status : Status}
    (hrun : (insertAtEnd target site link view.header item).run depth state =
      .done status final after) :
    AsksOne target (3 * target.word) state after (status = .error) := by
  have hlist := hlists.entry.2.apart.ne_null view.header List.mem_cons_self
  rw [insertAtEnd, (evaluates_tbxAssert (decide_eq_true hlist)).run_bind,
    (evaluates_tbxAssert (decide_eq_true hitem)).run_bind, if_pos ⟨hlist, hitem⟩] at hrun
  exact insertNode_asksOne hlists.pools (.refl state) hlink hrun

/-- An insertion next to a reference asks for memory if it finds it. -/
theorem insertNextTo_asksOne (hlists : ListsAt target owner views (view :: rest) app state)
    (hitem : item ≠ null) (href : ref ≠ null) (site : Site) {link : Nat → Nat → Nat → Code Unit}
    (hlink : ∀ node found, (link view.header node found).Within Steady) {depth final : Nat}
    {status : Status}
    (hrun : (MicroTbx.insertNextTo target site link view.header item ref).run depth state =
      .done status final after) :
    if ref ∈ view.items target state then
      AsksOne target (3 * target.word) state after (status = .error)
    else Steady state after := by
  obtain ⟨hedited, hcells⟩ := hlists.entry
  have hlist := hcells.apart.ne_null view.header List.mem_cons_self
  have hblocks : ∀ data ∈ view.blocks, Holds target owner data := fun data hdata =>
    hlists.holds data (mem_blocksOf List.mem_cons_self hdata)
  rw [MicroTbx.insertNextTo, (evaluates_tbxAssert (decide_eq_true hlist)).run_bind,
    (evaluates_tbxAssert (decide_eq_true hitem)).run_bind,
    (evaluates_tbxAssert (decide_eq_true href)).run_bind, if_pos ⟨hlist, hitem, href⟩] at hrun
  obtain ⟨node, between, before, hfind, hrest⟩ := done_bind hrun
  obtain ⟨-, hsearched, hfound⟩ := (tbxListFindListNode_spec hedited hcells href).of_run hfind
  have hfirst := Steady.of_run Steady.listSteps.within_findListNode hfind
  have hiff := hfound.ne_null_iff hcells.apart
  by_cases hnull : node = null
  · rw [if_neg (not_not.mpr hnull)] at hrest
    cases hrest
    rw [if_neg fun hmem => hiff.mpr hmem hnull]
    exact hfirst
  · rw [if_pos hnull] at hrest
    rw [if_pos (hiff.mp hnull)]
    exact insertNode_asksOne (hsearched.pools hlists.pools hblocks) hfirst
      (fun new => hlink new node) hrest

/-- An operation that adds an item asks for one block, and no other touches
the pools except to release nodes. -/
theorem operation_asksOne (hlists : ListsAt target owner views (view :: rest) app state)
    {operation : ListOperation} (hvalid : operation.Valid) {reply : ListReply} {depth final : Nat}
    (hrun : (operation.perform target view.header).run depth state = .done reply final after) :
    (operation.Allocates (view.items target state) ∧
      AsksOne target (3 * target.word) state after (reply = .status .error)) ∨
    (¬ operation.Allocates (view.items target state) ∧ Steady state after) := by
  have hsteps := Steady.listSteps
  have hsteady : ∀ {Value : Type} {program : Code Value} {reply : Value → ListReply},
      program.Within Steady → (program >>= fun value => pure (reply value)).Within Steady :=
    fun hprogram => hprogram.bind fun _ => trivial
  have hstatus : ∀ {program : Code Status}, (program >>= fun status =>
      pure (ListReply.status status)).run depth state = .done reply final after →
      ∃ status, program.run depth state = .done status final after ∧ reply = .status status := by
    intro program hrun
    obtain ⟨status, between, middle, hprogram, hrest⟩ := done_bind hrun
    cases hrest
    exact ⟨status, hprogram, rfl⟩
  cases operation with
  | clear => exact .inr ⟨id, .of_run (hsteady hsteps.within_clear) hrun⟩
  | getSize => exact .inr ⟨id, .of_run (hsteady hsteps.within_getSize) hrun⟩
  | insertItemFront item =>
      obtain ⟨status, hprogram, rfl⟩ := hstatus hrun
      rw [ListReply.status.injEq]
      exact .inl ⟨trivial, hlists.insertAtEnd_asksOne hvalid _
        (fun _ => hsteps.within_linkFront) hprogram⟩
  | insertItemBack item =>
      obtain ⟨status, hprogram, rfl⟩ := hstatus hrun
      rw [ListReply.status.injEq]
      exact .inl ⟨trivial, hlists.insertAtEnd_asksOne hvalid _
        (fun _ => hsteps.within_linkBack) hprogram⟩
  | insertItemBefore item itemRef =>
      obtain ⟨status, hprogram, rfl⟩ := hstatus hrun
      rw [ListReply.status.injEq]
      have hasks := hlists.insertNextTo_asksOne hvalid.1 hvalid.2 _
        (fun _ _ => hsteps.within_linkBefore) hprogram
      split at hasks
      · next hmem => exact .inl ⟨hmem, hasks⟩
      · next hnot => exact .inr ⟨hnot, hasks⟩
  | insertItemAfter item itemRef =>
      obtain ⟨status, hprogram, rfl⟩ := hstatus hrun
      rw [ListReply.status.injEq]
      have hasks := hlists.insertNextTo_asksOne hvalid.1 hvalid.2 _
        (fun _ _ => hsteps.within_linkAfter) hprogram
      split at hasks
      · next hmem => exact .inl ⟨hmem, hasks⟩
      · next hnot => exact .inr ⟨hnot, hasks⟩
  | removeItem item => exact .inr ⟨id, .of_run (hsteady hsteps.within_removeItem) hrun⟩
  | getFirstItem => exact .inr ⟨id, .of_run (hsteady hsteps.within_getItemAtEnd) hrun⟩
  | getLastItem => exact .inr ⟨id, .of_run (hsteady hsteps.within_getItemAtEnd) hrun⟩
  | getPreviousItem itemRef => exact .inr ⟨id, .of_run (hsteady hsteps.within_getItemNextTo) hrun⟩
  | getNextItem itemRef => exact .inr ⟨id, .of_run (hsteady hsteps.within_getItemNextTo) hrun⟩
  | swapItems item1 item2 => exact .inr ⟨id, .of_run (hsteady hsteps.within_swapItems) hrun⟩
  | sortItems compareItemsFcn => exact .inr ⟨id, .of_run (hsteady hsteps.within_sortItems) hrun⟩

end ListsAt

/-! ## Creations -/

variable (target) (state) in
/-- The first creation of a list makes two blocks before it asks for one. -/
structure FirstCreates (list : Nat) (after : State) : Prop where
  flag : after.memPoolsCreated = true
  others : ∀ other, other ≠ 3 * target.word →
    blocksAdded other after.log = blocksAdded other state.log
  two : list ≠ null → (blocksAdded (3 * target.word) after.log).length =
    (blocksAdded (3 * target.word) state.log).length + 2
  out : list ≠ null → ∀ data ∈ handedOut after.log, data ∈ handedOut state.log ∨
    data - target.word ∈ blocksAdded (3 * target.word) after.log

/-- The header is initialized, or there is none. -/
theorem initializeList_steady (list : Nat) {spec : Nat → State → Prop}
    (hspec : ∀ after, Steady state after → spec list after) :
    Program.Returns (do
      if list ≠ null then do
        store target list TbxList.firstNodePtr null
        store target list TbxList.lastNodePtr null
        store target list TbxList.nodeCount 0
        pure list
      else pure null) state spec := by
  have hstore := Steady.listSteps.store
  by_cases hnull : list = null
  · rw [if_neg (not_not.mpr hnull)]
    exact (returns_pure _).mpr (hnull ▸ hspec state (.refl state))
  · rw [if_pos hnull]
    apply (evaluates_store hnull).bind
    apply (evaluates_store hnull).bind
    apply (evaluates_store hnull).bind
    exact (returns_pure _).mpr (hspec _ ((hstore _ _ _).trans _ _ _
      ((hstore _ _ _).trans _ _ _ (hstore _ _ _))))

namespace PoolsAt

/-- A list created behind the first asks for one block. -/
theorem listCreate_again (hpools : PoolsAt target owner views state)
    (hcreated : state.memPoolsCreated = true) :
    (tbxListCreate target).Returns state fun list after =>
      AsksOne target (3 * target.word) state after (list = null) := by
  have hpoolsMade : (createMemPools target).Evaluates state false state := by
    intro depth
    rw [createMemPools, wp_bind, wp_read, hcreated, if_neg (by simp)]
    exact ⟨rfl, rfl, rfl⟩
  apply hpoolsMade.bind
  rw [if_pos rfl, sizeofList_eq]
  apply hpools.allocateGrowing_requests.bind
  intro list middle hmiddle
  obtain ⟨hrequests, honward⟩ := hmiddle
  apply initializeList_steady
  intro after hlast
  exact hrequests.asksOne honward (.refl state) hlast Iff.rfl

theorem createMemPools_first (hpools : PoolsAt target owner views state)
    (hfirst : state.memPoolsCreated = false) :
    (createMemPools target).Returns state fun errorDetected after =>
      (∃ larger others, PoolsAt target larger others after ∧
        (errorDetected = false → ∃ view ∈ others, view.blockSize = 3 * target.word ∧
          view.Stocked)) ∧
      after.memPoolsCreated = true ∧ state.log <:+ after.log ∧
      handedOut after.log = handedOut state.log ∧
      (∀ other, other ≠ 3 * target.word →
        (blocksAdded other after.log).length = (blocksAdded other state.log).length) ∧
      (errorDetected = false → (blocksAdded (3 * target.word) after.log).length =
        (blocksAdded (3 * target.word) state.log).length + 2) := by
  have hstart : PoolsAt target owner views state.setMemPoolsCreated :=
    ⟨hpools.list, hpools.heap, hpools.log⟩
  have hcreate : ∀ {owner views before}, PoolsAt target owner views before →
      (tbxMemPoolCreate target 1 (3 * target.word)).Returns before fun status after =>
        (∃ larger others, Creates target owner views before 1 (3 * target.word) status larger others
          after) ∧ Onward before after := by
    intro owner views before hbefore
    exact (hbefore.create Nat.one_pos objectSize_pos objectSize_sound).within
      (Onward.poolSteps.within_create 1) Onward.refl Onward.trans
  intro depth
  rw [createMemPools, wp_bind, wp_read, if_pos hfirst, wp_bind, wp_modify, wp_bind, sizeofList_eq,
    sizeofListNode_eq]
  apply (hcreate hstart).wp
  rintro first middle ⟨⟨larger, middles, hcreatesFirst⟩, honwardFirst⟩
  obtain ⟨hmiddle, -, houtFirst, -⟩ := hcreatesFirst.pools hstart
  rw [wp_bind]
  apply (hcreate hmiddle).wp
  rintro second after ⟨⟨largest, others, hcreatesSecond⟩, honwardSecond⟩
  obtain ⟨hafter, -, houtSecond, -⟩ := hcreatesSecond.pools hmiddle
  have hboth : decide (first = .error ∨ second = .error) = false → first = .ok ∧ second = .ok := by
    intro hnone
    cases first <;> cases second <;> simp_all
  refine ⟨rfl, ⟨largest, others, hafter, fun hnone => ?_⟩, ?_, ?_, ?_, fun other hother => ?_,
    fun hnone => ?_⟩
  · obtain ⟨-, rfl⟩ := hboth hnone
    exact hcreatesSecond.ok_stocked Nat.one_pos
  · rw [honwardSecond.flag, honwardFirst.flag]
    rfl
  · exact honwardFirst.grows.trans honwardSecond.grows
  · rw [houtSecond, houtFirst]
    rfl
  · rw [hcreatesSecond.length_blocksAdded hmiddle hother,
      hcreatesFirst.length_blocksAdded hstart hother]
    rfl
  · obtain ⟨rfl, rfl⟩ := hboth hnone
    rw [hcreatesSecond.length_blocksAdded_ok hmiddle Nat.one_pos,
      hcreatesFirst.length_blocksAdded_ok hstart Nat.one_pos]
    rfl

/-- The block that the first list takes is one of the two. -/
theorem listCreate_first (hpools : PoolsAt target owner views state)
    (hfirst : state.memPoolsCreated = false) :
    (tbxListCreate target).Returns state (FirstCreates target state) := by
  apply (hpools.createMemPools_first hfirst).bind
  rintro errorDetected before ⟨⟨larger, others, hbefore, hstocked⟩, hflag, hgrows, hout, hothers, htwo⟩
  have hsame : ∀ other, other ≠ 3 * target.word →
      blocksAdded other before.log = blocksAdded other state.log :=
    fun other hother => blocksAdded_eq hgrows (hothers other hother)
  cases errorDetected with
  | true =>
      rw [if_neg (by simp)]
      exact (returns_pure _).mpr ⟨hflag, hsame, fun hne => absurd rfl hne, fun hne => absurd rfl hne⟩
  | false =>
      rw [if_pos rfl, sizeofList_eq]
      apply hbefore.allocateGrowing_requests.bind
      rintro list middle ⟨hrequests, honward⟩
      apply initializeList_steady
      intro after hlast
      have hasks := hrequests.asksOne honward (.refl before) hlast (Iff.refl (list = null))
      obtain ⟨view, hview, hsize, hfree⟩ := hstocked rfl
      have hspare := hbefore.not_allAllocated hview hfree
      rw [hsize] at hspare
      have hblocks := (hasks.spare hspare).2.2
      refine ⟨hasks.flag.trans hflag, fun other hother => ?_, fun _ => ?_, fun _ data hdata => ?_⟩
      · rw [hasks.others other hother, hsame other hother]
      · rw [hblocks, htwo rfl]
      · rw [← hout]
        have hne : blocksAdded (3 * target.word) after.log ≠ [] := by
          rw [hblocks, ← List.length_pos_iff, htwo rfl]
          exact Nat.succ_pos _
        exact (hasks.out data hdata).imp_right fun hpooled => hpooled hne

end PoolsAt

end MicroTbx

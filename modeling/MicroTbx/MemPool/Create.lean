import MicroTbx.MemPool.NewBlocks

/-! # The creation and allocation calls

What one call of the interface can do to a state that holds the pools of a
list of views. Every later result about runs is read off these relations.
-/

namespace MicroTbx

open Program

variable {target : Target} {owner larger : Ownership} {views others front back : List PoolView}
  {view other : PoolView} {state after : State} {count size made bytes : Nat} {status : Status}

variable (target) (owner) (views) (state) (count) (size) in
/-- What a creation with valid arguments can do: extend the pool of the size,
make it and extend it, or fail to make it. -/
inductive Creates : Status → Ownership → List PoolView → State → Prop
  | extended {front back : List PoolView} {view other : PoolView} {larger : Ownership}
      {after : State} (split : views = front ++ view :: back) (sameSize : view.blockSize = size)
      (extension : Extension target owner larger front back view other state after
        (blocksMade target size count (state.room target))
        (loopBytes target size count (state.room target))) :
      Creates (if blocksMade target size count (state.room target) = count then .ok else .error)
        larger (front ++ other :: back) after
  | created {front back : List PoolView} {view other : PoolView} {larger : Ownership}
      {after : State} (split : views = front ++ back)
      (below : ∀ neighbour ∈ front, neighbour.blockSize < size)
      (above : ∀ neighbour ∈ back, size < neighbour.blockSize)
      (room : poolBytes target ≤ state.room target) (sameSize : view.blockSize = size)
      (noFree : view.free = []) (noOut : view.out = [])
      (extension : Extension target owner larger front back view other state after
        (blocksMade target size count (state.room target - poolBytes target))
        (poolBytes target + loopBytes target size count (state.room target - poolBytes target))) :
      Creates (if blocksMade target size count (state.room target - poolBytes target) = count
        then .ok else .error) larger (front ++ other :: back) after
  | refused {after : State} (none : ∀ neighbour ∈ views, neighbour.blockSize ≠ size)
      (noRoom : state.room target < poolBytes target)
      (grown : state.Grown target after (poolLoss target (state.room target)))
      (checked : HeapChecked state after) :
      Creates .error owner views after

/-- A failed parameter check of an interface function. -/
def State.rejected (state : State) (site : Site) : State :=
  state.emit (.assertion site .parameter)

theorem tbxMemPoolCreate_invalid (hinvalid : ¬ (0 < count ∧ 0 < size)) :
    (tbxMemPoolCreate target count size).Returns state fun result after =>
      result = .error ∧ (after = state.rejected .tbxMemPoolCreate ∨
        after = (state.rejected .tbxMemPoolCreate).rejected .tbxMemPoolCreate) := by
  intro depth
  rcases Nat.eq_zero_or_pos count with rfl | hcount
  · rcases Nat.eq_zero_or_pos size with rfl | hsize
    · simp [tbxMemPoolCreate, State.rejected]
    · simp [tbxMemPoolCreate, State.rejected, hsize]
  · rcases Nat.eq_zero_or_pos size with rfl | hsize
    · simp [tbxMemPoolCreate, State.rejected, hcount]
    · exact absurd ⟨hcount, hsize⟩ hinvalid

/-- What a new pool does to everything else: nothing. -/
theorem Extension.of_newPool (hpools : PoolsAt target owner (front ++ back) state)
    (hsize : 0 < size)
    (hextension : Extension target (owner.claim target (state.heapEnd target) (newPoolParts size))
      larger front back (state.newPool target hsize) other
      ((state.storeNewPool target size).linkNode target (state.heapEnd target) front back) after
      made bytes) :
    Extension target owner larger front back (state.newPool target hsize) other state after made
      (poolBytes target + bytes) := by
  have hgrown := @State.storeNewPool_grown target state size
  have hgrownKept := Kept.of_grown hpools.heap hgrown
  have hplaced := PoolPlaced.newPool hpools.heap hsize
  refine ⟨hextension.pools, hextension.extended, Kept.trans ?_ hextension.kept, ?_, ?_, ?_⟩
  · refine ⟨fun _ _ => Ownership.claim_old, fun address owned part howner hdata => ?_, ?_⟩
    · rw [← hgrownKept.data address owned part howner hdata]
      refine @State.linkNode_mem target (owner.claim target (state.heapEnd target)
        (newPoolParts size)) front back (state.newPool target hsize) _ _ _ _
        (fun neighbour hneighbour => (hpools.heap.placed neighbour hneighbour).mono
          fun _ _ => Ownership.claim_old) hplaced (Ownership.claim_old howner) ?_
      rintro rfl
      exact hdata
    · rw [State.linkNode_log]
      exact hgrown.kept
  · rw [hextension.allocated, State.linkNode_tbxHeapAllocated, hgrown.allocated, Nat.add_assoc]
  · rw [hextension.handedOut, State.linkNode_log, hgrown.handedOut]
  · refine HeapChecked.trans (.of_eq ?_) hextension.checked
    rw [State.linkNode_log]
    simp [State.storeNewPool, State.storeList, State.storeObjects]

theorem PoolsAt.create (hpools : PoolsAt target owner views state) (hcount : 0 < count)
    (hsize : 0 < size) (hsound : target.Sound size) :
    (tbxMemPoolCreate target count size).Returns state fun status after =>
      ∃ larger others, Creates target owner views state count size status larger others after := by
  have hfind := hpools.listFind hsize
  intro depth
  rw [tbxMemPoolCreate, wp_bind, decide_eq_true hcount, wp_tbxAssert_true, wp_bind,
    decide_eq_true hsize, wp_tbxAssert_true, if_pos ⟨hcount, hsize⟩, wp_bind, wp_enterCritical,
    wp_bind, hfind.wp_iff, wp_bind]
  by_cases hexists : ∃ view ∈ views, view.blockSize = size
  · obtain ⟨view, hview, rfl⟩ := hexists
    obtain ⟨front, back, rfl⟩ := List.append_of_mem hview
    rw [nodeOf_mem hpools.list.ascending hview, if_neg (hpools.heap.node_ne_null hview),
      wp_pure, wp_bind, if_pos rfl]
    refine (createBlocks_spec hpools hsound count .ok).wp ?_
    rintro status after ⟨rfl, larger, other, hextension⟩
    simp only [wp_bind, wp_leaveCritical, wp_pure]
    exact ⟨trivial, larger, _, .extended rfl rfl hextension⟩
  · have hnone : ∀ neighbour ∈ views, neighbour.blockSize ≠ size :=
      fun neighbour hneighbour heq => hexists ⟨neighbour, hneighbour, heq⟩
    have hle := hpools.heap.allocated_le
    rw [nodeOf_eq_null hnone, if_pos rfl]
    rcases Nat.lt_or_ge (state.room target) (poolBytes target) with hfull | hroom
    · refine (createPool_full hle (by unfold State.room at hfull; omega)).wp ?_
      rintro ⟨poolNodePtr, status⟩ after ⟨rfl, hgrown, hquiet⟩
      simp only [reduceCtorEq, if_false, wp_bind, wp_leaveCritical, wp_pure]
      exact ⟨trivial, owner, views, .refused hnone hfull hgrown (.of_eq hquiet)⟩
    · obtain ⟨front, back, rfl, hbelow, habove⟩ :=
        exists_split views size hpools.list.ascending hnone
      have hroomFor : state.tbxHeapAllocated + poolBytes target ≤ target.heapSize := by
        unfold State.room at hroom
        omega
      have hlinked := hpools.createPool hsize hbelow habove hroomFor
      have hrest : ((state.storeNewPool target size).linkNode target (state.heapEnd target) front
          back).room target = state.room target - poolBytes target := by
        rw [State.room, State.linkNode_tbxHeapAllocated, (state.storeNewPool_grown size).allocated,
          Nat.sub_add_eq]
        rfl
      rw [(createPool_room hpools hsize hbelow habove hroomFor).wp_iff, wp_bind, if_pos rfl]
      refine (createBlocks_spec hlinked hsound count .ok).wp ?_
      rintro status after ⟨rfl, larger, other, hextension⟩
      rw [hrest] at hextension ⊢
      simp only [wp_bind, wp_leaveCritical, wp_pure]
      exact ⟨trivial, larger, _, .created rfl hbelow habove hroom rfl rfl rfl
        (hextension.of_newPool hpools hsize)⟩

/-! ## What all creations have in common -/

namespace Creates

/-- The state afterwards holds pools again, and nothing was taken away. -/
theorem pools (hcreates : Creates target owner views state count size status larger others after)
    (hpools : PoolsAt target owner views state) :
    PoolsAt target larger others after ∧ Kept owner larger state after ∧
      handedOut after.log = handedOut state.log ∧ HeapChecked state after := by
  cases hcreates with
  | extended split sameSize extension =>
      exact ⟨extension.pools, extension.kept, extension.handedOut, extension.checked⟩
  | created split below above room sameSize noFree noOut extension =>
      exact ⟨extension.pools, extension.kept, extension.handedOut, extension.checked⟩
  | refused none noRoom grown checked =>
      have hloss := poolLoss_le target (state.room target)
      have hle := hpools.heap.allocated_le
      refine ⟨hpools.grow grown (word_dvd_poolLoss target _) ?_, Kept.of_grown hpools.heap grown,
        grown.handedOut, checked⟩
      unfold State.room at hloss ⊢
      omega

/-- A creation that succeeds made every block asked for. -/
theorem ok_stocked (hcreates : Creates target owner views state count size .ok larger others after)
    (hcount : 0 < count) : ∃ view ∈ others, view.blockSize = size ∧ view.Stocked := by
  have hstocked : ∀ {view other : PoolView} {made : Nat}, view.Extended other made →
      made = count → other.Stocked := by
    rintro view other made hextended rfl hempty
    obtain ⟨added, rfl, hfree⟩ := hextended.free
    rw [hempty] at hfree
    rw [(List.append_eq_nil_iff.mp hfree.symm).1] at hcount
    exact absurd hcount (by simp)
  generalize hstatus : Status.ok = status at hcreates
  cases hcreates with
  | extended split sameSize extension =>
      split at hstatus
      · next hmade =>
          exact ⟨_, mem_middle, extension.extended.same.blockSize.trans sameSize,
            hstocked extension.extended hmade⟩
      · cases hstatus
  | created split below above room sameSize noFree noOut extension =>
      split at hstatus
      · next hmade =>
          exact ⟨_, mem_middle, extension.extended.same.blockSize.trans sameSize,
            hstocked extension.extended hmade⟩
      · cases hstatus
  | refused none noRoom grown checked => cases hstatus

end Creates

/-! ## Allocating -/

variable (target) (views) (state) (size) in
/-- A request is answered with the first free block of its best fit. -/
inductive Takes : Nat → List PoolView → State → Prop
  | intro {front back : List PoolView} {view : PoolView} {node block : Nat}
      {rest : List (Nat × Nat)} (split : views = front ++ view :: back)
      (fit : BestFit.bestFit PoolView.blockSize views size = some view)
      (free : view.free = (node, block) :: rest) :
      Takes (target.field block 1) (front ++ view.take free :: back)
        (state.takeBlock target view node block)

/-- A request is answered when its best fit has a free block. -/
theorem PoolsAt.allocate (hpools : PoolsAt target owner views state) (hsize : 0 < size) :
    (tbxMemPoolAllocate target size).Returns state fun data after =>
      (BestFit.Serves PoolView.blockSize PoolView.Stocked views size ∧
        ∃ others, Takes target views state size data others after) ∨
      (¬ BestFit.Serves PoolView.blockSize PoolView.Stocked views size ∧ data = null ∧
        after = state) := by
  by_cases hserves : BestFit.Serves PoolView.blockSize PoolView.Stocked views size
  · obtain ⟨view, hfit, hstocked⟩ := hserves
    obtain ⟨⟨node, block⟩, rest, hfree⟩ := List.exists_cons_of_ne_nil hstocked
    obtain ⟨front, back, rfl⟩ := List.append_of_mem (BestFit.bestFit_mem hfit).1
    refine (hpools.allocate_served hsize hfit hfree).mono ?_
    rintro _ _ ⟨rfl, rfl⟩
    exact .inl ⟨⟨view, hfit, hstocked⟩, _, .intro rfl hfit hfree⟩
  · refine (hpools.allocate_refused hsize hserves).mono ?_
    rintro _ _ ⟨rfl, rfl⟩
    exact .inr ⟨hserves, rfl, rfl⟩

variable (target) (owner) (views) (state) (size) in
/-- What an automatic allocation with a valid size can do. -/
inductive AllocatesAuto : Nat → Ownership → List PoolView → State → Prop
  | direct {data : Nat} {others : List PoolView} {after : State}
      (exact : ∃ view ∈ views, view.blockSize = size)
      (takes : Takes target views state size data others after) :
      AllocatesAuto data owner others after
  | created {data : Nat} {larger : Ownership} {middles others : List PoolView}
      {middle after : State}
      (creates : Creates target owner views state 1 size .ok larger middles middle)
      (takes : Takes target middles middle size data others after) :
      AllocatesAuto data larger others after
  | failed {larger : Ownership} {others : List PoolView} {after : State}
      (creates : Creates target owner views state 1 size .error larger others after) :
      AllocatesAuto null larger others after

theorem tbxMemPoolAllocateAuto_zero :
    (tbxMemPoolAllocateAuto target 0).Evaluates state null
      (state.rejected .tbxMemPoolAllocateAuto) := by
  intro depth
  simp [tbxMemPoolAllocateAuto, State.rejected]

/-- A pool of exactly the size with a free block serves the size. -/
theorem serves_of_stocked (hascending : BestFit.Ascending PoolView.blockSize views)
    (hview : view ∈ views) (hsize : view.blockSize = size) (hstocked : view.Stocked) :
    BestFit.Serves PoolView.blockSize PoolView.Stocked views size := by
  obtain ⟨front, back, rfl⟩ := List.append_of_mem hview
  exact ⟨view, hsize ▸ hascending.bestFit_exact, hstocked⟩

theorem PoolsAt.createThenAllocate (hpools : PoolsAt target owner views state) (hsize : 0 < size)
    (hsound : target.Sound size) :
    Program.Returns (do
      let created ← tbxMemPoolCreate target 1 size
      if created = .ok then tbxMemPoolAllocate target size else pure null) state
      fun data after => ∃ larger others,
        AllocatesAuto target owner views state size data larger others after := by
  refine (hpools.create Nat.one_pos hsize hsound).bind ?_
  rintro status middle ⟨larger, middles, hcreates⟩
  cases status with
  | ok =>
      obtain ⟨hmiddle, -, -, -⟩ := hcreates.pools hpools
      obtain ⟨view, hview, hviewSize, hstocked⟩ := hcreates.ok_stocked Nat.one_pos
      have hserves := serves_of_stocked hmiddle.list.ascending hview hviewSize hstocked
      rw [if_pos rfl]
      refine (hmiddle.allocate hsize).mono ?_
      rintro data after (⟨-, others, htakes⟩ | ⟨hrefused, -, -⟩)
      · exact ⟨larger, others, .created hcreates htakes⟩
      · exact absurd hserves hrefused
  | error =>
      rw [if_neg (by simp)]
      exact (returns_pure _).mpr ⟨larger, middles, .failed hcreates⟩

namespace Takes

variable {data : Nat}

theorem ne_null (htakes : Takes target views state size data others after)
    (hpools : PoolsAt target owner views state) : data ≠ null := by
  obtain ⟨rfl, fit, free⟩ := htakes
  have hblock := hpools.heap.block_ne_null mem_middle
    (List.mem_append_left _ (List.mem_map_of_mem (free ▸ List.mem_cons_self)))
  have hpos := Nat.pos_of_ne_zero hblock
  simp only [Target.field, null_eq]
  omega

/-- The state afterwards holds the pools with one more block out. -/
theorem pools (htakes : Takes target views state size data others after)
    (hpools : PoolsAt target owner views state) :
    PoolsAt target owner others after ∧ Kept owner owner state after ∧
      handedOut after.log = data :: handedOut state.log ∧
      asserted after.log = asserted state.log := by
  obtain ⟨rfl, fit, free⟩ := htakes
  refine ⟨hpools.take free, ⟨fun _ _ howner => howner, ?_, ?_⟩, rfl, rfl⟩
  · intro address owned part howner hdata
    refine (hpools.heap.placed _ mem_middle).takeBlock_mem ?_ howner (.inr ?_)
    · exact List.mem_append_left _ (List.mem_map_of_mem (free ▸ List.mem_cons_self))
    · exact hdata.not_list
  · exact fun event hevent => List.mem_cons_of_mem _ hevent

/-- When a pool of exactly the size exists the block comes from there. -/
theorem exact_size (htakes : Takes target views state size data others after)
    (hascending : BestFit.Ascending PoolView.blockSize views)
    (hexact : ∃ view ∈ views, view.blockSize = size) :
    ∃ view ∈ views, view.blockSize = size ∧ ∃ entry ∈ view.free, data = target.field entry.2 1 := by
  obtain @⟨before, behind, taken, node, block, rest, rfl, fit, free⟩ := htakes
  obtain ⟨view, hview, rfl⟩ := hexact
  obtain ⟨front, back, hsplit⟩ := List.append_of_mem hview
  have hexact := (hsplit ▸ hascending).bestFit_exact
  rw [← hsplit, fit] at hexact
  cases hexact
  exact ⟨taken, hview, rfl, (node, block), free ▸ List.mem_cons_self, rfl⟩

end Takes

/-- An allocation on demand takes a block of its best fit, or creates one when
the pool of its size has none free. -/
theorem PoolsAt.allocateAuto_of (hpools : PoolsAt target owner views state) (hsize : 0 < size)
    {post : Nat → State → Prop}
    (htaken : ∀ data others after, (∃ view ∈ views, view.blockSize = size) →
      Takes target views state size data others after → post data after)
    (hcreated : (∀ view ∈ views, view.blockSize = size → ¬ view.Stocked) → Program.Returns (do
      let created ← tbxMemPoolCreate target 1 size
      if created = .ok then tbxMemPoolAllocate target size else pure null) state post) :
    (tbxMemPoolAllocateAuto target size).Returns state post := by
  intro depth
  rw [tbxMemPoolAllocateAuto, wp_bind, decide_eq_true hsize, wp_tbxAssert_true, if_pos hsize,
    wp_bind, wp_enterCritical, wp_bind, wp_read, wp_bind, hpools.findLoop.wp_iff, wp_bind,
    wp_leaveCritical]
  by_cases hexists : ∃ view ∈ views, view.blockSize = size
  · obtain ⟨view, hview, hviewSize⟩ := id hexists
    subst hviewSize
    rw [nodeOf_mem hpools.list.ascending hview, if_neg (hpools.heap.node_ne_null hview), wp_bind]
    refine (hpools.allocate hsize).wp ?_
    rintro data after (⟨-, others, htakes⟩ | ⟨hrefused, rfl, rfl⟩)
    · rw [if_neg (htakes.ne_null hpools)]
      exact ⟨rfl, htaken data others after hexists htakes⟩
    · rw [if_pos rfl]
      apply hcreated _ depth
      intro other hother hotherSize hstocked
      exact hrefused (serves_of_stocked hpools.list.ascending hother hotherSize hstocked)
  · have hnone : ∀ view ∈ views, view.blockSize ≠ size :=
      fun view hview heq => hexists ⟨view, hview, heq⟩
    rw [nodeOf_eq_null hnone, if_pos rfl]
    exact hcreated (fun view hview heq => absurd heq (hnone view hview)) depth

theorem PoolsAt.allocateAuto (hpools : PoolsAt target owner views state) (hsize : 0 < size)
    (hsound : target.Sound size) :
    (tbxMemPoolAllocateAuto target size).Returns state fun data after => ∃ larger others,
      AllocatesAuto target owner views state size data larger others after := by
  apply hpools.allocateAuto_of hsize
  · exact fun data others after hexists htakes => ⟨owner, others, .direct hexists htakes⟩
  · exact fun _ => hpools.createThenAllocate hsize hsound

end MicroTbx

import MicroTbx.MemPool.ExactFit
import MicroTbx.MemPool.Sufficiency

/-! # Allocation on demand is exact

The function that makes a block when none is free goes through the best fit
search. It asks that search only for sizes that have a pool, and the pool of
the size itself is then the best fit, whatever larger pools hold.
-/

namespace MicroTbx

open Program

section Statement

variable (target : Target)

/-- What an allocation on demand returns and does. -/
structure AllocatesOnDemand (state : State) (poolNodes : List Nat) (size data : Nat)
    (after : State) : Prop where
  returned : data ≠ null ↔
    (∃ poolNode ∈ poolNodes, state.sizeOf target poolNode = size ∧
      HasFreeBlock target state poolNode) ∨
    creationBytes target state poolNodes 1 size ≤ state.room target
  /-- The block is one of the pool of the size. -/
  pooled : data ≠ null → data - target.word ∈ blocksAdded size after.log ∧
    after.mem (data - target.word) = size ∧ data ∉ handedOut state.log ∧
      handedOut after.log = data :: handedOut state.log
  refused : data = null → handedOut after.log = handedOut state.log
  added : blocksAdded size after.log = blocksAdded size state.log ∨
    ∃ block, blocksAdded size after.log = block :: blocksAdded size state.log
  elsewhere : ∀ other, other ≠ size → blocksAdded other after.log = blocksAdded other state.log
  others : ∀ other ∈ poolNodes, state.sizeOf target other ≠ size →
    PoolUnchanged target state after other

end Statement

variable {target : Target} {owner larger : Ownership} {views middles others : List PoolView}
  {view : PoolView} {state middle after : State} {history : List PoolExchange} {size data : Nat}
  {status : Status}

/-- The pool of the size has a free block, told of the views. -/
theorem PoolsAt.exact_free_iff (hpools : PoolsAt target owner views state) :
    (∃ poolNode ∈ views.map PoolView.node, state.sizeOf target poolNode = size ∧
      HasFreeBlock target state poolNode) ↔
    ∃ view ∈ views, view.blockSize = size ∧ view.Stocked := by
  constructor
  · rintro ⟨poolNode, hmem, hsize, hfree⟩
    obtain ⟨view, hview, rfl⟩ := List.mem_map.mp hmem
    exact ⟨view, hview, (hpools.sizeOf hview).symm.trans hsize, (hpools.hasFreeBlock_iff hview).mp hfree⟩
  · rintro ⟨view, hview, hsize, hstocked⟩
    exact ⟨view.node, List.mem_map_of_mem hview, (hpools.sizeOf hview).trans hsize,
      (hpools.hasFreeBlock_iff hview).mpr hstocked⟩

namespace Takes

/-- When the pool of exactly the size exists, no other pool is touched. -/
theorem mem_others (htakes : Takes target views state size data others after)
    (hascending : BestFit.Ascending PoolView.blockSize views)
    (hexact : ∃ view ∈ views, view.blockSize = size) (hview : view ∈ views)
    (hother : view.blockSize ≠ size) : view ∈ others := by
  obtain @⟨front, back, taken, node, block, rest, rfl, fit, free⟩ := htakes
  obtain ⟨wanted, hwanted, rfl⟩ := hexact
  obtain ⟨before, behind, hsplit⟩ := List.append_of_mem hwanted
  have hfound := (hsplit ▸ hascending).bestFit_exact
  rw [← hsplit, fit] at hfound
  obtain rfl := Option.some.inj hfound
  rcases List.mem_append.mp hview with hfront | hback
  · exact List.mem_append_left _ hfront
  · rcases List.mem_cons.mp hback with rfl | htail
    · exact absurd rfl hother
    · exact List.mem_append_right _ (List.mem_cons_of_mem _ htail)

/-- The block comes from the pool of exactly the size. -/
theorem pooled (htakes : Takes target views state size data others after)
    (hpools : PoolsAt target owner views state)
    (hexact : ∃ view ∈ views, view.blockSize = size) :
    data - target.word ∈ blocksAdded size after.log ∧ after.mem (data - target.word) = size ∧
      data ∉ handedOut state.log ∧ handedOut after.log = data :: handedOut state.log := by
  have hserved : ∃ wanted ∈ views, IsBestFit target state (views.map PoolView.node) size wanted.node ∧
      wanted.blockSize = size := by
    obtain ⟨wanted, hwanted, rfl⟩ := hexact
    obtain ⟨before, behind, hsplit⟩ := List.append_of_mem hwanted
    have hfound := (hsplit ▸ hpools.list.ascending).bestFit_exact
    rw [← hsplit] at hfound
    exact ⟨wanted, hwanted, hpools.isBestFit_iff.mpr ⟨wanted, hfound, rfl⟩, rfl⟩
  obtain ⟨wanted, hwanted, hbest, hsize⟩ := hserved
  have htaken := htakes.takenFrom hpools hbest
  have hheader := htaken.header
  have hmember := htaken.member
  rw [hpools.sizeOf hwanted, hsize] at hheader hmember
  exact ⟨(htaken.added size).symm ▸ hmember, hheader, htaken.fresh, htaken.out⟩

end Takes

/-- A block of the pool that exists. -/
theorem Takes.onDemand (htakes : Takes target views state size data others after)
    (hpools : PoolsAt target owner views state)
    (hexact : ∃ view ∈ views, view.blockSize = size) :
    AllocatesOnDemand target state (views.map PoolView.node) size data after := by
  have hne := htakes.ne_null hpools
  have hpooled := htakes.pooled hpools hexact
  obtain ⟨hafter, hkept, -, -⟩ := htakes.pools hpools
  obtain ⟨found, hfound, hsize, entry, hentry, -⟩ := htakes.exact_size hpools.list.ascending hexact
  have hadded : ∀ other, blocksAdded other after.log = blocksAdded other state.log := by
    obtain ⟨split, fit, free⟩ := htakes
    exact fun _ => rfl
  refine ⟨iff_of_true hne (.inl (hpools.exact_free_iff.mpr ?_)), fun _ => hpooled,
    fun hnull => absurd hnull hne, .inl (hadded size), fun other _ => hadded other, ?_⟩
  · exact ⟨found, hfound, hsize, List.ne_nil_of_mem hentry⟩
  · intro other hother hne
    obtain ⟨view, hview, rfl⟩ := List.mem_map.mp hother
    rw [hpools.sizeOf hview] at hne
    exact hpools.unchanged hafter hkept htakes.onward hview
      (htakes.mem_others hpools.list.ascending hexact hview hne)

/-- A creation of one block adds one block at most. -/
theorem Creates.added_one
    (hcreates : Creates target owner views state 1 size status larger others after)
    (hpools : PoolsAt target owner views state) (hgrows : state.log <:+ after.log) :
    blocksAdded size after.log = blocksAdded size state.log ∨
      ∃ block, blocksAdded size after.log = block :: blocksAdded size state.log := by
  obtain ⟨made, hle, -, hlength⟩ := hcreates.length_blocksAdded_size hpools Nat.one_pos
  obtain ⟨new, hnew⟩ := blocksAdded_suffix size hgrows
  rw [← hnew, List.length_append] at hlength
  match new with
  | [] => exact .inl hnew.symm
  | [block] => exact .inr ⟨block, hnew.symm⟩
  | first :: second :: rest =>
      simp only [List.length_cons] at hlength
      omega

/-- A block of a pool that is extended or made for it. -/
theorem Creates.onDemand
    (hcreates : Creates target owner views state 1 size .ok larger middles middle)
    (hpools : PoolsAt target owner views state) (hgrows : state.log <:+ middle.log)
    (htakes : Takes target middles middle size data others after) :
    AllocatesOnDemand target state (views.map PoolView.node) size data after := by
  obtain ⟨hmiddle, hkept, hout, -⟩ := hcreates.pools hpools
  obtain ⟨hafter, hkeptTaking, -, -⟩ := htakes.pools hmiddle
  obtain ⟨made, hmade, hmadeSize, -⟩ := hcreates.ok_stocked Nat.one_pos
  have hexact : ∃ view ∈ middles, view.blockSize = size := ⟨made, hmade, hmadeSize⟩
  have htaken := htakes.onDemand hmiddle hexact
  have hne := htakes.ne_null hmiddle
  have hadded : ∀ other, blocksAdded other after.log = blocksAdded other middle.log := by
    obtain ⟨split, fit, free⟩ := htakes
    exact fun _ => rfl
  refine ⟨iff_of_true hne (.inr ((hcreates.ok_iff hpools).mp rfl)), fun _ => ?_,
    fun hnull => absurd hnull hne, ?_, fun other hother => ?_, ?_⟩
  · have hpooled := htaken.pooled hne
    rwa [hout] at hpooled
  · rw [hadded]
    exact hcreates.added_one hpools hgrows
  · rw [hadded]
    exact blocksAdded_eq hgrows (hcreates.length_blocksAdded hpools hother)
  · intro other hother hne
    obtain ⟨view, hview, rfl⟩ := List.mem_map.mp hother
    rw [hpools.sizeOf hview] at hne
    exact hpools.unchanged hafter (hkept.trans hkeptTaking) (hgrows.trans htakes.onward) hview
      (htakes.mem_others hmiddle.list.ascending hexact (hcreates.mem_others hview hne) hne)

/-- Nothing is free in the pool of the size, and nothing can be made. -/
theorem Creates.notOnDemand
    (hcreates : Creates target owner views state 1 size .error larger others after)
    (hpools : PoolsAt target owner views state) (hgrows : state.log <:+ after.log)
    (hempty : ∀ view ∈ views, view.blockSize = size → ¬ view.Stocked) :
    AllocatesOnDemand target state (views.map PoolView.node) size null after := by
  obtain ⟨hafter, hkept, hout, -⟩ := hcreates.pools hpools
  have hneither : ¬ ((∃ poolNode ∈ views.map PoolView.node, state.sizeOf target poolNode = size ∧
      HasFreeBlock target state poolNode) ∨
        creationBytes target state (views.map PoolView.node) 1 size ≤ state.room target) := by
    rintro (hfree | hroom)
    · obtain ⟨view, hview, hsize, hstocked⟩ := hpools.exact_free_iff.mp hfree
      exact hempty view hview hsize hstocked
    · cases (hcreates.ok_iff hpools).mpr hroom
  refine ⟨iff_of_false (not_not.mpr rfl) hneither, fun hne => absurd rfl hne, fun _ => hout,
    hcreates.added_one hpools hgrows, fun other hother => ?_, ?_⟩
  · exact blocksAdded_eq hgrows (hcreates.length_blocksAdded hpools hother)
  · intro other hother hne
    obtain ⟨view, hview, rfl⟩ := List.mem_map.mp hother
    rw [hpools.sizeOf hview] at hne
    exact hpools.unchanged hafter hkept hgrows hview (hcreates.mem_others hview hne)

theorem PoolsAt.createThenAllocate_onDemand (hpools : PoolsAt target owner views state)
    (hsize : 0 < size) (hsound : target.Sound size)
    (hempty : ∀ view ∈ views, view.blockSize = size → ¬ view.Stocked) :
    Program.Returns (do
      let created ← tbxMemPoolCreate target 1 size
      if created = .ok then tbxMemPoolAllocate target size else pure null) state
      (AllocatesOnDemand target state (views.map PoolView.node) size) := by
  apply (hpools.create_onward Nat.one_pos hsize hsound).bind
  rintro status middle ⟨⟨larger, middles, hcreates⟩, honward⟩
  cases status with
  | ok =>
      rw [if_pos rfl]
      obtain ⟨hmiddle, -, -, -⟩ := hcreates.pools hpools
      obtain ⟨view, hview, hviewSize, hstocked⟩ := hcreates.ok_stocked Nat.one_pos
      have hserves := serves_of_stocked hmiddle.list.ascending hview hviewSize hstocked
      apply (hmiddle.allocate hsize).mono
      rintro data after (⟨-, others, htakes⟩ | ⟨hrefused, -, -⟩)
      · exact hcreates.onDemand hpools honward.grows htakes
      · exact absurd hserves hrefused
  | error =>
      rw [if_neg (by simp)]
      exact (returns_pure _).mpr (hcreates.notOnDemand hpools honward.grows hempty)

theorem PoolsAt.allocatesOnDemand (hpools : PoolsAt target owner views state) (hsize : 0 < size)
    (hsound : target.Sound size) :
    (tbxMemPoolAllocateAuto target size).Returns state
      (AllocatesOnDemand target state (views.map PoolView.node) size) := by
  apply hpools.allocateAuto_of hsize
  · exact fun data others after hexact htakes => htakes.onDemand hpools hexact
  · exact hpools.createThenAllocate_onDemand hsize hsound

/-- In every state a run reaches an allocation on demand uses the pool of
exactly the size, and fails only for lack of heap. -/
theorem allocateAuto_exact_size (hrun : (poolInterface target).Run history state)
    (hfits : ∀ exchange ∈ history, exchange.request.Fits target) :
    ∃ poolNodes, PoolNodes target state poolNodes ∧ ∀ size, 0 < size →
      target.Fits (target.word + size) → ∃ data after,
        (tbxMemPoolAllocateAuto target size).run 0 state = .done data 0 after ∧
          AllocatesOnDemand target state poolNodes size data after := by
  obtain ⟨owner, views, hpools⟩ := PoolsAt.of_run hrun fun exchange hexchange =>
    (hfits exchange hexchange).sound
  refine ⟨views.map PoolView.node, hpools.poolNodes, fun size hsize hfit => ?_⟩
  exact (hpools.allocatesOnDemand hsize (.inl hfit)).run 0

/-- A larger pool with free blocks, and little heap. -/
def demandedCalls : List PoolCall := [.allocateAuto 24, .heapAllocate 1400, .create 4 64]

theorem allocateAuto_exact_size_demanded : ∃ history state,
    (poolInterface linux64).Run history state ∧ history.map Exchange.request = demandedCalls ∧
      ∃ poolNodes, PoolNodes linux64 state poolNodes ∧ ∀ size, 0 < size →
        linux64.Fits (linux64.word + size) → ∃ data after,
          (tbxMemPoolAllocateAuto linux64 size).run 0 state = .done data 0 after ∧
            AllocatesOnDemand linux64 state poolNodes size data after := by
  have hexecutes : ((poolInterface linux64).execute demandedCalls).isSome = true := by
    decide +kernel
  obtain ⟨history, state, hrun, hrequests⟩ := Interface.execute_isSome hexecutes
  have hfits : ∀ request ∈ history.map Exchange.request, request.Fits linux64 := by
    rw [hrequests]
    decide
  exact ⟨history, state, hrun, hrequests,
    allocateAuto_exact_size hrun (List.forall_mem_map.mp hfits)⟩

end MicroTbx

import MicroTbx.MemPool.Accounting

/-! # What a failed creation does to later allocations

A creation that fails in its block loop leaves a pool without blocks in the
list. Such a pool is a best fit that cannot answer: requests that the next
larger pool answered before are refused from then on. Every other failure
leaves all requests answered as before.
-/

namespace MicroTbx

open Program

variable (target : Target)

/-- `TbxMemPoolAllocate` would return a block. -/
def Serves (state : State) (size : Nat) : Prop :=
  ∃ data next, (tbxMemPoolAllocate target size).run 0 state = .done data 0 next ∧ data ≠ null

/-- No pool has blocks of the size, and the next larger one has a free block:
the pool list splits in front of a larger pool with a free list that is not
empty. -/
def NextLargerStocked (state : State) (size : Nat) : Prop :=
  ∃ smaller next larger, Chain.Linked (nextNode target state.mem) null state.tbxPoolList
    (smaller ++ next :: larger) ∧
    (∀ poolNode ∈ smaller, state.sizeOf target poolNode < size) ∧
    size < state.sizeOf target next ∧
    state.mem (target.field (state.mem (target.field (state.poolOf target next)
      Pool.freeBlockListPtr)) 0) ≠ null

/-- The heap has room for the objects of a new pool but not for a block. -/
def RoomForPoolOnly (state : State) (size : Nat) : Prop :=
  poolBytes target ≤ state.room target ∧ state.room target < poolBytes target + entryBytes target size

/-- The call failed to create blocks of a size. -/
inductive CreationFailed : PoolCall → PoolReply → Nat → Nat → Prop
  | create (numBlocks blockSize : Nat) :
      CreationFailed (.create numBlocks blockSize) (.status .error) numBlocks blockSize
  | auto (size : Nat) : CreationFailed (.allocateAuto size) (.pointer null) 1 size

variable {target} {owner larger : Ownership} {views others front back : List PoolView}
  {view other : PoolView} {state after : State} {call : PoolCall} {reply : PoolReply}
  {history : List PoolExchange} {size count numBlocks : Nat} {status : Status}

theorem PoolsAt.serves_iff (hpools : PoolsAt target owner views state) :
    Serves target state size ↔
      0 < size ∧ BestFit.Serves PoolView.blockSize PoolView.Stocked views size := by
  rcases Nat.eq_zero_or_pos size with rfl | hsize
  · obtain ⟨data, next, hrun, rfl, rfl⟩ := (@tbxMemPoolAllocate_zero target state).run 0
    unfold Serves
    rw [hrun]
    constructor
    · rintro ⟨_, _, heq, hne⟩
      cases heq
      exact absurd rfl hne
    · rintro ⟨hpos, -⟩
      exact absurd hpos (Nat.lt_irrefl 0)
  · obtain ⟨data, next, hrun, hcases⟩ := (hpools.allocate hsize).run 0
    unfold Serves
    rw [hrun]
    rcases hcases with ⟨hserves, others, htakes⟩ | ⟨hrefused, rfl, rfl⟩
    · exact ⟨fun _ => ⟨hsize, hserves⟩, fun _ => ⟨data, next, rfl, htakes.ne_null hpools⟩⟩
    · constructor
      · rintro ⟨_, _, heq, hne⟩
        cases heq
        exact absurd rfl hne
      · exact fun hserves => absurd hserves.2 hrefused

theorem PoolsAt.sizeOf (hpools : PoolsAt target owner views state) (hview : view ∈ views) :
    state.sizeOf target view.node = view.blockSize := by
  have hstored := hpools.list.stored view hview
  rw [State.sizeOf, State.poolOf, hstored.poolPtr, hstored.blockSize]

theorem PoolsAt.stocked_iff (hpools : PoolsAt target owner views state) (hview : view ∈ views) :
    view.Stocked ↔ state.mem (target.field (state.mem (target.field (state.poolOf target view.node)
      Pool.freeBlockListPtr)) 0) ≠ null := by
  have hstored := hpools.list.stored view hview
  rw [State.poolOf, hstored.poolPtr, hstored.freeListPtr, PoolView.Stocked, Ne, Ne,
    ← hstored.freeChain.nil_iff, List.map_eq_nil_iff]

/-- The condition on memory, told of the views. -/
theorem NextLargerStocked.split (hnext : NextLargerStocked target state size)
    (hpools : PoolsAt target owner views state) :
    ∃ passed next tail, views = passed ++ next :: tail ∧
      (∀ neighbour ∈ passed, neighbour.blockSize < size) ∧ size < next.blockSize ∧
      next.Stocked := by
  obtain ⟨smaller, node, rest, hchain, hsmaller, hlarger, hfree⟩ := hnext
  have hnodes := hpools.list.chain.unique hchain
  obtain ⟨passed, reached, rfl, rfl, hreached⟩ := List.map_eq_append_iff.mp hnodes
  obtain ⟨next, tail, rfl, rfl, rfl⟩ := List.map_eq_cons_iff.mp hreached
  rw [hpools.sizeOf mem_middle] at hlarger
  refine ⟨passed, next, tail, rfl, ?_, hlarger, (hpools.stocked_iff mem_middle).mpr hfree⟩
  intro neighbour hneighbour
  have hsize := hsmaller neighbour.node (List.mem_map_of_mem hneighbour)
  rwa [hpools.sizeOf (List.mem_append_left _ hneighbour)] at hsize

/-- A pool of the size itself rules the condition out. -/
theorem PoolsAt.not_nextLargerStocked (hpools : PoolsAt target owner views state)
    (hview : view ∈ views) : ¬ NextLargerStocked target state view.blockSize := by
  intro hnext
  obtain ⟨passed, next, tail, rfl, hpassed, hlarger, -⟩ := hnext.split hpools
  obtain ⟨-, hreached, -⟩ := List.pairwise_append.mp hpools.list.ascending
  rcases List.mem_append.mp hview with hmem | hmem
  · exact absurd (hpassed view hmem) (Nat.lt_irrefl _)
  · rcases List.mem_cons.mp hmem with rfl | hmem
    · exact absurd hlarger (Nat.lt_irrefl _)
    · have hlt := (List.pairwise_cons.mp hreached).1 view hmem
      omega

theorem PoolsAt.nextLargerStocked_iff (hpools : PoolsAt target owner (front ++ back) state)
    (hbelow : ∀ neighbour ∈ front, neighbour.blockSize < size)
    (habove : ∀ neighbour ∈ back, size < neighbour.blockSize) :
    NextLargerStocked target state size ↔ ∃ next ∈ back.head?, next.Stocked := by
  constructor
  · intro hnext
    obtain ⟨passed, next, tail, hsplit, hpassed, hlarger, hstocked⟩ := hnext.split hpools
    refine ⟨next, ?_, hstocked⟩
    rcases List.append_eq_append_iff.mp hsplit with ⟨gap, rfl, hback⟩ | ⟨gap, rfl, hgap⟩
    · cases gap with
      | nil =>
          rw [hback]
          rfl
      | cons view gap =>
          have hbelowGap := hpassed view (List.mem_append_right _ List.mem_cons_self)
          have haboveGap := habove view (hback ▸ List.mem_cons_self)
          omega
    · cases gap with
      | nil =>
          rw [← List.nil_append back, ← hgap]
          rfl
      | cons view gap =>
          obtain ⟨rfl, -⟩ := List.cons.inj hgap
          have hbelowNext := hbelow next (List.mem_append_right _ List.mem_cons_self)
          omega
  · rintro ⟨next, hnext, hstocked⟩
    obtain ⟨tail, rfl⟩ := List.head?_eq_some_iff.mp hnext
    have hmem : next ∈ front ++ next :: tail := mem_middle
    refine ⟨front.map PoolView.node, next.node, tail.map PoolView.node, ?_, ?_, ?_, ?_⟩
    · have hchain := hpools.list.chain
      rwa [List.map_append, List.map_cons] at hchain
    · intro poolNode hpoolNode
      obtain ⟨view, hview, rfl⟩ := List.mem_map.mp hpoolNode
      rw [hpools.sizeOf (List.mem_append_left _ hview)]
      exact hbelow view hview
    · rw [hpools.sizeOf hmem]
      exact habove next List.mem_cons_self
    · exact (hpools.stocked_iff hmem).mp hstocked

/-- An extended pool is no less stocked. -/
theorem PoolView.Extended.stocked {made : Nat} (hextended : view.Extended other made)
    (hstocked : view.Stocked) : other.Stocked := by
  obtain ⟨added, -, hfree⟩ := hextended.free
  rw [PoolView.Stocked, hfree]
  exact List.append_ne_nil_of_right_ne_nil _ hstocked

/-- A new pool has a free block exactly when a block was made. -/
theorem PoolView.Extended.stocked_iff {made : Nat} (hextended : view.Extended other made)
    (hempty : view.free = []) : other.Stocked ↔ 0 < made := by
  obtain ⟨added, rfl, hfree⟩ := hextended.free
  rw [PoolView.Stocked, hfree, hempty, List.append_nil, List.length_pos_iff]

theorem blocksMade_pos_iff (hcount : 0 < count) {room : Nat} :
    0 < blocksMade target size count room ↔ entryBytes target size ≤ room := by
  have hpos := entryBytes_pos target size
  rw [blocksMade, lt_min_iff, Nat.div_pos_iff]
  constructor
  · exact fun h => h.2.2
  · exact fun h => ⟨hcount, hpos, h⟩

/-- What a creation does to service, whatever its result. -/
theorem Creates.serves_iff
    (hcreates : Creates target owner views state count size status larger others after)
    (hpools : PoolsAt target owner views state) (hcount : 0 < count) (hsize : 0 < size) :
    (∀ request, Serves target state request → Serves target after request) ↔
      ¬ (RoomForPoolOnly target state size ∧ NextLargerStocked target state size) := by
  have hafter := (hcreates.pools hpools).1
  simp only [hpools.serves_iff, hafter.serves_iff]
  cases hcreates with
  | @extended front back view other larger after split sameSize extension =>
      subst split sameSize
      have hextended := extension.extended
      refine ⟨fun _ hshadowed => hpools.not_nextLargerStocked mem_middle hshadowed.2, ?_⟩
      intro _ request hserves
      exact ⟨hserves.1, hserves.2.replace hextended.same.blockSize hextended.stocked⟩
  | @created front back view other larger after split below above room sameSize noFree noOut
      extension =>
      subst split sameSize
      have hextended := extension.extended
      have hstocked := hextended.stocked_iff noFree
      rw [blocksMade_pos_iff hcount] at hstocked
      have hascending := hafter.list.ascending
      have hotherSize : other.blockSize = view.blockSize := hextended.same.blockSize
      rw [hpools.nextLargerStocked_iff below above]
      constructor
      · rintro hkeeps ⟨⟨-, hfull⟩, hnext⟩
        have hbefore := (BestFit.serves_between_iff hascending).mpr hnext
        rw [hotherSize] at hbefore
        have hserved := (hkeeps view.blockSize ⟨hsize, hbefore⟩).2
        rw [← hotherSize, BestFit.serves_exact_iff hascending, hstocked] at hserved
        omega
      · intro hnot request hserves
        refine ⟨hserves.1, hserves.2.insert hascending ?_⟩
        by_contra hneither
        rw [not_or, not_not, hstocked] at hneither
        exact hnot ⟨⟨room, by omega⟩, hneither.2⟩
  | refused none noRoom grown quiet =>
      refine ⟨fun _ => ?_, fun _ request hserves => hserves⟩
      rintro ⟨⟨hroom, -⟩, -⟩
      omega

/-- A failed creation keeps all service exactly when it does not run out of
heap between the objects of a new pool and its first block while the next
larger pool has a free block. -/
theorem failed_creation_keeps_service_iff (hrun : (poolInterface target).Run history state)
    (hfits : ∀ exchange ∈ history, exchange.request.Fits target)
    (hallowed : call.Allowed target state) (hcallFits : call.Fits target)
    (hreturned : (call.perform target).run 0 state = .done reply 0 after)
    (hfailed : CreationFailed call reply numBlocks size) :
    (∀ request, Serves target state request → Serves target after request) ↔
      ¬ (0 < numBlocks ∧ 0 < size ∧ RoomForPoolOnly target state size ∧
        NextLargerStocked target state size) := by
  obtain ⟨owner, views, hpools⟩ := PoolsAt.of_run hrun fun exchange hexchange =>
    (hfits exchange hexchange).sound
  obtain ⟨-, larger, others, hstep⟩ := (hpools.step hallowed hcallFits.sound).of_run hreturned
  have hafter := hstep.pools hpools
  cases hfailed with
  | create numBlocks blockSize =>
      cases hstep with
      | createInvalid invalid rejected =>
          constructor
          · exact fun _ hcondition => invalid ⟨hcondition.1, hcondition.2.1⟩
          · intro _
            simp only [hpools.serves_iff, hafter.serves_iff]
            exact fun request hserves => hserves
      | create someBlocks positive creates =>
          rw [creates.serves_iff hpools someBlocks positive]
          simp [someBlocks, positive]
  | auto size =>
      cases hstep with
      | autoInvalid =>
          constructor
          · exact fun _ hcondition => absurd hcondition.2.1 (Nat.lt_irrefl 0)
          · intro _
            simp only [hpools.serves_iff, hafter.serves_iff]
            exact fun request hserves => hserves
      | auto positive allocates =>
          cases allocates with
          | direct exact takes => exact absurd rfl (takes.ne_null hpools)
          | created creates takes => exact absurd rfl (takes.ne_null (creates.pools hpools).1)
          | failed creates =>
              rw [creates.serves_iff hpools Nat.one_pos positive]
              simp [positive]

/-- A pool of one block of 64 bytes, 8 bytes of heap left, and a creation. -/
def exhaustedCalls : List PoolCall := [.create 1 8, .heapAllocate 1896, .create 1 64]

theorem failed_creation_keeps_service_iff_exhausted : ∃ (history : List PoolExchange)
    (state after : State), (poolInterface linux64).Run history state ∧
      (PoolCall.perform linux64 (.create 1 8)).run 0 state = .done (.status .error) 0 after ∧
      ((∀ request, Serves linux64 state request → Serves linux64 after request) ↔
        ¬ (0 < 1 ∧ 0 < 8 ∧ RoomForPoolOnly linux64 state 8 ∧
          NextLargerStocked linux64 state 8)) := by
  have hresult : ((poolInterface linux64).execute exhaustedCalls).map (fun outcome =>
      outcome.1.head?.map Exchange.result) = some (some (.status .error)) := by
    decide +kernel
  obtain ⟨history, state, hrun, hrequests, hhead⟩ := Interface.execute_map hresult
  cases hrun with
  | start => cases hhead
  | @step earlier before after call reply prior isAllowed returned =>
      obtain ⟨rfl, hearlier⟩ := List.cons.inj hrequests
      obtain rfl : reply = .status .error := Option.some.inj hhead
      have hfits : ∀ request ∈ earlier.map Exchange.request, request.Fits linux64 := by
        rw [hearlier]
        decide
      have hallowed : (PoolCall.create 1 8).Allowed linux64 before := isAllowed
      exact ⟨earlier, before, state, prior, returned, failed_creation_keeps_service_iff prior
        (List.forall_mem_map.mp hfits) hallowed (by decide) returned (.create 1 8)⟩

/-- A pool of one block of 64 bytes, and 64 bytes of heap left. -/
def shadowedCalls : List PoolCall := [.create 1 8, .heapAllocate 1840, .create 1 64]

/-- What an allocation would return. -/
def allocateResult (target : Target) (state : State) (size : Nat) : Nat :=
  match (tbxMemPoolAllocate target size).run 0 state with
  | .done data 0 _ => data
  | _ => null

theorem serves_iff_allocateResult :
    Serves target state size ↔ allocateResult target state size ≠ null := by
  unfold Serves allocateResult
  constructor
  · rintro ⟨data, next, hrun, hne⟩
    rwa [hrun]
  · intro hne
    split at hne
    · next data next hrun => exact ⟨data, next, hrun, hne⟩
    · exact absurd rfl hne

/-- The creation of a smaller pool fails for want of a block, and requests of
its size, served before, are refused afterwards. -/
theorem failed_creation_takes_service : ∃ history state failed,
    (poolInterface linux64).Run (failed :: history) state ∧
      (failed :: history).map Exchange.request = shadowedCalls ∧
      failed.result = .status .error ∧ Serves linux64 failed.before 8 ∧
      ¬ Serves linux64 failed.after 8 := by
  have hfacts : ((poolInterface linux64).execute shadowedCalls).map (fun outcome =>
      outcome.1.head?.map fun exchange => (exchange.result,
        allocateResult linux64 exchange.before 8, allocateResult linux64 exchange.after 8)) =
      some (some (.status .error, 4176, 0)) := by
    decide +kernel
  obtain ⟨history, state, hrun, hrequests, hobserved⟩ := Interface.execute_map hfacts
  obtain ⟨failed, earlier, rfl, -, -⟩ := List.map_eq_cons_iff.mp hrequests
  simp only [List.head?_cons, Option.map_some, Option.some.injEq, Prod.mk.injEq] at hobserved
  obtain ⟨hresult, hbefore, hafter⟩ := hobserved
  refine ⟨earlier, state, failed, hrun, hrequests, hresult, ?_, ?_⟩
  · rw [serves_iff_allocateResult, hbefore]
    decide
  · rw [serves_iff_allocateResult, hafter]
    decide

end MicroTbx

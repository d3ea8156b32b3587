import MicroTbx.MemPool.Capacity
import Mathlib.Algebra.BigOperators.Group.List.Basic

/-! # Where the heap goes

The heap never takes memory back, so everything taken is in the hands of the
application, part of a pool that can be reached, or lost in a creation that
failed. The loss of a failed creation follows from the free heap it found.
-/

namespace MicroTbx

open Program

variable (target : Target)

/-- Whether a search finds a pool of the size. -/
def poolExists (state : State) (size : Nat) : Bool :=
  match (tbxMemPoolListFind target size).run 0 state with
  | .done poolNodePtr _ _ => decide (poolNodePtr ≠ null)
  | _ => false

/-- Bytes that a creation takes without linking them. -/
def creationLoss (state : State) (numBlocks blockSize : Nat) : Nat :=
  if poolExists target state blockSize then
    loopLoss target blockSize numBlocks (state.room target)
  else if state.room target < poolBytes target then poolLoss target (state.room target)
  else loopLoss target blockSize numBlocks (state.room target - poolBytes target)

/-- Bytes lost in one call: only failed creations lose any. -/
def PoolExchange.lost (exchange : PoolExchange) : Nat :=
  match exchange.request, exchange.result with
  | .create numBlocks blockSize, .status .error =>
      if 0 < numBlocks ∧ 0 < blockSize then
        creationLoss target exchange.before numBlocks blockSize
      else 0
  | .allocateAuto size, .pointer result =>
      if 0 < size ∧ result = null then creationLoss target exchange.before 1 size else 0
  | _, _ => 0

/-- Bytes the application took with a direct call. -/
def PoolExchange.direct (exchange : PoolExchange) : Nat :=
  match exchange.request, exchange.result with
  | .heapAllocate size, .pointer result => if result = null then 0 else target.roundUp size
  | _, _ => 0

/-- No size of the call wraps. -/
def PoolCall.NoWrap : PoolCall → Prop
  | .heapAllocate size => target.Fits size
  | call => call.Fits target

/-- Bytes of a pool with its blocks, which have one node each. -/
def reachableBytes (state : State) (poolNode : Nat) (free used : List Nat) : Nat :=
  poolBytes target + (free.length + used.length) * entryBytes target (state.sizeOf target poolNode)

/-- The bytes taken from the heap are the direct calls', those of the pools
that can be reached, and further bytes. -/
def HeapBalance (history : List PoolExchange) (state : State) (further : Nat) : Prop :=
  ∃ pools : List (Nat × List Nat × List Nat),
    Chain.Linked (nextNode target state.mem) null state.tbxPoolList (pools.map Prod.fst) ∧
    (∀ pool ∈ pools, PoolConserved target state pool.1 pool.2.1 pool.2.2) ∧
    state.tbxHeapAllocated = (history.map (PoolExchange.direct target)).sum +
      (pools.map fun pool => reachableBytes target state pool.1 pool.2.1 pool.2.2).sum + further

/-- What the heap counts in a state a run ends in. -/
structure HeapAccounted (history : List PoolExchange) (state : State) : Prop where
  free : (tbxHeapGetFree target).Evaluates state (target.heapSize - state.tbxHeapAllocated) state
  balance : HeapBalance target history state (history.map (PoolExchange.lost target)).sum
  /-- A creation that succeeds loses nothing: what it took is in its pool. -/
  successful : ∀ exchange ∈ history, ∀ numBlocks blockSize,
    exchange.request = .create numBlocks blockSize → exchange.result = .status .ok →
    exchange.after.tbxHeapAllocated = exchange.before.tbxHeapAllocated +
      (if poolExists target exchange.before blockSize then 0 else poolBytes target) +
      numBlocks * entryBytes target blockSize

variable {target} {owner larger : Ownership} {views others front back : List PoolView}
  {view other : PoolView} {state after : State} {call : PoolCall} {reply : PoolReply}
  {history : List PoolExchange} {size count : Nat} {status : Status}

/-! ## The bytes of the views -/

/-- Bytes of one pool. -/
def PoolView.bytes (target : Target) (view : PoolView) : Nat :=
  poolBytes target + (view.free.length + view.used.length) * entryBytes target view.blockSize

def viewsBytes (target : Target) (views : List PoolView) : Nat :=
  (views.map (PoolView.bytes target)).sum

@[simp] theorem viewsBytes_middle : viewsBytes target (front ++ view :: back) =
    viewsBytes target front + view.bytes target + viewsBytes target back := by
  simp [viewsBytes, Nat.add_assoc]

@[simp] theorem viewsBytes_append : viewsBytes target (front ++ back) =
    viewsBytes target front + viewsBytes target back := by
  simp [viewsBytes]

theorem PoolView.Extended.bytes {made : Nat} (hextended : view.Extended other made) :
    other.bytes target = view.bytes target + made * entryBytes target view.blockSize := by
  obtain ⟨added, rfl, hfree⟩ := hextended.free
  rw [PoolView.bytes, PoolView.bytes, hextended.same.blockSize, hextended.used, hfree,
    List.length_append, Nat.add_assoc added.length, Nat.add_mul]
  omega

theorem poolExists_iff (hpools : PoolsAt target owner views state) (hsize : 0 < size) :
    poolExists target state size = true ↔ ∃ view ∈ views, view.blockSize = size := by
  obtain ⟨_, _, hrun, rfl, rfl⟩ := (hpools.listFind hsize).run 0
  rw [poolExists, hrun]
  simp only [decide_eq_true_eq]
  constructor
  · intro hne
    by_contra hnone
    exact hne (nodeOf_eq_null fun view hview heq => hnone ⟨view, hview, heq⟩)
  · rintro ⟨view, hview, rfl⟩
    rw [nodeOf_mem hpools.list.ascending hview]
    exact hpools.heap.node_ne_null hview

/-- The loss of the block loop, told by its result. -/
theorem loopLoss_eq (size count room : Nat) : loopLoss target size count room =
    if (if blocksMade target size count room = count then Status.ok else .error) = .error then
      loopLoss target size count room
    else 0 := by
  by_cases hall : blocksMade target size count room = count
  · simp [hall, loopLoss_of_all hall]
  · simp [hall]

theorem of_status_ok {condition : Prop} [Decidable condition]
    (hok : (if condition then Status.ok else .error) = .ok) : condition := by
  by_contra hnot
  rw [if_neg hnot] at hok
  cases hok

/-- Where the bytes of a creation went. -/
theorem Creates.bytes
    (hcreates : Creates target owner views state count size status larger others after)
    (hpools : PoolsAt target owner views state) (hsize : 0 < size) :
    after.tbxHeapAllocated + viewsBytes target views =
      state.tbxHeapAllocated + viewsBytes target others +
        (if status = .error then creationLoss target state count size else 0) ∧
    (status = .ok → after.tbxHeapAllocated = state.tbxHeapAllocated +
      (if poolExists target state size then 0 else poolBytes target) +
      count * entryBytes target size) := by
  have hexists := poolExists_iff hpools hsize
  cases hcreates with
  | @extended front back view other larger after split sameSize extension =>
      subst split sameSize
      have hfound := hexists.mpr ⟨view, mem_middle, rfl⟩
      have hloss := @loopLoss_eq target view.blockSize count (state.room target)
      have hbytes := @PoolView.Extended.bytes target _ _ _ extension.extended
      have hallocated := extension.allocated
      unfold loopBytes at hallocated
      rw [creationLoss, if_pos hfound]
      refine ⟨?_, fun hok => ?_⟩
      · rw [viewsBytes_middle, viewsBytes_middle, hbytes, ← hloss]
        omega
      · have hall := of_status_ok hok
        rw [hall, loopLoss_of_all hall] at hallocated
        rw [if_pos hfound, hallocated]
        omega
  | @created front back view other larger after split below above room sameSize noFree noOut
      extension =>
      subst split sameSize
      have hmissing : ¬ poolExists target state view.blockSize = true := by
        rw [hexists]
        rintro ⟨neighbour, hneighbour, heq⟩
        rcases List.mem_append.mp hneighbour with hfront | hback
        · exact (below neighbour hfront).ne heq
        · exact (above neighbour hback).ne' heq
      have hused : view.used.length = 0 := by rw [view.counted, noOut, List.length_nil]
      have hview : view.bytes target = poolBytes target := by
        simp [PoolView.bytes, noFree, hused]
      have hloss := @loopLoss_eq target view.blockSize count
        (state.room target - poolBytes target)
      have hbytes := @PoolView.Extended.bytes target _ _ _ extension.extended
      have hallocated := extension.allocated
      unfold loopBytes at hallocated
      rw [creationLoss, if_neg hmissing, if_neg (Nat.not_lt.mpr room)]
      refine ⟨?_, fun hok => ?_⟩
      · rw [viewsBytes_middle, viewsBytes_append, hbytes, hview, ← hloss]
        omega
      · have hall := of_status_ok hok
        rw [hall, loopLoss_of_all hall] at hallocated
        rw [if_neg hmissing, hallocated]
        omega
  | refused none noRoom grown checked =>
      have hmissing : ¬ poolExists target state size = true := by
        rw [hexists]
        rintro ⟨neighbour, hneighbour, heq⟩
        exact none neighbour hneighbour heq
      have hallocated := grown.allocated
      rw [creationLoss, if_neg hmissing, if_pos noRoom, if_pos rfl]
      exact ⟨by omega, fun hok => by cases hok⟩

/-! ## One call -/

theorem Takes.bytes {data : Nat} (htakes : Takes target views state size data others after) :
    after.tbxHeapAllocated = state.tbxHeapAllocated ∧
      viewsBytes target others = viewsBytes target views := by
  obtain @⟨front, back, view, node, block, rest, rfl, fit, free⟩ := htakes
  refine ⟨rfl, ?_⟩
  have hview : (view.take free).bytes target = view.bytes target := by
    simp only [PoolView.bytes, PoolView.take_free, PoolView.take_used, PoolView.take_blockSize, free,
      List.length_cons]
    congr 2
    omega
  rw [viewsBytes_middle, viewsBytes_middle, hview]

/-- Each call takes what it reports: direct bytes, bytes of pools, and bytes
lost. -/
theorem PoolStep.bytes (hstep : PoolStep target owner views state call reply larger others after)
    (hpools : PoolsAt target owner views state) (hcall : call.NoWrap target) :
    after.tbxHeapAllocated + viewsBytes target views =
      state.tbxHeapAllocated + viewsBytes target others +
        PoolExchange.direct target ⟨call, reply, state, after⟩ +
        PoolExchange.lost target ⟨call, reply, state, after⟩ := by
  cases hstep with
  | createInvalid invalid rejected =>
      rcases rejected with rfl | rfl <;>
        simp [PoolExchange.direct, PoolExchange.lost, invalid, State.rejected]
  | @create numBlocks blockSize result larger others after someBlocks size creates =>
      have hbytes := (creates.bytes hpools size).1
      cases result <;> simpa [PoolExchange.direct, PoolExchange.lost, someBlocks, size] using hbytes
  | allocateInvalid => simp [PoolExchange.direct, PoolExchange.lost, State.rejected]
  | allocateRefused positive refused => simp [PoolExchange.direct, PoolExchange.lost]
  | allocate positive takes =>
      obtain ⟨hallocated, hviews⟩ := takes.bytes
      simp [PoolExchange.direct, PoolExchange.lost, hallocated, hviews]
  | autoInvalid => simp [PoolExchange.direct, PoolExchange.lost, State.rejected]
  | auto positive allocates =>
      cases allocates with
      | direct exact takes =>
          obtain ⟨hallocated, hviews⟩ := takes.bytes
          have hne := takes.ne_null hpools
          simp only [null_eq] at hne
          simp [PoolExchange.direct, PoolExchange.lost, hallocated, hviews, hne]
      | created creates takes =>
          obtain ⟨hallocated, hviews⟩ := takes.bytes
          have hne := takes.ne_null (creates.pools hpools).1
          have hbytes := (creates.bytes hpools positive).1
          simp only [null_eq] at hne
          simpa [PoolExchange.direct, PoolExchange.lost, hallocated, hviews, hne] using hbytes
      | failed creates =>
          have hbytes := (creates.bytes hpools positive).1
          simpa [PoolExchange.direct, PoolExchange.lost, positive] using hbytes
  | @release front back view node block spare split used out =>
      subst split
      have hview : (view.giveBack used out).bytes target = view.bytes target := by
        simp only [PoolView.bytes, PoolView.giveBack_free, PoolView.giveBack_used,
          PoolView.giveBack_blockSize, used, List.length_cons]
        congr 2
        omega
      rw [viewsBytes_middle, viewsBytes_middle, hview]
      rfl
  | @heapAllocate size result after grown room checks =>
      have hwanted : sizeWanted target size = target.roundUp size := sizeWanted_of_fits hcall
      have hallocated := grown.allocated
      rw [hwanted] at hallocated
      simp only [PoolExchange.direct, PoolExchange.lost]
      omega
  | write data => rfl

/-! ## Every run -/

theorem PoolCall.NoWrap.sound (hcall : call.NoWrap target) : call.BlockSize target.Sound := by
  cases call with
  | heapAllocate size => exact trivial
  | create numBlocks blockSize => exact PoolCall.Fits.sound hcall
  | allocateAuto size => exact PoolCall.Fits.sound hcall
  | _ => exact trivial

theorem PoolsAt.balance (hpools : PoolsAt target owner views state) {further : Nat}
    (hbytes : state.tbxHeapAllocated = (history.map (PoolExchange.direct target)).sum +
      viewsBytes target views + further) : HeapBalance target history state further := by
  refine ⟨views.map fun view => (view.node, view.free.map Prod.fst, view.used), ?_, ?_, ?_⟩
  · have hnodes : (views.map fun view => (view.node, view.free.map Prod.fst, view.used)).map
        Prod.fst = views.map PoolView.node := by simp
    rw [hnodes]
    exact hpools.list.chain
  · intro pool hpool
    obtain ⟨view, hview, rfl⟩ := List.mem_map.mp hpool
    exact hpools.conserved hview
  · have hviews : (views.map fun view => (view.node, view.free.map Prod.fst, view.used)).map
        (fun pool => reachableBytes target state pool.1 pool.2.1 pool.2.2) =
          views.map (PoolView.bytes target) := by
      rw [List.map_map]
      refine List.map_congr_left fun view hview => ?_
      have hstored := hpools.list.stored view hview
      have hsize : state.sizeOf target view.node = view.blockSize := by
        rw [State.sizeOf, State.poolOf, hstored.poolPtr, hstored.blockSize]
      simp [reachableBytes, PoolView.bytes, hsize]
    rw [hviews]
    exact hbytes

/-- Every byte taken from the heap went to a direct call, to a pool that can
be reached, or was lost in a creation that failed. -/
theorem heap_accounted (hrun : (poolInterface target).Run history state)
    (hcalls : ∀ exchange ∈ history, exchange.request.NoWrap target) :
    HeapAccounted target history state := by
  obtain ⟨owner, views, hpools, hbytes, hsuccessful⟩ := PoolStep.invariant
    (motive := fun history _ views state =>
      state.tbxHeapAllocated = (history.map (PoolExchange.direct target)).sum +
        viewsBytes target views + (history.map (PoolExchange.lost target)).sum ∧
      ∀ exchange ∈ history, ∀ numBlocks blockSize,
        exchange.request = .create numBlocks blockSize → exchange.result = .status .ok →
        exchange.after.tbxHeapAllocated = exchange.before.tbxHeapAllocated +
          (if poolExists target exchange.before blockSize then 0 else poolBytes target) +
          numBlocks * entryBytes target blockSize)
    (fun _ => PoolCall.NoWrap.sound) ⟨rfl, by simp⟩ (fun {history owner views before call reply
      larger others after} hpools hprior hcall hstep => by
        obtain ⟨hbytes, hsuccessful⟩ := hprior
        have htaken := hstep.bytes hpools hcall
        refine ⟨?_, List.forall_mem_cons.mpr ⟨?_, hsuccessful⟩⟩
        · simp only [List.map_cons, List.sum_cons]
          omega
        · intro numBlocks blockSize hrequest hresult
          cases hstep with
          | createInvalid invalid rejected => cases hresult
          | create someBlocks size creates =>
              cases hrequest
              cases hresult
              exact (creates.bytes hpools size).2 rfl
          | _ => cases hrequest) hrun hcalls
  exact ⟨tbxHeapGetFree_spec hpools.heap.allocated_le, hpools.balance hbytes, hsuccessful⟩

instance (call : PoolCall) : Decidable (call.NoWrap target) :=
  match call with
  | .heapAllocate size => inferInstanceAs (Decidable (target.Fits size))
  | .create numBlocks blockSize =>
      inferInstanceAs (Decidable (PoolCall.Fits target (.create numBlocks blockSize)))
  | .allocateAuto size => inferInstanceAs (Decidable (PoolCall.Fits target (.allocateAuto size)))
  | .allocate _ | .release _ | .write _ _ _ => inferInstanceAs (Decidable True)

/-- Two pools are made and most of the heap is used directly. The 88 bytes left
hold the first of two more blocks and the node of the second one. What is left
then holds only the node of a pool for another block size. -/
def leakingCalls : List PoolCall :=
  [.allocateAuto 56, .create 2 24, .heapAllocate 1736, .allocateAuto 24, .create 1 40]

/-- Both creations that fail lose a node of 16 bytes. -/
theorem heap_accounted_leaking : ∃ history state, (poolInterface linux64).Run history state ∧
    history.map Exchange.request = leakingCalls ∧
    history.map Exchange.result =
      [.pointer null, .status .error, .pointer 4320, .pointer 4296, .status .ok] ∧
    history.map (PoolExchange.lost linux64) = [16, 16, 0, 0, 0] ∧
    HeapAccounted linux64 history state := by
  have hfacts : ((poolInterface linux64).execute leakingCalls).map (fun outcome =>
      (outcome.1.map Exchange.result, outcome.1.map (PoolExchange.lost linux64))) =
      some ([.pointer null, .status .error, .pointer 4320, .pointer 4296, .status .ok],
        [16, 16, 0, 0, 0]) := by
    decide +kernel
  obtain ⟨history, state, hrun, hrequests, hpair⟩ := Interface.execute_map hfacts
  obtain ⟨hresults, hlost⟩ := Prod.mk.inj hpair
  have hcalls : ∀ request ∈ history.map Exchange.request, request.NoWrap linux64 := by
    rw [hrequests]
    decide
  exact ⟨history, state, hrun, hrequests, hresults, hlost,
    heap_accounted hrun (List.forall_mem_map.mp hcalls)⟩

/-- All but 16 bytes of the heap are used directly; then a pool is created. -/
def lostNodeCalls : List PoolCall := [.create 1 8, .heapAllocate 2032]

/-- The creation fails behind its first allocation. Its 16 bytes belong to no
pool. -/
theorem heap_not_balanced_without_loss : ∃ history state,
    (poolInterface linux64).Run history state ∧ history.map Exchange.request = lostNodeCalls ∧
      history.map Exchange.result = [.status .error, .pointer 4096] ∧
      ¬ HeapBalance linux64 history state 0 := by
  have hfacts : ((poolInterface linux64).execute lostNodeCalls).map (fun outcome =>
      (outcome.1.map Exchange.result, outcome.2.tbxPoolList, outcome.2.tbxHeapAllocated,
        (outcome.1.map (PoolExchange.direct linux64)).sum)) =
      some ([.status .error, .pointer 4096], 0, 2048, 2032) := by
    decide +kernel
  obtain ⟨history, state, hrun, hrequests, hobserved⟩ := Interface.execute_map hfacts
  simp only [Prod.mk.injEq] at hobserved
  obtain ⟨hresults, hlist, hallocated, hdirect⟩ := hobserved
  refine ⟨history, state, hrun, hrequests, hresults, ?_⟩
  rintro ⟨pools, hchain, -, hbalance⟩
  have hnone : pools = [] := List.map_eq_nil_iff.mp (hchain.nil_iff.mpr hlist)
  subst hnone
  rw [hallocated, hdirect] at hbalance
  simp at hbalance

end MicroTbx

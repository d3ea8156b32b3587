import MicroTbx.MemPool.Conservation

/-! # The size of a block

The header of a block keeps the size asked for, while the heap reserves what
the arithmetic in `size_t` makes of it. As long as no size wraps, or only to a
request that the heap refuses, the reserved memory is as large as the header
says.
-/

namespace MicroTbx

open Program

variable (target : Target)

/-- What is promised of the sizes in a run. -/
structure RunCapacity (history : List PoolExchange) : Prop where
  /-- The bytes asked for follow the header of a block that was reserved. -/
  reserved : ∀ exchange ∈ history, ∀ size data,
    exchange.request = .allocate size ∨ exchange.request = .allocateAuto size →
    exchange.result = .pointer data → data ≠ null →
    ∃ blockSize block bytes, block ∈ blocksAdded blockSize exchange.after.log ∧
      .heapTaken block bytes ∈ exchange.after.log ∧ data = block + target.word ∧
      data + size ≤ block + bytes ∧ target.heapBase ≤ block ∧
      block + bytes ≤ target.heapBase + target.heapSize
  /-- A block that cannot be represented is refused. -/
  refused : ∀ exchange ∈ history, ∀ numBlocks blockSize,
    exchange.request = .create numBlocks blockSize → ¬ target.Fits (target.word + blockSize) →
    exchange.result = .status .error

variable {target} {owner larger : Ownership} {views others : List PoolView} {view : PoolView}
  {state after : State} {call : PoolCall} {reply : PoolReply} {history : List PoolExchange}
  {size data block : Nat}

/-- The memory of a block lies in the heap buffer. -/
theorem PoolsAt.block_inside (hpools : PoolsAt target owner views state) (hview : view ∈ views)
    (hblock : block ∈ view.blocks) :
    target.heapBase ≤ block ∧
      block + blockBytes target view.blockSize ≤ target.heapBase + target.heapSize := by
  have hplaced := hpools.heap.placed view hview
  have hheader := (hpools.heap.inside _ _ (hplaced.header block hblock)).1
  have hword := target.word_pos
  have hsize := view.size_pos
  have hle : target.word + view.blockSize ≤ blockBytes target view.blockSize :=
    target.le_roundUp _
  have hlt : blockBytes target view.blockSize < target.word + view.blockSize + target.word :=
    target.roundUp_lt _
  obtain ⟨count, hcount⟩ : target.word ∣ blockBytes target view.blockSize :=
    target.word_dvd_roundUp _
  rw [hcount, Nat.mul_comm] at hle hlt
  -- The last word of the block is a data word.
  obtain ⟨index, rfl⟩ : ∃ index, count = index + 2 := by
    refine ⟨count - 2, ?_⟩
    have : 1 < count := by
      by_contra hsmall
      have : count * target.word ≤ 1 * target.word := Nat.mul_le_mul_right _ (by omega)
      omega
    omega
  rw [Nat.add_mul] at hle hlt
  have hlast := (hpools.heap.inside _ _ (hplaced.data block hblock index (by omega))).2.2
  have hallocated := hpools.heap.allocated_le
  rw [Target.field_zero] at hheader
  rw [hcount, Nat.mul_comm, Nat.add_mul]
  simp only [Target.field, Nat.add_mul] at hlast
  omega

/-- The block that answers a request is large enough. -/
theorem Takes.reserved (htakes : Takes target views state size data others after)
    (hpools : PoolsAt target owner views state) :
    ∃ blockSize block bytes, block ∈ blocksAdded blockSize after.log ∧
      .heapTaken block bytes ∈ after.log ∧ data = block + target.word ∧
      data + size ≤ block + bytes ∧ target.heapBase ≤ block ∧
      block + bytes ≤ target.heapBase + target.heapSize := by
  obtain @⟨front, back, view, node, block, rest, rfl, fit, free⟩ := htakes
  have hblock : block ∈ view.blocks := List.mem_append_left _
    (List.mem_map_of_mem (free ▸ List.mem_cons_self))
  obtain ⟨hlow, hhigh⟩ := hpools.block_inside mem_middle hblock
  have hle : target.word + view.blockSize ≤ blockBytes target view.blockSize :=
    target.le_roundUp _
  have hsize := (BestFit.bestFit_mem fit).2
  refine ⟨view.blockSize, block, blockBytes target view.blockSize, ?_, ?_, by simp [Target.field],
    ?_, hlow, hhigh⟩
  · exact (hpools.log.added view mem_middle).mem_iff.mpr hblock
  · exact List.mem_cons_of_mem _ (hpools.log.reserved view mem_middle block hblock)
  · simp only [Target.field]
    omega

/-- A creation makes no block that the heap has no room for. -/
theorem Creates.refused_of_wraps {count : Nat} {status : Status}
    (hcreates : Creates target owner views state count size status larger others after)
    (hcount : 0 < count) (hwraps : ¬ target.Fits (target.word + size)) : status = .error := by
  have hnone : ∀ room ≤ target.heapSize, blocksMade target size count room ≠ count := by
    intro room hle hmade
    refine hwraps (fits_of_room hle ?_)
    by_contra hsmall
    rw [blocksMade_full (by unfold entryBytes; omega)] at hmade
    omega
  cases hcreates with
  | extended split sameSize extension => exact if_neg (hnone _ (Nat.sub_le ..))
  | created split below above room sameSize noFree noOut extension =>
      exact if_neg (hnone _ ((Nat.sub_le ..).trans (Nat.sub_le ..)))
  | refused none noRoom grown checked => rfl

theorem RunCapacity.step (hcapacity : RunCapacity target history)
    (hpools : PoolsAt target owner views state)
    (hstep : PoolStep target owner views state call reply larger others after) :
    RunCapacity target (⟨call, reply, state, after⟩ :: history) where
  reserved := by
    rw [List.forall_mem_cons]
    refine ⟨fun size data hcall hreply hne => ?_, hcapacity.reserved⟩
    cases hstep with
    | allocateInvalid => cases hreply; exact absurd rfl hne
    | allocateRefused positive refused => cases hreply; exact absurd rfl hne
    | allocate positive takes =>
        cases hreply
        obtain heq | heq := hcall <;> cases heq
        exact takes.reserved hpools
    | autoInvalid => cases hreply; exact absurd rfl hne
    | auto positive allocates =>
        cases hreply
        obtain heq | heq := hcall <;> cases heq
        cases allocates with
        | direct exact takes => exact takes.reserved hpools
        | created creates takes => exact takes.reserved (creates.pools hpools).1
        | failed creates => exact absurd rfl hne
    | _ => obtain heq | heq := hcall <;> cases heq
  refused := by
    rw [List.forall_mem_cons]
    refine ⟨fun numBlocks blockSize hcall hwraps => ?_, hcapacity.refused⟩
    cases hstep with
    | createInvalid invalid rejected => rfl
    | create someBlocks size creates =>
        cases hcall
        exact congrArg PoolReply.status (creates.refused_of_wraps someBlocks hwraps)
    | _ => cases hcall

/-- Blocks are as large as asked for in every run whose block sizes wrap at
most to a request for nothing. -/
theorem pool_capacity (hrun : (poolInterface target).Run history state)
    (hsound : ∀ exchange ∈ history, exchange.request.BlockSize target.Sound) :
    RunCapacity target history := by
  obtain ⟨owner, views, -, hcapacity⟩ := PoolStep.invariant
    (motive := fun history _ _ _ => RunCapacity target history) (fun _ hcall => hcall)
    ⟨by simp, by simp⟩ (fun hpools hcapacity _ hstep => hcapacity.step hpools hstep) hrun hsound
  exact hcapacity

/-- Two allocations from two pools, and a creation that is refused. -/
def soundCalls : List PoolCall :=
  [.create 1 (2 ^ 64 - 8), .allocateAuto 40, .allocate 20, .create 2 24]

theorem pool_capacity_sound : ∃ history state, (poolInterface linux64).Run history state ∧
    history.map Exchange.request = soundCalls ∧ RunCapacity linux64 history := by
  have hexecutes : ((poolInterface linux64).execute soundCalls).isSome = true := by decide +kernel
  obtain ⟨history, state, hrun, hrequests⟩ := Interface.execute_isSome hexecutes
  have hsound : ∀ request ∈ history.map Exchange.request, request.BlockSize linux64.Sound := by
    rw [hrequests]
    decide
  exact ⟨history, state, hrun, hrequests,
    pool_capacity hrun (List.forall_mem_map.mp hsound)⟩

/-- A pool of one block of the largest size, from which 100 bytes are taken. -/
def wrappedCalls : List PoolCall := [.allocate 100, .create 1 (2 ^ 64 - 1)]

/-- The creation succeeds with a block of one word, and the allocation
returns a pointer to nothing behind its header. -/
theorem pool_capacity_fails_at_sizeMax : ∃ history state,
    (poolInterface linux64).Run history state ∧ history.map Exchange.request = wrappedCalls ∧
      history.map Exchange.result = [.pointer 4176, .status .ok] ∧
      ¬ RunCapacity linux64 history := by
  have hfacts : ((poolInterface linux64).execute wrappedCalls).map (fun outcome =>
      (outcome.1.map Exchange.result, outcome.1.all fun exchange =>
        exchange.after.log.all fun event =>
          match event with
          | .heapTaken start bytes => start != 4168 || bytes == 8
          | _ => true)) = some ([.pointer 4176, .status .ok], true) := by
    decide +kernel
  obtain ⟨history, state, hrun, hrequests, hobserved⟩ := Interface.execute_map hfacts
  obtain ⟨hresults, hall⟩ := Prod.mk.inj hobserved
  have hlog : ∀ exchange ∈ history, ∀ bytes, .heapTaken 4168 bytes ∈ exchange.after.log →
      bytes = 8 := by
    intro exchange hexchange bytes hmem
    have hevents := List.all_eq_true.mp hall exchange hexchange
    simpa using List.all_eq_true.mp hevents _ hmem
  refine ⟨history, state, hrun, hrequests, hresults, fun hcapacity => ?_⟩
  obtain ⟨newest, earlier, rfl, hrequest, -⟩ := List.map_eq_cons_iff.mp hrequests
  rw [List.map_cons, List.cons.injEq] at hresults
  obtain ⟨blockSize, block, bytes, -, htaken, hdata, hfits, -, -⟩ := hcapacity.reserved newest
    List.mem_cons_self 100 4176 (.inl hrequest) hresults.1 (by simp)
  have hblock : block = 4168 := by
    have hword : linux64.word = 8 := rfl
    omega
  subst hblock
  have hbytes := hlog newest List.mem_cons_self bytes htaken
  omega

end MicroTbx

import MicroTbx.MemPool.Accounting

/-! # When a pool grows

A function that makes a block on demand asks the pool first. It goes to the
heap only when the pool has nothing free, so that a pool is never larger than
the most blocks of it that were handed out at one time required.
-/

namespace MicroTbx

open Program

section Requesting

variable (target : Target)

/-- Every block of the pool of a size is handed out. A pool that does not exist
has none. -/
def AllAllocated (size : Nat) (state : State) : Prop :=
  ∀ block ∈ blocksAdded size state.log, block ∈ allocatedBlocks target state size

instance (size : Nat) (state : State) : Decidable (AllAllocated target size state) :=
  inferInstanceAs (Decidable (∀ block ∈ _, _))

/-- The log grew, and the flag of the list module is what it was. -/
structure Onward (state after : State) : Prop where
  grows : state.log <:+ after.log
  flag : after.memPoolsCreated = state.memPoolsCreated

/-- What a request for a block does that adds one to the pool if need be. -/
structure Requests (size : Nat) (state : State) (data : Nat) (after : State) : Prop where
  spare : ¬ AllAllocated target size state → data ≠ null ∧
    after.tbxHeapAllocated = state.tbxHeapAllocated ∧
    blocksAdded size after.log = blocksAdded size state.log
  others : ∀ other, other ≠ size →
    (blocksAdded other after.log).length = (blocksAdded other state.log).length
  out : handedOut after.log =
    if data = null then handedOut state.log else data :: handedOut state.log
  pooled : data ≠ null → blocksAdded size after.log ≠ [] →
    data - target.word ∈ blocksAdded size after.log

end Requesting

variable {target : Target} {owner larger : Ownership} {views others : List PoolView}
  {view : PoolView} {state middle after : State} {size count data : Nat} {status : Status}
  {log later : List Event}

/-! ## The log -/

namespace Onward

theorem refl (state : State) : Onward state state := ⟨List.suffix_refl _, rfl⟩

theorem trans (first second third : State) (hfirst : Onward first second)
    (hnext : Onward second third) : Onward first third :=
  ⟨hfirst.grows.trans hnext.grows, hnext.flag.trans hfirst.flag⟩

theorem emit (state : State) (event : Event) : Onward state (state.emit event) :=
  ⟨List.suffix_cons _ _, rfl⟩

theorem poolSteps : PoolSteps Onward where
  refl := refl
  store := fun _ _ _ => ⟨List.suffix_refl _, rfl⟩
  assertion := fun state _ _ => emit state _
  setPoolList := fun _ _ => ⟨List.suffix_refl _, rfl⟩
  setHeapAllocated := fun _ _ => ⟨List.suffix_refl _, rfl⟩
  heapTaken := fun state _ _ => emit state _
  blockAdded := fun state _ _ => emit state _
  allocated := fun state _ => emit state _
  released := fun state _ => emit state _

end Onward

theorem blocksAdded_suffix (size : Nat) (hgrows : log <:+ later) :
    blocksAdded size log <:+ blocksAdded size later := by
  obtain ⟨events, rfl⟩ := hgrows
  induction events with
  | nil => exact List.suffix_refl _
  | cons event events ih =>
      cases event with
      | blockAdded blockSize block =>
          rw [List.cons_append, blocksAdded]
          split
          · exact ih.trans (List.suffix_cons _ _)
          · exact ih
      | _ => exact ih

/-- Blocks of which there are no more than before are the same as before. -/
theorem blocksAdded_eq (hgrows : log <:+ later)
    (hlength : (blocksAdded size later).length = (blocksAdded size log).length) :
    blocksAdded size later = blocksAdded size log :=
  ((blocksAdded_suffix size hgrows).eq_of_length hlength.symm).symm

namespace PoolsAt

theorem length_blocksAdded (hpools : PoolsAt target owner views state) (hview : view ∈ views) :
    (blocksAdded view.blockSize state.log).length = view.blocks.length :=
  (hpools.log.added view hview).length_eq

/-- A pool without a free block is one whose blocks are all handed out. -/
theorem allAllocated (hpools : PoolsAt target owner views state)
    (hempty : ∀ view ∈ views, view.blockSize = size → ¬ view.Stocked) :
    AllAllocated target size state := by
  intro block hblock
  by_cases hexists : ∃ view ∈ views, view.blockSize = size
  · obtain ⟨view, hview, rfl⟩ := hexists
    have hfree : view.free = [] := not_not.mp (hempty view hview rfl)
    obtain ⟨front, back, rfl⟩ := List.append_of_mem hview
    rw [hpools.allocatedBlocks_perm.mem_iff]
    have hmem := (hpools.log.added view mem_middle).mem_iff.mp hblock
    rwa [PoolView.blocks, hfree] at hmem
  · have hnone := hpools.log.addedElsewhere size fun view hview heq => hexists ⟨view, hview, heq⟩
    rw [hnone] at hblock
    cases hblock

theorem not_allAllocated (hpools : PoolsAt target owner views state) (hview : view ∈ views)
    (hstocked : view.Stocked) : ¬ AllAllocated target view.blockSize state := by
  intro hfull
  obtain ⟨entry, rest, hfree⟩ := List.exists_cons_of_ne_nil hstocked
  have hentry : entry.2 ∈ view.free.map Prod.snd :=
    List.mem_map_of_mem (hfree ▸ List.mem_cons_self)
  have hadded := (hpools.log.added view hview).mem_iff.mpr (List.mem_append_left _ hentry)
  obtain ⟨front, back, rfl⟩ := List.append_of_mem hview
  have hout := hpools.allocatedBlocks_perm.mem_iff.mp (hfull entry.2 hadded)
  exact (List.nodup_append.mp view.blocks_nodup).2.2 _ hentry _ hout rfl

/-- The blocks of a pool, as far as there is one. -/
theorem view_or_none (hpools : PoolsAt target owner views state) (size : Nat) :
    (∃ view ∈ views, view.blockSize = size ∧ (blocksAdded size state.log).Perm view.blocks ∧
      (allocatedBlocks target state size).Perm view.out) ∨
    (blocksAdded size state.log = [] ∧ allocatedBlocks target state size = []) := by
  by_cases hexists : ∃ view ∈ views, view.blockSize = size
  · obtain ⟨view, hview, rfl⟩ := hexists
    have hadded := hpools.log.added view hview
    obtain ⟨front, back, rfl⟩ := List.append_of_mem hview
    exact .inl ⟨view, hview, rfl, hadded, hpools.allocatedBlocks_perm⟩
  · have hnone := hpools.log.addedElsewhere size fun view hview heq => hexists ⟨view, hview, heq⟩
    refine .inr ⟨hnone, ?_⟩
    simp [allocatedBlocks, hnone]

theorem allocated_le (hpools : PoolsAt target owner views state) (size : Nat) :
    (allocatedBlocks target state size).length ≤ (blocksAdded size state.log).length := by
  rcases hpools.view_or_none size with ⟨view, -, -, hadded, hout⟩ | ⟨hadded, hout⟩
  · rw [hadded.length_eq, hout.length_eq, PoolView.blocks, List.length_append]
    exact Nat.le_add_left _ _
  · rw [hadded, hout]

theorem le_allocated (hpools : PoolsAt target owner views state)
    (hfull : AllAllocated target size state) :
    (blocksAdded size state.log).length ≤ (allocatedBlocks target state size).length := by
  apply List.Subperm.length_le
  apply List.Nodup.subperm _ hfull
  rcases hpools.view_or_none size with ⟨view, -, -, hadded, -⟩ | ⟨hadded, -⟩
  · exact hadded.nodup_iff.mpr view.blocks_nodup
  · rw [hadded]
    exact List.nodup_nil

/-- A block that is handed out belongs to one pool, and to no other later. -/
theorem mem_blocksAdded_iff (hpools : PoolsAt target owner views state)
    (hafter : PoolsAt target larger others after) (hgrows : state.log <:+ after.log)
    (hdata : data ∈ handedOut state.log) :
    data - target.word ∈ blocksAdded size after.log ↔
      data - target.word ∈ blocksAdded size state.log := by
  constructor
  · intro hlater
    obtain ⟨front, view, back, -, -, block, rfl, -, hout, rfl⟩ := hpools.of_handedOut hdata
    have hblock : target.field block 1 - target.word = block := by simp [Target.field]
    rw [hblock] at hlater ⊢
    have hadded := (hpools.log.added view mem_middle).mem_iff.mpr (List.mem_append_right _ hout)
    -- Later the block is in the pools of both sizes, which are therefore one.
    rcases hafter.view_or_none size with ⟨one, hone, hsize, honeAdded, -⟩ | ⟨hnone, -⟩
    · rcases hafter.view_or_none view.blockSize with ⟨two, htwo, htwoSize, htwoAdded, -⟩ | ⟨hnone, -⟩
      · have hmem := htwoAdded.mem_iff.mp ((blocksAdded_suffix _ hgrows).subset hadded)
        by_cases heq : one.blockSize = two.blockSize
        · rwa [← hsize, heq, htwoSize]
        · exact absurd hmem (hafter.heap.blocks_disjoint hone htwo heq
            (honeAdded.mem_iff.mp hlater))
      · have hmem := (blocksAdded_suffix view.blockSize hgrows).subset hadded
        rw [hnone] at hmem
        cases hmem
    · rw [hnone] at hlater
      cases hlater
  · exact fun hearlier => (blocksAdded_suffix size hgrows).subset hearlier

end PoolsAt

/-! ## Taking a block -/

/-- A block that is taken comes from the pool of its size, if that has any. -/
theorem Takes.requests (htakes : Takes target views state size data others after)
    (hpools : PoolsAt target owner views state) : Requests target size state data after := by
  have hne := htakes.ne_null hpools
  have hexact := htakes.exact_size hpools.list.ascending
  obtain @⟨front, back, taken, node, block, rest, rfl, fit, free⟩ := htakes
  refine ⟨fun _ => ⟨hne, rfl, rfl⟩, fun _ _ => rfl, (if_neg hne).symm, fun _ hadded => ?_⟩
  have hexists : ∃ view ∈ front ++ taken :: back, view.blockSize = size := by
    by_contra hnone
    exact hadded (hpools.log.addedElsewhere size fun view hview heq => hnone ⟨view, hview, heq⟩)
  obtain ⟨view, hview, rfl, entry, hentry, hdata⟩ := hexact hexists
  have hblock : target.field block 1 - target.word = entry.2 := by
    rw [hdata]
    simp [Target.field]
  rw [hblock]
  exact (hpools.log.added view hview).mem_iff.mpr
    (List.mem_append_left _ (List.mem_map_of_mem hentry))

/-! ## Making a block -/

theorem PoolView.Extended.length_blocks {changed : PoolView} {made : Nat}
    (hextended : view.Extended changed made) :
    changed.blocks.length = view.blocks.length + made := by
  obtain ⟨added, rfl, hfree⟩ := hextended.free
  simp only [PoolView.blocks, hfree, hextended.out, List.length_append, List.length_map]
  omega

namespace Creates

/-- A creation adds blocks to the pool of its size only. -/
theorem length_blocksAdded
    (hcreates : Creates target owner views state count size status larger others after)
    (hpools : PoolsAt target owner views state) {other : Nat} (hother : other ≠ size) :
    (blocksAdded other after.log).length = (blocksAdded other state.log).length := by
  have hafter := (hcreates.pools hpools).1
  have hsame : ∀ {views others : List PoolView}, PoolsAt target owner views state →
      PoolsAt target larger others after → (∀ view, view.blockSize = other →
        (view ∈ others ↔ view ∈ views)) →
      (blocksAdded other after.log).length = (blocksAdded other state.log).length := by
    intro views others hpools hafter hviews
    by_cases hexists : ∃ view ∈ views, view.blockSize = other
    · obtain ⟨view, hview, rfl⟩ := hexists
      rw [hpools.length_blocksAdded hview,
        hafter.length_blocksAdded ((hviews view rfl).mpr hview)]
    · rw [hpools.log.addedElsewhere other fun view hview heq => hexists ⟨view, hview, heq⟩,
        hafter.log.addedElsewhere other fun view hview heq =>
          hexists ⟨view, (hviews view heq).mp hview, heq⟩]
  cases hcreates with
  | @extended front back view changed larger after split sameSize extension =>
      subst split sameSize
      apply hsame hpools hafter
      intro neighbour hneighbour
      have hnew : neighbour ≠ changed := by
        rintro rfl
        exact hother (hneighbour.symm.trans extension.extended.same.blockSize)
      have hold : neighbour ≠ view := by
        rintro rfl
        exact hother hneighbour.symm
      simp [hnew, hold]
  | @created front back view changed larger after split below above room sameSize noFree noOut
      extension =>
      subst split sameSize
      apply hsame hpools hafter
      intro neighbour hneighbour
      have hnew : neighbour ≠ changed := by
        rintro rfl
        exact hother (hneighbour.symm.trans extension.extended.same.blockSize)
      simp [hnew]
  | refused none noRoom grown checked => rw [grown.added]

/-- A creation adds as many blocks as it was asked for, or fewer and fails. -/
theorem length_blocksAdded_size
    (hcreates : Creates target owner views state count size status larger others after)
    (hpools : PoolsAt target owner views state) (hcount : 0 < count) :
    ∃ made ≤ count, (status = .ok ↔ made = count) ∧
      (blocksAdded size after.log).length = (blocksAdded size state.log).length + made := by
  have hafter := (hcreates.pools hpools).1
  have hstatus : ∀ made : Nat, (if made = count then Status.ok else .error) = .ok ↔ made = count := by
    intro made
    by_cases hmade : made = count <;> simp [hmade]
  cases hcreates with
  | @extended front back view changed larger after split sameSize extension =>
      subst split sameSize
      refine ⟨blocksMade target view.blockSize count (state.room target), Nat.min_le_left ..,
        hstatus _, ?_⟩
      have hsize := extension.extended.same.blockSize
      have hchanged := hafter.length_blocksAdded (mem_middle : changed ∈ front ++ changed :: back)
      rw [hsize, extension.extended.length_blocks] at hchanged
      rw [hchanged, hpools.length_blocksAdded mem_middle]
  | @created front back view changed larger after split below above room sameSize noFree noOut
      extension =>
      subst split sameSize
      refine ⟨blocksMade target view.blockSize count (state.room target - poolBytes target),
        Nat.min_le_left .., hstatus _, ?_⟩
      have hsize := extension.extended.same.blockSize
      have hchanged := hafter.length_blocksAdded (mem_middle : changed ∈ front ++ changed :: back)
      have hnone : blocksAdded view.blockSize state.log = [] := by
        apply hpools.log.addedElsewhere
        intro neighbour hneighbour
        rcases List.mem_append.mp hneighbour with hfront | hback
        · exact (below neighbour hfront).ne
        · exact (above neighbour hback).ne'
      have hempty : view.blocks = [] := by rw [PoolView.blocks, noFree, noOut]; rfl
      rw [hsize, extension.extended.length_blocks, hempty] at hchanged
      rw [hchanged, hnone]
  | refused none noRoom grown checked =>
      exact ⟨0, Nat.zero_le _, by simp [hcount.ne], by rw [grown.added, Nat.add_zero]⟩

/-- A creation that succeeds adds as many blocks as it was asked for. -/
theorem length_blocksAdded_ok
    (hcreates : Creates target owner views state count size .ok larger others after)
    (hpools : PoolsAt target owner views state) (hcount : 0 < count) :
    (blocksAdded size after.log).length = (blocksAdded size state.log).length + count := by
  obtain ⟨made, -, hmade, hlength⟩ := hcreates.length_blocksAdded_size hpools hcount
  rw [hlength, hmade.mp rfl]

end Creates

/-- A block that is made when all others are handed out. -/
theorem AllocatesAuto.requests {larger : Ownership}
    (hauto : AllocatesAuto target owner views state size data larger others after)
    (hpools : PoolsAt target owner views state) (hfull : AllAllocated target size state) :
    Requests target size state data after := by
  cases hauto with
  | direct exact takes => exact takes.requests hpools
  | created creates takes =>
      obtain ⟨hmiddle, -, hout, -⟩ := creates.pools hpools
      have htaken := takes.requests hmiddle
      refine ⟨absurd hfull, fun other hother => ?_, ?_, htaken.pooled⟩
      · exact (htaken.others other hother).trans (creates.length_blocksAdded hpools hother)
      · rw [htaken.out, hout]
  | failed creates =>
      obtain ⟨-, -, hout, -⟩ := creates.pools hpools
      refine ⟨absurd hfull, fun other hother => ?_, ?_, fun hne => absurd rfl hne⟩
      · exact creates.length_blocksAdded hpools hother
      · rw [if_pos rfl, hout]

theorem PoolsAt.createThenAllocate_requests (hpools : PoolsAt target owner views state)
    (hsize : 0 < size) (hsound : target.Sound size)
    (hempty : ∀ view ∈ views, view.blockSize = size → ¬ view.Stocked) :
    Program.Returns (do
      let created ← tbxMemPoolCreate target 1 size
      if created = .ok then tbxMemPoolAllocate target size else pure null) state
      (Requests target size state) := by
  apply (hpools.createThenAllocate hsize hsound).mono
  intro data after hallocates
  obtain ⟨larger, others, hauto⟩ := hallocates
  exact hauto.requests hpools (hpools.allAllocated hempty)

theorem PoolsAt.allocateAuto_requests (hpools : PoolsAt target owner views state) (hsize : 0 < size)
    (hsound : target.Sound size) :
    (tbxMemPoolAllocateAuto target size).Returns state (Requests target size state) := by
  apply hpools.allocateAuto_of hsize
  · exact fun data others after _ htakes => htakes.requests hpools
  · exact hpools.createThenAllocate_requests hsize hsound

end MicroTbx

import MicroTbx.List.Invariant
import MicroTbx.List.Steps
import MicroTbx.MemPool.Accounting
import MicroTbx.MemPool.Service
import MicroTbx.MemPool.Supply

/-! # Blocks for headers and nodes

Headers and nodes have the same size, and are allocated and released in the
same way. An allocation adds a block to those the application holds, where the
list module finds it when it makes a list of it, and a release takes it from
there.
-/

namespace MicroTbx

open Program

variable {target : Target} {owner larger : Ownership} {views others : List PoolView}
  {lists : List ListView} {app : List Nat} {state after middle : State} {data size : Nat}
  {status : Status}

theorem sizeofList_eq : sizeofList target = 3 * target.word := rfl

theorem sizeofListNode_eq : sizeofListNode target = 3 * target.word := rfl

theorem objectSize_pos : 0 < 3 * target.word :=
  Nat.mul_pos (by norm_num) target.word_pos

theorem objectSize_sound : target.Sound (3 * target.word) := by
  have hwords := target.eight_words_le
  have hword := target.word_pos
  apply Or.inl
  unfold Target.Fits
  omega

variable (target) in
/-- The heap has no room for some objects of the module, each in a new pool. -/
def Exhausted (count : Nat) (state : State) : Prop :=
  state.room target < count * (poolBytes target + entryBytes target (3 * target.word))

variable (target) (views) (lists) (app) (state) in
/-- What asking the pools for a header or a node can do: it is given to the
application, or there is no memory. -/
inductive Acquires : Nat → Ownership → List PoolView → State → Prop
  | object {data : Nat} {larger : Ownership} {others : List PoolView} {after : State}
      (ne_null : data ≠ null) (holds : Holds target larger data)
      (out : handedOut after.log = data :: handedOut state.log)
      (lists : ListsAt target larger others lists (data :: app) after) :
      Acquires data larger others after
  | none {larger : Ownership} {others : List PoolView} {after : State}
      (empty : ∀ view ∈ views, view.blockSize = 3 * target.word → ¬ view.Stocked)
      (exhausted : Exhausted target 1 state) (lists : ListsAt target larger others lists app after) :
      Acquires null larger others after

/-! ## What the pools do to lists -/

/-- The block that answers a request for three words holds an object. -/
theorem Takes.holds (htakes : Takes target views state (3 * target.word) data others after)
    (hpools : PoolsAt target owner views state) : Holds target owner data := by
  obtain @⟨front, back, view, node, block, rest, rfl, fit, free⟩ := htakes
  have hblock : block ∈ view.blocks := List.mem_append_left _
    (List.mem_map_of_mem (free ▸ List.mem_cons_self))
  have hsize := (BestFit.bestFit_mem fit).2
  refine ⟨view.blockSize, block, rfl, fun i hi => ?_⟩
  rw [Target.field_field, Nat.add_comm]
  refine (hpools.heap.placed view mem_middle).data block hblock i (lt_of_lt_of_le ?_ hsize)
  exact Nat.mul_lt_mul_of_pos_right hi target.word_pos

theorem Takes.listsAt (htakes : Takes target views state size data others after)
    (hlists : ListsAt target owner views lists app state) :
    ListsAt target owner others lists (data :: app) after ∧
      SameCells (cellsOf target state.mem) (cellsOf target after.mem) lists := by
  obtain ⟨hpools, hkept, hout, -⟩ := htakes.pools hlists.pools
  apply hlists.kept hpools hkept
  rw [hout]
  exact (hlists.out.cons data).trans List.perm_middle.symm

theorem Creates.listsAt {count : Nat}
    (hcreates : Creates target owner views state count size status larger others after)
    (hlists : ListsAt target owner views lists app state) :
    ListsAt target larger others lists app after ∧
      SameCells (cellsOf target state.mem) (cellsOf target after.mem) lists := by
  obtain ⟨hpools, hkept, hout, -⟩ := hcreates.pools hlists.pools
  apply hlists.kept hpools hkept
  rw [hout]
  exact hlists.out

/-- A creation that makes a block of each it was asked for takes no more than
a pool and those blocks. -/
theorem Creates.room {count : Nat}
    (hcreates : Creates target owner views state count size .ok larger others after)
    (hpools : PoolsAt target owner views state) (hsize : 0 < size) :
    state.room target ≤ after.room target + poolBytes target + count * entryBytes target size := by
  have hallocated := (hcreates.bytes hpools hsize).2 rfl
  have hle := (hcreates.pools hpools).1.heap.allocated_le
  unfold State.room
  split at hallocated <;> omega

/-- A creation of one block fails only when there is no room for it. -/
theorem Creates.exhausted
    (hcreates : Creates target owner views state 1 (3 * target.word) .error larger others after) :
    Exhausted target 1 state := by
  have hnone : ∀ room, ¬ (if blocksMade target (3 * target.word) 1 room = 1 then Status.ok
      else .error) = .error ∨ room < entryBytes target (3 * target.word) := by
    intro room
    rcases Nat.lt_or_ge room (entryBytes target (3 * target.word)) with hfull | hroom
    · exact .inr hfull
    · have hmade := (blocksMade_pos_iff (Nat.one_pos)).mpr hroom
      have hle : blocksMade target (3 * target.word) 1 room ≤ 1 := Nat.min_le_left ..
      exact .inl (by rw [if_pos (by omega)]; simp)
  have hentry := entryBytes_pos target (3 * target.word)
  unfold Exhausted
  generalize hstatus : Status.error = status at hcreates
  cases hcreates with
  | extended split sameSize extension =>
      have hfull := (hnone _).resolve_left (not_not.mpr hstatus.symm)
      omega
  | created split below above room sameSize noFree noOut extension =>
      have hfull := (hnone _).resolve_left (not_not.mpr hstatus.symm)
      omega
  | refused none noRoom grown checked => omega

/-! ## Allocating -/

/-- An allocation takes a block of its best fit, or creates one when the pool of
its size has none free. -/
theorem PoolsAt.allocateGrowing_of (hpools : PoolsAt target owner views state) (hsize : 0 < size)
    {post : Nat → State → Prop}
    (htaken : ∀ data others after, Takes target views state size data others after →
      post data after)
    (hcreated : (∀ view ∈ views, view.blockSize = size → ¬ view.Stocked) → Program.Returns (do
      let created ← tbxMemPoolCreate target 1 size
      if created = .ok then tbxMemPoolAllocate target size else pure null) state post) :
    (allocateGrowing target size).Returns state post := by
  apply (hpools.allocate hsize).bind
  rintro data after (⟨-, others, htakes⟩ | ⟨hrefused, rfl, rfl⟩)
  · rw [if_neg (htakes.ne_null hpools)]
    exact (returns_pure _).mpr (htaken data others after htakes)
  · rw [if_pos rfl]
    apply hcreated
    intro view hview hviewSize hstocked
    exact hrefused (serves_of_stocked hpools.list.ascending hview hviewSize hstocked)

/-- An object is allocated: the lists stay as they are. -/
theorem ListsAt.allocateGrowing (hlists : ListsAt target owner views lists app state) :
    (allocateGrowing target (3 * target.word)).Returns state fun data after =>
      (∃ larger others, Acquires target views lists app state data larger others after) ∧
        SameCells (cellsOf target state.mem) (cellsOf target after.mem) lists ∧
        HeapChecked state after ∧ Quiet state after := by
  have hpools := hlists.pools
  have htaken : ∀ data others after, Takes target views state (3 * target.word) data others after →
      (∃ larger others, Acquires target views lists app state data larger others after) ∧
        SameCells (cellsOf target state.mem) (cellsOf target after.mem) lists ∧
        HeapChecked state after := by
    intro data others after htakes
    obtain ⟨-, -, hout, hasserted⟩ := htakes.pools hpools
    obtain ⟨hafter, hsame⟩ := htakes.listsAt hlists
    exact ⟨⟨owner, others, .object (htakes.ne_null hpools) (htakes.holds hpools) hout hafter⟩,
      hsame, .of_eq hasserted⟩
  have hspec : (MicroTbx.allocateGrowing target (3 * target.word)).Returns state fun data after =>
      (∃ larger others, Acquires target views lists app state data larger others after) ∧
        SameCells (cellsOf target state.mem) (cellsOf target after.mem) lists ∧
        HeapChecked state after := by
    apply hpools.allocateGrowing_of objectSize_pos htaken
    intro hempty
    refine (hpools.createThenAllocate objectSize_pos objectSize_sound).mono ?_
    rintro data after ⟨larger, others, hallocates⟩
    cases hallocates with
    | direct exact takes => exact htaken data others after takes
    | created creates takes =>
        obtain ⟨hmiddle, hfirst⟩ := creates.listsAt hlists
        obtain ⟨-, -, houtCreated, hchecked⟩ := creates.pools hpools
        obtain ⟨-, -, hout, hasserted⟩ := takes.pools hmiddle.pools
        obtain ⟨hafter, hsecond⟩ := takes.listsAt hmiddle
        rw [houtCreated] at hout
        exact ⟨⟨_, _, .object (takes.ne_null hmiddle.pools) (takes.holds hmiddle.pools) hout
          hafter⟩, hfirst.trans hsecond, hchecked.trans (.of_eq hasserted)⟩
    | failed creates =>
        obtain ⟨hafter, hsame⟩ := creates.listsAt hlists
        exact ⟨⟨_, _, .none hempty creates.exhausted hafter⟩, hsame, (creates.pools hpools).2.2.2⟩
  refine (hspec.within Quiet.poolSteps.within_allocateGrowing Quiet.refl Quiet.trans).mono ?_
  exact fun _ _ hafter => ⟨hafter.1.1, hafter.1.2.1, hafter.1.2.2, hafter.2⟩

/-! ## Releasing -/

/-- What putting a block of the application back does to the lists. -/
theorem ListsAt.giveBack {front back : List PoolView} {view : PoolView} {node block : Nat}
    {spare : List Nat} (hlists : ListsAt target owner (front ++ view :: back) lists app state)
    (hused : view.used = node :: spare) (hout : block ∈ view.out)
    (hdata : target.field block 1 ∈ app) :
    ListsAt target owner (front ++ view.giveBack hused hout :: back) lists
        (app.erase (target.field block 1)) (state.giveBackBlock target view node block) ∧
      Kept owner owner state (state.giveBackBlock target view node block) ∧
      SameCells (cellsOf target state.mem)
        (cellsOf target (state.giveBackBlock target view node block).mem) lists := by
  have hkept : Kept owner owner state (state.giveBackBlock target view node block) := by
    refine ⟨fun _ _ howner => howner, fun address size part howner hpart => ?_,
      fun event hevent => List.mem_cons_of_mem _ hevent⟩
    refine (hlists.pools.heap.placed view mem_middle).giveBackBlock_mem ?_ howner (.inr hpart.not_list)
    rw [PoolView.nodes, hused]
    exact List.mem_append_cons_self
  have hperm : ((handedOut state.log).erase (target.field block 1)).Perm
      (blocksOf lists ++ app.erase (target.field block 1)) := by
    have hsplit := hlists.out.trans
      (((List.perm_cons_erase hdata).append_left (blocksOf lists)).trans List.perm_middle)
    have herase := hsplit.erase (target.field block 1)
    rwa [List.erase_cons_head] at herase
  obtain ⟨hafter, hsame⟩ := hlists.kept (hlists.pools.giveBack hused hout) hkept hperm
  exact ⟨hafter, hkept, hsame⟩

/-- A block of the application goes back to its pool. -/
theorem ListsAt.givesBack (hlists : ListsAt target owner views lists app state)
    (hdata : data ∈ app) :
    (tbxMemPoolRelease target data).Returns state fun _ after => ∃ others,
      GivesBack target views state data others after ∧
        ListsAt target owner others lists (app.erase data) after ∧ Kept owner owner state after ∧
        SameCells (cellsOf target state.mem) (cellsOf target after.mem) lists := by
  have hhanded := hlists.out.mem_iff.mpr (List.mem_append_right _ hdata)
  obtain ⟨front, view, back, node, spare, block, rfl, hused, hout, rfl⟩ :=
    hlists.pools.of_handedOut hhanded
  apply (hlists.pools.release hused hout).mono
  rintro _ after ⟨-, rfl⟩
  exact ⟨_, .intro rfl hused hout, hlists.giveBack hused hout hdata⟩

/-- A block of the application is released: the lists stay as they are. -/
theorem ListsAt.release (hlists : ListsAt target owner views lists (data :: app) state) :
    (tbxMemPoolRelease target data).Returns state fun _ after =>
      (∃ others, ListsAt target owner others lists app after) ∧ Kept owner owner state after ∧
        SameCells (cellsOf target state.mem) (cellsOf target after.mem) lists ∧
        handedOut after.log = (handedOut state.log).erase data ∧
        asserted after.log = asserted state.log ∧ Quiet state after := by
  have hdata : data ∈ handedOut state.log :=
    hlists.out.mem_iff.mpr (List.mem_append_right _ List.mem_cons_self)
  obtain ⟨front, view, back, node, spare, block, rfl, hused, hout, rfl⟩ :=
    hlists.pools.of_handedOut hdata
  obtain ⟨hafter, hkept, hsame⟩ := hlists.giveBack hused hout List.mem_cons_self
  rw [List.erase_cons_head] at hafter
  refine ((hlists.pools.release hused hout).within Quiet.poolSteps.within_poolRelease
    Quiet.refl Quiet.trans).mono ?_
  rintro _ _ ⟨⟨-, rfl⟩, hquiet⟩
  exact ⟨⟨_, hafter⟩, hkept, hsame, rfl, rfl, hquiet⟩

end MicroTbx

import MicroTbx.List.Lifetime

/-! # Runs of the list module

Every call keeps the invariant: the lists of a run are those its history shows
to be live, the application holds the blocks its history shows to be its own,
and the sequences that memory holds have changed as specified. The list a call
is for is brought to the front first.
-/

namespace MicroTbx

open Program

variable {target : Target} {owner larger : Ownership} {views others : List PoolView}
  {view : ListView} {lists rest : List ListView} {app : List Nat} {state after : State}
  {history : List ListExchange} {cells : Cells}

/-! ## Operations on one list -/

variable (target) (view) (rest) (app) (state) in
/-- An operation does to the items of its list what it is specified to do, or
fails for want of memory and changes nothing. -/
inductive Operates (operation : ListOperation) : ListReply → State → Prop
  | done {reply : ListReply} {items : List Nat} {after : State}
      (applied : operation.apply (view.items target state) = (reply, items))
      (leaves : Leaves target view rest app state items after) : Operates operation reply after
  | failed {after : State} (allocates : operation.Allocates (view.items target state))
      (exhausted : Exhausted target 1 state)
      (leaves : Leaves target view rest app state (view.items target state) after) :
      Operates operation (.status .error) after

theorem ListsAt.operation (hlists : ListsAt target owner views (view :: rest) app state)
    {operation : ListOperation} (hvalid : operation.Valid)
    (hsort : operation.IsSort → view.nodes ≠ []) :
    (operation.perform target view.header).Returns state
      (Operates target view rest app state operation) := by
  have hinserted : ∀ {operation : ListOperation} {items : List Nat} {status : Status}
      {after : State}, operation.apply (view.items target state) = (.status .ok, items) →
      operation.Allocates (view.items target state) →
      Inserts target view rest app state items status after →
      Operates target view rest app state operation (.status status) after := by
    intro operation items status after happlied hallocates hinserts
    cases hinserts with
    | ok leaves => exact .done happlied leaves
    | error exhausted leaves => exact .failed hallocates exhausted leaves
  cases operation with
  | clear => exact hlists.clear.bind fun _ _ hleaves => (returns_pure _).mpr (.done rfl hleaves)
  | getSize =>
      exact hlists.getSize.bind fun _ _ ⟨hresult, hleaves⟩ =>
        (returns_pure _).mpr (.done (by rw [hresult]; rfl) hleaves)
  | insertItemFront item =>
      exact (hlists.insertItemFront hvalid).bind fun _ _ hinserts =>
        (returns_pure _).mpr (hinserted rfl trivial hinserts)
  | insertItemBack item =>
      exact (hlists.insertItemBack hvalid).bind fun _ _ hinserts =>
        (returns_pure _).mpr (hinserted rfl trivial hinserts)
  | insertItemBefore item itemRef =>
      refine (hlists.insertItemBefore hvalid.1 hvalid.2).bind fun status after hinserts => ?_
      cases hinserts with
      | found mem inserts => exact (returns_pure _).mpr (hinserted (if_pos mem) mem inserts)
      | absent notMem leaves => exact (returns_pure _).mpr (.done (if_neg notMem) leaves)
  | insertItemAfter item itemRef =>
      refine (hlists.insertItemAfter hvalid.1 hvalid.2).bind fun status after hinserts => ?_
      cases hinserts with
      | found mem inserts => exact (returns_pure _).mpr (hinserted (if_pos mem) mem inserts)
      | absent notMem leaves => exact (returns_pure _).mpr (.done (if_neg notMem) leaves)
  | removeItem item =>
      exact (hlists.removeItem hvalid).bind fun _ _ hleaves =>
        (returns_pure _).mpr (.done rfl hleaves)
  | getFirstItem =>
      exact hlists.getFirstItem.bind fun _ _ ⟨hresult, hleaves⟩ =>
        (returns_pure _).mpr (.done (by rw [hresult]; rfl) hleaves)
  | getLastItem =>
      exact hlists.getLastItem.bind fun _ _ ⟨hresult, hleaves⟩ =>
        (returns_pure _).mpr (.done (by rw [hresult]; rfl) hleaves)
  | getPreviousItem itemRef =>
      exact (hlists.getPreviousItem hvalid).bind fun _ _ ⟨hresult, hleaves⟩ =>
        (returns_pure _).mpr (.done (by rw [hresult]; rfl) hleaves)
  | getNextItem itemRef =>
      exact (hlists.getNextItem hvalid).bind fun _ _ ⟨hresult, hleaves⟩ =>
        (returns_pure _).mpr (.done (by rw [hresult]; rfl) hleaves)
  | swapItems item1 item2 =>
      exact (hlists.swapItems hvalid.1 hvalid.2).bind fun _ _ hleaves =>
        (returns_pure _).mpr (.done rfl hleaves)
  | sortItems compareItemsFcn =>
      obtain ⟨compareItemsFcn, rfl⟩ := Option.isSome_iff_exists.mp hvalid
      exact (hlists.sortItems (hsort trivial) compareItemsFcn).bind fun _ _ hleaves =>
        (returns_pure _).mpr (.done rfl hleaves)

/-! ## Calls of the pool module -/

/-- A word that the application may write is in no list. -/
theorem ListsAt.store (hlists : ListsAt target owner views lists app state)
    {memPtr index value size block : Nat} (happ : memPtr ∈ app)
    (hdata : owner (target.field memPtr index) = some (size, .data block index)) :
    ListsAt target owner views lists app (state.store (target.field memPtr index) value) ∧
      SameCells (cellsOf target state.mem)
        (cellsOf target (state.store (target.field memPtr index) value).mem) lists := by
  have hsame : SameCells (cellsOf target state.mem)
      (cellsOf target (state.store (target.field memPtr index) value).mem) lists := by
    intro data hmem i hi
    refine Function.update_of_ne (fun heq => ?_) _ _
    obtain ⟨otherSize, other, rfl, howner⟩ := hlists.holds data hmem
    have hword := howner i hi
    rw [heq, hdata] at hword
    cases hword
    have hpointer : memPtr = target.field block 1 := by
      unfold Target.field at heq ⊢
      omega
    exact (List.nodup_append.mp hlists.nodup).2.2 _ hmem memPtr happ hpointer.symm
  exact ⟨hlists.sameCells (hlists.pools.store_data hdata trivial) (fun _ _ howner => howner) hsame
    hlists.out, hsame⟩

/-- An assertion that fails changes nothing else. -/
theorem ListsAt.rejected (hlists : ListsAt target owner views lists app state) (site : Site) :
    ListsAt target owner views lists app (state.rejected site) :=
  { hlists with pools := hlists.pools.emit_assertion _ _ }

theorem ListsAt.poolStep {call : PoolCall} {reply : PoolReply}
    (hlists : ListsAt target owner views lists app state)
    (hstep : PoolStep target owner views state call reply larger others after)
    (huses : call.Uses app) :
    ListsAt target larger others lists (call.blocksAfter reply app) after ∧
      SameCells (cellsOf target state.mem) (cellsOf target after.mem) lists := by
  have htaken : ∀ {owner views others size data before next},
      Takes target views before size data others next →
      ListsAt target owner views lists app before →
      ListsAt target owner others lists (if data ≠ null then data :: app else app) next ∧
        SameCells (cellsOf target before.mem) (cellsOf target next.mem) lists := by
    intro owner views others size data before next htakes hbefore
    rw [if_pos (htakes.ne_null hbefore.pools)]
    exact htakes.listsAt hbefore
  cases hstep with
  | createInvalid invalid rejected =>
      rcases rejected with rfl | rfl
      · exact ⟨hlists.rejected _, .refl _ _⟩
      · exact ⟨(hlists.rejected _).rejected _, .refl _ _⟩
  | create someBlocks size creates => exact creates.listsAt hlists
  | allocateInvalid => exact ⟨hlists.rejected _, .refl _ _⟩
  | allocateRefused positive refused => exact ⟨hlists, .refl _ _⟩
  | allocate positive takes => exact htaken takes hlists
  | autoInvalid => exact ⟨hlists.rejected _, .refl _ _⟩
  | auto positive allocates =>
      cases allocates with
      | direct exact takes => exact htaken takes hlists
      | created creates takes =>
          obtain ⟨hmiddle, hfirst⟩ := creates.listsAt hlists
          obtain ⟨hafter, hsecond⟩ := htaken takes hmiddle
          exact ⟨hafter, hfirst.trans hsecond⟩
      | failed creates => exact creates.listsAt hlists
  | release split used out =>
      subst split
      obtain ⟨hafter, -, hsame⟩ := hlists.giveBack used out huses
      exact ⟨hafter, hsame⟩
  | @heapAllocate size result after grown room checks =>
      have hdvd : target.word ∣ if result = null then 0 else sizeWanted target size := by
        split
        · exact Nat.dvd_zero _
        · exact sizeWanted_dvd _
      refine hlists.kept (hlists.pools.grow grown hdvd (grown.allocated ▸ room))
        (.of_grown hlists.pools.heap grown) ?_
      rw [grown.handedOut]
      exact hlists.out
  | write data => exact hlists.store huses data

/-! ## The sequences of the lists -/

theorem headers_sublist (lists : List ListView) :
    (lists.map ListView.header).Sublist (blocksOf lists) := by
  induction lists with
  | nil => exact List.Sublist.slnil
  | cons view lists ih => exact (ih.trans (List.sublist_append_right _ _)).cons_cons _

theorem ListsAt.headers_nodup (hlists : ListsAt target owner views lists app state) :
    (lists.map ListView.header).Nodup :=
  (List.nodup_append.mp hlists.nodup).1.sublist (headers_sublist lists)

theorem sequencesOf_eq_none {list : Nat} (hnot : list ∉ lists.map ListView.header) :
    sequencesOf cells lists list = none := by
  induction lists with
  | nil => rfl
  | cons view lists ih =>
      rw [List.map_cons, List.mem_cons, not_or] at hnot
      rw [sequencesOf, Function.update_of_ne hnot.1, ih hnot.2]

theorem sequencesOf_front : sequencesOf cells (view :: lists) view.header =
    some (itemsOf cells view.nodes) := Function.update_self ..

/-- The items of a list are all that its place in the sequences depends on. -/
theorem sequencesOf_perm (hperm : lists.Perm rest) (hnodup : (lists.map ListView.header).Nodup) :
    sequencesOf cells lists = sequencesOf cells rest := by
  induction hperm with
  | nil => rfl
  | cons view hperm ih =>
      rw [sequencesOf, sequencesOf, ih (List.nodup_cons.mp hnodup).2]
  | swap first second lists =>
      rw [List.map_cons, List.nodup_cons, List.map_cons, List.mem_cons, not_or] at hnodup
      exact Function.update_comm (Ne.symm hnodup.1.1) ..
  | trans hfirst hsecond ihFirst ihSecond =>
      rw [ihFirst hnodup, ihSecond ((hfirst.map _).nodup_iff.mp hnodup)]

end MicroTbx

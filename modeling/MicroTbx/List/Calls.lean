import MicroTbx.List.Blocks

/-! # Calls on a list

Each function is specified once more, now over a state that holds any number of
lists. It leaves the list it is called for with new items, and the others as
they are; an allocation or release on the way takes the block from the
application or gives it back.
-/

namespace MicroTbx

open Program

/-- The items of a list in a state. -/
abbrev ListView.items (view : ListView) (target : Target) (state : State) : List Nat :=
  itemsOf (cellsOf target state.mem) view.nodes

/-- The nodes that a call on a list may follow: those of the list, and one that
the call itself allocates. -/
def OwnNode (state : State) (nodes : List Nat) (node : Nat) : Prop :=
  node ∈ nodes ∨ node ∉ handedOut state.log

/-- What all calls have in common: other lists stay as they are, no internal
check fails, and only allowed nodes are dereferenced. -/
structure Behaves (target : Target) (allowed : Nat → Prop) (rest : List ListView)
    (state after : State) : Prop where
  same : SameCells (cellsOf target state.mem) (cellsOf target after.mem) rest
  checked : HeapChecked state after
  traced : Traced allowed state after

/-- A call left a list with the given items, and the other lists alone. -/
structure Leaves (target : Target) (view : ListView) (rest : List ListView) (app : List Nat)
    (state : State) (items : List Nat) (after : State) : Prop
    extends Behaves target (OwnNode state view.nodes) rest state after where
  lists : ∃ owner views nodes, ListsAt target owner views (⟨view.header, nodes⟩ :: rest) app after ∧
    itemsOf (cellsOf target after.mem) nodes = items

section Insertions

variable (target : Target) (view : ListView) (rest : List ListView) (app : List Nat)
  (state : State)

/-- An insertion adds the item, or there is no memory for its node. -/
inductive Inserts (items : List Nat) : Status → State → Prop
  | ok {after : State} (leaves : Leaves target view rest app state items after) :
      Inserts items .ok after
  | error {after : State} (exhausted : Exhausted target 1 state)
      (leaves : Leaves target view rest app state (view.items target state) after) :
      Inserts items .error after

/-- An insertion next to a reference adds the item if the reference occurs. -/
inductive InsertsNextTo (ref : Nat) (items : List Nat) : Status → State → Prop
  | found {status : Status} {after : State} (mem : ref ∈ view.items target state)
      (inserts : Inserts target view rest app state items status after) :
      InsertsNextTo ref items status after
  | absent {after : State} (notMem : ref ∉ view.items target state)
      (leaves : Leaves target view rest app state (view.items target state) after) :
      InsertsNextTo ref items .error after

end Insertions

/-- What a critical section that links a node does, wherever it puts it. -/
def LinksBetween (target : Target) (list : Nat) (front back : List Nat)
    (link : Nat → Code Unit) : Prop :=
  ∀ {node : Nat} {nodes : List Nat} {state middle : State} {cells : Cells},
    nodes = front ++ back → Edited target list (node :: nodes) state middle cells →
    Ready target cells list node nodes →
    (link node).Returns middle fun _ after =>
      ∃ cells', Edited target list (node :: nodes) state after cells' ∧
        Inserted cells cells' list node front back

variable {target : Target} {owner : Ownership} {views : List PoolView}
  {rest : List ListView} {view : ListView} {app : List Nat} {state after middle : State}
  {item ref node : Nat} {front back : List Nat} {cells : Cells}

/-! ## Places for a node -/

theorem linksFront {list : Nat} {nodes : List Nat} :
    LinksBetween target list [] nodes (linkFront target list) := by
  rintro node nodes _ _ _ rfl hedited hready
  exact linkFront_spec hedited hready

theorem linksBack {list : Nat} {nodes : List Nat} :
    LinksBetween target list nodes [] (linkBack target list) := by
  rintro node nodes _ _ _ hnodes hedited hready
  rw [List.append_nil] at hnodes
  subst hnodes
  exact linkBack_spec hedited hready

theorem linksBefore {list ref : Nat} {before behind : List Nat} :
    LinksBetween target list before (ref :: behind) fun new => linkBefore target list new ref := by
  rintro new nodes _ _ _ rfl hedited hready
  exact linkBefore_spec hedited hready

theorem linksAfter {list ref : Nat} {before behind : List Nat} :
    LinksBetween target list (before ++ [ref]) behind fun new => linkAfter target list new ref := by
  rintro new nodes _ _ _ hnodes hedited hready
  rw [← List.append_cons] at hnodes
  subst hnodes
  exact linkAfter_spec hedited hready

theorem Behaves.trans {allowed : Nat → Prop} (hfirst : Behaves target allowed rest state middle)
    (hnext : Behaves target allowed rest middle after) : Behaves target allowed rest state after :=
  ⟨hfirst.same.trans hnext.same, hfirst.checked.trans hnext.checked,
    hfirst.traced.trans hnext.traced⟩

theorem SameCells.tail {other : Cells} (hsame : SameCells cells other (view :: rest)) :
    SameCells cells other rest :=
  fun data hdata => hsame data (List.mem_cons_of_mem _ (List.mem_append_right _ hdata))

theorem itemsOf_parts {other : Cells}
    (hitems : itemsOf other (front ++ back) = itemsOf cells (front ++ back)) :
    itemsOf other front = itemsOf cells front ∧ itemsOf other back = itemsOf cells back := by
  rw [itemsOf_append, itemsOf_append] at hitems
  exact List.append_inj hitems (by simp [itemsOf])

/-! ## Edits between allocations -/

namespace ListsAt

/-- The nodes of a list are in the hands of the module. -/
theorem own (hlists : ListsAt target owner views (view :: rest) app state) :
    ∀ node ∈ view.nodes, node ≠ null ∧ node ∈ handedOut state.log ∧
      OwnNode state view.nodes node := by
  intro node hnode
  have hblock : node ∈ blocksOf (view :: rest) :=
    List.mem_cons_of_mem _ (List.mem_append_left _ hnode)
  refine ⟨(hlists.holds node hblock).ne_null hlists.pools.heap, ?_, .inl hnode⟩
  exact hlists.out.mem_iff.mpr (List.mem_append_left _ hblock)

/-- The cells of a list are edited and its nodes stay. -/
theorem edited (hlists : ListsAt target owner views (view :: rest) app state)
    (hedited : Edited target view.header view.nodes state after cells)
    (hshape : ListShape cells view.header view.nodes) :
    ListsAt target owner views (view :: rest) app after ∧
      Behaves target (OwnNode state view.nodes) rest state after ∧
      SameCells cells (cellsOf target after.mem) [view] := by
  obtain ⟨hafter, hrest, hself⟩ := hlists.forget.edit hedited
    (fun data hdata => List.mem_append_left _ hdata)
    (fun data hdata => hlists.holds data (mem_blocksOf List.mem_cons_self hdata))
    hshape (fun _ hnode => hnode) (.refl _)
  exact ⟨hafter, ⟨hrest, .of_eq hedited.asserted_eq, hedited.traced hlists.own⟩, hself⟩

theorem edited_items (hlists : ListsAt target owner views (view :: rest) app state)
    (hedited : Edited target view.header view.nodes state after cells)
    (hshape : ListShape cells view.header view.nodes) :
    Leaves target view rest app state (itemsOf cells view.nodes) after := by
  obtain ⟨hafter, hbehaves, hself⟩ := hlists.edited hedited hshape
  exact ⟨hbehaves, owner, views, view.nodes, hafter, hself.items List.mem_cons_self⟩

/-- Nothing but nodes was accessed. -/
theorem unchanged (hlists : ListsAt target owner views (view :: rest) app state)
    (hedited : Edited target view.header view.nodes state after (cellsOf target state.mem)) :
    Leaves target view rest app state (view.items target state) after :=
  hlists.edited_items hedited (hlists.shape view List.mem_cons_self)

/-- The cells of the list in front, at the start of a call. -/
theorem entry (hlists : ListsAt target owner views (view :: rest) app state) :
    Edited target view.header view.nodes state state (cellsOf target state.mem) ∧
      ListCells target (cellsOf target state.mem) view.header view.nodes :=
  ⟨.refl state view.header view.nodes, hlists.listCells List.mem_cons_self⟩

/-! ## Reading and rearranging -/

theorem getSize (hlists : ListsAt target owner views (view :: rest) app state) :
    (tbxListGetSize target view.header).Returns state fun result after =>
      result = (view.items target state).length ∧
        Leaves target view rest app state (view.items target state) after := by
  obtain ⟨hedited, hcells⟩ := hlists.entry
  have hlist := hcells.apart.ne_null view.header List.mem_cons_self
  intro depth
  rw [tbxListGetSize, wp_bind]
  refine wp_tbxAssert_of (decide_eq_true hlist) ?_
  rw [if_pos hlist, wp_bind, wp_enterCritical, wp_bind]
  refine hedited.wp_load hcells.apart (by norm_num) ?_
  rw [wp_bind]
  refine wp_leaveCritical.mpr ⟨rfl, ?_, hlists.unchanged hedited⟩
  rw [hcells.shape.count, ListView.items, itemsOf, List.length_map]

theorem getFirstItem (hlists : ListsAt target owner views (view :: rest) app state) :
    (tbxListGetFirstItem target view.header).Returns state fun result after =>
      result = (view.items target state).head?.getD null ∧
        Leaves target view rest app state (view.items target state) after :=
  (tbxListGetFirstItem_spec hlists.entry.1 hlists.entry.2).mono
    fun _ _ ⟨hedited, hresult⟩ => ⟨hresult, hlists.unchanged hedited⟩

theorem getLastItem (hlists : ListsAt target owner views (view :: rest) app state) :
    (tbxListGetLastItem target view.header).Returns state fun result after =>
      result = (view.items target state).getLast?.getD null ∧
        Leaves target view rest app state (view.items target state) after :=
  (tbxListGetLastItem_spec hlists.entry.1 hlists.entry.2).mono
    fun _ _ ⟨hedited, hresult⟩ => ⟨hresult, hlists.unchanged hedited⟩

theorem getPreviousItem (hlists : ListsAt target owner views (view :: rest) app state)
    (href : ref ≠ null) :
    (tbxListGetPreviousItem target view.header ref).Returns state fun result after =>
      result = (Sequence.previous ref (view.items target state)).getD null ∧
        Leaves target view rest app state (view.items target state) after :=
  (tbxListGetPreviousItem_spec hlists.entry.1 hlists.entry.2 href).mono
    fun _ _ ⟨hedited, hresult⟩ => ⟨hresult, hlists.unchanged hedited⟩

theorem getNextItem (hlists : ListsAt target owner views (view :: rest) app state)
    (href : ref ≠ null) :
    (tbxListGetNextItem target view.header ref).Returns state fun result after =>
      result = (Sequence.next ref (view.items target state)).getD null ∧
        Leaves target view rest app state (view.items target state) after :=
  (tbxListGetNextItem_spec hlists.entry.1 hlists.entry.2 href).mono
    fun _ _ ⟨hedited, hresult⟩ => ⟨hresult, hlists.unchanged hedited⟩

theorem swapItems (hlists : ListsAt target owner views (view :: rest) app state)
    {item1 item2 : Nat} (hitem1 : item1 ≠ null) (hitem2 : item2 ≠ null) :
    (tbxListSwapItems target view.header item1 item2).Returns state fun _ after =>
      Leaves target view rest app state
        (Sequence.swap item1 item2 (view.items target state)) after := by
  refine (tbxListSwapItems_spec hlists.entry.1 hlists.entry.2 hitem1 hitem2).mono ?_
  rintro _ after ⟨cells', hedited, hshape, hitems⟩
  rw [← hitems]
  exact hlists.edited_items hedited hshape

theorem sortItems (hlists : ListsAt target owner views (view :: rest) app state)
    (hnodes : view.nodes ≠ []) (compareItemsFcn : CompareItems) :
    (tbxListSortItems target view.header (some compareItemsFcn)).Returns state fun _ after =>
      Leaves target view rest app state (Sequence.exchangeSort (greater compareItemsFcn)
        (view.items target state)) after := by
  refine (tbxListSortItems_spec hlists.entry.1 hlists.entry.2 hnodes).mono ?_
  rintro _ after ⟨cells', hedited, hshape, hitems⟩
  rw [← hitems]
  exact hlists.edited_items hedited hshape

/-! ## Inserting -/

/-- The objects that an insertion works on. -/
theorem objects (hlists : ListsAt target owner views (view :: rest) (node :: app) state)
    (hholds : Holds target owner node) :
    (∀ data ∈ view.header :: node :: view.nodes, Holds target owner data) ∧
      (view.header :: node :: view.nodes).Nodup := by
  have hperm : (view.blocks ++ node :: app).Perm (view.header :: node :: (view.nodes ++ app)) :=
    List.Perm.cons _ List.perm_middle
  have hnodup := hperm.nodup_iff.mp (List.nodup_append.mp hlists.forget.nodup).2.1
  refine ⟨fun data hdata => ?_, hnodup.sublist ?_⟩
  · rw [List.mem_cons, List.mem_cons, or_left_comm, ← List.mem_cons] at hdata
    rcases hdata with rfl | hdata
    · exact hholds
    · exact hlists.holds data (mem_blocksOf List.mem_cons_self hdata)
  · exact ((List.sublist_append_left view.nodes app).cons_cons node).cons_cons view.header

/-- A node of the application is initialized, ready to be linked. -/
theorem initListNode (hlists : ListsAt target owner views (view :: rest) (node :: app) state)
    (hholds : Holds target owner node) :
    (initListNode target node item).Returns state fun _ after => ∃ cells,
      Edited target view.header (node :: view.nodes) state after cells ∧
        Ready target cells view.header node view.nodes ∧ cells node ListNode.itemPtr = item ∧
        itemsOf cells view.nodes = view.items target state := by
  have hshape := hlists.shape view List.mem_cons_self
  obtain ⟨hall, hnodup⟩ := hlists.objects hholds
  have hapart := Holds.apart hlists.pools.heap hall
  obtain ⟨hheader, hnode⟩ := List.nodup_cons.mp hnodup
  rw [List.mem_cons, not_or] at hheader
  have hothers : ∀ other ∈ view.nodes, other ≠ node := fun other hmem =>
    ne_of_mem_of_not_mem hmem (List.nodup_cons.mp hnode).1
  have hlength : (node :: view.nodes).length < target.loopFuel := by
    refine length_lt_loopFuel hnode (fun data hdata => ?_) hlists.pools.heap.allocated_le
    exact (hall data (List.mem_cons_of_mem _ hdata)).inside hlists.pools.heap
  intro depth
  rw [MicroTbx.initListNode, wp_bind]
  refine (Edited.refl state view.header (node :: view.nodes)).wp_storeNode hapart
    List.mem_cons_self (by norm_num) fun _ hedited => ?_
  rw [wp_bind]
  refine hedited.wp_storeNode hapart List.mem_cons_self (by norm_num) fun _ hedited => ?_
  refine hedited.wp_storeNode hapart List.mem_cons_self (by norm_num) fun after hedited => ?_
  have hcells : ∀ other i, other ≠ node → (((cellsOf target state.mem).set node
      ListNode.itemPtr item).set node ListNode.prevNodePtr null).set node ListNode.nextNodePtr
        null other i = cellsOf target state.mem other i := by
    intro other i hne
    rw [Cells.set_of_ne (.inl hne), Cells.set_of_ne (.inl hne), Cells.set_of_ne (.inl hne)]
  refine ⟨rfl, _, hedited, ⟨hapart, ?_, hnodup, ?_, Cells.set_self, ?_⟩, ?_, ?_⟩
  · exact hshape.congr (fun i _ => hcells view.header i hheader.1)
      (fun other hmem => hcells other _ (hothers other hmem))
      fun other hmem => hcells other _ (hothers other hmem)
  · rw [Cells.set_of_ne (.inr (by norm_num)), Cells.set_self]
  · have hsize := target.heapSize_lt
    rw [List.length_cons, Target.loopFuel] at hlength
    omega
  · rw [Cells.set_of_ne (.inr (by norm_num)), Cells.set_of_ne (.inr (by norm_num)), Cells.set_self]
  · exact itemsOf_congr fun other hmem => hcells other _ (hothers other hmem)

/-- The section that links a node of the application into a list. -/
theorem linkNode (hlists : ListsAt target owner views (view :: rest) (node :: app) state)
    (hholds : Holds target owner node) (hsplit : view.nodes = front ++ back)
    (hedited : Edited target view.header (node :: view.nodes) state middle cells)
    (hready : Ready target cells view.header node view.nodes) {link : Nat → Code Unit}
    (hlink : LinksBetween target view.header front back link) :
    (link node).Returns middle fun _ after =>
      (∃ cells', Edited target view.header (node :: view.nodes) state after cells') ∧
        ListsAt target owner views (⟨view.header, front ++ node :: back⟩ :: rest) app after ∧
        itemsOf (cellsOf target after.mem) (front ++ node :: back) =
          itemsOf cells front ++ cells node ListNode.itemPtr :: itemsOf cells back ∧
        SameCells (cellsOf target state.mem) (cellsOf target after.mem) rest := by
  have hall := (hlists.objects hholds).1
  refine (hlink hsplit hedited hready).mono ?_
  rintro _ after ⟨cells', hedited, hinserted⟩
  have hshape := hready.shape
  rw [hsplit] at hshape
  have hperm : (view.blocks ++ node :: app).Perm
      (view.header :: (front ++ node :: back) ++ app) := by
    rw [ListView.blocks, hsplit, List.cons_append, List.cons_append, List.append_assoc,
      List.append_assoc]
    exact (List.perm_middle.append_left front).cons _
  have hmem : ∀ data ∈ view.header :: node :: view.nodes, data ∈ view.blocks ++ node :: app := by
    intro data hdata
    rw [List.mem_cons, List.mem_cons, or_left_comm, ← List.mem_cons] at hdata
    rcases hdata with rfl | hdata
    · exact List.mem_append_cons_self
    · exact List.mem_append_left _ hdata
  obtain ⟨hafter, hrest, hself⟩ := hlists.forget.edit hedited hmem hall
    (hinserted.shape hshape ((hall node (by simp)).ne_null hlists.pools.heap))
    (fun other hother => hsplit ▸ List.perm_middle.mem_iff.mp hother) hperm
  refine ⟨⟨cells', hedited⟩, hafter, ?_, hrest⟩
  have hcells' : itemsOf cells' (front ++ node :: back) = itemsOf cells (front ++ node :: back) :=
    itemsOf_congr hinserted.items
  rw [hself.items List.mem_cons_self, hcells', itemsOf_append, itemsOf_cons]

/-- A node of the application is initialized and linked. -/
theorem link (hlists : ListsAt target owner views (view :: rest) (node :: app) state)
    (hholds : Holds target owner node) (hsplit : view.nodes = front ++ back)
    {link : Nat → Code Unit} (hlink : LinksBetween target view.header front back link) :
    Program.Returns (do
      MicroTbx.initListNode target node item
      link node
      pure Status.ok) state fun status after =>
        status = .ok ∧ (∃ cells', Edited target view.header (node :: view.nodes) state after cells') ∧
        ListsAt target owner views (⟨view.header, front ++ node :: back⟩ :: rest) app after ∧
        itemsOf (cellsOf target after.mem) (front ++ node :: back) =
          itemsOf (cellsOf target state.mem) front ++ item ::
            itemsOf (cellsOf target state.mem) back ∧
        SameCells (cellsOf target state.mem) (cellsOf target after.mem) rest := by
  refine (hlists.initListNode hholds).bind ?_
  rintro _ middle ⟨cells, hedited, hready, hitem, hitems⟩
  refine (hlists.linkNode hholds hsplit hedited hready hlink).bind ?_
  rintro _ after ⟨hlinked, hafter, hafterItems, hrest⟩
  refine (returns_pure _).mpr ⟨rfl, hlinked, hafter, ?_, hrest⟩
  rw [ListView.items, hsplit] at hitems
  obtain ⟨hfront, hback⟩ := itemsOf_parts hitems
  rw [hafterItems, hitem, hfront, hback]

/-- An item is inserted between two parts of a list, perhaps after a search. -/
theorem insert (hlists : ListsAt target owner views (view :: rest) app state)
    (hedited : Edited target view.header view.nodes state middle (cellsOf target state.mem))
    (hsplit : view.nodes = front ++ back) {link : Nat → Code Unit}
    (hlink : LinksBetween target view.header front back link) :
    Program.Returns (do
      let newListNodePtr ← newListNode target
      if newListNodePtr ≠ null then do
        MicroTbx.initListNode target newListNodePtr item
        link newListNodePtr
        pure Status.ok
      else pure .error) middle fun status after =>
        Inserts target view rest app state (itemsOf (cellsOf target state.mem) front ++ item ::
          itemsOf (cellsOf target state.mem) back) status after := by
  obtain ⟨hmiddle, hsearched, hsearchedSelf⟩ :=
    hlists.edited hedited (hlists.shape view List.mem_cons_self)
  refine hmiddle.allocateGrowing.bind ?_
  rintro node between ⟨⟨larger, others, hacquires⟩, hsame, hchecked, hquiet⟩
  have hbefore : Behaves target (OwnNode state view.nodes) rest state between :=
    hsearched.trans ⟨hsame.tail, hchecked, .of_quiet hquiet⟩
  have hitems : view.items target between = view.items target state :=
    (hsame.items List.mem_cons_self).trans (hsearchedSelf.items List.mem_cons_self)
  cases hacquires with
  | none empty exhausted hbetween =>
      rw [if_neg (by simp)]
      refine (returns_pure _).mpr (.error ?_ ⟨hbefore, _, _, view.nodes, hbetween, hitems⟩)
      rwa [Exhausted, State.room, ← hedited.allocated]
  | object ne_null holds out hbetween =>
      rw [if_pos ne_null]
      refine (hbetween.link holds hsplit hlink).mono ?_
      rintro status after ⟨rfl, ⟨cells', hlinked⟩, hafter, hafterItems, hrest⟩
      rw [ListView.items, ListView.items, hsplit] at hitems
      obtain ⟨hfront, hback⟩ := itemsOf_parts hitems
      rw [hfront, hback] at hafterItems
      refine .ok ⟨hbefore.trans ⟨hrest, .of_eq hlinked.asserted_eq, hlinked.traced ?_⟩, _, _, _,
        hafter, hafterItems⟩
      -- The new node was not handed out when the call began.
      have hnodup := hbetween.pools.handedOut_nodup
      rw [out, hedited.handedOut_eq] at hnodup
      rw [List.forall_mem_cons, out]
      refine ⟨⟨ne_null, List.mem_cons_self, .inr (List.nodup_cons.mp hnodup).1⟩, ?_⟩
      intro other hother
      obtain ⟨hne, hout, hown⟩ := hlists.own other hother
      rw [hedited.handedOut_eq]
      exact ⟨hne, List.mem_cons_of_mem _ hout, hown⟩

theorem insertItemFront (hlists : ListsAt target owner views (view :: rest) app state)
    (hitem : item ≠ null) :
    (tbxListInsertItemFront target view.header item).Returns state
      (Inserts target view rest app state (item :: view.items target state)) := by
  obtain ⟨hedited, hcells⟩ := hlists.entry
  have hlist := hcells.apart.ne_null view.header List.mem_cons_self
  intro depth
  rw [tbxListInsertItemFront, insertAtEnd, wp_bind]
  refine wp_tbxAssert_of (decide_eq_true hlist) ?_
  rw [wp_bind]
  refine wp_tbxAssert_of (decide_eq_true hitem) ?_
  rw [if_pos ⟨hlist, hitem⟩]
  exact hlists.insert hedited (List.nil_append _).symm linksFront depth

theorem insertItemBack (hlists : ListsAt target owner views (view :: rest) app state)
    (hitem : item ≠ null) :
    (tbxListInsertItemBack target view.header item).Returns state
      (Inserts target view rest app state (view.items target state ++ [item])) := by
  obtain ⟨hedited, hcells⟩ := hlists.entry
  have hlist := hcells.apart.ne_null view.header List.mem_cons_self
  intro depth
  rw [tbxListInsertItemBack, insertAtEnd, wp_bind]
  refine wp_tbxAssert_of (decide_eq_true hlist) ?_
  rw [wp_bind]
  refine wp_tbxAssert_of (decide_eq_true hitem) ?_
  rw [if_pos ⟨hlist, hitem⟩]
  exact hlists.insert hedited (List.append_nil _).symm linksBack depth

/-- An item is inserted at the place that the section picks for a node with the
reference. -/
theorem insertNextTo (hlists : ListsAt target owner views (view :: rest) app state)
    (hitem : item ≠ null) (href : ref ≠ null) (site : Site) {link : Nat → Nat → Nat → Code Unit}
    {items : List Nat}
    (hlink : ∀ {before node behind}, view.nodes = before ++ node :: behind →
      ref ∉ itemsOf (cellsOf target state.mem) before →
      cellsOf target state.mem node ListNode.itemPtr = ref →
      ∃ front back, view.nodes = front ++ back ∧
        LinksBetween target view.header front back (fun new => link view.header new node) ∧
        itemsOf (cellsOf target state.mem) front ++ item ::
          itemsOf (cellsOf target state.mem) back = items) :
    (insertNextTo target site link view.header item ref).Returns state
      (InsertsNextTo target view rest app state ref items) := by
  obtain ⟨hedited, hcells⟩ := hlists.entry
  have hlist := hcells.apart.ne_null view.header List.mem_cons_self
  intro depth
  rw [MicroTbx.insertNextTo, wp_bind]
  refine wp_tbxAssert_of (decide_eq_true hlist) ?_
  rw [wp_bind]
  refine wp_tbxAssert_of (decide_eq_true hitem) ?_
  rw [wp_bind]
  refine wp_tbxAssert_of (decide_eq_true href) ?_
  rw [if_pos ⟨hlist, hitem, href⟩, wp_bind]
  refine (tbxListFindListNode_spec hedited hcells href).wp ?_
  rintro node middle ⟨hsearched, hfound⟩
  have hmem := hfound.ne_null_iff hcells.apart
  rcases hfound with ⟨rfl, hnot⟩ | ⟨before, behind, hsplit, hnot, hitemPtr⟩
  · rw [if_neg (by simp)]
    exact ⟨rfl, .absent hnot (hlists.unchanged hsearched)⟩
  · have hnode : node ∈ view.nodes := hsplit ▸ List.mem_append_cons_self
    have hne := hcells.apart.ne_null node (List.mem_cons_of_mem _ hnode)
    obtain ⟨front, back, hparts, hlinks, rfl⟩ := hlink hsplit hnot hitemPtr
    rw [if_pos hne]
    exact (hlists.insert hsearched hparts hlinks).wp fun status after hinserts =>
      ⟨rfl, .found (hmem.mp hne) hinserts⟩

theorem insertItemBefore (hlists : ListsAt target owner views (view :: rest) app state)
    (hitem : item ≠ null) (href : ref ≠ null) :
    (tbxListInsertItemBefore target view.header item ref).Returns state
      (InsertsNextTo target view rest app state ref
        (Sequence.insertBefore item ref (view.items target state))) := by
  refine hlists.insertNextTo hitem href _ ?_
  rintro before node behind hsplit hnot rfl
  refine ⟨before, node :: behind, hsplit, linksBefore, ?_⟩
  rw [ListView.items, hsplit, itemsOf_append, itemsOf_cons, Sequence.insertBefore_split hnot]

theorem insertItemAfter (hlists : ListsAt target owner views (view :: rest) app state)
    (hitem : item ≠ null) (href : ref ≠ null) :
    (tbxListInsertItemAfter target view.header item ref).Returns state
      (InsertsNextTo target view rest app state ref
        (Sequence.insertAfter item ref (view.items target state))) := by
  refine hlists.insertNextTo hitem href _ ?_
  rintro before node behind hsplit hnot rfl
  refine ⟨before ++ [node], behind, by rw [hsplit, List.append_cons], linksAfter, ?_⟩
  rw [ListView.items, hsplit, itemsOf_append, itemsOf_append, itemsOf_cons, itemsOf_cons,
    Sequence.insertAfter_split hnot]
  simp [itemsOf]

/-! ## Removing -/

/-- The section that takes a node out of a list and gives it to the
application. -/
theorem unlinkNode (hlists : ListsAt target owner views (view :: rest) app state)
    (hsplit : view.nodes = front ++ node :: back)
    (hedited : Edited target view.header view.nodes state middle (cellsOf target state.mem)) :
    (removeListNode target view.header node).Returns middle fun _ after =>
      (∃ cells', Edited target view.header view.nodes state after cells') ∧
        ListsAt target owner views (⟨view.header, front ++ back⟩ :: rest) (node :: app) after ∧
        itemsOf (cellsOf target after.mem) (front ++ back) =
          itemsOf (cellsOf target state.mem) (front ++ back) ∧
        SameCells (cellsOf target state.mem) (cellsOf target after.mem) rest := by
  have hcells := hlists.listCells List.mem_cons_self
  obtain ⟨header, nodes⟩ := view
  subst hsplit
  have hlength : (front ++ node :: back).length < 2 ^ target.sizeBits :=
    lt_of_lt_of_le hcells.length_lt target.heapSize_lt
  refine (removeListNode_spec hedited hcells.member hlength).mono ?_
  rintro _ after ⟨cells', hunlinked, hshape, hitems⟩
  have hperm : (header :: (front ++ node :: back) ++ app).Perm
      (header :: (front ++ back) ++ (node :: app)) := by
    rw [List.cons_append, List.cons_append, List.append_assoc, List.append_assoc]
    exact (List.perm_middle.symm.append_left front).cons _
  have hall : ∀ data ∈ header :: (front ++ node :: back), Holds target owner data :=
    fun data hdata => hlists.holds data (mem_blocksOf List.mem_cons_self hdata)
  obtain ⟨hafter, hrest, hself⟩ := hlists.forget.edit hunlinked
    (fun data hdata => List.mem_append_left _ hdata) hall hshape
    (fun other hother => List.perm_middle.mem_iff.mpr (List.mem_cons_of_mem _ hother)) hperm
  exact ⟨⟨cells', hunlinked⟩, hafter, (hself.items List.mem_cons_self).trans hitems, hrest⟩

theorem removeItem (hlists : ListsAt target owner views (view :: rest) app state)
    (hitem : item ≠ null) :
    (tbxListRemoveItem target view.header item).Returns state fun _ after =>
      Leaves target view rest app state ((view.items target state).erase item) after := by
  obtain ⟨hedited, hcells⟩ := hlists.entry
  have hlist := hcells.apart.ne_null view.header List.mem_cons_self
  intro depth
  rw [tbxListRemoveItem, wp_bind]
  refine wp_tbxAssert_of (decide_eq_true hlist) ?_
  rw [wp_bind]
  refine wp_tbxAssert_of (decide_eq_true hitem) ?_
  rw [if_pos ⟨hlist, hitem⟩, wp_bind]
  refine (tbxListFindListNode_spec hedited hcells hitem).wp ?_
  rintro node middle ⟨hsearched, ⟨rfl, hnot⟩ | ⟨front, back, hsplit, hnot, hitemPtr⟩⟩
  · rw [if_neg (by simp), List.erase_of_not_mem hnot]
    exact ⟨rfl, hlists.unchanged hsearched⟩
  have hnode : node ∈ view.nodes := hsplit ▸ List.mem_append_cons_self
  have hne := hcells.apart.ne_null node (List.mem_cons_of_mem _ hnode)
  rw [if_pos hne, wp_bind]
  refine (hlists.unlinkNode hsplit hsearched).wp ?_
  rintro _ between ⟨⟨cells', hunlinked⟩, hbetween, hitems, hrest⟩
  refine hbetween.release.wp ?_
  rintro _ after ⟨⟨others, hafter⟩, -, hsame, -, hasserted, hquiet⟩
  refine ⟨rfl, ⟨hrest.trans hsame.tail, .of_eq (hasserted.trans hunlinked.asserted_eq),
    (hunlinked.traced hlists.own).trans (.of_quiet hquiet)⟩, _, _, _, hafter, ?_⟩
  rw [hsame.items List.mem_cons_self, hitems, ListView.items, hsplit, itemsOf_append,
    itemsOf_append, itemsOf_cons, hitemPtr, Sequence.erase_split hnot]

end ListsAt

end MicroTbx
